import MethodLift.Proofs.Syntax.Numbering
import MethodLift.Proofs.Syntax.Spelling

/-!
# What reading gathers

`Yields` says of two states which nodes were completed between them, for every text, and what the
tokens are that were taken, for texts without problems.  The first part is about numbers only: the
nodes that will be used and those that were dropped are numbered from one count to the other.  The
second part asks for a state where reading can go on (`ParserState.Ready`) and gives one.

Most steps are described by the segments that they read (`Gathers`): the nodes are those that the
segments hold and the tokens spell them.  Segments are put behind those that were gathered before
(`Gathers.bind`), completing a node makes all of them into one (`Gathers.complete`), and the same
tokens may be seen as other segments with the same nodes (`Gathers.recast`).  Where a problem was
noted, nothing is known of the tokens any more and only the nodes count (`Broken`).
-/

namespace MethodLift.Syntax

open Segment (nodes)

variable {source : List Char} {α β : Type}

/-! ## States and what passes between them -/

/-- A state in the middle of reading a text, with the end of the text before it. -/
structure ParserState.Ready (source : List Char) (s : ParserState) : Prop where
  live : s.Live source
  ended : s.Ended

/-- The tokens that were taken between two states; those that take space tell where the last token
ended. -/
structure Taken (s s' : ParserState) (ts : List Token) : Prop where
  tokens : s.current :: s.later = ts ++ (s'.current :: s'.later)
  lastEnd : s'.lastEnd = (lastStop? ts).getD s.lastEnd

namespace Taken

variable {s s' s'' : ParserState} {ts ts' : List Token}

/-- Nothing was taken. -/
lemma nothing (current : s'.current = s.current) (later : s'.later = s.later)
    (lastEnd : s'.lastEnd = s.lastEnd) : Taken s s' [] :=
  ⟨by rw [current, later]; rfl, lastEnd⟩

lemma trans (h : Taken s s' ts) (h' : Taken s' s'' ts') : Taken s s'' (ts ++ ts') := by
  refine ⟨by rw [h.tokens, h'.tokens, List.append_assoc], ?_⟩
  rw [h'.lastEnd, h.lastEnd, lastStop?_append]
  cases lastStop? ts' <;> rfl

/-- The first token taken is the one that was looked at. -/
lemma head (h : Taken s s' ts) {t : Token} (first : t ∈ ts.head?) : t = s.current := by
  cases ts with
  | nil => nomatch first
  | cons t' ts =>
    obtain rfl : t' = t := Option.some.inj first
    exact (List.cons.inj h.tokens).1.symm

lemma head_of_ne_nil (h : Taken s s' ts) (some : ts ≠ []) : s.current ∈ ts.head? := by
  cases ts with
  | nil => exact absurd rfl some
  | cons t ts => exact congrArg Option.some (List.cons.inj h.tokens).1.symm

/-- Fewer tokens are left if one was taken. -/
lemma length_lt (h : Taken s s' ts) (some : ts ≠ []) : s'.later.length < s.later.length := by
  have lengths := congrArg List.length h.tokens
  have := List.length_pos_iff.2 some
  simp only [List.length_cons, List.length_append] at lengths
  omega

end Taken

/-- Between two states some nodes were completed that will be used, and, while there is no problem,
the tokens that were taken have a property. -/
structure Yields (source : List Char) (s₀ s : ParserState) (ns : List Node)
    (P : List Token → Prop) : Prop where
  clean : s.problems = [] → s₀.problems = []
  exprs : s₀.exprCount ≤ s.exprCount
  stmts : s₀.stmtCount ≤ s.stmtCount
  numbered : ∃ dropped, s.unused = dropped ++ s₀.unused ∧ Numbered s₀.here s.here ns dropped
  spelled : s.problems = [] → s₀.Ready source → s.Ready source ∧ ∃ ts, Taken s₀ s ts ∧ P ts

namespace Yields

variable {s₀ s s' : ParserState} {ns ms : List Node} {P Q R : List Token → Prop}

lemma nothing (here : P []) : Yields source s s [] P :=
  ⟨id, Nat.le_refl _, Nat.le_refl _, ⟨[], rfl, .nil⟩,
    fun _ ready => ⟨ready, [], .nothing rfl rfl rfl, here⟩⟩

/-- One step after the other. -/
theorem trans (h : Yields source s₀ s ns P) (h' : Yields source s s' ms Q)
    (join : ∀ ts ts', P ts → Q ts' → R (ts ++ ts')) :
    Yields source s₀ s' (ns ++ ms) R := by
  obtain ⟨dropped, unused, numbered⟩ := h.numbered
  obtain ⟨dropped', unused', numbered'⟩ := h'.numbered
  refine ⟨fun clean => h.clean (h'.clean clean), h.exprs.trans h'.exprs, h.stmts.trans h'.stmts,
    ⟨dropped' ++ dropped, ?_, ?_⟩, ?_⟩
  · rw [unused', unused, List.append_assoc]
  · exact numbered.append numbered' ⟨h.exprs, h.stmts⟩ ⟨h'.exprs, h'.stmts⟩
  · intro clean ready
    obtain ⟨ready, ts, taken, first⟩ := h.spelled (h'.clean clean) ready
    obtain ⟨ready, ts', taken', second⟩ := h'.spelled clean ready
    exact ⟨ready, ts ++ ts', taken.trans taken', join ts ts' first second⟩

/-- What is known of the tokens may be said in other words. -/
lemma mono (h : Yields source s₀ s ns P)
    (weaker : s.problems = [] → s₀.Ready source → ∀ ts, Taken s₀ s ts → P ts → Q ts) :
    Yields source s₀ s ns Q := by
  refine ⟨h.clean, h.exprs, h.stmts, h.numbered, fun clean ready => ?_⟩
  obtain ⟨ready', ts, taken, known⟩ := h.spelled clean ready
  exact ⟨ready', ts, taken, weaker clean ready ts taken known⟩

/-- The same numbers on other nodes. -/
lemma perm (h : Yields source s₀ s ns P)
    (same : (ms.flatMap Node.numbers).Perm (ns.flatMap Node.numbers))
    (descending : (∀ n ∈ ns, n.Descending) → ∀ n ∈ ms, n.Descending) :
    Yields source s₀ s ms P := by
  obtain ⟨dropped, unused, numbered⟩ := h.numbered
  refine ⟨h.clean, h.exprs, h.stmts, ⟨dropped, unused, ?_⟩, h.spelled⟩
  exact numbered.perm (same.append_right _) (descending numbered.descending)

end Yields

/-- Between two states segments were read. -/
abbrev Gathers (source : List Char) (s₀ s : ParserState) (xs : List Segment) : Prop :=
  Yields source s₀ s (nodes xs) (Spelled source xs)

/-- Between two states the nodes of some segments were completed, and a problem was noted. -/
abbrev Broken (source : List Char) (s₀ s : ParserState) (xs : List Segment) : Prop :=
  Yields source s₀ s (nodes xs) fun _ => False

/-- From everywhere, a step reads the segments that its result consists of. -/
def Spells (source : List Char) (p : Parser α) (f : α → List Segment) : Prop :=
  ∀ s : ParserState, Ends p s fun a s' => Gathers source s s' (f a)

/-- From everywhere, a step passes over some tokens. -/
def Skips (source : List Char) (p : Parser α) : Prop :=
  ∀ s : ParserState, Ends p s fun _ s' => Yields source s s' [] fun _ => True

/-! ## Rules for sequences of steps -/

namespace Gathers

variable {s₀ s s' : ParserState} {xs ys : List Segment} {p q : Parser α} {f : α → List Segment}
  {g : α → Parser β} {post : β → ParserState → Prop}

lemma start (source : List Char) (s : ParserState) : Gathers source s s [] := .nothing .nil

lemma congr (h : Gathers source s₀ s xs) (same : xs = ys) : Gathers source s₀ s ys := same ▸ h

/-- Segments behind those that were read before. -/
theorem append (h : Gathers source s₀ s xs) (h' : Gathers source s s' ys) :
    Gathers source s₀ s' (xs ++ ys) := by
  unfold Gathers
  rw [Segment.nodes_append]
  exact h.trans h' fun _ _ => Spelled.append

/-- The tokens spell other segments with the same nodes. -/
lemma recast (h : Gathers source s₀ s xs) (same : nodes ys = nodes xs)
    (spelled : ∀ ts, Spelled source xs ts → Spelled source ys ts) : Gathers source s₀ s ys := by
  unfold Gathers
  rw [same]
  exact h.mono fun _ _ ts _ => spelled ts

/-- A step that reads segments, and what follows it. -/
theorem bind (h : Gathers source s₀ s xs) (first : Spells source p f)
    (rest : ∀ a s', Gathers source s₀ s' (xs ++ f a) → Ends (g a) s' post) :
    Ends (p >>= g) s post := rest _ _ (h.append (first s))

/-- A result that consists of the segments that were read. -/
lemma give {a : α} (h : Gathers source s₀ s xs) (same : xs = f a) :
    Ends (Pure.pure a) s fun a s' => Gathers source s₀ s' (f a) := h.congr same

/-- A last step, after which everything that was read is seen in another way. -/
lemma last {f' : α → List Segment} (h : Gathers source s₀ s xs) (hp : Spells source p f)
    (seen : ∀ a s', Gathers source s₀ s' (xs ++ f a) → Gathers source s₀ s' (f' a)) :
    Ends p s fun a s' => Gathers source s₀ s' (f' a) := seen _ _ (h.append (hp s))

/-- One of two steps, and then the same step after either. -/
lemma choice {c : Prop} [Decidable c] (h : Gathers source s₀ s xs) (hp : Spells source p f)
    (hq : Spells source q f) (rest : ∀ a s', Gathers source s₀ s' (xs ++ f a) → Ends (g a) s' post) :
    Ends (if c then p >>= g else q >>= g) s post := by
  split
  · exact h.bind hp rest
  · exact h.bind hq rest

end Gathers

namespace Broken

variable {s₀ s s' : ParserState} {xs ys : List Segment} {p : Parser α} {f : α → List Segment}
  {g : α → Parser β} {post : β → ParserState → Prop}

/-- Where there is a problem, only the nodes count. -/
lemma gathers (h : Broken source s₀ s xs) (same : nodes ys = nodes xs) :
    Gathers source s₀ s ys := by
  unfold Gathers
  rw [same]
  exact h.mono fun _ _ _ _ => False.elim

/-- Tokens are passed over. -/
lemma skip (h : Broken source s₀ s xs) (skips : Skips source p)
    (rest : ∀ a s', Broken source s₀ s' xs → Ends (g a) s' post) : Ends (p >>= g) s post := by
  refine rest _ _ ?_
  have all := h.trans (R := fun _ => False) (skips s) fun _ _ none _ => none
  rwa [List.append_nil] at all

end Broken

lemma Spells.congr {p : Parser α} {f f' : α → List Segment} (h : Spells source p f)
    (same : ∀ a, f a = f' a) : Spells source p f' := fun s => (h s).congr (same _)

lemma Spells.map {p : Parser α} {f : β → List Segment} {h : α → β}
    (spells : Spells source p fun a => f (h a)) : Spells source (h <$> p) f := spells

lemma Spells.pure {a : α} {f : α → List Segment} (nothing : f a = []) :
    Spells source (Pure.pure a) f := fun s => (Gathers.start source s).congr nothing.symm

/-! ## Taking tokens -/

lemma TokenKind.ne_endOfFile {k : TokenKind} (takes : k.takesSpace = true) : k ≠ .endOfFile := by
  rintro rfl
  nomatch takes

namespace Parser

variable {s : ParserState}

lemma advance_counts (s : ParserState) : (advance s).problems = s.problems
    ∧ (advance s).exprCount = s.exprCount ∧ (advance s).stmtCount = s.stmtCount
    ∧ (advance s).unused = s.unused := by
  unfold advance
  split <;> exact ⟨rfl, rfl, rfl, rfl⟩

/-- Unless it is the end of the text, the current token is what is taken. -/
lemma advance_taken (ready : s.Ready source) (more : s.current.kind ≠ .endOfFile) :
    (advance s).Ready source ∧ Taken s (advance s) [s.current] := by
  have tokens : s.current :: s.later
      = [s.current] ++ ((advance s).current :: (advance s).later) := by
    rw [← later_eq_advance ready.ended more]
    rfl
  refine ⟨⟨advance_live ready.live, ready.ended.rest tokens⟩, tokens, ?_⟩
  have other : (s.current.kind == .endOfFile) = false := by simpa using more
  rw [advance, other, if_neg Bool.false_ne_true]
  cases layout : s.current.kind.isLayout with
  | true => simp [lastStop?, TokenKind.takesSpace, layout]
  | false =>
    have takes : s.current.kind.takesSpace = true := by
      rw [TokenKind.takesSpace, layout, Bool.not_false, Bool.true_and, bne_iff_ne]
      exact more
    rw [lastStop?_singleton takes]
    rfl

/-- The counts stay as they are when a token is taken. -/
lemma advance_yields {P : List Token → Prop}
    (taken : s.Ready source → (advance s).Ready source ∧ ∃ ts, Taken s (advance s) ts ∧ P ts) :
    Yields source s (advance s) [] P := by
  obtain ⟨problems, exprs, stmts, unused⟩ := advance_counts s
  exact ⟨fun clean => problems ▸ clean, exprs.ge, stmts.ge, ⟨[], unused, .nil⟩, fun _ => taken⟩

/-- A token is taken. -/
lemma advance_takes (source : List Char) (more : s.current.kind ≠ .endOfFile) :
    Yields source s (advance s) [] fun ts => ts = [s.current] := by
  refine advance_yields fun ready => ?_
  obtain ⟨ready, taken⟩ := advance_taken ready more
  exact ⟨ready, _, taken, rfl⟩

lemma bump_skips : Skips source bump := by
  intro s
  refine advance_yields fun ready => ?_
  by_cases more : s.current.kind = .endOfFile
  · have same : advance s = s := by
      rw [advance, more]
      rfl
    rw [same]
    exact ⟨ready, [], .nothing rfl rfl rfl, trivial⟩
  · obtain ⟨ready, taken⟩ := advance_taken ready more
    exact ⟨ready, _, taken, trivial⟩

end Parser

namespace Gathers

variable {s₀ s : ParserState} {xs : List Segment} {g : α → Parser β}
  {post : β → ParserState → Prop}

/-- A token that is a segment of its own is taken. -/
theorem take {x : Segment} (h : Gathers source s₀ s xs) (leaf : x.Leaf [s.current])
    (noNode : x.node? = none) (more : s.current.kind ≠ .endOfFile) :
    Gathers source s₀ (Parser.advance s) (xs ++ [x]) := by
  have next : Gathers source s (Parser.advance s) [x] := by
    unfold Gathers
    rw [nodes, List.filterMap_cons_none noNode]
    refine (Parser.advance_takes source more).mono ?_
    rintro - - _ - rfl
    exact .single leaf
  exact h.append next

/-- A token of a known kind is taken. -/
lemma bump {g : Token → Parser β} {k : TokenKind} (h : Gathers source s₀ s xs)
    (there : s.current.kind = k) (more : k ≠ .endOfFile)
    (rest : Gathers source s₀ (Parser.advance s) (xs ++ [.token k]) →
      Ends (g s.current) (Parser.advance s) post) : Ends (Parser.bump >>= g) s post :=
  rest (h.take ⟨_, rfl, there⟩ rfl (there ▸ more))

/-- A token that may be there: if it is, it is taken, and else nothing is. -/
lemma eat {k : TokenKind} {g : Bool → Parser β} (h : Gathers source s₀ s xs)
    (more : k ≠ .endOfFile)
    (yes : ∀ s', Gathers source s₀ s' (xs ++ [.token k]) → Ends (g true) s' post)
    (no : s.current.kind ≠ k → Ends (g false) s post) :
    Ends (Parser.eat k >>= g) s post :=
  Parser.eat_cases k s (fun there => yes _ (h.take ⟨_, rfl, there⟩ rfl (there ▸ more))) no

end Gathers

namespace Parser

variable {s : ParserState}

lemma name?_spells : Spells source name? fun o => o.toList.map .name := by
  have taken : Spells source (eat? .name) fun o =>
      o.toList.map fun t => .name ⟨t.text, t.span⟩ := by
    intro s
    refine .look rfl ?_
    split
    next there =>
      have name : s.current.kind = .name := eq_of_beq there
      exact (Gathers.start source s).take (x := .name _) ⟨_, rfl, name, rfl⟩ rfl (by rw [name]; nofun)
    · exact .start source s
  exact Spells.map (taken.congr fun o => by cases o <;> rfl)

/-! ## Noting problems -/

lemma noted (s : ParserState) (problem : Problem) (P : List Token → Prop) :
    Yields source s { s with problems := problem :: s.problems } [] P :=
  ⟨nofun, Nat.le_refl _, Nat.le_refl _, ⟨[], rfl, .nil⟩, nofun⟩

end Parser

namespace Gathers

variable {s₀ s : ParserState} {xs : List Segment} {post : β → ParserState → Prop}

/-- After a problem was noted, only the nodes count. -/
lemma noteAt {g : Unit → Parser β} {cause : Problem.Cause} {span : Span}
    (h : Gathers source s₀ s xs) (rest : ∀ s', Broken source s₀ s' xs → Ends (g ()) s' post) :
    Ends (Parser.noteAt cause span >>= g) s post := by
  refine rest { s with problems := ⟨cause, span⟩ :: s.problems } ?_
  have all := h.trans (R := fun _ => False) (Parser.noted s ⟨cause, span⟩ fun _ => False)
    fun _ _ _ => id
  rwa [List.append_nil] at all

lemma note {g : Unit → Parser β} {cause : Problem.Cause} (h : Gathers source s₀ s xs)
    (rest : ∀ s', Broken source s₀ s' xs → Ends (g ()) s' post) :
    Ends (Parser.note cause >>= g) s post := h.noteAt rest

end Gathers

namespace Parser

/-- A symbol that has to be there: in a text without problems it is. -/
lemma expectSymbol_spells (symbol : Symbol) :
    Spells source (expectSymbol symbol) fun _ => [.sign symbol] := by
  intro s
  refine (Gathers.start source s).eat (k := .symbol symbol) nofun (fun s' done => done) fun _ => ?_
  exact (Gathers.start source s).note fun s' broken => broken.gathers rfl

lemma expectKeyword_spells (word : Keyword) :
    Spells source (expectKeyword word) fun _ => [.word word] := by
  intro s
  refine (Gathers.start source s).eat (k := .keyword word) nofun (fun s' done => done) fun _ => ?_
  exact (Gathers.start source s).note fun s' broken => broken.gathers rfl

lemma nameOrMissing_spells : Spells source nameOrMissing fun ident => [.name ident] := by
  intro s
  refine (Gathers.start source s).bind name?_spells ?_
  intro name s₁ done
  split
  · exact done
  · exact done.note fun s₂ broken => broken.gathers rfl

lemma skipLineAtMost_skips (n : ℕ) : Skips source (skipLineAtMost n) := by
  induction n with
  | zero => exact fun s => .nothing trivial
  | succ n ih =>
    intro s
    refine .look rfl (.look rfl ?_)
    split
    · exact .nothing trivial
    · exact (bump_skips s).trans (ih _) fun _ _ _ _ => trivial

lemma skipLine_skips : Skips source skipLine := fun s => .look rfl (skipLineAtMost_skips _ s)

lemma eat_skips (k : TokenKind) : Skips source (eat k) := by
  intro s
  unfold Ends
  rw [eat_run]
  split
  · exact bump_skips s
  · exact .nothing trivial

end Parser

/-! ## Completing nodes -/

/-- No token that is left ends before the current one starts. -/
lemma ParserState.Live.position_le {s : ParserState} (h : s.Live source) {t : Token}
    (ht : t ∈ s.current :: s.later) : s.position ≤ t.span.stop := by
  have apart := List.pairwise_cons.1 h.tokens.apart
  rcases List.mem_cons.1 ht with rfl | later
  · exact h.forward
  · have forward := (h.tokens.each t ht).span.forward
    exact (h.forward.trans (apart.1 t later)).trans forward

/-- A state is ready whatever was counted and noted. -/
lemma ParserState.Ready.same {s s' : ParserState} (h : s.Ready source)
    (text : s'.source = s.source) (current : s'.current = s.current)
    (later : s'.later = s.later) : s'.Ready source := by
  have tokens : s'.current :: s'.later = s.current :: s.later := by rw [current, later]
  have ended : s'.Ended := by
    obtain ⟨ts, e, whole, rest⟩ := h.ended
    exact ⟨ts, e, tokens.trans whole, rest⟩
  exact ⟨⟨text.trans h.live.text, tokens ▸ h.live.tokens, tokens ▸ h.live.solid, ended⟩, ended⟩

namespace Yields

variable {s₀ s : ParserState} {ns : List Node} {P : List Token → Prop}

/-- An expression is complete that holds the nodes that were completed so far. -/
theorem complete {span : Span} {build : Mark → Expr} {Q : Expr → List Token → Prop}
    (h : Yields source s₀ s ns P) (inner : Position)
    (shape : ∀ m, (build m).mark = m ∧ nodes ((build m).segments inner) = ns)
    (spelled : s.problems = [] → s₀.Ready source → ∀ ts, Taken s₀ s ts → P ts →
      ∀ m : Mark, m.span = span → Q (build m) ts) :
    Ends (Parser.complete span build) s fun e s' => Yields source s₀ s' [.read e] (Q e) := by
  set m : Mark := ⟨s.exprCount, span⟩ with m_eq
  obtain ⟨mark, holds⟩ := shape m
  obtain ⟨dropped, unused, numbered⟩ := h.numbered
  have serial : (build m).serial = s.exprCount := congrArg Mark.serial mark
  have children : ns = Node.reads (build m).children := by rw [← holds, Expr.nodes_segments]
  have below : ∀ c ∈ (build m).children, c.serial < s.exprCount := by
    intro c hc
    have mem : .expr c.serial ∈ ns.flatMap Node.numbers := by
      rw [children, Node.flatMap_numbers_reads]
      refine List.mem_flatMap.2 ⟨c, hc, ?_⟩
      rw [Expr.numbers_eq]
      exact List.mem_cons_self
    exact (numbered.between _ (List.mem_append_left _ mem)).2
  have descending : (build m).Descending := by
    refine .node (fun c hc => serial ▸ below c hc) fun c hc => ?_
    exact numbered.descending (.read c) (children ▸ List.mem_map_of_mem hc)
  refine ⟨h.clean, h.exprs.trans (Nat.le_succ _), h.stmts, ⟨dropped, unused, ?_⟩, ?_⟩
  · refine numbered.node (c := ParserState.here { s with exprCount := s.exprCount + 1 })
      ⟨h.exprs, h.stmts⟩ ⟨Nat.le_succ _, Nat.le_refl _⟩ ?_ ?_ descending
    · show Point.Between _ _ (.expr (build m).serial)
      rw [serial]
      exact ⟨Nat.le_refl _, Nat.lt_succ_self _⟩
    · show (build m).numbers.Perm _
      rw [(build m).numbers_segments inner, holds]
      rfl
  · intro clean ready
    obtain ⟨ready', ts, taken, known⟩ := h.spelled clean ready
    exact ⟨ready'.same rfl rfl rfl, ts, ⟨taken.tokens, taken.lastEnd⟩,
      spelled clean ready ts taken known m rfl⟩

/-- A statement is complete that holds the nodes that were completed so far. -/
theorem completeStmt {span : Span} {build : Mark → Stmt} {Q : Stmt → List Token → Prop}
    (h : Yields source s₀ s ns P)
    (shape : ∀ m, (build m).mark = m ∧ nodes (build m).segments = ns)
    (spelled : s.problems = [] → s₀.Ready source → ∀ ts, Taken s₀ s ts → P ts →
      ∀ m : Mark, m.span = span → Q (build m) ts) :
    Ends (Parser.completeStmt span build) s fun d s' => Yields source s₀ s' [.stmt d] (Q d) := by
  set m : Mark := ⟨s.stmtCount, span⟩ with m_eq
  obtain ⟨mark, holds⟩ := shape m
  obtain ⟨dropped, unused, numbered⟩ := h.numbered
  have serial : (build m).serial = s.stmtCount := congrArg Mark.serial mark
  obtain ⟨exprs, children⟩ := (build m).nodes_segments
  rw [holds] at exprs children
  have stmt_mem : ∀ c ∈ (build m).children, .stmt c ∈ ns := by
    intro c hc
    rw [← children] at hc
    obtain ⟨n, hn, is⟩ := List.mem_filterMap.1 hc
    cases n with
    | read | target => nomatch is
    | stmt d =>
      obtain rfl := Option.some.inj is
      exact hn
  have below : ∀ c ∈ (build m).children, c.serial < s.stmtCount := by
    intro c hc
    have mem : .stmt c.serial ∈ ns.flatMap Node.numbers := by
      refine List.mem_flatMap.2 ⟨.stmt c, stmt_mem c hc, ?_⟩
      show _ ∈ c.numbers
      rw [Stmt.numbers_eq]
      exact List.mem_cons_self
    exact (numbered.between _ (List.mem_append_left _ mem)).2
  have descending : (build m).Descending := by
    refine .node ⟨fun c hc => serial ▸ below c hc, fun e he => ?_⟩ fun c hc => ?_
    · rw [← exprs] at he
      obtain ⟨n, hn, is⟩ := List.mem_filterMap.1 he
      exact (Node.descending_of_expr? is).1 (numbered.descending n hn)
    · exact numbered.descending (.stmt c) (stmt_mem c hc)
  refine ⟨h.clean, h.exprs, h.stmts.trans (Nat.le_succ _), ⟨dropped, unused, ?_⟩, ?_⟩
  · refine numbered.node (c := ParserState.here { s with stmtCount := s.stmtCount + 1 })
      ⟨h.exprs, h.stmts⟩ ⟨Nat.le_refl _, Nat.le_succ _⟩ ?_ ?_ descending
    · show Point.Between _ _ (.stmt (build m).serial)
      rw [serial]
      exact ⟨Nat.le_refl _, Nat.lt_succ_self _⟩
    · have numbers := (build m).numbers_segments
      rw [holds] at numbers
      exact numbers
  · intro clean ready
    obtain ⟨ready', ts, taken, known⟩ := h.spelled clean ready
    exact ⟨ready'.same rfl rfl rfl, ts, ⟨taken.tokens, taken.lastEnd⟩,
      spelled clean ready ts taken known m rfl⟩

end Yields

/-- Whether a segment is spelled by a token that takes space. -/
def Segment.isSolid : Segment → Bool
  | token k => k.takesSpace
  | id _ | name _ | strings _ | part _ _ | stmt _ => true
  | _ => false

/-- Tokens take space if one of the segments that they spell does. -/
lemma Spelled.exists_lastStop? {xs : List Segment} {ts : List Token} (h : Spelled source xs ts)
    (solid : xs.any Segment.isSolid = true) : ∃ stop, lastStop? ts = some stop := by
  have left {ts ts' : List Token} {stop : ℕ} (h : lastStop? ts = some stop) :
      ∃ stop, lastStop? (ts ++ ts') = some stop := by
    rw [lastStop?_append, h]
    cases lastStop? ts' <;> exact ⟨_, rfl⟩
  have right {ts ts' : List Token} (h : ∃ stop, lastStop? ts' = some stop) :
      ∃ stop, lastStop? (ts ++ ts') = some stop := by
    obtain ⟨stop, h⟩ := h
    exact ⟨stop, by rw [lastStop?_append, h]; rfl⟩
  induction h with
  | nil => nomatch solid
  | @leaf x xs ts ts' here _ ih =>
    rw [List.any_cons, Bool.or_eq_true] at solid
    rcases solid with solid | solid
    · have one {t : Token} (takes : t.kind.takesSpace = true) :
          ∃ stop, lastStop? ([t] ++ ts') = some stop := left (lastStop?_singleton takes)
      cases x with
      | token k =>
        obtain ⟨t, rfl, is⟩ := here
        exact one (is ▸ solid)
      | id | name =>
        obtain ⟨t, rfl, is, -⟩ := here
        exact one (by rw [is]; rfl)
      | strings kind =>
        obtain ⟨some, are, -⟩ := here
        obtain ⟨t, ts, rfl⟩ := List.exists_cons_of_ne_nil some
        have takes : t.kind.takesSpace = true := by
          rcases are t List.mem_cons_self with is | is <;> (rw [is]; rfl)
        obtain ⟨front, last, whole⟩ : ∃ front last, t :: ts = front ++ [last] :=
          ⟨_, _, (List.dropLast_append_getLast (List.cons_ne_nil _ _)).symm⟩
        have takes : last.kind.takesSpace = true := by
          rcases are last (whole ▸ by simp) with is | is <;> (rw [is]; rfl)
        rw [whole, List.append_assoc]
        exact right (left (lastStop?_singleton takes))
      | part | stmt => nomatch here
      | optional | path | dots | gap | field => nomatch solid
    · exact right (ih solid)
  | bare _ covers _ _ _ _ => exact left covers.stop
  | @paren _ _ _ _ opening closing ts ts' _ closes =>
    have last : lastStop? [closing] = some closing.span.stop :=
      lastStop?_singleton (by rw [closes]; rfl)
    have rest : ∃ stop, lastStop? ([closing] ++ ts') = some stop := left last
    exact right rest
  | field _ _ _ _ _ ih => exact ih (by simpa [Segment.isSolid] using solid)
  | stmt covers _ _ _ _ => exact left covers.stop

/-- There are tokens if one of the segments that they spell takes space. -/
lemma Spelled.ne_nil {xs : List Segment} {ts : List Token} (h : Spelled source xs ts)
    (solid : xs.any Segment.isSolid = true) : ts ≠ [] := by
  obtain ⟨stop, last⟩ := h.exists_lastStop? solid
  obtain ⟨t, ht, -⟩ := exists_of_lastStop? last
  exact List.ne_nil_of_mem ht

namespace Gathers

variable {s₀ s : ParserState} {xs : List Segment}

/-- Where a node starts that is made of all that was read: where reading started, or where the first
expression starts. -/
def StartsAt (s₀ : ParserState) (xs : List Segment) (start : ℕ) : Prop :=
  start = s₀.position ∨ ∃ p e rest, xs = .part p e :: rest ∧ start = e.span.start

/-- A span from the start of what was read to the last token taken covers the tokens. -/
lemma covers {ts : List Token} {span : Span} (ready : s₀.Ready source) (taken : Taken s₀ s ts)
    (spelled : Spelled source xs ts) (starts : StartsAt s₀ xs span.start)
    (stop : span.stop = max s.lastEnd span.start) (solid : xs.any Segment.isSolid = true) :
    Covers span ts := by
  obtain ⟨last, known⟩ := spelled.exists_lastStop? solid
  have lastEnd : s.lastEnd = last := by
    rw [taken.lastEnd, known]
    rfl
  obtain ⟨t, ht, -, ends⟩ := exists_of_lastStop? known
  have head := taken.head_of_ne_nil (List.ne_nil_of_mem ht)
  have begins : s₀.position = span.start := by
    rcases starts with here | ⟨p, e, rest, rfl, here⟩
    · exact here.symm
    · obtain ⟨front, back, rfl, first, -⟩ := spelled.uncons
      obtain ⟨t, isHead, start⟩ := first.covers_part.start
      have isHead' : t ∈ (front ++ back).head? := by
        rw [List.head?_append, Option.mem_def.1 isHead]
        rfl
      rw [here, ← start, taken.head isHead']
  have order : s₀.position ≤ last := by
    rw [← ends]
    exact ready.live.position_le (taken.tokens ▸ List.mem_append_left _ ht)
  refine ⟨⟨_, head, begins⟩, ?_⟩
  rw [known, stop, lastEnd, ← begins, Nat.max_eq_left order]

/-- An expression is complete that consists of all that was read. -/
theorem complete {span : Span} (p : Position) (h : Gathers source s₀ s xs) (build : Mark → Expr)
    (starts : StartsAt s₀ xs span.start) (stop : span.stop = max s.lastEnd span.start)
    (solid : xs.any Segment.isSolid = true)
    (shape : ∀ m, (build m).mark = m ∧ (build m).segments p.inner = xs)
    (admits : ∀ m, p.admits (build m).shape = true) :
    Ends (Parser.complete span build) s fun e s' => Gathers source s₀ s' [.part p e] := by
  refine Yields.complete (Q := fun e => Spelled source [.part p e]) h p.inner
    (fun m => ⟨(shape m).1, by rw [(shape m).2]⟩) ?_
  intro clean ready ts taken spelled m span_eq
  obtain ⟨mark, written⟩ := shape m
  have at_ : (build m).span = span := by rw [Expr.span, mark, span_eq]
  have covers := covers ready taken spelled starts stop solid
  rw [← List.append_nil ts]
  exact .bare (admits m) (at_ ▸ covers) (written ▸ spelled) .nil

lemma completeFrom {start : ℕ} (p : Position) (h : Gathers source s₀ s xs) (build : Mark → Expr)
    (starts : StartsAt s₀ xs start) (solid : xs.any Segment.isSolid = true)
    (shape : ∀ m, (build m).mark = m ∧ (build m).segments p.inner = xs)
    (admits : ∀ m, p.admits (build m).shape = true) :
    Ends (Parser.completeFrom start build) s fun e s' => Gathers source s₀ s' [.part p e] :=
  .look rfl (h.complete p build starts rfl solid shape admits)

/-- A statement is complete that consists of all that was read. -/
theorem completeStmt {span : Span} (h : Gathers source s₀ s xs) (build : Mark → Stmt)
    (starts : StartsAt s₀ xs span.start) (stop : span.stop = max s.lastEnd span.start)
    (solid : xs.any Segment.isSolid = true)
    (shape : ∀ m, (build m).mark = m ∧ (build m).segments = xs) :
    Ends (Parser.completeStmt span build) s fun d s' => Gathers source s₀ s' [.stmt d] := by
  refine Yields.completeStmt (Q := fun d => Spelled source [.stmt d]) h
    (fun m => ⟨(shape m).1, by rw [(shape m).2]⟩) ?_
  intro clean ready ts taken spelled m span_eq
  obtain ⟨mark, written⟩ := shape m
  have at_ : (build m).span = span := by rw [Stmt.span, mark, span_eq]
  have covers := covers ready taken spelled starts stop solid
  rw [← List.append_nil ts]
  exact .stmt (at_ ▸ covers) (written ▸ spelled) .nil

lemma completeStmtFrom {start : ℕ} (h : Gathers source s₀ s xs) (build : Mark → Stmt)
    (starts : StartsAt s₀ xs start) (solid : xs.any Segment.isSolid = true)
    (shape : ∀ m, (build m).mark = m ∧ (build m).segments = xs) :
    Ends (Parser.completeStmtFrom start build) s fun d s' => Gathers source s₀ s' [.stmt d] :=
  .look rfl (h.completeStmt build starts rfl solid shape)

/-- An expression is complete that is one token. -/
lemma completeToken {s : ParserState} {x : Segment} (p : Position) (leaf : x.Leaf [s.current])
    (noNode : x.node? = none) (takes : s.current.kind.takesSpace = true) (build : Mark → Expr)
    (shape : ∀ m, (build m).mark = m ∧ (build m).segments p.inner = [x])
    (admits : ∀ m, p.admits (build m).shape = true) :
    Ends (Parser.complete s.current.span build) (Parser.advance s)
      fun e s' => Gathers source s s' [.part p e] := by
  have taken := Parser.advance_takes source (TokenKind.ne_endOfFile takes)
  refine taken.complete (Q := fun e => Spelled source [.part p e]) p.inner (fun m => ?_) ?_
  · obtain ⟨mark, written⟩ := shape m
    exact ⟨mark, by rw [written, nodes, List.filterMap_cons_none noNode]; rfl⟩
  · rintro - - _ - rfl m span
    obtain ⟨mark, written⟩ := shape m
    have covers : Covers (build m).span [s.current] := by
      rw [Expr.span, mark, span]
      exact ⟨⟨_, rfl, rfl⟩, lastStop?_singleton takes⟩
    exact .bare (admits m) covers (written ▸ .single leaf) .nil

/-- A statement is complete that is one token. -/
lemma completeStmtToken {s : ParserState} {x : Segment} (leaf : x.Leaf [s.current])
    (noNode : x.node? = none) (takes : s.current.kind.takesSpace = true) (build : Mark → Stmt)
    (shape : ∀ m, (build m).mark = m ∧ (build m).segments = [x]) :
    Ends (Parser.completeStmt s.current.span build) (Parser.advance s)
      fun d s' => Gathers source s s' [.stmt d] := by
  have taken := Parser.advance_takes source (TokenKind.ne_endOfFile takes)
  refine taken.completeStmt (Q := fun d => Spelled source [.stmt d]) (fun m => ?_) ?_
  · obtain ⟨mark, written⟩ := shape m
    exact ⟨mark, by rw [written, nodes, List.filterMap_cons_none noNode]; rfl⟩
  · rintro - - _ - rfl m span
    obtain ⟨mark, written⟩ := shape m
    have covers : Covers (build m).span [s.current] := by
      rw [Stmt.span, mark, span]
      exact ⟨⟨_, rfl, rfl⟩, lastStop?_singleton takes⟩
    exact .stmt covers (written ▸ .single leaf) .nil

end Gathers

namespace Broken

variable {s₀ s : ParserState} {xs ys : List Segment}

/-- Where there is a problem, an expression is complete that holds the nodes so far. -/
lemma complete {span : Span} {build : Mark → Expr} (p : Position) (h : Broken source s₀ s xs)
    (shape : ∀ m, (build m).mark = m ∧ nodes ((build m).segments p.inner) = nodes xs) :
    Ends (Parser.complete span build) s fun e s' => Gathers source s₀ s' [.part p e] :=
  Yields.complete (Q := fun e => Spelled source [.part p e]) h p.inner shape
    fun _ _ _ _ none _ _ => none.elim

lemma completeStmt {span : Span} {build : Mark → Stmt} (h : Broken source s₀ s xs)
    (shape : ∀ m, (build m).mark = m ∧ nodes (build m).segments = nodes xs) :
    Ends (Parser.completeStmt span build) s fun d s' => Gathers source s₀ s' [.stmt d] :=
  Yields.completeStmt (Q := fun d => Spelled source [.stmt d]) h shape
    fun _ _ _ _ none _ _ => none.elim

end Broken

/-! ## Targets and what is not used -/

/-- Targets have the numbers of the expressions that they were. -/
lemma Segment.numbers_retargeted {ctx : Context} {xs ys : List Segment}
    (changed : List.Forall₂ (Segment.Retargeted ctx) xs ys) :
    (nodes ys).flatMap Node.numbers = (nodes xs).flatMap Node.numbers
      ∧ ((∀ n ∈ nodes xs, n.Descending) → ∀ n ∈ nodes ys, n.Descending) := by
  induction changed with
  | nil => exact ⟨rfl, fun all => all⟩
  | @cons x y xs ys head _ ih =>
    obtain ⟨numbers, descending⟩ := ih
    cases head with
    | same x =>
      cases held : x.node? with
      | none =>
        simp only [nodes, List.filterMap_cons_none held] at *
        exact ⟨numbers, descending⟩
      | some n =>
        simp only [nodes, List.filterMap_cons_some held, List.flatMap_cons,
          List.forall_mem_cons] at *
        exact ⟨by rw [numbers], fun all => ⟨all.1, descending all.2⟩⟩
    | part p e =>
      simp only [Segment.nodes_part, List.flatMap_cons, List.forall_mem_cons]
      refine ⟨?_, fun all => ⟨?_, descending all.2⟩⟩
      · show (e.retarget ctx).numbers ++ _ = e.numbers ++ _
        rw [Expr.numbers_retarget, numbers]
      · exact Expr.Descending.retarget (e := e) all.1

namespace Gathers

variable {s₀ s : ParserState} {xs ys : List Segment} {ctx : Context}

/-- Expressions that were read become targets, and it is noted where they cannot be. -/
lemma retarget (h : Gathers source s₀ s xs) (changed : List.Forall₂ (Segment.Retargeted ctx) xs ys)
    (problems : List Problem) :
    Gathers source s₀ { s with problems := problems ++ s.problems } ys := by
  obtain ⟨numbers, descending⟩ := Segment.numbers_retargeted changed
  have targets : Yields source s₀ s (nodes ys) (Spelled source ys) :=
    (h.mono fun _ _ _ _ spelled => spelled.retarget changed).perm (.of_eq numbers) descending
  refine ⟨fun clean => targets.clean (List.append_eq_nil_iff.1 clean).2, targets.exprs,
    targets.stmts, targets.numbered, fun clean ready => ?_⟩
  obtain ⟨ready', ts, taken, spelled⟩ :=
    targets.spelled (List.append_eq_nil_iff.1 clean).2 ready
  exact ⟨ready'.same rfl rfl rfl, ts, ⟨taken.tokens, taken.lastEnd⟩, spelled⟩

/-- One of the expressions that were read becomes a target. -/
theorem targetAmong {p : Position} {e : Expr} (ctx : Context)
    (h : Gathers source s₀ s (xs ++ .part p e :: ys)) :
    Ends (Parser.target ctx e) s fun t s' => Gathers source s₀ s' (xs ++ .part p t :: ys) := by
  unfold Ends
  rw [Parser.target_run]
  exact h.retarget (List.rel_append (Segment.retargeted_refl xs)
    (.cons (.part p e) (Segment.retargeted_refl ys))) _

/-- The last expression that was read becomes a target. -/
lemma target {p : Position} {e : Expr} (ctx : Context)
    (h : Gathers source s₀ s (xs ++ [.part p e])) :
    Ends (Parser.target ctx e) s fun t s' => Gathers source s₀ s' (xs ++ [.part p t]) :=
  h.targetAmong ctx

end Gathers

/-- Several expressions become targets, one after the other. -/
lemma Parser.targets_run (ctx : Context) (es : List Expr) (s : ParserState) :
    Ends (es.mapM (target ctx)) s fun ts s' => ts = es.map (fun e => e.retarget ctx)
      ∧ ∃ problems, s' = { s with problems := problems ++ s.problems } := by
  induction es generalizing s with
  | nil =>
    rw [List.mapM_nil]
    exact ⟨rfl, [], rfl⟩
  | cons e es ih =>
    rw [List.mapM_cons]
    have first : Ends (target ctx e) s fun t s' => t = e.retarget ctx
        ∧ ∃ problems, s' = { s with problems := problems ++ s.problems } := by
      unfold Ends
      rw [target_run]
      exact ⟨rfl, _, rfl⟩
    refine first.bind ?_
    rintro t s₁ ⟨rfl, noted, rfl⟩
    refine (ih _).bind ?_
    rintro ts s₂ ⟨rfl, later, rfl⟩
    refine ⟨rfl, later ++ noted, ?_⟩
    rw [List.append_assoc]
    rfl

/-- Expressions that were completed are dropped. -/
lemma Yields.discard {s₀ s : ParserState} {ns ms : List Node} {P : List Token → Prop}
    {es : List Expr} (h : Yields source s₀ s ns P)
    (same : (ms.flatMap Node.numbers ++ es.map fun e => Scope.ScopeKey.expr e.serial).Perm
      (ns.flatMap Node.numbers))
    (descending : (∀ n ∈ ns, n.Descending) → ∀ n ∈ ms, n.Descending) :
    Ends (Parser.discard es) s fun _ s' => Yields source s₀ s' ms P := by
  obtain ⟨dropped, unused, numbered⟩ := h.numbered
  refine ⟨h.clean, h.exprs, h.stmts, ⟨es.reverse ++ dropped, ?_, ?_⟩, fun clean ready => ?_⟩
  · show es.reverse ++ s.unused = _
    rw [unused, List.append_assoc]
  · refine numbered.perm ?_ (descending numbered.descending)
    rw [List.map_append, ← List.append_assoc]
    refine List.Perm.append_right _ (List.Perm.trans ?_ same)
    exact (List.reverse_perm es).map _ |>.append_left _
  · obtain ⟨ready', ts, taken, known⟩ := h.spelled clean ready
    exact ⟨ready'.same rfl rfl rfl, ts, ⟨taken.tokens, taken.lastEnd⟩, known⟩

namespace Parser

/-! ## Loops -/

section Loops

variable {s₀ s : ParserState} {g : α → List Segment}

/-- How deep reading is nested does not matter for what it reads. -/
lemma nested_spells {p : Parser α} (h : Spells source p g) : Spells source (nested p) g := by
  intro s
  have inner := h { s with depth := s.depth + 1 }
  refine ⟨inner.clean, inner.exprs, inner.stmts, inner.numbered, fun clean ready => ?_⟩
  obtain ⟨ready', ts, taken, spelled⟩ := inner.spelled clean (ready.same rfl rfl rfl)
  exact ⟨ready'.same rfl rfl rfl, ts, ⟨taken.tokens, taken.lastEnd⟩, spelled⟩

lemma collectAtMost_spells {step : Parser (Option α)} {final : List Segment}
    (h : Spells source step fun o => o.elim final g) (none : nodes final = [])
    (empty : Spelled source final []) (n : ℕ) :
    Spells source (collectAtMost step n) fun as => as.flatMap g ++ final := by
  have ended (s : ParserState) : Gathers source s s final := by
    unfold Gathers
    rw [none]
    exact .nothing empty
  induction n with
  | zero => exact fun s => ended s
  | succ n ih =>
    intro s
    refine (h s).bind ?_
    intro o s₁ done
    cases o with
    | none => exact done
    | some a =>
      refine done.bind ih ?_
      intro as s₂ done
      exact done.give (f := fun as : List α => as.flatMap g ++ final) (by simp)

/-- What a loop reads whose steps are described by one function, and what its last step reads that
gives nothing. -/
lemma collect_spells {step : Parser (Option α)} {final : List Segment}
    (h : Spells source step fun o => o.elim final g) (none : nodes final = [])
    (empty : Spelled source final []) :
    Spells source (collect step) fun as => as.flatMap g ++ final :=
  fun s => .look rfl (collectAtMost_spells h none empty _ s)

lemma collect_spells_all {step : Parser (Option α)} (h : Spells source step fun o => o.elim [] g) :
    Spells source (collect step) fun as => as.flatMap g :=
  (collect_spells h rfl .nil).congr fun _ => List.append_nil _

/-- What follows a token, if the token is there. -/
lemma afterEaten_spells {k : TokenKind} {step : Parser α} (more : k ≠ .endOfFile)
    (h : Spells source step g) :
    Spells source (do if ← eat k then return some (← step) else return none : Parser (Option α))
      fun o => o.elim [] fun a => .token k :: g a := by
  intro s
  refine (Gathers.start source s).eat more (fun s₁ done => ?_) fun _ => .start source s
  exact done.bind h fun a s₂ done => done

/-- A comma that nothing follows. -/
lemma trailing {xs : List Segment} (symbol : Symbol)
    (h : Gathers source s₀ s (xs ++ [.sign symbol])) :
    Gathers source s₀ s (xs ++ [.optional [.symbol symbol]]) := by
  refine h.recast (by simp) fun ts spelled => ?_
  obtain ⟨front, back, rfl, first, second⟩ := spelled.split
  obtain ⟨t, rfl, is⟩ := second.leaf_of_single nofun nofun nofun
  exact first.append (.single (.inr (by rw [← is]; rfl)))

/-- Nothing stands where something may. -/
lemma absent {xs : List Segment} (ks : List TokenKind) (h : Gathers source s₀ s xs) :
    Gathers source s₀ s (xs ++ [.optional ks]) := by
  refine h.recast (by simp) fun ts spelled => ?_
  have nothing : Spelled source [.optional ks] [] := .single (.inl rfl)
  have all := spelled.append nothing
  rwa [List.append_nil] at all

lemma separated_spells {item : Parser (Option α)} (h : Spells source item fun o => o.elim [] g) :
    Spells source (separated .comma item) fun as => Segment.list (as.map g) := by
  have step : Spells source
      (do if ← eatSymbol .comma then item else return none : Parser (Option α))
      fun o => o.elim [.optional [.symbol .comma]] fun a => .sign .comma :: g a := by
    intro s
    refine (Gathers.start source s).eat (k := .symbol .comma) nofun (fun s₁ done => ?_) fun _ => ?_
    · refine done.last h fun o s₂ done => ?_
      cases o with
      | none => exact trailing .comma (done.congr (List.append_nil _))
      | some a => exact done
    · exact absent [.symbol .comma] (.start source s)
  intro s
  refine (Gathers.start source s).bind h ?_
  intro o s₁ done
  cases o with
  | none => exact done
  | some a =>
    refine done.bind (collect_spells step rfl (.single (.inl rfl))) ?_
    intro as s₂ done
    exact done.give (f := fun as : List α => Segment.list (as.map g))
      (by simp [Segment.list, List.flatMap_map])

lemma elementsAtMost_spells {close : Symbol} {item : Parser α} (h : Spells source item g) (n : ℕ) :
    Spells source (elementsAtMost close item n) fun as =>
      as.flatMap (fun a => .sign .comma :: g a) ++ [.optional [.symbol .comma]] := by
  let read (as : List α) : List Segment :=
    as.flatMap (fun a => .sign .comma :: g a) ++ [.optional [.symbol .comma]]
  have ended (s : ParserState) : Gathers source s s [.optional [.symbol .comma]] :=
    absent _ (.start source s)
  induction n with
  | zero => exact fun s => ended s
  | succ n ih =>
    intro s
    refine (Gathers.start source s).eat (k := .symbol .comma) nofun (fun s₁ done => ?_)
      fun _ => ended s
    refine .look rfl ?_
    split
    · exact (trailing .comma done :)
    refine .look rfl (done.bind h ?_)
    intro a s₂ done
    refine .look rfl ?_
    split
    · exact (absent [.symbol .comma] done).give (f := read) (by simp [read])
    refine done.bind ih ?_
    intro as s₃ done
    exact done.give (f := read) (by simp [read])

/-- The later elements of a bracketed list, behind the first one. -/
lemma elements_spells {close : Symbol} {item : Parser α} (h : Spells source item g) :
    Spells source (elements close item) fun as =>
      as.flatMap (fun a => .sign .comma :: g a) ++ [.optional [.symbol .comma]] :=
  fun s => .look rfl (elementsAtMost_spells h _ s)

/-- Extending an expression keeps it the only thing that was read. -/
lemma extend_spells {step : Expr → Parser (Option Expr)} {p : Position}
    (h : ∀ e s, Gathers source s₀ s [.part p e] → Ends (step e) s fun o s' =>
      Gathers source s₀ s' [.part p (o.getD e)]) {e : Expr}
    (done : Gathers source s₀ s [.part p e]) :
    Ends (extend step e) s fun d s' => Gathers source s₀ s' [.part p d] := by
  have loop (n : ℕ) {e : Expr} {s : ParserState} (done : Gathers source s₀ s [.part p e]) :
      Ends (extendAtMost step n e) s fun d s' => Gathers source s₀ s' [.part p d] := by
    induction n generalizing e s with
    | zero => exact done
    | succ n ih =>
      refine (h e s done).bind ?_
      intro o s₁ done
      cases o with
      | none => exact done
      | some d => exact ih done
  exact .look rfl (loop _ done)

/-! ## How loops end -/

/-- A loop whose steps take tokens ends because a step gave nothing, and not because it was repeated
often enough.  This is asked only of states that are `Fair`, as are all that lead to them. -/
lemma extendAtMost_stops {step : α → Parser (Option α)} {Inv : α → ParserState → Prop}
    {Fair Stop : ParserState → Prop}
    (h : ∀ a s, Inv a s → Ends (step a) s fun o s' => Inv (o.getD a) s' ∧ (Fair s' → Fair s)
      ∧ (Fair s' → (o = none → Stop s') ∧ (o ≠ none → s'.later.length < s.later.length)))
    (n : ℕ) {a : α} (done : Inv a s) (enough : Fair s → s.later.length < n) :
    Ends (extendAtMost step n a) s fun b s' => Inv b s' ∧ (Fair s' → Stop s') := by
  induction n generalizing a s with
  | zero => exact ⟨done, fun fair => absurd (enough fair) (Nat.not_lt_zero _)⟩
  | succ n ih =>
    refine (h a s done).bind ?_
    rintro o s₁ ⟨done, back, ends⟩
    cases o with
    | none => exact ⟨done, fun fair => (ends fair).1 rfl⟩
    | some b =>
      refine ih done fun fair => ?_
      have less := (ends fair).2 nofun
      have := enough (back fair)
      omega

/-- The same for steps that do not build on one another. -/
lemma collect_stops {step : Parser (Option α)} {Inv Fair Stop : ParserState → Prop}
    (h : ∀ s, Inv s → Ends step s fun o s' => Inv s' ∧ (Fair s' → Fair s)
      ∧ (Fair s' → (o = none → Stop s') ∧ (o ≠ none → s'.later.length < s.later.length)))
    {s : ParserState} (inv : Inv s) : Ends (collect step) s fun _ s' => Fair s' → Stop s' := by
  have loop (n : ℕ) {s : ParserState} (inv : Inv s) (enough : Fair s → s.later.length < n) :
      Ends (collectAtMost step n) s fun _ s' => Fair s' → Stop s' := by
    induction n generalizing s with
    | zero => exact fun fair => absurd (enough fair) (Nat.not_lt_zero _)
    | succ n ih =>
      refine (h s inv).bind ?_
      rintro o s₁ ⟨inv, back, ends⟩
      cases o with
      | none => exact fun fair => (ends fair).1 rfl
      | some b =>
        refine (ih inv fun fair => ?_).bind fun _ _ => id
        have less := (ends fair).2 nofun
        have := enough (back fair)
        omega
  exact .look rfl (loop _ inv fun _ => Nat.lt_succ_self _)

end Loops

end Parser

end MethodLift.Syntax
