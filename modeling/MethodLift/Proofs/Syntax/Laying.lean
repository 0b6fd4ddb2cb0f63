import MethodLift.Proofs.Syntax.Reading
import MethodLift.Proofs.Syntax.Rows

/-!
# Reading lays nodes

While a text is read without problems, the nodes that were read so far are a row.  `Leaves` says so
of two states: between them some nodes were left behind, in this order.  The counts of complete nodes
only grow, so the numbers of nodes that are read later are others; and where the last token ended
(`ParserState.reached`) lies before the current one, so nodes that are read later lie behind.

Nothing is said of the nodes of a text with problems, except that the problems stay.  That is what
lets each step be described on its own: a step that notes a problem may leave anything
(`Leaves.spoilt`).

The rules for sequences of steps go by what has been left so far.  A step that leaves nodes is put
behind it (`Leaves.bind`), a step that leaves none passes (`Leaves.pass`), and completing a node makes
all that was left into its parts (`Leaves.complete`).
-/

namespace MethodLift.Syntax

open Text (Boundary)

variable {source : List Char} {α β : Type}

/-! ## Tokens that take space -/

/-- Layout tokens and the end of the text may be empty, other tokens are not. -/
def TokenKind.takesSpace (k : TokenKind) : Bool := !k.isLayout && k != .endOfFile

/-- A token is as its kind says. -/
def Token.Solid (t : Token) : Prop := t.kind.takesSpace = true → t.span.start < t.span.stop

lemma closing_solid {layout : Layout} {offset : ℕ} : ∀ t ∈ closing layout offset, t.Solid := by
  intro t ht takes
  simp only [closing, List.mem_append, List.mem_singleton] at ht
  rcases ht with (ht | ht) | rfl
  · split at ht
    · obtain rfl := List.mem_singleton.1 ht
      cases takes
    · cases ht
  · split at ht
    · obtain ⟨_, -, rfl⟩ := List.mem_map.1 ht
      cases takes
    · cases ht
  · cases takes

lemma relevel_solid {layout : Layout} {columns : ℕ} {blanks : Span} :
    ∀ t ∈ (relevel layout columns blanks).tokens, t.Solid := by
  intro t ht takes
  unfold relevel at ht
  split at ht
  · obtain rfl := List.mem_singleton.1 ht
    nomatch takes
  split at ht
  · obtain ⟨_, -, rfl⟩ := List.mem_map.1 ht
    nomatch takes
  · nomatch ht

lemma contribution_solid {layout : Layout} {piece : Piece} {taken : List Char} {span : Span}
    (some : span.start < span.stop) :
    ∀ t ∈ (contribution layout piece taken span).tokens, t.Solid := by
  have one (kind : TokenKind) : ∀ t ∈ [(⟨kind, String.ofList taken, span⟩ : Token)], t.Solid :=
    List.forall_mem_singleton.2 fun _ => some
  cases piece with
  | blank | comment | joint | strayBackslash => exact List.forall_mem_nil _
  | number | word | symbol | unknown | string => exact one _
  | lineBreak =>
    rw [contribution]
    split
    · split
      · exact List.forall_mem_singleton.2 (by rintro ⟨⟩)
      · exact List.forall_mem_nil _
    · exact List.forall_mem_nil _

theorem lexFrom_solid (layout : Layout) (offset : ℕ) (cs : List Char) :
    ∀ t ∈ (lexFrom layout offset cs).tokens, t.Solid := by
  fun_induction lexFrom layout offset cs with
  | case1 => exact closing_solid
  | case2 => exact closing_solid
  | case3 _ _ _ _ _ _ _ _ _ _ _ _ ih => exact ih
  | case4 _ _ _ _ _ _ _ _ _ _ _ _ ih => exact List.forall_mem_append.2 ⟨relevel_solid, ih⟩
  | case5 layout offset c rest _ found stop step ih =>
    have some : 0 < Text.width found.2.taken := by
      cases taken : found.2.taken with
      | nil => exact absurd taken (Piece.read_taken_ne_nil c rest)
      | cons d ds =>
        have := d.utf8Size_pos
        rw [Text.width_cons]
        omega
    exact List.forall_mem_append.2 ⟨contribution_solid (by dsimp only [stop]; omega), ih⟩

/-! ## States and what passes between them -/

namespace ParserState

/-- Where the last token taken ended, unless reading went on somewhere else. -/
def reached (s : ParserState) : ℕ := min s.lastEnd s.position

/-- The last token taken lies before the current one. -/
def Settled (s : ParserState) : Prop := s.lastEnd ≤ s.position

/-- Where the current token starts, as a point. -/
def here (s : ParserState) : Point := ⟨s.position, s.exprCount, s.stmtCount⟩

/-- Where the last token taken ended, as a point. -/
def behind (s : ParserState) : Point := ⟨s.reached, s.exprCount, s.stmtCount⟩

/-- The end of the text is the last of the tokens that are left, and no other one. -/
def Ended (s : ParserState) : Prop := Complete (s.current :: s.later)

/-- A state in the middle of reading a text: the tokens that are left stand in the text one behind
the other, are as their kinds say, and end with the end of the text. -/
structure Live (source : List Char) (s : ParserState) : Prop where
  text : s.source = source
  tokens : TokensPlaced source (s.current :: s.later)
  solid : ∀ t ∈ s.current :: s.later, t.Solid
  ended : s.Ended

/-- The end of the text is the last of the tokens that are left after some were taken. -/
lemma Ended.rest {s s' : ParserState} {ts : List Token} (ended : s.Ended)
    (tokens : s.current :: s.later = ts ++ (s'.current :: s'.later)) : s'.Ended := by
  obtain ⟨front, e, whole, is, others⟩ := ended
  rw [tokens] at whole
  obtain ⟨rest, last, parts⟩ : ∃ rest last, s'.current :: s'.later = rest ++ [last] :=
    ⟨_, _, (List.dropLast_append_getLast (List.cons_ne_nil _ _)).symm⟩
  rw [parts, ← List.append_assoc] at whole
  obtain ⟨rfl, same⟩ := List.append_inj' whole rfl
  obtain rfl := (List.cons.inj same).1
  exact ⟨rest, last, parts, is, fun t ht => others t (List.mem_append_right _ ht)⟩

lemma Live.forward {s : ParserState} (h : s.Live source) : s.position ≤ s.current.span.stop :=
  (h.tokens.each _ List.mem_cons_self).span.forward

lemma Settled.reached {s : ParserState} (h : s.Settled) : s.reached = s.lastEnd :=
  Nat.min_eq_left h

lemma behind_upto_here (s : ParserState) : s.behind.Upto s.here :=
  ⟨Nat.min_le_right _ _, Nat.le_refl _, Nat.le_refl _⟩

end ParserState

/-- The tokens that were taken between two states.  The last token that is no layout tells where
reading has come to. -/
structure Took (s s' : ParserState) (ts : List Token) : Prop where
  tokens : s.current :: s.later = ts ++ (s'.current :: s'.later)
  forward : s.lastEnd ≤ s'.lastEnd
  within : ∀ t ∈ ts, t.kind.takesSpace = true → t.span.stop ≤ s'.lastEnd
  last : s'.lastEnd = s.lastEnd
    ∨ ∃ t ∈ ts, t.kind.takesSpace = true ∧ t.span.stop = s'.lastEnd

namespace Took

variable {s s' s'' : ParserState} {ts ts' : List Token}

/-- Nothing was taken. -/
lemma nothing (current : s'.current = s.current) (later : s'.later = s.later)
    (lastEnd : s'.lastEnd = s.lastEnd) : Took s s' [] := by
  refine ⟨?_, lastEnd.ge, List.forall_mem_nil _, .inl lastEnd⟩
  rw [current, later]
  rfl

lemma trans (h : Took s s' ts) (h' : Took s' s'' ts') : Took s s'' (ts ++ ts') := by
  refine ⟨?_, h.forward.trans h'.forward, List.forall_mem_append.2 ⟨?_, h'.within⟩, ?_⟩
  · rw [h.tokens, h'.tokens, List.append_assoc]
  · exact fun t ht takes => (h.within t ht takes).trans h'.forward
  · rcases h'.last with same | ⟨t, ht, ends⟩
    · rw [same]
      exact h.last.imp_right fun ⟨t, ht, ends⟩ => ⟨t, List.mem_append_left _ ht, ends⟩
    · exact .inr ⟨t, List.mem_append_right _ ht, ends⟩

/-- The end of the text stays the last token. -/
lemma ended (h : Took s s' ts) (ended : s.Ended) : s'.Ended := ended.rest h.tokens

end Took

/-- Whether an expression is a tuple. -/
def Expr.IsTuple (e : Expr) : Prop := ∃ m elements ctx parenthesized,
  e = .tuple m elements ctx parenthesized

/-- What one state has in common with those that are reached from it. -/
structure Passes (source : List Char) (s s' : ParserState) : Prop where
  live : s'.Live source
  forward : s.position ≤ s'.position
  limit : ∀ n, (∀ t ∈ s.current :: s.later, t.span.stop ≤ n) →
    ∀ t ∈ s'.current :: s'.later, t.span.stop ≤ n
  clean : s'.problems = [] → s.problems = []
  reached : s.reached ≤ s'.reached
  settled : s.Settled → s'.Settled
  exprs : s.exprCount ≤ s'.exprCount
  stmts : s.stmtCount ≤ s'.stmtCount
  unused : s'.problems = [] → ∀ e ∈ s'.unused, e ∈ s.unused ∨ e.IsTuple
  took : s.Ended → s.Settled → ∃ ts, Took s s' ts

namespace Passes

variable {s s' s'' : ParserState}

lemma refl (h : s.Live source) : Passes source s s :=
  ⟨h, Nat.le_refl _, fun _ h => h, id, Nat.le_refl _, id, Nat.le_refl _, Nat.le_refl _,
    fun _ _ he => .inl he, fun _ _ => ⟨_, .nothing rfl rfl rfl⟩⟩

lemma trans (h : Passes source s s') (h' : Passes source s' s'') : Passes source s s'' := by
  refine ⟨h'.live, Nat.le_trans h.forward h'.forward, fun n hn => h'.limit n (h.limit n hn),
    fun clean => h.clean (h'.clean clean), Nat.le_trans h.reached h'.reached,
    fun settled => h'.settled (h.settled settled), Nat.le_trans h.exprs h'.exprs,
    Nat.le_trans h.stmts h'.stmts, ?_, ?_⟩
  · intro clean e he
    rcases h'.unused clean e he with he | tuple
    · exact h.unused (h'.clean clean) e he
    · exact .inr tuple
  · intro ended settled
    obtain ⟨ts, first⟩ := h.took ended settled
    obtain ⟨ts', second⟩ := h'.took (first.ended ended) (h.settled settled)
    exact ⟨_, first.trans second⟩

lemma here (h : Passes source s s') : s.here.Upto s'.here := ⟨h.forward, h.exprs, h.stmts⟩

lemma behind (h : Passes source s s') : s.behind.Upto s'.behind := ⟨h.reached, h.exprs, h.stmts⟩

end Passes

/-- From one state to another one, nodes were left in this order.  `started` tells whether a token
is known to have been taken. -/
structure Leaves (source : List Char) (s₀ s : ParserState) (started : Bool) (ns : List Node) :
    Prop extends Passes source s₀ s where
  row : s.problems = [] → Row s₀.here s.behind ns
  begun : started = true ∨ ns ≠ [] → s.problems = [] →
    s₀.position < s.reached ∧ s.Settled

namespace Leaves

variable {s₀ s s' : ParserState} {started : Bool} {ns ms : List Node}

lemma start (h : s.Live source) : Leaves source s s false [] :=
  ⟨.refl h, fun _ => .nil, nofun⟩

/-- Of a text with problems nothing is claimed. -/
lemma spoilt (h : Passes source s₀ s) (problems : s.problems ≠ []) :
    Leaves source s₀ s started ns :=
  ⟨h, fun clean => absurd clean problems, fun _ clean => absurd clean problems⟩

lemma weaken (h : Leaves source s₀ s started ns) : Leaves source s₀ s false ns :=
  ⟨h.toPasses, h.row, fun some => h.begun (some.imp_left nofun)⟩

lemma congr (h : Leaves source s₀ s started ns) (same : ns = ms) :
    Leaves source s₀ s started ms := same ▸ h

/-- Nodes are left behind those that were left before. -/
theorem append {started' : Bool} (h : Leaves source s₀ s started ns)
    (h' : Leaves source s s' started' ms) : Leaves source s₀ s' started (ns ++ ms) := by
  refine ⟨h.toPasses.trans h'.toPasses, ?_, ?_⟩
  · intro clean
    have clean' := h'.clean clean
    exact (h.row clean').append (h'.row clean) h.toPasses.here s.behind_upto_here
      h'.toPasses.behind
  · intro some clean
    have clean' := h'.clean clean
    by_cases first : started = true ∨ ns ≠ []
    · obtain ⟨less, settled⟩ := h.begun first clean'
      exact ⟨Nat.lt_of_lt_of_le less h'.reached, h'.settled settled⟩
    · have later : ms ≠ [] := by
        simp only [not_or, not_not] at first
        rcases some with some | some
        · exact absurd some first.1
        · simpa [first.2] using some
      obtain ⟨less, settled⟩ := h'.begun (.inr later) clean
      exact ⟨Nat.lt_of_le_of_lt h.forward less, settled⟩

/-- A step that leaves no nodes. -/
lemma pass (h : Leaves source s₀ s started ns) (h' : Passes source s s') :
    Leaves source s₀ s' started ns := by
  have nothing : Leaves source s s' false [] := ⟨h', fun _ => .nil, nofun⟩
  exact (h.append nothing).congr (List.append_nil ns)

end Leaves

/-! ## Rules for sequences of steps -/

/-- From everywhere, a step leaves the nodes that its result consists of. -/
def Lays (source : List Char) (p : Parser α) (f : α → List Node) : Prop :=
  ∀ s : ParserState, s.Live source → Ends p s fun a s' => Leaves source s s' false (f a)

/-- From everywhere, a step leaves no nodes. -/
abbrev Quiet (source : List Char) (p : Parser α) : Prop := Lays source p fun _ => []

section Rules

variable {s₀ s : ParserState} {started : Bool} {ns : List Node} {p q : Parser α}
  {f : α → List Node} {g : α → Parser β} {post : β → ParserState → Prop}

/-- One step after the other. -/
lemma Ends.bind {mid : α → ParserState → Prop} (first : Ends p s mid)
    (rest : ∀ a s', mid a s' → Ends (g a) s' post) : Ends (p >>= g) s post := rest _ _ first

/-- Reading that goes on somewhere else. -/
lemma Ends.elsewhere {f : Unit → Parser β} {inner : ParserState} (h : Ends (f ()) inner post) :
    Ends (set inner >>= f) s post := h

/-- A result that consists of the nodes that were left. -/
lemma Leaves.give {a : α} (h : Leaves source s₀ s started ns) (same : ns = f a) :
    Ends (Pure.pure a) s fun a s' => Leaves source s₀ s' started (f a) := h.congr same

/-- A step that leaves nodes, and what follows it. -/
theorem Leaves.bind (h : Leaves source s₀ s started ns) (first : Lays source p f)
    (rest : ∀ a s', Leaves source s₀ s' started (ns ++ f a) → Ends (g a) s' post) :
    Ends (p >>= g) s post := rest _ _ (h.append (first s h.live))

/-- A step that leaves none, and what follows it. -/
lemma Leaves.skip (h : Leaves source s₀ s started ns) (first : Quiet source p)
    (rest : ∀ a s', Leaves source s₀ s' started ns → Ends (g a) s' post) :
    Ends (p >>= g) s post := rest _ _ (h.pass (first s h.live).toPasses)

/-- One of two steps, and then the same step after either. -/
lemma Leaves.choice {c : Prop} [Decidable c] (h : Leaves source s₀ s started ns)
    (hp : Lays source p f) (hq : Lays source q f)
    (rest : ∀ a s', Leaves source s₀ s' started (ns ++ f a) → Ends (g a) s' post) :
    Ends (if c then p >>= g else q >>= g) s post := by
  split
  · exact h.bind hp rest
  · exact h.bind hq rest

/-- A step that is taken or not, and then the same step after either. -/
lemma Leaves.optional {c : Prop} [Decidable c] {q : Parser β}
    (h : Leaves source s₀ s started ns) (hp : Quiet source p)
    (rest : ∀ s', Leaves source s₀ s' started ns → Ends q s' post) :
    Ends (if c then p >>= fun _ => q else q) s post := by
  split
  · exact h.skip hp fun _ => rest
  · exact rest s h

lemma Lays.congr {f' : α → List Node} (h : Lays source p f) (same : ∀ a, f a = f' a) :
    Lays source p f' := by
  intro s hs
  exact (h s hs).congr (same _)

lemma Lays.map {h : α → β} {f : β → List Node} (lays : Lays source p fun a => f (h a)) :
    Lays source (h <$> p) f := lays

lemma Lays.pure {a : α} (nothing : f a = []) : Lays source (Pure.pure a) f :=
  fun _ hs => (Leaves.start hs).congr nothing.symm

end Rules

namespace Parser

variable {s₀ s : ParserState} {started : Bool} {ns : List Node}

/-! ## Taking tokens -/

/-- The tokens after the current one are those that are left after it was taken. -/
lemma later_eq_advance (ended : s.Ended) (more : s.current.kind ≠ .endOfFile) :
    s.later = (advance s).current :: (advance s).later := by
  have some : (s.current.kind == .endOfFile) = false := by simpa using more
  rw [advance, some, if_neg Bool.false_ne_true]
  cases later : s.later with
  | cons t ts => rfl
  | nil =>
    -- then the current token is the last one
    obtain ⟨front, e, whole, is, -⟩ := ended
    rw [later] at whole
    obtain ⟨-, same⟩ := List.append_inj' ((List.nil_append _).trans whole) rfl
    exact absurd ((List.cons.inj same).1 ▸ is) more

lemma advance_live (h : s.Live source) : (advance s).Live source := by
  by_cases is : s.current.kind = .endOfFile
  · have same : advance s = s := by rw [advance, is]; rfl
    rwa [same]
  have text : (advance s).source = s.source := by
    unfold advance
    split <;> rfl
  have left : s.current :: s.later
      = [s.current] ++ ((advance s).current :: (advance s).later) := by
    rw [← later_eq_advance h.ended is]
    rfl
  have tokens := h.tokens
  have solid := h.solid
  rw [left] at tokens solid
  refine ⟨text.trans h.text, ⟨?_, ?_⟩, ?_, h.ended.rest left⟩
  · exact (List.forall_mem_append.1 tokens.each).2
  · exact (List.pairwise_append.1 tokens.apart).2.1
  · exact (List.forall_mem_append.1 solid).2

/-- The tokens after the next one are among those that are left, or stand at their end. -/
lemma advance_limit {n : ℕ} (limit : ∀ t ∈ s.current :: s.later, t.span.stop ≤ n) :
    ∀ t ∈ (advance s).current :: (advance s).later, t.span.stop ≤ n := by
  unfold advance
  split
  · exact limit
  cases later : s.later with
  | nil => exact List.forall_mem_singleton.2 (limit s.current List.mem_cons_self)
  | cons t ts =>
    rw [later] at limit
    exact (List.forall_mem_cons.1 limit).2

/-- The next token starts no earlier than the current one ends. -/
lemma stop_le_position_advance (h : s.Live source) (more : s.current.kind ≠ .endOfFile) :
    s.current.span.stop ≤ (advance s).position := by
  have some : (s.current.kind == .endOfFile) = false := by simpa using more
  rw [advance, some, if_neg Bool.false_ne_true]
  cases later : s.later with
  | nil => exact Nat.le_refl _
  | cons t ts =>
    have apart := h.tokens.apart
    rw [later] at apart
    exact (List.pairwise_cons.1 apart).1 t List.mem_cons_self

lemma advance_ends (h : s.Live source) : s.position ≤ (advance s).position
    ∧ s.reached ≤ (advance s).reached ∧ (s.Settled → (advance s).Settled) := by
  by_cases more : s.current.kind = .endOfFile
  · rw [advance, more]
    exact ⟨Nat.le_refl _, Nat.le_refl _, id⟩
  have stop := stop_le_position_advance h more
  have forward := h.forward
  have some : (s.current.kind == .endOfFile) = false := by simpa using more
  have lastEnd : (advance s).lastEnd
      = if s.current.kind.isLayout then s.lastEnd else s.current.span.stop := by
    rw [advance, some, if_neg Bool.false_ne_true]
  have forward' : s.position ≤ (advance s).position := Nat.le_trans forward stop
  unfold ParserState.reached ParserState.Settled
  rw [lastEnd]
  split
  · omega
  · have reach : s.position ≤ min s.current.span.stop (advance s).position :=
      Nat.le_min.2 ⟨forward, forward'⟩
    exact ⟨forward', Nat.le_trans (Nat.min_le_right _ _) reach, fun _ => stop⟩

/-- The current token is what is taken, unless it is the end of the text. -/
lemma advance_took (h : s.Live source) (ended : s.Ended) (settled : s.Settled) :
    ∃ ts, Took s (advance s) ts := by
  by_cases is : s.current.kind = .endOfFile
  · refine ⟨_, .nothing ?_ ?_ ?_⟩ <;> rw [advance, is] <;> rfl
  have more : (s.current.kind == .endOfFile) = false := by simpa using is
  have lastEnd : (advance s).lastEnd
      = if s.current.kind.isLayout then s.lastEnd else s.current.span.stop := by
    rw [advance, more, if_neg Bool.false_ne_true]
  have tokens := later_eq_advance ended is
  have forward : s.lastEnd ≤ s.current.span.stop := settled.trans h.forward
  refine ⟨[s.current], by rw [tokens]; rfl, ?_, List.forall_mem_singleton.2 fun takes => ?_, ?_⟩
  · rw [lastEnd]
    split
    · exact Nat.le_refl _
    · exact forward
  · rw [TokenKind.takesSpace, Bool.and_eq_true, Bool.not_eq_true'] at takes
    rw [lastEnd, takes.1]
    exact Nat.le_refl _
  · cases layout : s.current.kind.isLayout with
    | true => exact .inl (by rw [lastEnd, layout]; rfl)
    | false =>
      have takes : s.current.kind.takesSpace = true := by
        rw [TokenKind.takesSpace, layout, Bool.not_false, Bool.true_and, bne_iff_ne]
        exact is
      exact .inr ⟨_, List.mem_cons_self, takes, by rw [lastEnd, layout]; rfl⟩

lemma advance_passes (h : s.Live source) : Passes source s (advance s) := by
  have same : (advance s).problems = s.problems ∧ (advance s).exprCount = s.exprCount
      ∧ (advance s).stmtCount = s.stmtCount ∧ (advance s).unused = s.unused := by
    unfold advance
    split <;> exact ⟨rfl, rfl, rfl, rfl⟩
  obtain ⟨problems, exprs, stmts, unused⟩ := same
  obtain ⟨forward, reached, settled⟩ := advance_ends h
  refine ⟨advance_live h, forward, fun _ => advance_limit, ?_, reached, settled, exprs.ge, stmts.ge,
    ?_, advance_took h⟩
  · rw [problems]
    exact id
  · rw [unused]
    exact fun _ _ he => .inl he

/-- After a token that takes space, reading is on its way. -/
lemma advance_leaves (h : s.Live source) (takes : s.current.kind.takesSpace = true) :
    Leaves source s (advance s) true [] := by
  refine ⟨advance_passes h, fun _ => .nil, fun _ _ => ?_⟩
  have solid := h.solid s.current List.mem_cons_self takes
  rw [TokenKind.takesSpace, Bool.and_eq_true, Bool.not_eq_true', bne_iff_ne] at takes
  have lastEnd := advance_lastEnd takes.2 takes.1
  have stop := stop_le_position_advance h takes.2
  unfold ParserState.reached ParserState.Settled
  rw [lastEnd]
  exact ⟨Nat.lt_min.2 ⟨solid, Nat.lt_of_lt_of_le solid stop⟩, stop⟩

lemma bump_quiet : Quiet source bump :=
  fun _ hs => (Leaves.start hs).pass (advance_passes hs)

lemma eat_run (k : TokenKind) (s : ParserState) :
    (eat k).run s = if s.current.kind = k then (true, advance s) else (false, s) := by
  by_cases there : s.current.kind = k <;>
  simp [eat, eat?, isAt, kind, bump, token, there, StateT.run, bind, StateT.bind, get, getThe,
    MonadStateOf.get, StateT.get, pure, StateT.pure, modify, modifyGet, MonadStateOf.modifyGet,
    StateT.modifyGet]

/-- A token that may be there: if it is, it is taken, and else nothing is. -/
lemma eat_cases {g : Bool → Parser β} {post : β → ParserState → Prop} (k : TokenKind)
    (s : ParserState) (yes : s.current.kind = k → Ends (g true) (advance s) post)
    (no : s.current.kind ≠ k → Ends (g false) s post) : Ends (eat k >>= g) s post := by
  have run : (eat k >>= g).run s = (g ((eat k).run s).1).run ((eat k).run s).2 := rfl
  unfold Ends
  rw [run, eat_run]
  split
  next there => exact yes there
  next there => exact no there

lemma eat_quiet (k : TokenKind) : Quiet source (eat k) := by
  intro s hs
  unfold Ends
  rw [eat_run]
  split
  · exact (Leaves.start hs).pass (advance_passes hs)
  · exact Leaves.start hs

end Parser

/-! ## Taking what has to be there -/

/-- A step that keeps to what is said of two states, whatever it completes. -/
def Keeps (source : List Char) (p : Parser α) : Prop :=
  ∀ s : ParserState, s.Live source → Ends p s fun _ s' => Passes source s s'

lemma Lays.keeps {p : Parser α} {f : α → List Node} (h : Lays source p f) : Keeps source p :=
  fun s hs => (h s hs).toPasses

/-- A state that was reached with a problem. -/
structure Spoilt (source : List Char) (s₀ s : ParserState) : Prop where
  passes : Passes source s₀ s
  problems : s.problems ≠ []

namespace Spoilt

variable {s₀ s : ParserState} {g : α → Parser β} {post : β → ParserState → Prop}

lemma leaves {started : Bool} {ns : List Node} (h : Spoilt source s₀ s) :
    Leaves source s₀ s started ns := .spoilt h.passes h.problems

lemma after {s' : ParserState} (h : Spoilt source s₀ s) (passes : Passes source s s') :
    Spoilt source s₀ s' := ⟨h.passes.trans passes, fun clean => h.problems (passes.clean clean)⟩

lemma bind {p : Parser α} (h : Spoilt source s₀ s) (hp : Keeps source p)
    (rest : ∀ a s', Spoilt source s₀ s' → Ends (g a) s' post) : Ends (p >>= g) s post :=
  rest _ _ (h.after (hp s h.passes.live))

lemma last {p : Parser α} {started : Bool} {f : α → List Node} (h : Spoilt source s₀ s)
    (hp : Keeps source p) : Ends p s fun a s' => Leaves source s₀ s' started (f a) :=
  (h.after (hp s h.passes.live)).leaves

end Spoilt

namespace Leaves

variable {s₀ s : ParserState} {started : Bool} {ns : List Node} {g : α → Parser β}
  {post : β → ParserState → Prop}

/-- Taking a token that takes space. -/
lemma take (h : Leaves source s₀ s started ns) (takes : s.current.kind.takesSpace = true) :
    Leaves source s₀ (Parser.advance s) true ns := by
  have next := Parser.advance_leaves h.live takes
  have all := h.pass next.toPasses
  refine ⟨all.toPasses, all.row, fun _ clean => ?_⟩
  obtain ⟨less, settled⟩ := next.begun (.inl rfl) clean
  exact ⟨Nat.lt_of_le_of_lt h.forward less, settled⟩

lemma bump {g : Token → Parser β} (h : Leaves source s₀ s started ns)
    (takes : s.current.kind.takesSpace = true)
    (rest : Leaves source s₀ (Parser.advance s) true ns →
      Ends (g s.current) (Parser.advance s) post) : Ends (Parser.bump >>= g) s post :=
  rest (h.take takes)

/-- A token that may be there: if it is, it is taken, and else nothing is. -/
lemma eat {k : TokenKind} {g : Bool → Parser β} (h : Leaves source s₀ s started ns)
    (takes : k.takesSpace = true)
    (yes : ∀ s', Leaves source s₀ s' true ns → Ends (g true) s' post)
    (no : Leaves source s₀ s started ns → Ends (g false) s post) :
    Ends (Parser.eat k >>= g) s post :=
  Parser.eat_cases k s (fun there => yes _ (h.take (there ▸ takes))) fun _ => no h

/-- After a problem was noted, nothing is claimed. -/
lemma noteAt {g : Unit → Parser β} {cause : Problem.Cause} {span : Span}
    (h : Leaves source s₀ s started ns)
    (rest : ∀ s', Spoilt source s₀ s' → Ends (g ()) s' post) :
    Ends (Parser.noteAt cause span >>= g) s post := by
  refine rest { s with problems := ⟨cause, span⟩ :: s.problems } ⟨h.toPasses.trans ?_, nofun⟩
  exact ⟨⟨h.live.text, h.live.tokens, h.live.solid, h.live.ended⟩, Nat.le_refl _,
    fun _ limit => limit, nofun,
    Nat.le_refl _, id, Nat.le_refl _, Nat.le_refl _, nofun,
    fun _ _ => ⟨_, .nothing rfl rfl rfl⟩⟩

lemma note {g : Unit → Parser β} {cause : Problem.Cause} (h : Leaves source s₀ s started ns)
    (rest : ∀ s', Spoilt source s₀ s' → Ends (g ()) s' post) :
    Ends (Parser.note cause >>= g) s post := h.noteAt rest

/-- A token that has to be there: in a text without problems it is. -/
lemma expectSymbol {symbol : Symbol} {g : Bool → Parser β} (h : Leaves source s₀ s started ns)
    (rest : ∀ there s', Leaves source s₀ s' true ns → Ends (g there) s' post) :
    Ends (Parser.expectSymbol symbol >>= g) s post := by
  have taken : Ends (Parser.expectSymbol symbol) s fun _ s' => Leaves source s₀ s' true ns := by
    refine h.eat (k := .symbol symbol) rfl (fun s' taken => taken) fun h => ?_
    exact h.note fun s' spoilt => spoilt.leaves
  exact taken.bind rest

lemma expectKeyword {word : Keyword} {g : Unit → Parser β} (h : Leaves source s₀ s started ns)
    (rest : ∀ s', Leaves source s₀ s' true ns → Ends (g ()) s' post) :
    Ends (Parser.expectKeyword word >>= g) s post := by
  have taken : Ends (Parser.expectKeyword word) s fun _ s' => Leaves source s₀ s' true ns := by
    refine h.eat (k := .keyword word) rfl (fun s' taken => taken) fun h => ?_
    exact h.note fun s' spoilt => spoilt.leaves
  exact taken.bind fun _ => rest

end Leaves

namespace Parser

variable {s₀ s : ParserState} {started : Bool} {ns : List Node}

lemma note_quiet (cause : Problem.Cause) : Quiet source (note cause) :=
  fun _ hs => (Leaves.start hs).note (g := Pure.pure) fun _ spoilt => spoilt.leaves

lemma expectSymbol_quiet (symbol : Symbol) : Quiet source (expectSymbol symbol) :=
  fun _ hs => (Leaves.start hs).expectSymbol (g := Pure.pure) fun _ _ done => done.weaken

lemma expectKeyword_quiet (word : Keyword) : Quiet source (expectKeyword word) :=
  fun _ hs => (Leaves.start hs).expectKeyword (g := Pure.pure) fun _ done => done.weaken

lemma name?_quiet : Quiet source name? := by
  have taken : Quiet source (eat? .name) := by
    intro s hs
    refine .look rfl ?_
    split
    · exact (Leaves.start hs).skip bump_quiet fun _ _ done => done
    · exact Leaves.start hs
  exact taken.map

lemma nameOrMissing_quiet : Quiet source nameOrMissing := by
  intro s hs
  refine (Leaves.start hs).skip name?_quiet ?_
  intro name s₁ done
  split
  · exact done
  · exact done.skip (note_quiet _) fun _ _ done => done

lemma skipLineAtMost_quiet (n : ℕ) : Quiet source (skipLineAtMost n) := by
  induction n with
  | zero => exact fun s hs => Leaves.start hs
  | succ n ih =>
    intro s hs
    refine .look rfl (.look rfl ?_)
    split
    · exact Leaves.start hs
    · exact (Leaves.start hs).skip bump_quiet fun _ s₁ done => done.pass (ih s₁ done.live).toPasses

lemma skipLine_quiet : Quiet source skipLine :=
  fun s hs => .look rfl (skipLineAtMost_quiet _ s hs)

/-! ## Loops -/

section Loops

variable {f : α → List Node}

lemma collectAtMost_lays {step : Parser (Option α)}
    (h : Lays source step fun o => o.toList.flatMap f) (n : ℕ) :
    Lays source (collectAtMost step n) fun as => as.flatMap f := by
  induction n with
  | zero => exact fun s hs => Leaves.start hs
  | succ n ih =>
    intro s hs
    refine (Leaves.start hs).bind h ?_
    intro o s₁ done
    cases o with
    | none => exact done
    | some a =>
      refine done.bind ih ?_
      intro as s₂ done
      exact done.give (by simp)

lemma collect_lays {step : Parser (Option α)}
    (h : Lays source step fun o => o.toList.flatMap f) :
    Lays source (collect step) fun as => as.flatMap f :=
  fun s hs => .look rfl (collectAtMost_lays h _ s hs)

/-- What follows a token, if the token is there. -/
lemma afterEaten_lays {k : TokenKind} {step : Parser α} (h : Lays source step f) :
    Lays source (do if ← eat k then return some (← step) else return none : Parser (Option α))
      fun o => o.toList.flatMap f := by
  intro s hs
  refine (Leaves.start hs).skip (eat_quiet k) ?_
  intro there s₁ done
  split
  · exact done.bind h fun a s₂ done => done.give (by simp)
  · exact done

lemma separated_lays {separator : Symbol} {item : Parser (Option α)}
    (h : Lays source item fun o => o.toList.flatMap f) :
    Lays source (separated separator item) fun as => as.flatMap f := by
  have step : Lays source
      (do if ← eatSymbol separator then item else return none : Parser (Option α))
      fun o => o.toList.flatMap f := by
    intro s hs
    refine (Leaves.start hs).skip (eat_quiet _) ?_
    intro there s₁ done
    split
    · exact done.append (h s₁ done.live)
    · exact done
  intro s hs
  refine (Leaves.start hs).bind h ?_
  intro o s₁ done
  cases o with
  | none => exact done
  | some a =>
    refine done.bind (collect_lays step) ?_
    intro as s₂ done
    exact done.give (by simp)

lemma elementsAtMost_lays {close : Symbol} {item : Parser α} (h : Lays source item f) (n : ℕ) :
    Lays source (elementsAtMost close item n) fun as => as.flatMap f := by
  induction n with
  | zero => exact fun s hs => Leaves.start hs
  | succ n ih =>
    intro s hs
    refine (Leaves.start hs).skip (eat_quiet _) ?_
    intro there s₁ done
    split
    · exact done
    refine .look rfl ?_
    split
    · exact done
    refine .look rfl (done.bind h ?_)
    intro a s₂ done
    refine .look rfl ?_
    split
    · exact done.give (by simp)
    refine done.bind ih ?_
    intro as s₃ done
    exact done.give (by simp)

lemma elements_lays {close : Symbol} {item : Parser α} (h : Lays source item f) :
    Lays source (elements close item) fun as => as.flatMap f :=
  fun s hs => .look rfl (elementsAtMost_lays h _ s hs)

/-- What is known of whatever a step gives is known of all that a loop gives. -/
lemma collect_yields {P : α → Prop} {step : Parser (Option α)}
    (h : ∀ s, Ends step s fun o _ => ∀ a ∈ o, P a) (s : ParserState) :
    Ends (collect step) s fun as _ => ∀ a ∈ as, P a := by
  have loop (n : ℕ) (s : ParserState) :
      Ends (collectAtMost step n) s fun as _ => ∀ a ∈ as, P a := by
    induction n generalizing s with
    | zero => exact (nofun : ∀ a ∈ [], P a)
    | succ n ih =>
      refine (h s).bind ?_
      intro o s₁ found
      cases o with
      | none => exact (nofun : ∀ a ∈ [], P a)
      | some a => exact (ih s₁).bind fun as s₂ later => List.forall_mem_cons.2 ⟨found a rfl, later⟩
  exact .look rfl (loop _ s)

lemma separated_yields {P : α → Prop} {separator : Symbol} {item : Parser (Option α)}
    (h : ∀ s, Ends item s fun o _ => ∀ a ∈ o, P a) (s : ParserState) :
    Ends (separated separator item) s fun as _ => ∀ a ∈ as, P a := by
  have step (s : ParserState) :
      Ends (do if ← eatSymbol separator then item else return none : Parser (Option α)) s
        fun o _ => ∀ a ∈ o, P a := by
    refine (show Ends (eatSymbol separator) s fun _ _ => True from trivial).bind ?_
    intro there s₁ _
    split
    · exact h s₁
    · exact (nofun : ∀ a ∈ none, P a)
  refine (h s).bind ?_
  intro o s₁ found
  cases o with
  | none => exact (nofun : ∀ a ∈ [], P a)
  | some a =>
    exact (collect_yields step s₁).bind fun as s₂ later =>
      List.forall_mem_cons.2 ⟨found a rfl, later⟩

/-- Extending a value keeps to what was left so far, if every extension does. -/
lemma extendAtMost_leaves {step : α → Parser (Option α)}
    (h : ∀ a s, Leaves source s₀ s started (f a) → Ends (step a) s fun o s' =>
      Leaves source s₀ s' started (f (o.getD a))) (n : ℕ) {a : α}
    (done : Leaves source s₀ s started (f a)) :
    Ends (extendAtMost step n a) s fun b s' => Leaves source s₀ s' started (f b) := by
  induction n generalizing a s with
  | zero => exact done
  | succ n ih =>
    have next := h a s done
    show Ends (step a >>= _) s _
    unfold Ends at next ⊢
    set found := (step a).run s with found_eq
    have run : ∀ k : Option α → Parser α, (step a >>= k).run s = (k found.1).run found.2 :=
      fun _ => rfl
    rw [run]
    rcases found with ⟨_ | b, s'⟩
    · exact next
    · exact ih next

lemma extend_leaves {step : α → Parser (Option α)}
    (h : ∀ a s, Leaves source s₀ s started (f a) → Ends (step a) s fun o s' =>
      Leaves source s₀ s' started (f (o.getD a))) {a : α}
    (done : Leaves source s₀ s started (f a)) :
    Ends (extend step a) s fun b s' => Leaves source s₀ s' started (f b) :=
  .look rfl (extendAtMost_leaves h _ done)

/-- How deep reading is nested does not matter for what it leaves. -/
lemma nested_lays {p : Parser α} (h : Lays source p f) : Lays source (nested p) f := by
  intro s hs
  have inner := h { s with depth := s.depth + 1 } ⟨hs.text, hs.tokens, hs.solid, hs.ended⟩
  have live := inner.live
  refine ⟨⟨⟨live.text, live.tokens, live.solid, live.ended⟩, inner.forward, inner.limit,
    inner.clean, inner.reached, inner.settled, inner.exprs, inner.stmts, inner.unused, ?_⟩, inner.row,
    inner.begun⟩
  intro ended settled
  obtain ⟨ts, took⟩ := inner.took ended settled
  exact ⟨ts, took.tokens, took.forward, took.within, took.last⟩

end Loops

end Parser

/-! ## Completing nodes -/

namespace Leaves

variable {s₀ s : ParserState} {started : Bool} {ns : List Node} {start : ℕ}

/-- Where a node starts whose parts are nodes that were left: where reading started, or where the
first part starts. -/
def StartsAt (s₀ : ParserState) (ns : List Node) (start : ℕ) : Prop :=
  start = s₀.position ∨ ∃ first rest, ns = first :: rest ∧ start = first.span.start

/-- A node that is complete makes all that was left into its parts. -/
theorem closes {s' : ParserState} {n : Node} (h : Leaves source s₀ s started n.parts)
    (some : started = true ∨ n.parts ≠ []) (starts : StartsAt s₀ n.parts n.span.start)
    (stop : n.span.stop = max s.lastEnd n.span.start) (passes : Passes source s s')
    (same : s'.problems = s.problems ∧ s'.reached = s.reached ∧ (s.Settled → s'.Settled))
    (number : Point.Between s.behind s'.behind n.key) (role : n.InRole)
    (formed : s.problems = [] → ∀ e, n.expr? = Option.some e → Node.Formed s.lastEnd e) :
    Leaves source s₀ s' true [n] := by
  obtain ⟨problems, reached, settles⟩ := same
  refine ⟨h.toPasses.trans passes, ?_, ?_⟩
  · intro clean
    rw [problems] at clean
    have row := h.row clean
    obtain ⟨less, settled⟩ := h.begun some clean
    rw [settled.reached] at less
    have lower : ∀ c ∈ n.parts, n.span.start ≤ c.span.start := by
      rcases starts with here | ⟨first, rest, is, here⟩
      · rw [here]
        exact fun c hc => (row.within c hc).1
      · have some := (row.laid first (is ▸ List.mem_cons_self)).here.nonempty
        have apart := row.apart
        rw [is] at apart
        rw [is, here]
        refine List.forall_mem_cons.2 ⟨Nat.le_refl _, fun c hc => ?_⟩
        exact Nat.le_trans some.le ((List.pairwise_cons.1 apart).1 c hc).stop_le
    have bounds : s₀.position ≤ n.span.start ∧ n.span.start < s.lastEnd := by
      rcases starts with here | ⟨first, rest, is, here⟩
      · rw [here]
        exact ⟨Nat.le_refl _, less⟩
      · have mem : first ∈ n.parts := is ▸ List.mem_cons_self
        have within := row.within first mem
        have some := (row.laid first mem).here.nonempty
        rw [here]
        have stop : first.span.stop ≤ s.reached := within.2
        rw [settled.reached] at stop
        exact ⟨within.1, Nat.lt_of_lt_of_le some stop⟩
    have stops : n.span.stop = s.lastEnd := by rw [stop, Nat.max_eq_left bounds.2.le]
    refine row.node number passes.behind ⟨?_, h.exprs, h.stmts⟩ bounds.1 ?_ ?_ ?_ role ?_
    · show s₀.position ≤ s.reached
      rw [settled.reached]
      exact less.le
    · show n.span.stop ≤ s'.reached
      rw [reached, settled.reached, stops]
    · intro c hc
      refine ⟨lower c hc, ?_⟩
      rw [stops, ← settled.reached]
      exact (row.within c hc).2
    · rw [stops]
      exact bounds.2
    · rw [stops]
      exact formed clean
  · intro _ clean
    rw [problems] at clean
    obtain ⟨less, settled⟩ := h.begun some clean
    rw [reached]
    exact ⟨less, settles settled⟩

/-- Completing an expression takes a number and nothing else. -/
lemma counted (h : s.Live source) :
    Passes source s { s with exprCount := s.exprCount + 1 } :=
  ⟨⟨h.text, h.tokens, h.solid, h.ended⟩, Nat.le_refl _, fun _ limit => limit, id, Nat.le_refl _,
    id, Nat.le_succ _, Nat.le_refl _, fun _ _ he => .inl he, fun _ _ => ⟨_, .nothing rfl rfl rfl⟩⟩

/-- Completing a statement takes a number and nothing else. -/
lemma countedStmt (h : s.Live source) :
    Passes source s { s with stmtCount := s.stmtCount + 1 } :=
  ⟨⟨h.text, h.tokens, h.solid, h.ended⟩, Nat.le_refl _, fun _ limit => limit, id, Nat.le_refl _,
    id, Nat.le_refl _, Nat.le_succ _, fun _ _ he => .inl he, fun _ _ => ⟨_, .nothing rfl rfl rfl⟩⟩

lemma complete_keeps (span : Span) (build : Mark → Expr) :
    Keeps source (Parser.complete span build) := fun _ hs => counted hs

lemma completeStmt_keeps (span : Span) (build : Mark → Stmt) :
    Keeps source (Parser.completeStmt span build) := fun _ hs => countedStmt hs

/-- An expression is complete that reaches to the last token taken. -/
theorem complete (wrap : Expr → Node) {span : Span} (h : Leaves source s₀ s started ns)
    (some : started = true ∨ ns ≠ []) (build : Mark → Expr) (starts : StartsAt s₀ ns span.start)
    (stop : span.stop = max s.lastEnd span.start) (wraps : ∀ e, (wrap e).expr? = Option.some e)
    (shape : ∀ m, (build m).mark = m ∧ (wrap (build m)).parts = ns ∧ (wrap (build m)).InRole)
    (formed : s.problems = [] → ∀ m, Node.Formed s.lastEnd (build m)) :
    Ends (Parser.complete span build) s fun e s' => Leaves source s₀ s' false [wrap e] := by
  set m : Mark := ⟨s.exprCount, span⟩ with m_eq
  obtain ⟨mark, parts, role⟩ := shape m
  have at_ : (wrap (build m)).span = span := by
    rw [Node.span_of_expr? (wraps _), Expr.span, mark]
  have key : (wrap (build m)).key = .expr s.exprCount := by
    rw [Node.key_of_expr? (wraps _), Expr.serial, mark]
  show Leaves source s₀ _ false [wrap (build m)]
  refine weaken (closes (n := wrap (build m)) (h.congr parts.symm) (parts ▸ some) ?_ ?_ (counted h.live)
    ⟨rfl, rfl, id⟩ ?_ role ?_)
  · rw [parts, at_]
    exact starts
  · rw [at_]
    exact stop
  · rw [key]
    exact ⟨Nat.le_refl _, Nat.lt_succ_self _⟩
  · intro clean e is
    obtain rfl := Option.some.inj ((wraps _).symm.trans is)
    exact formed clean m

/-- An expression that is read, other than an attribute access. -/
theorem completeFrom {start : ℕ} (h : Leaves source s₀ s started ns) (build : Mark → Expr)
    (starts : StartsAt s₀ ns start) (some : started = true ∨ ns ≠ [])
    (shape : ∀ m, (build m).mark = m ∧ (Node.read (build m)).parts = ns
      ∧ (Node.read (build m)).InRole)
    (formed : ∀ m stop, Node.Formed stop (build m)) :
    Ends (Parser.completeFrom start build) s fun e s' => Leaves source s₀ s' false [.read e] :=
  .look rfl (h.complete .read some build starts rfl (fun _ => rfl) shape
    fun _ m => formed m _)

/-- An expression that is a single token. -/
lemma completeToken (wrap : Expr → Node) (h : s.Live source)
    (takes : s.current.kind.takesSpace = true) (build : Mark → Expr)
    (wraps : ∀ e, (wrap e).expr? = Option.some e)
    (shape : ∀ m, (build m).mark = m ∧ (wrap (build m)).parts = [] ∧ (wrap (build m)).InRole)
    (formed : ∀ m stop, Node.Formed stop (build m)) :
    Ends (Parser.complete s.current.span build) (Parser.advance s)
      fun e s' => Leaves source s s' false [wrap e] := by
  have solid := h.solid s.current List.mem_cons_self takes
  refine (Parser.advance_leaves h takes).complete wrap (.inl rfl) build (.inl rfl) ?_ wraps shape
    fun _ m => formed m _
  rw [TokenKind.takesSpace, Bool.and_eq_true, Bool.not_eq_true', bne_iff_ne] at takes
  rw [Parser.advance_lastEnd takes.2 takes.1]
  exact (Nat.max_eq_left solid.le).symm

/-- A statement is complete that reaches to the last token taken. -/
theorem completeStmt {span : Span} (h : Leaves source s₀ s started ns) (build : Mark → Stmt)
    (starts : StartsAt s₀ ns span.start) (some : started = true ∨ ns ≠ [])
    (stop : span.stop = max s.lastEnd span.start)
    (shape : ∀ m, (build m).mark = m ∧ (Node.stmt (build m)).parts = ns) :
    Ends (Parser.completeStmt span build) s fun d s' => Leaves source s₀ s' false [.stmt d] := by
  set m : Mark := ⟨s.stmtCount, span⟩ with m_eq
  obtain ⟨mark, parts⟩ := shape m
  have at_ : (build m).span = span := congrArg Mark.span mark
  have serial : (build m).serial = s.stmtCount := congrArg Mark.serial mark
  show Leaves source s₀ _ false [.stmt (build m)]
  refine weaken (closes (n := .stmt (build m)) (h.congr parts.symm) (parts ▸ some) ?_ ?_
    (countedStmt h.live) ⟨rfl, rfl, id⟩ ?_ trivial nofun)
  · rw [parts, Node.span_stmt, at_]
    exact starts
  · rw [Node.span_stmt, at_]
    exact stop
  · show Point.Between _ _ (.stmt (build m).serial)
    rw [serial]
    exact ⟨Nat.le_refl _, Nat.lt_succ_self _⟩

lemma completeStmtFrom {start : ℕ} (h : Leaves source s₀ s started ns) (build : Mark → Stmt)
    (starts : StartsAt s₀ ns start) (some : started = true ∨ ns ≠ [])
    (shape : ∀ m, (build m).mark = m ∧ (Node.stmt (build m)).parts = ns) :
    Ends (Parser.completeStmtFrom start build) s
      fun d s' => Leaves source s₀ s' false [.stmt d] :=
  .look rfl (h.completeStmt build starts some rfl shape)

/-- Parentheses around an expression become part of its span. -/
lemma widen {e : Expr} (h : Leaves source s₀ s started [.read e]) :
    Leaves source s₀ s started [.read (e.withSpan ⟨s₀.position, max s.lastEnd s₀.position⟩)] := by
  refine ⟨h.toPasses, ?_, fun _ => h.begun (.inr (List.cons_ne_nil _ _))⟩
  intro clean
  have row := h.row clean
  obtain ⟨less, settled⟩ := h.begun (.inr (List.cons_ne_nil _ _)) clean
  obtain ⟨start, stop⟩ := row.within _ List.mem_cons_self
  have stop' : e.span.stop ≤ s.reached := stop
  rw [settled.reached] at less stop'
  have wide : max s.lastEnd s₀.position = s.lastEnd := Nat.max_eq_left less.le
  refine row.withSpan (.refl _) (.refl _) ⟨Nat.le_refl _, start⟩ ⟨?_, ?_⟩
  · show e.span.stop ≤ max s.lastEnd s₀.position
    rw [wide]
    exact stop'
  · show max s.lastEnd s₀.position ≤ s.reached
    rw [wide, settled.reached]

/-- What a node consists of is left where the node is. -/
lemma parts {n : Node} (h : Leaves source s₀ s true [n]) : Leaves source s₀ s true n.parts :=
  ⟨h.toPasses, fun clean => (h.row clean).parts, fun _ => h.begun (.inl rfl)⟩

end Leaves

/-! ## Targets -/

lemma Parser.noteAll_run (cause : Problem.Cause) (spans : List Span) (s : ParserState) :
    (spans.forM (noteAt cause ·)).run s = ((), { s with
      problems := (spans.map (Problem.mk cause)).reverse ++ s.problems }) := by
  induction spans generalizing s with
  | nil => rfl
  | cons span spans ih =>
    have later := ih { s with problems := ⟨cause, span⟩ :: s.problems }
    rw [List.forM_eq_forM, List.forM_cons]
    have run : (noteAt cause span >>= fun _ => forM spans (noteAt cause ·)).run s
        = (spans.forM (noteAt cause ·)).run
          { s with problems := ⟨cause, span⟩ :: s.problems } := rfl
    rw [run, later]
    simp

lemma Parser.target_run (ctx : Context) (e : Expr) (s : ParserState) :
    (target ctx e).run s = (e.retarget ctx, { s with
      problems := (e.untargetable.map (Problem.mk ctx.refusal)).reverse ++ s.problems }) := by
  have whole : (target ctx e).run s = (e.retarget ctx,
      ((e.untargetable.forM (noteAt ctx.refusal ·)).run s).2) := rfl
  rw [whole, noteAll_run]

lemma Parser.target_keeps (ctx : Context) (e : Expr) : Keeps source (target ctx e) := by
  intro s hs
  unfold Ends
  rw [target_run]
  exact ⟨⟨hs.text, hs.tokens, hs.solid, hs.ended⟩, Nat.le_refl _, fun _ limit => limit,
    fun clean => (List.append_eq_nil_iff.1 clean).2, Nat.le_refl _, id, Nat.le_refl _,
    Nat.le_refl _, fun _ _ he => .inl he, fun _ _ => ⟨_, .nothing rfl rfl rfl⟩⟩

namespace Leaves

variable {s₀ s : ParserState} {started : Bool} {ns ms : List Node} {e : Expr}

/-- A node that was left becomes a target. -/
theorem target (ctx : Context) (change : ctx ≠ .load)
    (h : Leaves source s₀ s started (ns ++ .read e :: ms)) : Ends (Parser.target ctx e) s
      fun t s' => Leaves source s₀ s' started (ns ++ .target t :: ms) := by
  have passes := Parser.target_keeps ctx e s h.live
  unfold Ends at passes ⊢
  rw [Parser.target_run] at passes ⊢
  refine ⟨h.toPasses.trans passes, ?_, ?_⟩
  · intro clean
    obtain ⟨can, clean⟩ := List.append_eq_nil_iff.1 clean
    have can : e.untargetable = [] := by simpa using can
    exact (h.row clean).retarget change can
  · intro some clean
    have some' : started = true ∨ ns ++ .read e :: ms ≠ [] := some.imp_right fun _ => by simp
    exact h.begun some' (List.append_eq_nil_iff.1 clean).2

/-- Several nodes become targets, one after the other. -/
lemma targets {es : List Expr} (ctx : Context) (change : ctx ≠ .load)
    (h : Leaves source s₀ s started (ns ++ Node.reads es ++ ms)) :
    Ends (es.mapM (Parser.target ctx)) s
      fun ts s' => Leaves source s₀ s' started (ns ++ Node.targets ts ++ ms) := by
  induction es generalizing s ns with
  | nil =>
    rw [List.mapM_nil]
    exact h
  | cons e es ih =>
    rw [List.mapM_cons]
    have first : Leaves source s₀ s started (ns ++ .read e :: (Node.reads es ++ ms)) :=
      h.congr (by simp [Node.reads])
    refine (first.target ctx change).bind ?_
    intro t s₁ done
    have next : Leaves source s₀ s₁ started (ns ++ [.target t] ++ Node.reads es ++ ms) :=
      done.congr (by simp)
    refine (ih next).bind ?_
    intro ts s₂ done
    exact done.give (f := fun ts => ns ++ Node.targets ts ++ ms) (by simp [Node.targets])

/-- Tuples that the tree does not use are remembered. -/
lemma discard {es : List Expr} (h : Leaves source s₀ s started ns) (tuples : ∀ e ∈ es, e.IsTuple) :
    Ends (Parser.discard es) s fun _ s' => Leaves source s₀ s' started ns := by
  have passes : Passes source s { s with unused := es.reverse ++ s.unused } := by
    refine ⟨⟨h.live.text, h.live.tokens, h.live.solid, h.live.ended⟩, Nat.le_refl _,
      fun _ limit => limit, id, Nat.le_refl _, id, Nat.le_refl _, Nat.le_refl _, fun _ e he => ?_,
      fun _ _ => ⟨_, .nothing rfl rfl rfl⟩⟩
    rcases List.mem_append.1 he with he | he
    · exact .inr (tuples e (List.mem_reverse.1 he))
    · exact .inl he
  exact ⟨h.toPasses.trans passes, h.row, h.begun⟩

end Leaves

/-- In a text with problems, it does not matter what is remembered. -/
lemma Spoilt.discard {s₀ s : ParserState} {es : List Expr} (h : Spoilt source s₀ s) :
    Ends (Parser.discard es) s fun _ s' => Spoilt source s₀ s' := by
  have live := h.passes.live
  refine ⟨h.passes.trans ?_, h.problems⟩
  exact ⟨⟨live.text, live.tokens, live.solid, live.ended⟩, Nat.le_refl _, fun _ limit => limit, id,
    Nat.le_refl _, id, Nat.le_refl _, Nat.le_refl _, fun clean => absurd clean h.problems,
    fun _ _ => ⟨_, .nothing rfl rfl rfl⟩⟩

/-! ## Fields -/

namespace Parser

/-- The tokens of a part of the text stand in it. -/
lemma lexBracketed_stop_le {before text : List Char} {t : Token}
    (ht : t ∈ (lexBracketed (Text.width before) text).tokens) :
    t.span.stop ≤ Text.width (before ++ text) := by
  have whole : before ++ text = before ++ text ++ [] := (List.append_nil _).symm
  exact ((lexFrom_placed whole rfl).tokens.each t ht).span.stop.le_width

/-- Reading a field starts with all tokens of the field. -/
lemma field_tokens (span : Span) (text : List Char) :
    (lexBracketed span.start text).tokens.headD ⟨.endOfFile, "", .point span.stop⟩
      :: (lexBracketed span.start text).tokens.tail = (lexBracketed span.start text).tokens := by
  obtain ⟨front, last, whole, -⟩ := lexFrom_complete .bracketed span.start text
  cases parts : (lexBracketed span.start text).tokens with
  | cons t ts => rfl
  | nil => exact absurd (whole.symm.trans parts) (by simp)

/-- Where a field that is not empty is read, its tokens stand in the field. -/
lemma field_live {s : ParserState} {span : Span} {text : List Char}
    (slice : Text.slice source span = text) (some : text ≠ []) (hs : s.Live source) :
    let lexed := lexBracketed span.start text
    let inner : ParserState := { s with
      current := lexed.tokens.headD ⟨.endOfFile, "", .point span.stop⟩
      later := lexed.tokens.tail
      problems := lexed.problems.reverse ++ s.problems }
    inner.Live source ∧ span.start ≤ inner.position
      ∧ ∀ t ∈ inner.current :: inner.later, t.span.stop ≤ span.stop := by
  intro lexed inner
  obtain ⟨before, after, whole, start, stop⟩ := Text.slice_ne_nil (slice ▸ some)
  rw [slice] at whole stop
  have placed : lexed.Placed source span.start := lexFrom_placed whole start
  have solid : ∀ t ∈ lexed.tokens, t.Solid := lexFrom_solid _ _ _
  have limit : ∀ t ∈ lexed.tokens, t.span.stop ≤ span.stop := by
    intro t ht
    rw [← stop]
    refine lexBracketed_stop_le ?_
    rw [start]
    exact ht
  have tokens : inner.current :: inner.later = lexed.tokens := field_tokens span text
  have ended : inner.Ended := by
    rw [ParserState.Ended, tokens]
    exact lexFrom_complete _ _ _
  have first : inner.current ∈ lexed.tokens := tokens ▸ List.mem_cons_self
  exact ⟨⟨hs.text, tokens ▸ placed.tokens, tokens ▸ solid, ended⟩, placed.ahead _ first,
    tokens ▸ limit⟩

end Parser

end MethodLift.Syntax
