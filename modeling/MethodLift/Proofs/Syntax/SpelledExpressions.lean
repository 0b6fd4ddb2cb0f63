import MethodLift.Proofs.Syntax.Expressions
import MethodLift.Proofs.Syntax.Fields
import MethodLift.Proofs.Syntax.Gathering

/-!
# Reading spells expressions

Each level of the grammar of expressions reads what its result consists of, if the levels that it
goes back to do.  The circle is tied by induction on the number of rounds (`Rules.upTo_spelling`).

How tightly an expression binds follows from the level that reads it, with one exception.  The loop
over binary operators puts what it has read so far to the left of the next operator, and that is
right because the operand that was read last stopped at this operator: the next operator is not
tighter than the last one (`Halts`).  So the loop has to be known to end where no operator of its
level follows, and not because it was repeated often enough.

Where expressions are nested too deeply a problem is noted whichever level finds out, and nothing has
to be said of the tokens (`Rules.Spelling.deep`).
-/

namespace MethodLift.Syntax

open Segment (nodes sign word)

variable {source : List Char} {rules : Rules}

/-- From everywhere, a step reads an expression that may stand in a place. -/
abbrev SpellsExpr (source : List Char) (p : Parser Expr) (q : Position) : Prop :=
  Spells source p fun e => [.part q e]

/-- No binary operator of a level follows, and none that binds more tightly. -/
def Halts (level : ℕ) (s : ParserState) : Prop :=
  ∀ op l, Parser.binaryOperator? s.current.kind = some (op, l) → l < level

/-- The levels of the grammar that others go back to read what their results consist of. -/
structure Rules.Spelling (source : List Char) (rules : Rules) : Prop where
  expression : SpellsExpr source rules.expression (.operand 1)
  disjunction : SpellsExpr source rules.disjunction (.operand 2)
  negation : SpellsExpr source rules.negation (.operand 4)
  binary : ∀ level ≤ 6, SpellsExpr source (rules.binary level) (.operand (6 + level))
  unary : SpellsExpr source rules.unary (.operand 12)
  halts : ∀ level ≤ 6, ∀ s, Ends (rules.binary level) s fun _ s' =>
    s'.problems = [] → s.Ready source → Halts level s'
  deep : ∀ s : ParserState, Parser.maxNesting ≤ s.depth →
    Ends rules.expression s fun _ s' => s'.problems ≠ []

/-! ## Wider places and other forms -/

namespace Gathers

variable {s₀ s : ParserState} {xs : List Segment} {p q : Position} {e : Expr}

/-- What may stand in one place may stand in a wider one. -/
lemma within (h : Gathers source s₀ s (xs ++ [.part p e])) (le : p.Within q) :
    Gathers source s₀ s (xs ++ [.part q e]) := by
  refine h.recast (by simp) fun ts spelled => ?_
  obtain ⟨front, back, rfl, first, second⟩ := spelled.split
  exact first.append (second.within le)

lemma weaken (h : Gathers source s₀ s [.part p e]) (le : p.Within q) :
    Gathers source s₀ s [.part q e] := h.recast rfl fun _ spelled => spelled.within le

/-- With problems, only the nodes count. -/
lemma spoilt {ys : List Segment} (h : Gathers source s₀ s xs) (problems : s.problems ≠ [])
    (same : nodes ys = nodes xs) : Gathers source s₀ s ys := by
  have broken : Broken source s₀ s xs := h.mono fun clean => absurd clean problems
  exact broken.gathers same

end Gathers

lemma Spells.within {p : Parser Expr} {a b : Position} (h : SpellsExpr source p a)
    (le : a.Within b) : SpellsExpr source p b :=
  fun s => (Gathers.start source s).last h fun _ _ done => done.within le

/-- An expression that may be there. -/
lemma Spells.some {p : Parser Expr} {a : Position} (h : SpellsExpr source p a) :
    Spells source (Option.some <$> p) (Segment.maybe a) := h.map

lemma Spells.none {a : Position} : Spells source (Pure.pure Option.none : Parser (Option Expr))
    (Segment.maybe a) := .pure rfl

/-- What a step gives has a property, if reading could go on before it and no problem was noted. -/
def Tells (source : List Char) {α : Type} (p : Parser α) (R : α → Prop) : Prop :=
  ∀ s : ParserState, Ends p s fun a s' => (s'.problems = [] → s.problems = [])
    ∧ (s'.problems = [] → s.Ready source → s'.Ready source ∧ R a)

lemma Tells.pure {α : Type} {a : α} {R : α → Prop} (h : R a) : Tells source (Pure.pure a) R :=
  fun _ => ⟨id, fun _ ready => ⟨ready, h⟩⟩

lemma Skips.tells {α : Type} {p : Parser α} (h : Skips source p) : Tells source p fun _ => True :=
  fun s => ⟨(h s).clean, fun clean ready => ⟨((h s).spelled clean ready).1, trivial⟩⟩

lemma Tells.mono {α : Type} {p : Parser α} {R Q : α → Prop} (h : Tells source p R)
    (weaker : ∀ a, R a → Q a) : Tells source p Q :=
  fun s => ⟨(h s).1, fun clean ready => ((h s).2 clean ready).imp_right (weaker _)⟩

/-- One step after the other. -/
lemma Tells.bind {α β : Type} {p : Parser α} {g : α → Parser β} {R : α → Prop} {Q : β → Prop}
    (first : Tells source p R) (rest : ∀ a, Tells source (g a) fun b => R a → Q b) :
    Tells source (p >>= g) Q := by
  intro s
  obtain ⟨clean, here⟩ := first s
  obtain ⟨clean', there⟩ := rest (p.run s).1 (p.run s).2
  refine ⟨fun none => clean (clean' none), fun none ready => ?_⟩
  obtain ⟨ready, is⟩ := here (clean' none) ready
  obtain ⟨ready, known⟩ := there none ready
  exact ⟨ready, known is⟩

/-- One thing and those that follow it. -/
lemma separated_tells {α : Type} {symbol : Symbol} {item : Parser (Option α)} {R : α → Prop}
    (h : Tells source item fun o => ∀ a ∈ o, R a) :
    Tells source (Parser.separated symbol item) fun as => ∀ a ∈ as, R a := by
  have next : Tells source (do if ← Parser.eatSymbol symbol then item else return none)
      fun o => ∀ a ∈ o, R a := by
    refine (Parser.eat_skips _).tells.bind fun there => ?_
    split
    · exact h.mono fun _ is _ => is
    · exact .pure fun _ => nofun
  have loop (n : ℕ) : Tells source (Parser.collectAtMost
      (do if ← Parser.eatSymbol symbol then item else return none) n) fun as => ∀ a ∈ as, R a := by
    induction n with
    | zero => exact .pure nofun
    | succ n ih =>
      refine next.bind fun o => ?_
      cases o with
      | none => exact .pure fun _ => nofun
      | some a =>
        refine ih.bind fun as => .pure fun later first => ?_
        exact List.forall_mem_cons.2 ⟨first a rfl, later⟩
  refine h.bind fun o => ?_
  cases o with
  | none => exact .pure fun _ => nofun
  | some a =>
    refine Tells.bind (R := fun as => ∀ a ∈ as, R a) (fun s => .look rfl (loop _ s)) fun as =>
      .pure fun later first => ?_
    exact List.forall_mem_cons.2 ⟨first a rfl, later⟩

/-- What stands between two symbols. -/
lemma Spelled.bracketed {opening closing : Symbol} {xs : List Segment} {ts : List Token}
    (h : Spelled source (sign opening :: xs ++ [sign closing]) ts) :
    ∃ o mid c, ts = o :: mid ++ [c] ∧ o.kind = .symbol opening ∧ c.kind = .symbol closing
      ∧ Spelled source xs mid := by
  obtain ⟨_, _, rfl, first, rest⟩ := Spelled.uncons h
  obtain ⟨mid, _, rfl, inside, last⟩ := rest.split
  obtain ⟨o, rfl, opens⟩ := first.leaf_of_single nofun nofun nofun
  obtain ⟨c, rfl, closes⟩ := last.leaf_of_single nofun nofun nofun
  exact ⟨o, mid, c, rfl, opens, closes, inside⟩

/-- The span from where reading started to the last token taken. -/
lemma Taken.span_eq {s₀ s : ParserState} {o c : Token} {mid : List Token}
    (h : Taken s₀ s (o :: mid ++ [c])) (ready : s₀.Ready source)
    (takes : c.kind.takesSpace = true) :
    (⟨o.span.start, c.span.stop⟩ : Span) = ⟨s₀.position, max s.lastEnd s₀.position⟩ := by
  obtain rfl : o = s₀.current := h.head rfl
  have lastEnd : s.lastEnd = c.span.stop := by
    rw [h.lastEnd, lastStop?_append, lastStop?_singleton takes]
    rfl
  have order : s₀.position ≤ c.span.stop :=
    ready.live.position_le (h.tokens ▸ by simp)
  rw [lastEnd, Nat.max_eq_left order]

namespace Gathers

variable {s₀ s : ParserState}

/-- Where an expression was read last, it ends where the last token taken does. -/
lemma reached {xs : List Segment} {p : Position} {e : Expr}
    (h : Gathers source s₀ s (xs ++ [.part p e])) (clean : s.problems = [])
    (ready : s₀.Ready source) : max s.lastEnd s₀.position = e.span.stop := by
  obtain ⟨-, ts, taken, spelled⟩ := h.spelled clean ready
  obtain ⟨front, back, rfl, -, last⟩ := spelled.split
  have covers := last.covers_part
  have lastEnd : s.lastEnd = e.span.stop := by
    rw [taken.lastEnd, lastStop?_append, covers.stop]
    rfl
  obtain ⟨t, ht, -, stops⟩ := exists_of_lastStop? covers.stop
  have order : s₀.position ≤ t.span.stop := by
    apply ready.live.position_le
    rw [taken.tokens]
    simp [ht]
  rw [lastEnd, ← stops, Nat.max_eq_left order]

/-- Parentheses around an expression become part of its span. -/
theorem widen {e : Expr} (p : Position)
    (h : Gathers source s₀ s [sign .leftParen, .part .enclosed e, sign .rightParen]) :
    Gathers source s₀ s [.part p (e.withSpan ⟨s₀.position, max s.lastEnd s₀.position⟩)] := by
  set d := e.withSpan ⟨s₀.position, max s.lastEnd s₀.position⟩ with d_eq
  have seen : Yields source s₀ s [.read e] (Spelled source [.part p d]) := by
    refine h.mono fun _ ready ts taken spelled => ?_
    have apart : Spelled source (sign .leftParen :: [.part .enclosed e] ++ [sign .rightParen]) ts :=
      spelled
    obtain ⟨o, mid, c, rfl, opens, closes, inside⟩ := apart.bracketed
    refine .paren opens closes ?_ inside .nil
    rw [taken.span_eq ready (by rw [closes]; rfl)]
  refine seen.perm (.of_eq ?_) fun all => ?_
  · simp [Node.numbers, d_eq]
  · simpa [Node.Descending] using (all _ List.mem_cons_self).withSpan _

/-- A generator is complete whose parentheses belong to its span. -/
theorem completeGenerator {first : Expr} {clauses : List (Generator Expr)} (p : Position)
    (h : Gathers source s₀ s (sign .leftParen :: Expr.clauseSegments first none clauses
      ++ [sign .rightParen])) :
    Ends (Parser.completeFrom s₀.position (.comprehension · .generator first none clauses)) s
      fun e s' => Gathers source s₀ s' [.part p e] := by
  refine .look rfl (Yields.complete (Q := fun e => Spelled source [.part p e]) h .element
    (fun m => ⟨rfl, by simp [Expr.segments]⟩) ?_)
  intro _ ready ts taken spelled m span
  obtain ⟨o, mid, c, rfl, opens, closes, inside⟩ := spelled.bracketed
  obtain ⟨stop, last⟩ := inside.exists_lastStop? rfl
  obtain ⟨t, ht, -⟩ := exists_of_lastStop? last
  obtain ⟨t, mid, rfl⟩ := List.exists_cons_of_ne_nil (List.ne_nil_of_mem ht)
  refine .paren (e := .comprehension ⟨m.serial, ⟨t.span.start, stop⟩⟩ .generator first none clauses)
    opens closes ?_ ?_ .nil
  · have at_ : m.span = ⟨s₀.position, max s.lastEnd s₀.position⟩ := span
    rw [taken.span_eq ready (by rw [closes]; rfl), ← at_]
    rfl
  · rw [← List.append_nil (t :: mid)]
    exact .bare rfl ⟨⟨t, rfl, rfl⟩, last⟩ inside .nil

end Gathers

namespace Parser

variable {s s₁ : ParserState} {xs : List Segment}

/-- The token after the current one. -/
lemma advance_kind {k : TokenKind} (more : s.current.kind ≠ .endOfFile) (some : k ≠ .endOfFile)
    (next : (s.later.head?.map (·.kind)).getD .endOfFile = k) : (advance s).current.kind = k := by
  have other : (s.current.kind == .endOfFile) = false := by simpa using more
  rw [advance, other, if_neg Bool.false_ne_true]
  cases later : s.later with
  | nil =>
    rw [later] at next
    exact absurd next.symm some
  | cons t ts =>
    rw [later] at next
    exact next

/-! ## Stars, walruses and lists -/

section

variable (hr : rules.Spelling source)
include hr

lemma starredOr_spells {other : Parser Expr} {q : Position} (h : SpellsExpr source other q)
    (starred : q.admits .starred = true) : SpellsExpr source (starredOr rules other) q := by
  intro s
  refine .look rfl ?_
  split
  next star =>
    refine (Gathers.start source s).bump (eq_of_beq star) nofun fun begun => ?_
    refine begun.bind (hr.binary 0 (by decide)) ?_
    intro value s₁ done
    exact done.completeFrom q (.starred · value .load) (.inl rfl) rfl (fun _ => ⟨rfl, rfl⟩)
      (fun _ => starred)
  · exact h s

lemma namedExpression_spells : SpellsExpr source (namedExpression rules) .named := by
  intro s
  refine .look rfl (.look rfl ?_)
  split
  next walrus =>
    obtain ⟨isName, isNext⟩ := Bool.and_eq_true_iff.1 walrus
    have name : s.current.kind = .name := eq_of_beq isName
    have colonEqual : (advance s).current.kind = .symbol .colonEqual :=
      advance_kind (by rw [name]; nofun) nofun (eq_of_beq isNext)
    refine (Gathers.start source s).bump name nofun fun _ => ?_
    have left : Ends (complete s.current.span (.name · s.current.text .store)) (advance s)
        fun e s' => Gathers source s s' [.operand 15 e]
          ∧ s'.current.kind = .symbol .colonEqual :=
      ⟨Gathers.completeToken (x := .id s.current.text) (.operand 15) ⟨_, rfl, name, rfl⟩ rfl
        (by rw [name]; rfl) (.name · s.current.text .store) (fun _ => ⟨rfl, rfl⟩) (fun _ => rfl),
        colonEqual⟩
    refine left.bind ?_
    rintro target s₁ ⟨done, isNext⟩
    refine done.bump isNext nofun fun done => ?_
    refine done.bind hr.expression ?_
    intro value s₂ done
    exact done.completeFrom .named (.named · target value) (.inl rfl) rfl (fun _ => ⟨rfl, rfl⟩)
      (fun _ => rfl)
  · exact hr.expression.within (by decide) s

lemma element_spells : SpellsExpr source (element rules) .element :=
  starredOr_spells hr ((namedExpression_spells hr).within (by decide)) rfl

lemma operand_spells : SpellsExpr source (Parser.operand rules) .target :=
  starredOr_spells hr ((hr.binary 0 (by decide)).within (by decide)) rfl

omit hr in
/-- One thing, or a bare tuple of several, where such a tuple may stand. -/
lemma tupleOf_spells {item : Parser Expr} {mayFollow : Parser Bool} {q : Position}
    (h : SpellsExpr source item q.inner) (looks : ∀ s, (mayFollow.run s).2 = s)
    (one : q.inner.Within q) (many : q.admits .bareTuple = true) :
    SpellsExpr source (tupleOf item mayFollow) q := by
  intro s
  refine (Gathers.start source s).bind h ?_
  intro first s₁ done
  refine .look rfl ?_
  split
  · exact done.within one
  have step : Spells source (do
      if (← eatSymbol .comma) && (← mayFollow) then return some (← item) else return none :
      Parser (Option Expr))
      fun o => o.elim [.optional [.symbol .comma]] fun e => [sign .comma, .part q.inner e] := by
    intro s
    refine (Gathers.start source s).eat (k := .symbol .comma) nofun (fun s₁ done => ?_) fun _ => ?_
    · refine .look (looks s₁) ?_
      split
      · exact done.bind h fun e s₂ done => done
      · exact trailing .comma done
    · refine .look (looks s) ?_
      exact absent [.symbol .comma] (.start source s)
  refine done.bind (collect_spells step rfl (.single (.inl rfl))) ?_
  intro others s₂ done
  exact done.completeFrom q (.tuple · (first :: others) .load false) (.inr ⟨_, _, _, rfl, rfl⟩) rfl
    (fun _ => ⟨rfl, by simp [Expr.segments, Segment.parts, Segment.list, List.flatMap_map]⟩)
    (fun _ => many)

lemma expressions_spells : SpellsExpr source (expressions rules) .expressions :=
  tupleOf_spells (element_spells hr) (fun _ => rfl) (by decide) rfl

lemma operands_spells : SpellsExpr source (operands rules) .targets :=
  tupleOf_spells (operand_spells hr) (fun _ => rfl) (by decide) rfl

lemma yieldExpression_spells {q : Position} (h : Gathers source s₁ s xs)
    (admits : q.admits .yield = true) (there : s.current.kind = .keyword .kYield) :
    Ends (yieldExpression rules) s fun e s' => Gathers source s₁ s' (xs ++ [.part q e]) := by
  have whole : Ends (yieldExpression rules) s fun e s' => Gathers source s s' [.part q e] := by
    refine (Gathers.start source s).bump there nofun fun begun => ?_
    refine begun.eat (k := .keyword .kFrom) nofun (fun s₂ done => ?_) fun _ => ?_
    · refine done.bind hr.expression ?_
      intro value s₃ done
      exact done.completeFrom q (.yieldFrom · value) (.inl rfl) rfl (fun _ => ⟨rfl, rfl⟩)
        (fun _ => admits)
    · refine .look rfl (begun.choice (expressions_spells hr).some .none ?_)
      intro value s₂ done
      exact done.completeFrom q (.yield · value) (.inl rfl) rfl (fun _ => ⟨rfl, rfl⟩)
        (fun _ => admits)
  exact h.append whole

lemma value_spells : SpellsExpr source (value rules) .value := by
  intro s
  refine .look rfl ?_
  split
  next there =>
    exact yieldExpression_spells hr (Gathers.start source s) rfl (eq_of_beq there)
  · exact (expressions_spells hr).within (by decide) s

/-! ## Parameters and lambdas -/

omit hr in
lemma paramHead?_spells : Spells source paramHead? fun o => o.elim [] fun head =>
    head.1.segments ++ head.2.toList.map .name := by
  intro s
  have begun := Gathers.start source s
  refine .look rfl ?_
  split
  next is => exact begun.bump is nofun fun done => done
  next is =>
    refine begun.bump is nofun fun done => ?_
    refine done.bind name?_spells ?_
    intro name s₁ done
    split
    · exact done
    · exact done
  next is =>
    refine begun.bump is nofun fun done => ?_
    exact done.bind nameOrMissing_spells fun ident s₁ done => done
  next is =>
    exact begun.bind name?_spells fun name s₁ done => done
  · exact begun.note fun s₁ broken => broken.gathers rfl

omit hr in
lemma after?_spells {symbol : Symbol} {step : Parser Expr} {q : Position}
    (h : SpellsExpr source step q) : Spells source (after? symbol step) (Segment.after symbol q) :=
  (afterEaten_spells (k := .symbol symbol) nofun h).congr fun o => by cases o <;> rfl

omit hr in
lemma none_spells {symbol : Symbol} {q : Position} :
    Spells source (pure none : Parser (Option Expr)) (Segment.after symbol q) := .pure rfl

lemma param?_spells (close : Symbol) (annotated : Bool) :
    Spells source (param? rules close annotated) fun o => o.elim [] Param.segments := by
  intro s
  refine .look rfl (.look rfl ?_)
  split
  · exact Gathers.start source s
  refine .look rfl ((Gathers.start source s).bind paramHead?_spells ?_)
  intro head s₁ done
  split
  · exact done
  refine done.choice (after?_spells hr.expression) none_spells ?_
  intro annotation s₂ done
  refine done.choice (after?_spells hr.expression) none_spells ?_
  intro default s₃ done
  exact .look rfl done

lemma params_spells (close : Symbol) (annotated : Bool) :
    Spells source (params rules close annotated) fun ps => Segment.list (ps.map Param.segments) :=
  separated_spells (param?_spells hr close annotated)

lemma lambda_spells (there : s.current.kind = .keyword .kLambda) :
    Ends (lambda rules) s fun e s' => Gathers source s s' [.operand 1 e] := by
  refine (Gathers.start source s).bump there nofun fun begun => ?_
  refine .look rfl (begun.bind (params_spells hr .colon false) ?_)
  intro ps s₁ done
  refine .look rfl (done.bind (expectSymbol_spells .colon) ?_)
  intro _ s₂ done
  refine done.bind hr.expression ?_
  intro body s₃ done
  exact done.completeFrom (.operand 1) (.lambda · ⟨ps, _⟩ body) (.inl rfl) rfl
    (fun _ => ⟨rfl, by simp [Expr.segments]⟩) (fun _ => rfl)

/-! ## Comprehensions -/

omit hr in
/-- The words before the target of a clause. -/
lemma clauseWords_spell {g : Bool → Parser β} {post : β → ParserState → Prop}
    (begun : Gathers source s₁ s xs)
    (there : ((s.current.kind == .keyword .kFor) || ((s.current.kind == .keyword .kAsync)
      && ((s.later.head?.map (·.kind)).getD .endOfFile == .keyword .kFor))) = true)
    (rest : ∀ isAsync s', Gathers source s₁ s'
      (xs ++ (if isAsync then [word .kAsync] else []) ++ [word .kFor]) → Ends (g isAsync) s' post) :
    Ends (do
      let isAsync ← eatKeyword .kAsync
      let _ ← bump
      g isAsync) s post := by
  refine eat_cases (.keyword .kAsync) s (fun isAsync => ?_) fun other => ?_
  · have next : (advance s).current.kind = .keyword .kFor := by
      refine advance_kind (by rw [isAsync]; nofun) nofun ?_
      simpa [isAsync] using there
    have taken := begun.take (x := .token (.keyword .kAsync)) ⟨_, rfl, isAsync⟩ rfl
      (by rw [isAsync]; nofun)
    exact taken.bump next nofun fun done => rest true _ done
  · have isFor : s.current.kind = .keyword .kFor := by simpa [other] using there
    exact begun.bump isFor nofun fun done => rest false _ (done.congr (by simp))

lemma generator?_spells : Spells source (generator? rules)
    fun o => o.elim [] Generator.segments := by
  intro s
  refine .look rfl ?_
  split
  · exact Gathers.start source s
  next there =>
  have there' : (atGenerator.run s).1 = true := by simpa using there
  refine .look rfl (clauseWords_spell (Gathers.start source s) there' fun isAsync s₁ done => ?_)
  refine done.bind (operands_spells hr) ?_
  intro e s₂ done
  refine (done.target .store).bind ?_
  intro target s₃ done
  refine done.bind (expectKeyword_spells .kIn) ?_
  intro _ s₄ done
  refine done.bind hr.disjunction ?_
  intro iter s₅ done
  refine done.bind (collect_spells_all (afterEaten_spells nofun hr.disjunction)) ?_
  intro conditions s₆ done
  exact .look rfl (done.give (by simp [Generator.segments]))

lemma generators_spells :
    Spells source (generators rules) fun gs => gs.flatMap Generator.segments :=
  collect_spells_all (generator?_spells hr)

/-- A comprehension whose brackets are its own is complete. -/
lemma comprehension_spells {opening : Symbol} (close : Symbol) {kind : ComprehensionKind}
    {first : Expr} {value : Option Expr}
    (h : Gathers source s s₁
      (sign opening :: .part .element first :: Segment.after .colon (.operand 1) value))
    (written : ∀ m gens, (Expr.comprehension m kind first value gens).segments .element
      = sign opening :: Expr.clauseSegments first value gens ++ [sign close])
    (primary : ∀ m gens, (Expr.comprehension m kind first value gens).shape = .operand 15) :
    Ends (comprehension rules s.position close kind first value) s₁
      fun e s' => Gathers source s s' [.operand 15 e] := by
  refine h.bind (generators_spells hr) ?_
  intro clauses s₂ done
  refine done.bind (expectSymbol_spells close) ?_
  intro _ s₃ done
  refine done.completeFrom (.operand 15) (.comprehension · kind first value clauses) (.inl rfl) rfl
    (fun m => ⟨rfl, ?_⟩) (fun m => ?_)
  · refine (written m clauses).trans ?_
    simp [Expr.clauseSegments]
  · rw [primary]
    rfl

/-! ## Brackets -/

omit hr in
/-- A parenthesis closes, and the expression is widened to both. -/
lemma closed_spells {e : Expr} (p : Position)
    (h : Gathers source s s₁ [sign .leftParen, .part .enclosed e]) :
    Ends (do
      let _ ← expectSymbol .rightParen
      return e.withSpan (← spanFrom s.position)) s₁
      fun e s' => Gathers source s s' [.part p e] := by
  refine h.bind (expectSymbol_spells .rightParen) ?_
  intro _ s₂ done
  exact .look rfl (done.widen p)

/-- The later elements of a bracketed list, its closing bracket, and the node of the list. -/
lemma listed_spells {opening : Symbol} (close : Symbol) {first : Expr}
    (h : Gathers source s s₁ [sign opening, .part .element first])
    (build : List Expr → Mark → Expr)
    (shape : ∀ es m, (build es m).mark = m ∧ (build es m).segments .element
      = sign opening :: Segment.parts .element es ++ [sign close])
    (primary : ∀ es m, (build es m).shape = .operand 15) :
    Ends (do
      let others ← elements close (element rules)
      let _ ← expectSymbol close
      completeFrom s.position (build (first :: others))) s₁
      fun e s' => Gathers source s s' [.operand 15 e] := by
  refine h.bind (elements_spells (element_spells hr)) ?_
  intro others s₂ done
  refine done.bind (expectSymbol_spells close) ?_
  intro _ s₃ done
  refine done.completeFrom (.operand 15) (build (first :: others)) (.inl rfl) rfl
    (fun m => ⟨(shape _ m).1, ?_⟩) (fun m => ?_)
  · refine (shape _ m).2.trans ?_
    simp [Segment.parts, Segment.list, List.flatMap_map]
  · rw [primary]
    rfl

lemma parenthesized_spells (there : s.current.kind = .symbol .leftParen) :
    Ends (parenthesized rules) s fun e s' => Gathers source s s' [.operand 15 e] := by
  refine (Gathers.start source s).bump there nofun fun begun => ?_
  refine begun.eat (k := .symbol .rightParen) nofun (fun s₁ done => ?_) fun _ => ?_
  · exact done.completeFrom (.operand 15) (.tuple · [] .load true) (.inl rfl) rfl
      (fun _ => ⟨rfl, rfl⟩) (fun _ => rfl)
  refine .look rfl ?_
  split
  next isYield =>
    refine (yieldExpression_spells hr (q := .enclosed) begun rfl (eq_of_beq isYield)).bind ?_
    exact fun e s₁ done => closed_spells _ done
  refine begun.bind (element_spells hr) ?_
  intro first s₁ done
  refine .look rfl ?_
  split
  · refine done.bind (generators_spells hr) ?_
    intro clauses s₂ done
    refine done.bind (expectSymbol_spells .rightParen) ?_
    intro _ s₃ done
    exact (done.congr (by simp [Expr.clauseSegments, Segment.after])).completeGenerator _
  refine .look rfl ?_
  split
  · exact closed_spells _ (done.within (q := .enclosed) (by decide))
  · exact listed_spells hr _ done (fun es m => .tuple m es .load true) (fun _ _ => ⟨rfl, rfl⟩)
      fun _ _ => rfl

lemma bracketed_spells (there : s.current.kind = .symbol .leftBracket) :
    Ends (bracketed rules) s fun e s' => Gathers source s s' [.operand 15 e] := by
  refine (Gathers.start source s).bump there nofun fun begun => ?_
  refine begun.eat (k := .symbol .rightBracket) nofun (fun s₁ done => ?_) fun _ => ?_
  · exact done.completeFrom (.operand 15) (.list · [] .load) (.inl rfl) rfl (fun _ => ⟨rfl, rfl⟩)
      (fun _ => rfl)
  refine begun.bind (element_spells hr) ?_
  intro first s₁ done
  refine .look rfl ?_
  split
  · exact comprehension_spells hr _ done (fun _ _ => rfl) fun _ _ => rfl
  · exact listed_spells hr _ done (fun es m => .list m es .load) (fun _ _ => ⟨rfl, rfl⟩)
      fun _ _ => rfl

/-- An entry of a dictionary whose key was read, if it has one. -/
lemma dictItem_spells {key : Option Expr}
    (h : Gathers source s s₁ (xs ++ Segment.maybe .element key)) :
    Ends (dictItem rules key) s₁ fun item s' => Gathers source s s' (xs ++ item.segments)
      ∧ item.key = key := by
  unfold dictItem
  cases key with
  | some key =>
    refine h.bind (expectSymbol_spells .colon) ?_
    intro _ s₂ done
    refine done.bind hr.expression ?_
    intro value s₃ done
    have whole : Gathers source s s₃ (xs ++ DictItem.segments ⟨some key, value⟩) :=
      done.congr (by simp [DictItem.segments, Segment.maybe])
    exact ⟨whole, rfl⟩
  | none =>
    refine h.bind (expectSymbol_spells .doubleStar) ?_
    intro _ s₂ done
    refine done.bind (hr.binary 0 (by decide)) ?_
    intro value s₃ done
    have whole : Gathers source s s₃ (xs ++ DictItem.segments ⟨none, value⟩) :=
      done.congr (by simp [DictItem.segments, Segment.maybe])
    exact ⟨whole, rfl⟩

lemma laterDictItem_spells : Spells source (laterDictItem rules) DictItem.segments := by
  intro s
  refine .look rfl ((Gathers.start source s).choice .none
    (Spells.some (hr.expression.within (b := .element) (by decide))) ?_)
  intro key s₁ done
  have begun : Gathers source s s₁ ([] ++ Segment.maybe .element key) := done
  exact (dictItem_spells hr begun).1

lemma setAfter_spells {first : Expr}
    (h : Gathers source s s₁ [sign .leftBrace, .part .element first]) :
    Ends (setAfter rules s.position first) s₁
      fun e s' => Gathers source s s' [.operand 15 e] := by
  refine .look rfl ?_
  split
  · exact comprehension_spells hr _ h (fun _ _ => rfl) fun _ _ => rfl
  · exact listed_spells hr _ h (fun es m => .set m es) (fun _ _ => ⟨rfl, rfl⟩) fun _ _ => rfl

lemma dictAfter_others_spells {first : DictItem Expr}
    (h : Gathers source s s₁ (sign .leftBrace :: first.segments)) :
    Ends (dictAfter.others rules s.position first) s₁
      fun e s' => Gathers source s s' [.operand 15 e] := by
  refine h.bind (elements_spells (laterDictItem_spells hr)) ?_
  intro items s₂ done
  refine done.bind (expectSymbol_spells .rightBrace) ?_
  intro _ s₃ done
  exact done.completeFrom (.operand 15) (.dict · (first :: items)) (.inl rfl) rfl
    (fun m => ⟨rfl, by simp [Expr.segments, Segment.list, List.flatMap_map]⟩) (fun m => rfl)

lemma dictAfter_spells (key : Option Expr)
    (h : Gathers source s s₁ ([sign .leftBrace] ++ Segment.maybe .element key)) :
    Ends (dictAfter rules s.position key) s₁
      fun e s' => Gathers source s s' [.operand 15 e] := by
  refine (dictItem_spells hr h).bind ?_
  rintro first s₂ ⟨done, -⟩
  split
  next key is =>
    refine .look rfl ?_
    split
    · have keyed : Gathers source s s₂ (sign .leftBrace :: .part .element key
          :: Segment.after .colon (.operand 1) (some first.value)) :=
        done.congr (by simp [DictItem.segments, is, Segment.after])
      exact comprehension_spells hr _ keyed (fun _ _ => rfl) fun _ _ => rfl
    · exact dictAfter_others_spells hr done
  · exact dictAfter_others_spells hr done

lemma braced_spells (there : s.current.kind = .symbol .leftBrace) :
    Ends (braced rules) s fun e s' => Gathers source s s' [.operand 15 e] := by
  refine (Gathers.start source s).bump there nofun fun begun => ?_
  refine begun.eat (k := .symbol .rightBrace) nofun (fun s₁ done => ?_) fun _ => ?_
  · exact done.completeFrom (.operand 15) (.dict · []) (.inl rfl) rfl (fun _ => ⟨rfl, rfl⟩)
      (fun _ => rfl)
  refine .look rfl ?_
  split
  · exact dictAfter_spells hr none begun
  refine begun.bind (element_spells hr) ?_
  intro first s₁ done
  refine .look rfl ?_
  split
  · exact dictAfter_spells hr (some first) done
  · exact setAfter_spells hr done

/-! ## Strings -/

omit hr in
/-- After the end of the text nothing follows. -/
lemma later_of_endOfFile (ended : s.Ended) (is : s.current.kind = .endOfFile) : s.later = [] := by
  obtain ⟨ts, e, whole, -, others⟩ := ended
  cases ts with
  | nil => exact (List.cons.inj whole).2
  | cons t ts => exact absurd ((List.cons.inj whole).1 ▸ is) (others t List.mem_cons_self)

/-- The field of a formatted string takes no token where reading goes on. -/
lemma field?_spells (span : Span) (s : ParserState) :
    Ends (field? rules span) s fun o s' => Gathers source s s' (o.toList.map .field)
      ∧ s'.lastEnd = s.lastEnd := by
  refine .look rfl (.look rfl ?_)
  split
  · exact ⟨.start source s, rfl⟩
  next used =>
  set lexed := lexBracketed span.start (Text.slice s.source span) with lexed_eq
  set inner : ParserState := { s with
    current := lexed.tokens.headD ⟨.endOfFile, "", .point span.stop⟩
    later := lexed.tokens.tail
    problems := lexed.problems.reverse ++ s.problems } with inner_eq
  have back (e : Expr) (s₁ : ParserState) {P : List Token → Prop}
      (done : Yields source inner s₁ (nodes [.part .value e]) P)
      (ends : s₁.problems = [] → ∀ ts, P ts →
        s₁.current.kind = .endOfFile ∧ Spelled source [.part .value e] ts) :
      Ends (do
        modify fun state => { state with
          current := s.current
          later := s.later
          lastEnd := s.lastEnd }
        return some e) s₁
        fun o s' => Gathers source s s' (o.toList.map .field) ∧ s'.lastEnd = s.lastEnd := by
    refine ⟨⟨fun clean => (List.append_eq_nil_iff.1 (done.clean clean)).2, done.exprs, done.stmts,
      ?_, fun clean ready => ?_⟩, rfl⟩
    · obtain ⟨dropped, unused, numbered⟩ := done.numbered
      exact ⟨dropped, unused, numbered.counts ⟨rfl, rfl⟩ ⟨rfl, rfl⟩⟩
    have text : s.source = source := ready.live.text
    have slice : Text.slice source span = Text.slice s.source span := by rw [text]
    have some : Text.slice s.source span ≠ [] := by
      intro empty
      rw [Bool.or_eq_true, not_or] at used
      exact used.1 (by show (Text.slice s.source span).all _ = true; rw [empty]; rfl)
    have tokens : inner.current :: inner.later = lexed.tokens := field_tokens _ _
    have live := (field_live slice some ready.live).1
    have ready' : inner.Ready source := ⟨live, live.ended⟩
    obtain ⟨ready₁, ts, taken, known⟩ := done.spelled clean ready'
    obtain ⟨atEnd, spelled⟩ := ends clean ts known
    have whole : lexed.tokens = ts ++ [s₁.current] := by
      rw [← tokens, taken.tokens, later_of_endOfFile ready₁.ended atEnd]
    refine ⟨ready.same ?_ rfl rfl, [], .nothing rfl rfl rfl, ?_⟩
    · exact ready₁.live.text.trans text.symm
    · have fieldTokens : (lexBracketed span.start (Text.slice source span)).tokens
          = ts ++ [s₁.current] := by
        rw [← text]
        exact whole
      exact .field fieldTokens atEnd spelled .nil
  have read := nested_spells (value_spells hr) inner
  refine Ends.elsewhere (read.bind ?_)
  intro e s₁ done
  refine .look rfl ?_
  split
  · exact done.note fun s₂ broken => back e s₂ broken fun _ _ => False.elim
  next atEnd =>
    refine back e s₁ done fun _ ts spelled => ⟨?_, spelled⟩
    have isEnd : (isAt .endOfFile).run s₁ |>.1 := by simpa using atEnd
    exact eq_of_beq isEnd

lemma fields_spell (spans : List Span) (s : ParserState) :
    Ends (spans.filterMapM (field? rules)) s fun es s' => Gathers source s s' (es.map .field)
      ∧ s'.lastEnd = s.lastEnd := by
  induction spans generalizing s with
  | nil =>
    rw [List.filterMapM_nil]
    exact ⟨.start source s, rfl⟩
  | cons span spans ih =>
    rw [List.filterMapM_cons]
    refine (field?_spells hr span s).bind ?_
    rintro o s₁ ⟨first, same⟩
    have all : ∀ es s₂, Gathers source s₁ s₂ (es.map .field) ∧ s₂.lastEnd = s₁.lastEnd →
        Gathers source s s₂ ((o.toList ++ es).map .field) ∧ s₂.lastEnd = s.lastEnd := by
      rintro es s₂ ⟨second, same'⟩
      rw [List.map_append]
      exact ⟨first.append second, same'.trans same⟩
    cases o with
    | none => exact all _ _ (ih s₁)
    | some e => exact Ends.bind (ih s₁) fun es s₂ second => all es s₂ second

omit hr in
/-- The string tokens that follow are taken, one at least if one follows. -/
lemma stringTokens_taken (source : List Char) (n : ℕ) (s : ParserState) :
    Ends (collectAtMost stringToken? n) s fun ts s' =>
      Yields source s s' [] (fun taken => taken = ts ∧ ∀ t ∈ ts, t.kind = .string ∨ t.kind = .fstring)
      ∧ (n ≠ 0 → s.current.kind = .string ∨ s.current.kind = .fstring → ts ≠ []) := by
  induction n generalizing s with
  | zero => exact ⟨.nothing ⟨rfl, List.forall_mem_nil _⟩, fun more => absurd rfl more⟩
  | succ n ih =>
    have taken : Ends stringToken? s fun o s' => Yields source s s' [] (fun ts => ts = o.toList)
        ∧ (o = none → ¬ (s.current.kind = .string ∨ s.current.kind = .fstring))
        ∧ ∀ t ∈ o, t.kind = .string ∨ t.kind = .fstring := by
      have kinds : (s.current.kind == .string || s.current.kind == .fstring) = true
          ↔ s.current.kind = .string ∨ s.current.kind = .fstring := by
        rw [Bool.or_eq_true, beq_iff_eq, beq_iff_eq]
      refine .look rfl (.look rfl ?_)
      split
      next is =>
        have string := kinds.1 is
        have more : s.current.kind ≠ .endOfFile := by
          rcases string with is | is <;> (rw [is]; nofun)
        refine ⟨advance_takes source more, nofun, ?_⟩
        rintro _ ⟨⟩
        exact string
      next other => exact ⟨.nothing rfl, fun _ is => other (kinds.2 is), nofun⟩
    refine taken.bind ?_
    rintro o s₁ ⟨first, nothing, string⟩
    cases o with
    | none => exact ⟨first.mono fun _ _ _ _ is => ⟨is, nofun⟩, fun _ is => absurd is (nothing rfl)⟩
    | some t =>
      refine (ih s₁).bind ?_
      rintro ts s₂ ⟨later, -⟩
      refine ⟨first.trans later ?_, fun _ _ => List.cons_ne_nil _ _⟩
      rintro _ _ rfl ⟨rfl, all⟩
      exact ⟨rfl, List.forall_mem_cons.2 ⟨string t rfl, all⟩⟩

lemma strings_spells (is : s.current.kind = .string ∨ s.current.kind = .fstring) :
    Ends (strings rules) s fun e s' => Gathers source s s' [.operand 15 e] := by
  have tokens : Ends (collect stringToken?) s fun ts s' =>
      Gathers source s s' [.strings (stringsKind ts)] ∧ ts ≠ [] := by
    refine .look rfl ?_
    obtain ⟨taken, some⟩ := stringTokens_taken source ((remaining.run s).1 + 1) s
    have some := some (Nat.succ_ne_zero _) is
    refine ⟨taken.mono ?_, some⟩
    rintro - - _ - ⟨rfl, all⟩
    exact .single ⟨some, all, rfl⟩
  refine .look rfl (tokens.bind ?_)
  rintro ts s₁ ⟨done, some⟩
  refine .look rfl ?_
  dsimp only
  split
  next plain =>
    have kind : stringsKind ts = if ts.any (isBytesLiteral ·.text) then ConstantKind.bytes
        else .string := if_pos plain
    refine done.complete (.operand 15) (.constant · _) (.inl rfl) rfl rfl (fun m => ⟨rfl, ?_⟩)
      (fun _ => rfl)
    rw [kind]
    split <;> rfl
  next formatted =>
    have kind : stringsKind ts = none := if_neg formatted
    refine .look rfl ((fields_spell hr _ s₁).bind ?_)
    rintro es s₂ ⟨fields, lastEnd⟩
    refine (done.append fields).complete (.operand 15) (.fstring · es) (.inl rfl) ?_ rfl
      (fun m => ⟨rfl, ?_⟩) (fun _ => rfl)
    · rw [lastEnd]
      rfl
    · rw [kind]
      rfl

/-! ## Atoms and primaries -/

omit hr in
lemma constant_spells {k : TokenKind} (kind : ConstantKind) (there : s.current.kind = k)
    (takes : k.takesSpace = true) (written : kind.segment = .token k) :
    Ends (constant kind) s fun e s' => Gathers source s s' [.operand 15 e] := by
  refine (Gathers.start source s).bump rfl (by rw [there]; rintro rfl; nomatch takes) fun _ => ?_
  exact Gathers.completeToken (x := .token k) (.operand 15) ⟨_, rfl, there⟩ rfl (there ▸ takes)
    (.constant · kind) (fun _ => ⟨rfl, by rw [← written]; rfl⟩) fun _ => rfl

lemma atom_spells : SpellsExpr source (atom rules) (.operand 15) := by
  intro s
  refine .look rfl ?_
  split
  next is =>
    have name : s.current.kind = .name := is
    refine (Gathers.start source s).bump name nofun fun _ => ?_
    exact Gathers.completeToken (x := .id s.current.text) (.operand 15) ⟨_, rfl, name, rfl⟩ rfl
      (by rw [name]; rfl) (.name · s.current.text .load) (fun _ => ⟨rfl, rfl⟩) fun _ => rfl
  next is => exact constant_spells _ is rfl rfl
  next is => exact strings_spells hr (.inl is)
  next is => exact strings_spells hr (.inr is)
  next is => exact constant_spells _ is rfl rfl
  next is => exact constant_spells _ is rfl rfl
  next is => exact constant_spells _ is rfl rfl
  next is => exact constant_spells _ is rfl rfl
  next is => exact parenthesized_spells hr is
  next is => exact bracketed_spells hr is
  next is => exact braced_spells hr is
  · refine (Gathers.start source s).note fun s₁ broken => .look rfl ?_
    dsimp only
    split
    · exact broken.skip bump_skips fun _ s₂ broken => broken.complete _ fun _ => ⟨rfl, rfl⟩
    · exact broken.complete _ fun _ => ⟨rfl, rfl⟩

lemma arg?_spells : Spells source (arg? rules) fun o => o.elim [] Arg.segments := by
  intro s
  have begun := Gathers.start source s
  refine .look rfl (.look rfl ?_)
  split
  · exact begun
  refine .look rfl (.look rfl ?_)
  split
  next is =>
    refine begun.bump is nofun fun done => done.bind hr.expression ?_
    exact fun value s₁ done => .look rfl done
  next is =>
    refine begun.bump is nofun fun done => done.bind hr.expression ?_
    exact fun value s₁ done => .look rfl done
  refine .look rfl (.look rfl ?_)
  split
  next keyword =>
    obtain ⟨isName, isNext⟩ := Bool.and_eq_true_iff.1 keyword
    have name : s.current.kind = .name := eq_of_beq isName
    have more : s.current.kind ≠ .endOfFile := by rw [name]; nofun
    have equal : (advance s).current.kind = .symbol .equal :=
      advance_kind more nofun (eq_of_beq isNext)
    have taken := begun.take (x := .name ⟨s.current.text, s.current.span⟩) ⟨_, rfl, name, rfl⟩ rfl
      more
    refine begun.bump name nofun fun _ => taken.bump equal nofun fun done => ?_
    refine done.bind hr.expression ?_
    exact fun value s₁ done => .look rfl done
  · refine begun.bind (namedExpression_spells hr) ?_
    intro first s₁ done
    refine .look rfl ?_
    split
    · refine (done.within (q := .element) (by decide)).bind (generators_spells hr) ?_
      intro clauses s₂ done
      refine (done.completeFrom .argument (.comprehension · .generator first none clauses)
        (.inl rfl) rfl (fun _ => ⟨rfl, rfl⟩) fun _ => rfl).bind ?_
      exact fun value s₃ done => .look rfl done
    · exact .look rfl (done.within (by decide))

lemma args_spells :
    Spells source (args rules) fun as => Segment.list (as.map Arg.segments) :=
  separated_spells (arg?_spells hr)

/-- An argument ends where its value does. -/
lemma arg?_tells :
    Tells source (arg? rules) fun o => ∀ a ∈ o, a.span.stop = a.value.span.stop := by
  intro s
  have read := arg?_spells hr s
  suffices known : Ends (arg? rules) s fun o s' => s'.problems = [] → s.Ready source →
      ∀ a ∈ o, a.span.stop = a.value.span.stop from
    ⟨read.clean, fun clean ready => ⟨(read.spelled clean ready).1, known clean ready⟩⟩
  have begun := Gathers.start source s
  have last {s₁ : ParserState} (xs : List Segment) {q : Position} (kind : ArgKind) (value : Expr)
      (done : Gathers source s s₁ (xs ++ [.part q value])) :
      Ends (do return some ⟨kind, value, ← spanFrom s.position⟩ : Parser (Option (Arg Expr))) s₁
        fun o s' => s'.problems = [] → s.Ready source →
          ∀ a ∈ o, a.span.stop = a.value.span.stop := by
    rintro clean ready _ ⟨⟩
    exact done.reached clean ready
  refine .look rfl (.look rfl ?_)
  split
  · exact fun _ _ => nofun
  refine .look rfl (.look rfl ?_)
  split
  next is =>
    refine begun.bump is nofun fun done => done.bind hr.expression ?_
    exact fun value s₁ done => last _ _ value done
  next is =>
    refine begun.bump is nofun fun done => done.bind hr.expression ?_
    exact fun value s₁ done => last _ _ value done
  refine .look rfl (.look rfl ?_)
  split
  next keyword =>
    obtain ⟨isName, isNext⟩ := Bool.and_eq_true_iff.1 keyword
    have name : s.current.kind = .name := eq_of_beq isName
    have more : s.current.kind ≠ .endOfFile := by rw [name]; nofun
    have equal : (advance s).current.kind = .symbol .equal :=
      advance_kind more nofun (eq_of_beq isNext)
    have taken := begun.take (x := .name ⟨s.current.text, s.current.span⟩) ⟨_, rfl, name, rfl⟩ rfl
      more
    refine begun.bump name nofun fun _ => taken.bump equal nofun fun done => ?_
    refine done.bind hr.expression ?_
    exact fun value s₁ done => last _ _ value done
  · refine begun.bind (namedExpression_spells hr) ?_
    intro first s₁ done
    refine .look rfl ?_
    split
    · refine (done.within (q := .element) (by decide)).bind (generators_spells hr) ?_
      intro clauses s₂ done
      refine (done.completeFrom .argument (.comprehension · .generator first none clauses)
        (.inl rfl) rfl (fun _ => ⟨rfl, rfl⟩) fun _ => rfl).bind ?_
      exact fun value s₃ done => last [] _ value done
    · exact last [] _ first done

lemma args_tells :
    Tells source (args rules) fun as => ∀ a ∈ as, a.span.stop = a.value.span.stop :=
  separated_tells (arg?_tells hr)

lemma bound?_spells : Spells source (bound? rules) (Segment.maybe (.operand 1)) := by
  intro s
  refine .look rfl ?_
  split
  · exact (Gathers.start source s).bind hr.expression fun e s₁ done => done
  · exact Gathers.start source s

/-- A slice, at whose colon reading is. -/
lemma sliceAfter_spells (lower : Option Expr) (colon : s₁.current.kind = .symbol .colon)
    (h : Gathers source s s₁ (Segment.maybe .element lower)) :
    Ends (sliceAfter rules s.position lower) s₁ fun e s' => Gathers source s s' [.part .item e] := by
  refine h.bump colon nofun fun done => ?_
  refine done.bind (bound?_spells hr) ?_
  intro upper s₂ done
  have ends (step : Option Expr) (s₃ : ParserState) (done : Gathers source s s₃
      (Segment.maybe .element lower ++ [sign .colon] ++ Segment.maybe (.operand 1) upper
        ++ [.optional [.symbol .colon]] ++ Segment.maybe (.operand 1) step)) :
      Ends (completeFrom s.position (.slice · lower upper step)) s₃
        fun e s' => Gathers source s s' [.part .item e] := by
    refine done.completeFrom .item (.slice · lower upper step) (.inl rfl) ?_ (fun _ => ⟨rfl, ?_⟩)
      fun _ => rfl
    · simp [Segment.isSolid, TokenKind.takesSpace, TokenKind.isLayout]
    · simp [Expr.segments]
  refine done.eat (k := .symbol .colon) nofun (fun s₃ done => ?_) fun _ => ?_
  · exact (trailing .colon done).bind (bound?_spells hr) fun step s₄ done => ends step s₄ done
  · exact (absent [.symbol .colon] done).bind .none fun step s₃ done => ends step s₃ done

lemma subscriptItem_spells : SpellsExpr source (subscriptItem rules) .item := by
  intro s
  refine .look rfl (.look rfl ?_)
  split
  next colon => exact sliceAfter_spells hr none (eq_of_beq colon) (Gathers.start source s)
  refine (Gathers.start source s).bind (element_spells hr) ?_
  intro e s₁ done
  refine .look rfl ?_
  split
  next colon => exact sliceAfter_spells hr (some e) (eq_of_beq colon) done
  · exact done.within (by decide)

lemma subscriptItems_spells : SpellsExpr source (subscriptItems rules) .subscript :=
  tupleOf_spells (subscriptItem_spells hr) (fun _ => rfl) (by decide) rfl

/-- One more call, subscript or attribute. -/
lemma extension?_spells {e : Expr} (h : Gathers source s s₁ [.operand 15 e]) :
    Ends (extension? rules e) s₁ fun o s' => Gathers source s s' [.operand 15 (o.getD e)] := by
  refine .look rfl ?_
  split
  next is =>
    refine h.bump is (by simp) fun done => ?_
    refine done.bind (args_spells hr) ?_
    intro arguments s₂ done
    refine done.bind (expectSymbol_spells .rightParen) ?_
    intro _ s₃ done
    exact (done.completeFrom (.operand 15) (.call · e arguments) (.inr ⟨_, _, _, rfl, rfl⟩) rfl
      (fun _ => ⟨rfl, by simp [Expr.segments]⟩) fun _ => rfl).bind fun d s₄ done => done
  next is =>
    refine h.bump is (by simp) fun done => ?_
    refine done.bind (subscriptItems_spells hr) ?_
    intro index s₂ done
    refine done.bind (expectSymbol_spells .rightBracket) ?_
    intro _ s₃ done
    exact (done.completeFrom (.operand 15) (.subscript · e index .load) (.inr ⟨_, _, _, rfl, rfl⟩)
      rfl (fun _ => ⟨rfl, rfl⟩) fun _ => rfl).bind fun d s₄ done => done
  next is =>
    refine h.bump is (by simp) fun done => ?_
    refine done.bind nameOrMissing_spells ?_
    intro ident s₂ done
    exact (done.completeFrom (.operand 15) (.attr · e ident .load) (.inr ⟨_, _, _, rfl, rfl⟩)
      rfl (fun _ => ⟨rfl, rfl⟩) fun _ => rfl).bind fun d s₃ done => done
  · exact h

lemma primary_spells : SpellsExpr source (primary rules) (.operand 15) := by
  intro s
  refine (Gathers.start source s).bind (atom_spells hr) ?_
  intro e s₁ done
  exact extend_spells (fun e s₂ done => extension?_spells hr done) done

/-! ## Operators -/

lemma power_spells : SpellsExpr source (power rules) (.operand 13) := by
  intro s
  have raised (base : Expr) (s₁ : ParserState) (done : Gathers source s s₁ [.operand 14 base]) :
      Ends (do
        if ← eatSymbol .doubleStar then
          let right ← nested rules.unary
          completeFrom base.span.start (.binary · base .pow right)
        else return base) s₁ fun e s' => Gathers source s s' [.operand 13 e] := by
    refine done.eat (k := .symbol .doubleStar) nofun (fun s₂ done => ?_) fun _ => ?_
    · refine done.bind (nested_spells hr.unary) ?_
      intro right s₃ done
      exact done.completeFrom (.operand 13) (.binary · base .pow right) (.inr ⟨_, _, _, rfl, rfl⟩)
        rfl (fun _ => ⟨rfl, rfl⟩) fun _ => rfl
    · exact done.weaken (by decide)
  refine .look rfl ?_
  dsimp only
  split
  next there =>
    refine (Gathers.start source s).bump (eq_of_beq there) nofun fun begun => ?_
    refine begun.bind (primary_spells hr) ?_
    intro value s₁ done
    exact (done.completeFrom (.operand 14) (.await · value) (.inl rfl) rfl (fun _ => ⟨rfl, rfl⟩)
      fun _ => rfl).bind raised
  · exact (Gathers.start source s).bind ((primary_spells hr).within (by decide)) raised

omit hr in
/-- A sign is a unary operator that is tighter than all binary ones but power. -/
lemma unaryOperator?_eq {k : TokenKind} {op : UnaryOp} (h : unaryOperator? k = some op) :
    k = op.word ∧ op.tightness = 12 := by
  unfold unaryOperator? at h
  split at h
  · obtain rfl := Option.some.inj h
    exact ⟨rfl, rfl⟩
  · obtain rfl := Option.some.inj h
    exact ⟨rfl, rfl⟩
  · obtain rfl := Option.some.inj h
    exact ⟨rfl, rfl⟩
  · nomatch h

/-- Where expressions are nested too deeply, nothing has to be known of the tokens. -/
lemma deep_spells (deep : maxNesting ≤ s.depth) (q : Position) :
    Ends rules.expression s fun e s' => Gathers source s s' [.part q e] :=
  Gathers.spoilt (hr.expression s) (hr.deep s deep) rfl

lemma unary_spells : SpellsExpr source (unary rules) (.operand 12) := by
  intro s
  refine .look rfl ?_
  split
  next deep => exact deep_spells hr (of_decide_eq_true deep) _
  refine .look rfl ?_
  split
  · exact (power_spells hr).within (by decide) s
  next op is =>
    obtain ⟨there, tightness⟩ := unaryOperator?_eq is
    have written : s.current.kind = op.word := there
    refine (Gathers.start source s).bump written (by cases op <;> nofun) fun begun => ?_
    refine begun.bind (nested_spells hr.unary) ?_
    intro operand s₁ done
    refine done.completeFrom (.operand 12) (.unary · op operand) (.inl rfl) (by simp [Segment.isSolid])
      (fun _ => ⟨rfl, ?_⟩) fun _ => ?_
    · rw [Expr.segments, tightness]
      rfl
    · rw [Expr.shape, tightness]
      rfl

omit hr in
/-- The binary operators with their levels. -/
lemma binaryOperator?_eq {k : TokenKind} {op : BinaryOp} {l : ℕ}
    (h : binaryOperator? k = some (op, l)) : k = .symbol op.symbol ∧ op.tightness = 6 + l
      ∧ op.leftTightness = 6 + l ∧ op.rightTightness = 6 + (l + 1) ∧ l ≤ 5 := by
  unfold binaryOperator? at h
  split at h
  · split at h
    case h_13 => nomatch h
    all_goals
      obtain ⟨rfl, rfl⟩ := Prod.mk.inj (Option.some.inj h)
      exact ⟨rfl, rfl, rfl, rfl, by decide⟩
  · nomatch h

omit hr in
/-- In the loop over the binary operators of a level, what was read so far binds at least as tightly
as any operator that follows and belongs to the loop. -/
def Climbed (source : List Char) (level : ℕ) (s₀ : ParserState) (left : Expr) (s : ParserState) :
    Prop :=
  ∃ k, 6 + level ≤ k ∧ Gathers source s₀ s [.operand k left]
    ∧ (s.problems = [] → s₀.Ready source → ∀ op l, binaryOperator? s.current.kind = some (op, l) →
      level ≤ l → 6 + l ≤ k)

/-- One more operator with its right operand.  The operand stops at the next operator of the same
level, or a looser one. -/
lemma binaryStep?_climbs {level : ℕ} {left : Expr} (h : Climbed source level s left s₁) :
    Ends (binaryStep? rules level left) s₁ fun o s' => Climbed source level s (o.getD left) s'
      ∧ (s'.problems = [] ∧ s.Ready source → s₁.problems = [] ∧ s.Ready source)
      ∧ (s'.problems = [] ∧ s.Ready source → (o = none → Halts level s')
        ∧ (o ≠ none → s'.later.length < s₁.later.length)) := by
  obtain ⟨k, least, done, follows⟩ := h
  have kept : Climbed source level s left s₁ := ⟨k, least, done, follows⟩
  refine .look rfl ?_
  split
  next none =>
    refine ⟨kept, id, fun _ => ⟨fun _ op l is => ?_, fun some => absurd rfl some⟩⟩
    have other : binaryOperator? s₁.current.kind = Option.none := none
    cases other.symm.trans is
  next op l is =>
  have operator : binaryOperator? s₁.current.kind = some (op, l) := is
  split
  next loose =>
    refine ⟨kept, id, fun _ => ⟨fun _ op' l' is' => ?_, fun some => absurd rfl some⟩⟩
    obtain ⟨-, rfl⟩ := Prod.mk.inj (Option.some.inj (operator.symm.trans is'))
    exact loose
  next tight =>
  obtain ⟨there, tightness, leftTightness, rightTightness, le⟩ := binaryOperator?_eq operator
  refine (Gathers.start source s₁).bump there (by simp) fun taken => ?_
  have read : Ends (rules.binary (l + 1)) (advance s₁) fun e s' =>
      Gathers source (advance s₁) s' [.operand (6 + (l + 1)) e]
        ∧ (s'.problems = [] → (advance s₁).Ready source → Halts (l + 1) s') :=
    ⟨hr.binary (l + 1) (by omega) _, hr.halts (l + 1) (by omega) _⟩
  refine read.bind ?_
  rintro right s₂ ⟨operand, halts⟩
  have behind := taken.append operand
  have level_le : level ≤ l := Nat.not_lt.1 tight
  have seen : Gathers source s s₁ [.operand (6 + l) left] := done.mono fun clean ready _ _ spelled =>
    spelled.within (Position.operand_within (follows clean ready op l operator level_le))
  have closed : Ends (completeFrom left.span.start (.binary · left op right)) s₂ fun d s' =>
      Gathers source s s' [.operand (6 + l) d] ∧ s'.current = s₂.current ∧ s'.later = s₂.later
        ∧ s'.problems = s₂.problems := by
    refine ⟨(seen.append behind).completeFrom (.operand (6 + l)) (.binary · left op right)
      (.inr ⟨_, _, _, rfl, rfl⟩) rfl (fun _ => ⟨rfl, ?_⟩) (fun _ => ?_), rfl, rfl, rfl⟩
    · rw [Expr.segments, leftTightness, rightTightness]
      rfl
    · rw [Expr.shape, tightness]
      exact decide_eq_true (Nat.le_refl _)
  refine closed.bind ?_
  rintro d s₃ ⟨whole, current, later, problems⟩
  have before (clean : s₃.problems = []) (ready : s.Ready source) :
      s₂.problems = [] ∧ s₁.problems = [] ∧ s₁.Ready source := by
    have clean' := behind.clean (problems ▸ clean)
    exact ⟨problems ▸ clean, clean', (done.spelled clean' ready).1⟩
  refine ⟨⟨6 + l, by omega, whole, fun clean ready op' l' is' _ => ?_⟩, ?_, ?_⟩
  · obtain ⟨clean₂, -, ready₁⟩ := before clean ready
    have ready' := (advance_taken ready₁ (by rw [there]; simp)).1
    have := halts clean₂ ready' op' l' (current ▸ is')
    omega
  · rintro ⟨clean, ready⟩
    exact ⟨(before clean ready).2.1, ready⟩
  · rintro ⟨clean, ready⟩
    refine ⟨by simp, fun _ => ?_⟩
    obtain ⟨clean₂, -, ready₁⟩ := before clean ready
    obtain ⟨-, ts, took, spelled⟩ := behind.spelled clean₂ ready₁
    have less := took.length_lt (spelled.ne_nil rfl)
    exact later ▸ less

/-- Binary operators of a level and above: the loop ends where none follows. -/
lemma binary_climbs {level : ℕ} (le : level ≤ 6) (s : ParserState) :
    Ends (binary rules level) s fun e s' => Gathers source s s' [.operand (6 + level) e]
      ∧ (s'.problems = [] → s.Ready source → Halts level s') := by
  refine (Gathers.start source s).bind (unary_spells hr) ?_
  intro e s₁ done
  have begun : Climbed source level s e s₁ := by
    refine ⟨12, by omega, done, fun _ _ op l is _ => ?_⟩
    obtain ⟨-, -, -, -, le⟩ := binaryOperator?_eq is
    omega
  have loop : Ends (extendAtMost (binaryStep? rules level) ((remaining.run s₁).1 + 1) e) s₁
      fun d s' => Climbed source level s d s'
        ∧ (s'.problems = [] ∧ s.Ready source → Halts level s') :=
    extendAtMost_stops (fun _ _ climbed => binaryStep?_climbs hr climbed) _ begun
      fun _ => Nat.lt_succ_self _
  obtain ⟨⟨k, least, done, -⟩, halts⟩ := loop
  refine .look rfl ?_
  exact ⟨done.weaken (Position.operand_within least), fun clean ready => halts ⟨clean, ready⟩⟩

omit hr in
lemma compareOperator?_spells :
    Spells source compareOperator? fun o => o.elim [] fun op => op.words.map .token := by
  intro s
  have begun := Gathers.start source s
  have take {k : TokenKind} (op : CompareOp) (is : s.current.kind = k) (more : k ≠ .endOfFile)
      (written : op.words = [k]) : Ends (compareOperator?.take op) s fun o s' =>
        Gathers source s s' (o.elim [] fun op => op.words.map .token) := by
    refine begun.bump is more fun done => ?_
    exact (done.congr (by rw [written]; rfl) : Gathers source s _ (op.words.map .token))
  refine .look rfl ?_
  split
  next is => exact take .lt is nofun rfl
  next is => exact take .gt is nofun rfl
  next is => exact take .eq is nofun rfl
  next is => exact take .ge is nofun rfl
  next is => exact take .le is nofun rfl
  next is => exact take .notEq is nofun rfl
  next is => exact take .in is nofun rfl
  next is =>
    have isNot : s.current.kind = .keyword .kNot := is
    refine .look rfl ?_
    split
    next next =>
      have isIn : (advance s).current.kind = .keyword .kIn :=
        advance_kind (by rw [isNot]; nofun) nofun (eq_of_beq next)
      exact begun.bump isNot nofun fun done => done.bump isIn nofun fun done => done
    · exact begun
  next is =>
    refine begun.bump is nofun fun done => ?_
    exact done.eat (k := .keyword .kNot) nofun (fun s₁ done => done) fun _ => done
  · exact begun

omit hr in
/-- Operators with what they are followed by, and the two apart. -/
lemma compared_unzip (pairs : List (CompareOp × Expr)) :
    Segment.compared (pairs.map (·.1)) (pairs.map (·.2))
      = pairs.flatMap fun x => x.1.words.map .token ++ [.operand 6 x.2] := by
  induction pairs with
  | nil => rfl
  | cons x pairs ih => simp [Segment.compared, ih]

lemma comparison_spells : SpellsExpr source (comparison rules) (.operand 5) := by
  intro s
  have first : SpellsExpr source (binary rules 0) (.operand 6) := fun s =>
    (binary_climbs hr (Nat.zero_le _) s).1
  refine (Gathers.start source s).bind first ?_
  intro left s₁ done
  refine done.bind
    (collect_spells_all (g := fun x => x.1.words.map .token ++ [.operand 6 x.2]) ?pair) ?_
  case pair =>
    intro s
    refine (Gathers.start source s).bind compareOperator?_spells ?_
    intro op s₁ done
    cases op with
    | none => exact done
    | some op => exact done.bind (hr.binary 0 (by decide)) fun right s₂ done => done
  intro pairs s₂ done
  split
  next empty =>
    obtain rfl := List.isEmpty_iff.1 empty
    rw [List.flatMap_nil, List.append_nil] at done
    exact done.within (by decide)
  · refine done.completeFrom (.operand 5) (.compare · left (pairs.map Prod.fst) (pairs.map Prod.snd))
      (.inr ⟨_, _, _, rfl, rfl⟩) rfl (fun _ => ⟨rfl, ?_⟩) fun _ => rfl
    rw [Expr.segments, compared_unzip]
    rfl

lemma negation_spells : SpellsExpr source (negation rules) (.operand 4) := by
  intro s
  refine .look rfl ?_
  split
  next there =>
    refine .look rfl ?_
    split
    next deep => exact deep_spells hr (of_decide_eq_true deep) _
    refine (Gathers.start source s).bump (eq_of_beq there) nofun fun begun => ?_
    refine begun.bind (nested_spells hr.negation) ?_
    intro operand s₁ done
    exact done.completeFrom (.operand 4) (.unary · .not operand) (.inl rfl) rfl
      (fun _ => ⟨rfl, rfl⟩) fun _ => rfl
  · exact (comparison_spells hr).within (by decide) s

omit hr in
lemma joined_spells (op : BoolOp) {item : Parser Expr}
    (h : SpellsExpr source item (.operand (op.tightness + 1))) :
    SpellsExpr source (joined op.word op item) (.operand op.tightness) := by
  intro s
  refine (Gathers.start source s).bind h ?_
  intro first s₁ done
  refine .look rfl ?_
  split
  · exact done.within (Position.operand_within (Nat.le_succ _))
  refine done.bind (collect_spells_all (afterEaten_spells nofun h)) ?_
  intro others s₂ done
  exact done.completeFrom (.operand op.tightness) (.boolean · op (first :: others))
    (.inr ⟨_, _, _, rfl, rfl⟩) rfl (fun _ => ⟨rfl, rfl⟩) fun _ => decide_eq_true (Nat.le_refl _)

lemma conjunction_spells : SpellsExpr source (conjunction rules) (.operand 3) :=
  joined_spells .and (negation_spells hr)

lemma disjunction_spells : SpellsExpr source (disjunction rules) (.operand 2) :=
  joined_spells .or (conjunction_spells hr)

lemma conditional_spells : SpellsExpr source (conditional rules) (.operand 1) := by
  intro s
  refine .look rfl ?_
  split
  next there => exact lambda_spells hr (eq_of_beq there)
  refine (Gathers.start source s).bind (disjunction_spells hr) ?_
  intro body s₁ done
  refine done.eat (k := .keyword .kIf) nofun (fun s₂ done => ?_) fun _ => ?_
  · refine done.bind (disjunction_spells hr) ?_
    intro test s₃ done
    refine done.bind (expectKeyword_spells .kElse) ?_
    intro _ s₄ done
    refine done.bind hr.expression ?_
    intro orelse s₅ done
    exact done.completeFrom (.operand 1) (.conditional · test body orelse)
      (.inr ⟨_, _, _, rfl, rfl⟩) rfl (fun _ => ⟨rfl, rfl⟩) fun _ => rfl
  · exact done.within (by decide)

lemma expression_spells : SpellsExpr source (expression rules) (.operand 1) := by
  intro s
  refine .look rfl ?_
  split
  · refine (Gathers.start source s).note fun s₁ broken => .look rfl (.look rfl (.look rfl ?_))
    dsimp only
    split
    · exact broken.skip bump_skips fun _ s₂ broken => broken.complete _ fun _ => ⟨rfl, rfl⟩
    · exact broken.complete _ fun _ => ⟨rfl, rfl⟩
  · exact nested_spells (conditional_spells hr) s

omit hr in
lemma expression_deep (deep : maxNesting ≤ s.depth) :
    Ends (expression rules) s fun _ s' => s'.problems ≠ [] := by
  have isDeep : (tooDeep.run s).1 = true := decide_eq_true deep
  refine .look rfl ?_
  rw [if_pos isDeep]
  have noted : Ends (note .expressionTooDeep) s fun _ s' => s'.problems ≠ [] :=
    List.cons_ne_nil _ _
  refine noted.bind fun _ s₁ some => .look rfl (.look rfl (.look rfl ?_))
  dsimp only
  split
  · have kept : Ends bump s₁ fun _ s' => s'.problems ≠ [] := fun none =>
      some ((advance_counts s₁).1.symm.trans none)
    exact kept.bind fun _ s₂ some => some
  · exact some

end

lemma exhausted_spells (q : Position) : SpellsExpr source exhausted q := by
  intro s
  refine (Gathers.start source s).note fun s₁ broken => .look rfl ?_
  exact broken.complete _ fun _ => ⟨rfl, rfl⟩

lemma exhausted_deep (s : ParserState) : Ends exhausted s fun _ s' => s'.problems ≠ [] := nofun

end Parser

/-! ## The circle of the rules -/

lemma Rules.none_spelling : Rules.none.Spelling source where
  expression := Parser.exhausted_spells _
  disjunction := Parser.exhausted_spells _
  negation := Parser.exhausted_spells _
  binary _ _ := Parser.exhausted_spells _
  unary := Parser.exhausted_spells _
  halts _ _ s clean := absurd clean (Parser.exhausted_deep s)
  deep s _ := Parser.exhausted_deep s

lemma Rules.Spelling.next (h : rules.Spelling source) : rules.next.Spelling source where
  expression := Parser.expression_spells h
  disjunction := Parser.disjunction_spells h
  negation := Parser.negation_spells h
  binary _ le s := (Parser.binary_climbs h le s).1
  unary := Parser.unary_spells h
  halts _ le s := (Parser.binary_climbs h le s).2
  deep _ deep := Parser.expression_deep deep

/-- However often the circle of the rules is tied, they read what their results consist of. -/
theorem Rules.upTo_spelling (n : ℕ) : (Rules.upTo n).Spelling source := by
  induction n with
  | zero => exact none_spelling
  | succ n ih =>
    rw [upTo_succ]
    exact ih.next

end MethodLift.Syntax
