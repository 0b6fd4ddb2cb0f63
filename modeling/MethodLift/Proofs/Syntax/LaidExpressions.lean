import MethodLift.Proofs.Syntax.SpelledExpressions

/-!
# Reading lays expressions

Each level of the grammar of expressions leaves the expression that it reads, if the levels that it
goes back to do.  The circle is tied as for the places of expressions, by induction on the number of
rounds (`Rules.upTo_laying`).

A level that begins with taking a token is looked at from states in which that token takes space.

The fields of a formatted string are read as texts of their own, after which reading goes on where it
was.  What they leave lies inside the string that was taken before, one field behind the other,
because the fields do (`fields_row`).
-/

namespace MethodLift.Syntax

variable {source : List Char} {rules : Rules}

/-- From everywhere, a step leaves the expression that it reads. -/
abbrev LaysExpr (source : List Char) (p : Parser Expr) : Prop :=
  Lays source p fun e => [.read e]

/-- The levels of the grammar that others go back to leave what they read, and read what their
results consist of. -/
structure Rules.Laying (source : List Char) (rules : Rules) : Prop where
  spelling : rules.Spelling source
  expression : LaysExpr source rules.expression
  disjunction : LaysExpr source rules.disjunction
  negation : LaysExpr source rules.negation
  binary : ∀ level, LaysExpr source (rules.binary level)
  unary : LaysExpr source rules.unary

/-- An expression that may be there. -/
lemma Lays.some {p : Parser Expr} (h : LaysExpr source p) :
    Lays source (Option.some <$> p) fun o => Node.reads o.toList := h.map

lemma Lays.none : Lays source (Pure.pure Option.none : Parser (Option Expr))
    fun o => Node.reads o.toList := .pure rfl

namespace Parser

variable {s s₁ : ParserState} {started : Bool} {ns : List Node}

lemma takesSpace_of_isAt {k : TokenKind} (h : (s.current.kind == k) = true)
    (takes : k.takesSpace = true) : s.current.kind.takesSpace = true := by
  rw [eq_of_beq h]
  exact takes

/-! ## Stars, walruses and lists -/

section

variable (hr : rules.Laying source)
include hr

lemma starredOr_lays {other : Parser Expr} (h : LaysExpr source other) :
    LaysExpr source (starredOr rules other) := by
  intro s hs
  refine .look rfl ?_
  split
  next star =>
    refine (Leaves.start hs).bump (takesSpace_of_isAt star rfl) fun begun => ?_
    refine begun.bind (hr.binary 0) ?_
    intro value s₁ done
    exact done.completeFrom (.starred · value .load) (.inl rfl) (.inl rfl)
      (fun _ => ⟨rfl, rfl, rfl⟩) (fun _ _ => trivial)
  · exact h s hs

lemma namedExpression_lays : LaysExpr source (namedExpression rules) := by
  intro s hs
  refine .look rfl (.look rfl ?_)
  split
  next walrus =>
    have takes := takesSpace_of_isAt (Bool.and_eq_true_iff.1 walrus).1 rfl
    refine (Leaves.start hs).bump takes fun _ => ?_
    have left : Ends (complete s.current.span (.name · s.current.text .store)) (advance s)
        fun e s' => Leaves source s s' false [.target e] ∧ ∃ m id ctx, e = .name m id ctx :=
      ⟨Leaves.completeToken .target hs takes (.name · s.current.text .store) (fun _ => rfl)
        (fun _ => ⟨rfl, rfl, nofun⟩) (fun _ _ => trivial), _, _, _, rfl⟩
    refine left.bind ?_
    rintro target s₁ ⟨done, isName⟩
    refine done.skip bump_quiet ?_
    intro _ s₂ done
    refine done.bind hr.expression ?_
    intro value s₃ done
    exact done.completeFrom (.named · target value) (.inl rfl) (.inr (List.cons_ne_nil _ _))
      (fun _ => ⟨rfl, rfl, rfl⟩) (fun _ _ => isName)
  · exact hr.expression s hs

lemma element_lays : LaysExpr source (element rules) :=
  starredOr_lays hr (namedExpression_lays hr)

lemma operand_lays : LaysExpr source (operand rules) := starredOr_lays hr (hr.binary 0)

omit hr in
lemma tupleOf_lays {item : Parser Expr} {mayFollow : Parser Bool} (h : LaysExpr source item)
    (looks : ∀ s, (mayFollow.run s).2 = s) : LaysExpr source (tupleOf item mayFollow) := by
  intro s hs
  refine (Leaves.start hs).bind h ?_
  intro first s₁ done
  refine .look rfl ?_
  split
  · exact done
  have step : Lays source (do
      if (← eatSymbol .comma) && (← mayFollow) then return some (← item) else return none :
      Parser (Option Expr)) fun o => o.toList.flatMap fun e => [.read e] := by
    intro s hs
    refine (Leaves.start hs).skip (eat_quiet _) ?_
    intro there s₁ done
    refine .look (looks s₁) ?_
    split
    · exact done.bind h fun e s₂ done => done.give rfl
    · exact done
  refine done.bind (collect_lays step) ?_
  intro others s₂ done
  exact done.completeFrom (.tuple · (first :: others) .load false) (.inr ⟨_, _, rfl, rfl⟩)
    (.inr (by simp)) (fun _ => ⟨rfl, by simp [Node.parts, Node.ofRead, Expr.children], rfl⟩)
    (fun _ _ => trivial)

lemma expressions_lays : LaysExpr source (expressions rules) :=
  tupleOf_lays (element_lays hr) fun _ => rfl

lemma operands_lays : LaysExpr source (operands rules) :=
  tupleOf_lays (operand_lays hr) fun _ => rfl

lemma yieldExpression_leaves (hs : s.Live source) (takes : s.current.kind.takesSpace = true) :
    Ends (yieldExpression rules) s fun e s' => Leaves source s s' false [.read e] := by
  refine (Leaves.start hs).bump takes fun begun => ?_
  refine begun.skip (eat_quiet _) ?_
  intro there s₁ done
  split
  · refine done.bind hr.expression ?_
    intro value s₂ done
    exact done.completeFrom (.yieldFrom · value) (.inl rfl) (.inl rfl) (fun _ => ⟨rfl, rfl, rfl⟩)
      (fun _ _ => trivial)
  · refine .look rfl (done.choice (expressions_lays hr).some .none ?_)
    intro value s₂ done
    exact done.completeFrom (.yield · value) (.inl rfl) (.inl rfl) (fun _ => ⟨rfl, rfl, rfl⟩)
      (fun _ _ => trivial)

lemma value_lays : LaysExpr source (value rules) := by
  intro s hs
  refine .look rfl ?_
  split
  next word => exact yieldExpression_leaves hr hs (takesSpace_of_isAt word rfl)
  · exact expressions_lays hr s hs

/-! ## Parameters and lambdas -/

omit hr in
lemma paramHead?_quiet : Quiet source paramHead? := by
  intro s hs
  have begun := Leaves.start hs
  refine .look rfl ?_
  split
  · exact begun.skip bump_quiet fun _ _ done => done
  · refine begun.skip bump_quiet fun _ _ done => done.skip name?_quiet ?_
    intro name s₁ done
    split
    · exact done
    · exact done
  · exact begun.skip bump_quiet fun _ _ done => done.skip nameOrMissing_quiet fun _ _ done => done
  · exact begun.skip name?_quiet fun _ _ done => done
  · exact begun.skip (note_quiet _) fun _ _ done => done

omit hr in
lemma after?_lays {symbol : Symbol} {step : Parser Expr} (h : LaysExpr source step) :
    Lays source (after? symbol step) fun o => Node.reads o.toList :=
  (afterEaten_lays h).congr fun o => by simp

lemma param?_lays (close : Symbol) (annotated : Bool) :
    Lays source (param? rules close annotated) fun o => o.toList.flatMap fun p =>
      Node.reads (p.annotation.toList ++ p.default.toList) := by
  intro s hs
  refine .look rfl (.look rfl ?_)
  split
  · exact Leaves.start hs
  refine .look rfl ((Leaves.start hs).skip paramHead?_quiet ?_)
  intro head s₁ done
  split
  · exact done
  refine done.choice (after?_lays hr.expression) .none ?_
  intro annotation s₂ done
  refine done.choice (after?_lays hr.expression) .none ?_
  intro default s₃ done
  exact .look rfl (done.give (by simp))

lemma params_lays (close : Symbol) (annotated : Bool) :
    Lays source (params rules close annotated) fun ps =>
      Node.reads (ps.flatMap fun p => p.annotation.toList ++ p.default.toList) :=
  (separated_lays (param?_lays hr close annotated)).congr fun _ => Node.flatMap_reads _ _

omit hr in
/-- The parameters of a lambda have no annotations. -/
lemma params_plain (close : Symbol) (s : ParserState) :
    Ends (params rules close false) s fun ps _ => ∀ p ∈ ps, p.annotation = none := by
  refine separated_yields (fun s => ?_) s
  refine .look rfl (.look rfl ?_)
  split
  · exact (nofun : ∀ p ∈ none, Param.annotation p = none)
  refine .look rfl ((show Ends paramHead? s fun _ _ => True from trivial).bind ?_)
  intro head s₁ _
  split
  · exact (nofun : ∀ p ∈ none, Param.annotation p = none)
  next kind name =>
    have plain (default : Option Expr) (s₂ : ParserState) : Ends (do
        return some ⟨kind, name, none, default, ← spanFrom s.position⟩) s₂
        fun o _ => ∀ p ∈ o, Param.annotation p = none := by
      rintro _ ⟨⟩
      rfl
    simp only [Bool.false_and, Bool.false_eq_true, if_false]
    cases kind == ParamKind.regular with
    | false => exact plain none s₁
    | true =>
      exact (show Ends (after? .equal rules.expression) s₁ fun _ _ => True from trivial).bind
        fun default s₂ _ => plain default s₂

lemma lambda_leaves (hs : s.Live source) (takes : s.current.kind.takesSpace = true) :
    Ends (lambda rules) s fun e s' => Leaves source s s' false [.read e] := by
  refine (Leaves.start hs).bump takes fun begun => ?_
  have ps : Ends (params rules .colon false) (advance s) fun ps s' =>
      Leaves source (advance s) s' false (Node.reads (ps.flatMap fun p =>
        p.annotation.toList ++ p.default.toList)) ∧ ∀ p ∈ ps, p.annotation = none :=
    ⟨params_lays hr .colon false _ begun.live, params_plain .colon _⟩
  refine .look rfl (ps.bind ?_)
  rintro ps s₁ ⟨parameters, plain⟩
  refine .look rfl ((begun.append parameters).skip (expectSymbol_quiet _) ?_)
  intro _ s₂ done
  refine done.bind hr.expression ?_
  intro body s₃ done
  exact done.completeFrom (.lambda · ⟨ps, _⟩ body) (.inl rfl) (.inl rfl)
    (fun _ => ⟨rfl, Node.reads_append _ _, rfl⟩) (fun _ _ => plain)

/-! ## Comprehensions -/

lemma generator?_lays : Lays source (generator? rules) fun o => o.toList.flatMap Node.ofGenerator
    := by
  intro s hs
  refine .look rfl ?_
  split
  · exact Leaves.start hs
  refine .look rfl ((Leaves.start hs).skip (eat_quiet _) ?_)
  intro isAsync s₁ done
  refine done.skip bump_quiet ?_
  intro _ s₂ done
  refine done.bind (operands_lays hr) ?_
  intro e s₃ done
  refine (done.target .store nofun).bind ?_
  intro target s₄ done
  refine done.expectKeyword ?_
  intro s₅ done
  refine done.bind hr.disjunction ?_
  intro iter s₆ done
  have condition : Lays source
      (do if ← eatKeyword .kIf then return some (← rules.disjunction) else return none :
        Parser (Option Expr)) fun o => o.toList.flatMap fun e => [.read e] :=
    afterEaten_lays hr.disjunction
  refine done.bind (collect_lays condition) ?_
  intro conditions s₇ done
  exact .look rfl (done.weaken.give (by simp [Node.ofGenerator]))

lemma generators_lays : Lays source (generators rules) fun gs => gs.flatMap Node.ofGenerator :=
  collect_lays (generator?_lays hr)

lemma comprehension_leaves (close : Symbol) (kind : ComprehensionKind) {element : Expr}
    {value : Option Expr}
    (h : Leaves source s s₁ started (.read element :: Node.reads value.toList)) :
    Ends (comprehension rules s.position close kind element value) s₁
      fun e s' => Leaves source s s' false [.read e] := by
  refine h.bind (generators_lays hr) ?_
  intro clauses s₂ done
  refine done.expectSymbol ?_
  intro _ s₃ done
  exact done.completeFrom (.comprehension · kind element value clauses) (.inl rfl) (.inl rfl)
    (fun _ => ⟨rfl, rfl, rfl⟩) (fun _ _ => trivial)

/-! ## Brackets -/

omit hr in
/-- Parentheses around an expression become part of its span. -/
lemma widened_leaves {e : Expr} (h : Leaves source s s₁ started [.read e]) :
    Ends (do
      let _ ← expectSymbol .rightParen
      return e.withSpan (← spanFrom s.position)) s₁
      fun e s' => Leaves source s s' false [.read e] := by
  refine h.expectSymbol ?_
  intro _ s₂ done
  exact .look rfl done.widen.weaken

/-- The later elements of a bracketed list, its closing bracket, and the node of the list. -/
lemma listed_leaves (close : Symbol) {first : Expr} (h : Leaves source s s₁ started [.read first])
    (build : List Expr → Mark → Expr)
    (shape : ∀ es m, (build es m).mark = m ∧ (Node.read (build es m)).parts = Node.reads es
      ∧ (Node.read (build es m)).InRole)
    (formed : ∀ es m stop, Node.Formed stop (build es m)) :
    Ends (do
      let others ← elements close (element rules)
      let _ ← expectSymbol close
      completeFrom s.position (build (first :: others))) s₁
      fun e s' => Leaves source s s' false [.read e] := by
  refine h.bind (elements_lays (element_lays hr)) ?_
  intro others s₂ done
  refine done.expectSymbol ?_
  intro _ s₃ done
  have whole : Leaves source s s₃ true (Node.reads (first :: others)) := done.congr (by simp)
  exact whole.completeFrom (build (first :: others)) (.inl rfl) (.inl rfl) (shape _) (formed _)

lemma parenthesized_leaves (hs : s.Live source) (takes : s.current.kind.takesSpace = true) :
    Ends (parenthesized rules) s fun e s' => Leaves source s s' false [.read e] := by
  refine (Leaves.start hs).bump takes fun begun => ?_
  refine begun.skip (eat_quiet _) ?_
  intro there s₁ done
  split
  · exact done.completeFrom (.tuple · [] .load true) (.inl rfl) (.inl rfl)
      (fun _ => ⟨rfl, rfl, rfl⟩) (fun _ _ => trivial)
  refine .look rfl ?_
  split
  next word =>
    have inner := yieldExpression_leaves hr done.live (takesSpace_of_isAt word rfl)
    exact inner.bind fun e s₂ read => widened_leaves (done.append read)
  refine done.bind (element_lays hr) ?_
  intro first s₂ done
  refine .look rfl ?_
  split
  · exact comprehension_leaves hr _ _ done
  refine .look rfl ?_
  split
  · exact widened_leaves done
  · exact listed_leaves hr _ done (fun es m => .tuple m es .load true)
      (fun _ _ => ⟨rfl, rfl, rfl⟩) fun _ _ _ => trivial

lemma bracketed_leaves (hs : s.Live source) (takes : s.current.kind.takesSpace = true) :
    Ends (bracketed rules) s fun e s' => Leaves source s s' false [.read e] := by
  refine (Leaves.start hs).bump takes fun begun => ?_
  refine begun.skip (eat_quiet _) ?_
  intro there s₁ done
  split
  · exact done.completeFrom (.list · [] .load) (.inl rfl) (.inl rfl)
      (fun _ => ⟨rfl, rfl, rfl⟩) (fun _ _ => trivial)
  refine done.bind (element_lays hr) ?_
  intro first s₂ done
  refine .look rfl ?_
  split
  · exact comprehension_leaves hr _ _ done
  · exact listed_leaves hr _ done (fun es m => .list m es .load) (fun _ _ => ⟨rfl, rfl, rfl⟩)
      fun _ _ _ => trivial

lemma dictItem_leaves (ns : List Node) {key : Option Expr}
    (h : Leaves source s s₁ started (ns ++ Node.reads key.toList)) :
    Ends (dictItem rules key) s₁
      fun item s' => Leaves source s s' started (ns ++ Node.reads item.exprs) := by
  unfold dictItem
  cases key with
  | some key =>
    refine h.skip (expectSymbol_quiet _) ?_
    intro _ s₂ done
    refine done.bind hr.expression ?_
    intro value s₃ done
    exact done.congr (List.append_assoc _ _ _)
  | none =>
    refine h.skip (expectSymbol_quiet _) ?_
    intro _ s₂ done
    refine done.bind (hr.binary 0) ?_
    intro value s₃ done
    exact done.congr (List.append_assoc _ _ _)

lemma laterDictItem_lays : Lays source (laterDictItem rules) fun item => Node.reads item.exprs := by
  intro s hs
  refine .look rfl ((Leaves.start hs).choice .none hr.expression.some ?_)
  intro key s₁ done
  exact dictItem_leaves hr [] done

lemma setAfter_leaves {first : Expr} (h : Leaves source s s₁ started [.read first]) :
    Ends (setAfter rules s.position first) s₁ fun e s' => Leaves source s s' false [.read e] := by
  refine .look rfl ?_
  split
  · exact comprehension_leaves hr _ _ h
  · exact listed_leaves hr _ h (fun es m => .set m es) (fun _ _ => ⟨rfl, rfl, rfl⟩)
      fun _ _ _ => trivial

lemma dictAfter_others_leaves {first : DictItem Expr}
    (h : Leaves source s s₁ started (Node.reads first.exprs)) :
    Ends (dictAfter.others rules s.position first) s₁
      fun e s' => Leaves source s s' false [.read e] := by
  refine h.bind (elements_lays (laterDictItem_lays hr)) ?_
  intro items s₂ done
  refine done.expectSymbol ?_
  intro _ s₃ done
  exact done.completeFrom (.dict · (first :: items)) (.inl rfl) (.inl rfl)
    (fun _ => ⟨rfl, by simp [Node.parts, Node.ofRead, Expr.children], rfl⟩) (fun _ _ => trivial)

lemma dictAfter_leaves (key : Option Expr)
    (h : Leaves source s s₁ started (Node.reads key.toList)) :
    Ends (dictAfter rules s.position key) s₁ fun e s' => Leaves source s s' false [.read e] := by
  refine (dictItem_leaves hr [] h).bind ?_
  intro first s₂ done
  split
  next key is =>
    refine .look rfl ?_
    split
    · refine comprehension_leaves hr _ _ (done.congr ?_)
      rw [DictItem.exprs, is]
      rfl
    · exact dictAfter_others_leaves hr done
  · exact dictAfter_others_leaves hr done

lemma braced_leaves (hs : s.Live source) (takes : s.current.kind.takesSpace = true) :
    Ends (braced rules) s fun e s' => Leaves source s s' false [.read e] := by
  refine (Leaves.start hs).bump takes fun begun => ?_
  refine begun.skip (eat_quiet _) ?_
  intro there s₁ done
  split
  · exact done.completeFrom (.dict · []) (.inl rfl) (.inl rfl) (fun _ => ⟨rfl, rfl, rfl⟩)
      (fun _ _ => trivial)
  refine .look rfl ?_
  split
  · exact dictAfter_leaves hr none done
  refine done.bind (element_lays hr) ?_
  intro first s₂ done
  refine .look rfl ?_
  split
  · exact dictAfter_leaves hr (some first) done
  · exact setAfter_leaves hr done

/-! ## Strings -/

/-- Expressions that were read aside, from a part of the text between two offsets: reading goes on
where it was. -/
structure Aside (source : List Char) (start stop : ℕ) (s s' : ParserState) (es : List Expr) :
    Prop where
  passes : Passes source s s'
  current : s'.current = s.current
  lastEnd : s'.lastEnd = s.lastEnd
  row : s'.problems = [] →
    Row ⟨start, s.exprCount, s.stmtCount⟩ ⟨stop, s'.exprCount, s'.stmtCount⟩ (Node.reads es)

omit hr in
lemma Aside.nothing (hs : s.Live source) (start stop : ℕ) : Aside source start stop s s [] :=
  ⟨.refl hs, rfl, rfl, fun _ => .nil⟩

/-- The field of a formatted string. -/
lemma field?_aside (span : Span) (hs : s.Live source) :
    Ends (field? rules span) s fun o s' => Aside source span.start span.stop s s' o.toList := by
  refine .look rfl (.look rfl ?_)
  split
  · exact Aside.nothing hs _ _
  next used =>
  have slice : Text.slice source span = Text.slice s.source span := by rw [hs.text]
  have some : Text.slice s.source span ≠ [] := by
    intro empty
    rw [Bool.or_eq_true, not_or] at used
    exact used.1 (by show (Text.slice s.source span).all _ = true; rw [empty]; rfl)
  obtain ⟨live, ahead, limit⟩ := field_live slice some hs
  set lexed := lexBracketed span.start (Text.slice s.source span) with lexed_eq
  set inner : ParserState := { s with
    current := lexed.tokens.headD ⟨.endOfFile, "", .point span.stop⟩
    later := lexed.tokens.tail
    problems := lexed.problems.reverse ++ s.problems } with inner_eq
  have back : ∀ (e : Expr) (s' : ParserState), Leaves source inner s' false [.read e] →
      Ends (do
        modify fun state => { state with
          current := s.current
          later := s.later
          lastEnd := s.lastEnd }
        return Option.some e) s'
        fun o s'' => Aside source span.start span.stop s s'' o.toList := by
    intro e s' done
    have passes : Passes source s { s' with
        current := s.current
        later := s.later
        lastEnd := s.lastEnd } :=
      ⟨⟨done.live.text, hs.tokens, hs.solid, hs.ended⟩, Nat.le_refl _, fun _ limit => limit,
        fun clean => (List.append_eq_nil_iff.1 (done.clean clean)).2, Nat.le_refl _, id,
        done.exprs, done.stmts, done.unused, fun _ _ => ⟨_, .nothing rfl rfl rfl⟩⟩
    refine ⟨passes, rfl, rfl, fun clean => ?_⟩
    have last : s'.reached ≤ span.stop := by
      have stop := done.limit _ limit s'.current List.mem_cons_self
      exact Nat.le_trans (Nat.min_le_right _ _) (Nat.le_trans done.live.forward stop)
    exact (done.row clean).mono ⟨ahead, Nat.le_refl _, Nat.le_refl _⟩
      ⟨last, Nat.le_refl _, Nat.le_refl _⟩
  have read := nested_lays (value_lays hr) inner live
  refine Ends.elsewhere (read.bind ?_)
  intro e s' done
  refine .look rfl ?_
  split
  · refine done.note ?_
    intro s'' spoilt
    exact back e s'' spoilt.leaves
  · exact back e s' done

/-- Fields that lie one behind the other. -/
lemma fields_aside {spans : List Span} {start stop : ℕ}
    (order : ReplacementField.InOrder start stop spans) (hs : s.Live source) :
    Ends (spans.filterMapM (field? rules)) s fun es s' => Aside source start stop s s' es := by
  induction spans generalizing s start with
  | nil =>
    rw [List.filterMapM_nil]
    exact Aside.nothing hs _ _
  | cons span spans ih =>
    rw [List.filterMapM_cons]
    refine (field?_aside hr span hs).bind ?_
    intro o s₁ first
    obtain ⟨each, later⟩ := List.forall_mem_cons.1 order.each
    obtain ⟨apart, rest⟩ := List.pairwise_cons.1 order.apart
    have behind : ReplacementField.InOrder span.stop stop spans :=
      ⟨fun t ht => ⟨apart t ht, (later t ht).2⟩, rest⟩
    have all : ∀ es s₂, Aside source span.stop stop s₁ s₂ es →
        Aside source start stop s s₂ (o.toList ++ es) := by
      intro es s₂ second
      refine ⟨first.passes.trans second.passes, second.current.trans first.current,
        second.lastEnd.trans first.lastEnd, fun clean => ?_⟩
      have left := first.row (second.passes.clean clean)
      have right := second.row clean
      have wide := left.append right ⟨each.2.1, first.passes.exprs, first.passes.stmts⟩ (.refl _)
        ⟨each.2.2, second.passes.exprs, second.passes.stmts⟩
      rw [Node.reads_append]
      exact wide.mono ⟨each.1, Nat.le_refl _, Nat.le_refl _⟩ (.refl _)
    have rest := ih behind first.passes.live
    cases o with
    | none => exact all _ _ rest
    | some e => exact rest.bind fun es s₂ second => all es s₂ second

/-- String tokens that were taken between two states, one behind the other. -/
structure Strings (source : List Char) (s s' : ParserState) (ts : List Token) : Prop where
  leaves : Leaves source s s' (!ts.isEmpty) []
  each : ∀ t ∈ ts, t.Placed source ∧ s.position ≤ t.span.start ∧ t.span.stop ≤ s'.reached
  apart : ts.Pairwise fun a b => a.span.stop ≤ b.span.start

omit hr in
lemma stringTokens (n : ℕ) (hs : s.Live source) :
    Ends (collectAtMost stringToken? n) s fun ts s' => Strings source s s' ts
      ∧ (n ≠ 0 → s.current.kind = .string ∨ s.current.kind = .fstring → ts ≠ []) := by
  induction n generalizing s with
  | zero => exact ⟨⟨Leaves.start hs, nofun, .nil⟩, fun more => absurd rfl more⟩
  | succ n ih =>
    have taken : Ends stringToken? s fun o s' =>
        (o = none → s' = s ∧ ¬ (s.current.kind = .string ∨ s.current.kind = .fstring))
        ∧ ∀ t ∈ o, t = s.current ∧ s' = advance s ∧ s.current.kind.takesSpace = true := by
      refine .look rfl (.look rfl ?_)
      split
      next is =>
        refine ⟨nofun, ?_⟩
        rintro _ ⟨⟩
        refine ⟨rfl, rfl, ?_⟩
        rcases Bool.or_eq_true_iff.1 is with is | is
        · exact takesSpace_of_isAt is rfl
        · exact takesSpace_of_isAt is rfl
      next other =>
        refine ⟨fun _ => ⟨rfl, ?_⟩, nofun⟩
        rintro (is | is)
        · exact other (Bool.or_eq_true_iff.2 (.inl (beq_iff_eq.2 is)))
        · exact other (Bool.or_eq_true_iff.2 (.inr (beq_iff_eq.2 is)))
    refine taken.bind ?_
    rintro o s₁ ⟨nothing, something⟩
    cases o with
    | none =>
      obtain ⟨rfl, other⟩ := nothing rfl
      exact ⟨⟨Leaves.start hs, nofun, .nil⟩, fun _ is => absurd is other⟩
    | some t =>
      obtain ⟨rfl, rfl, takes⟩ := something t rfl
      have begun := (Leaves.start hs).take takes
      refine (ih begun.live).bind ?_
      rintro ts s₂ ⟨later, -⟩
      have kinds := takes
      rw [TokenKind.takesSpace, Bool.and_eq_true, Bool.not_eq_true', bne_iff_ne] at kinds
      have stop := stop_le_position_advance hs kinds.2
      have reached : s.current.span.stop ≤ (advance s).reached := by
        rw [ParserState.reached, advance_lastEnd kinds.2 kinds.1]
        exact Nat.le_min.2 ⟨Nat.le_refl _, stop⟩
      refine ⟨⟨begun.append later.leaves, ?_, ?_⟩, fun _ _ => List.cons_ne_nil _ _⟩
      · refine List.forall_mem_cons.2 ⟨⟨hs.tokens.each _ List.mem_cons_self, Nat.le_refl _, ?_⟩, ?_⟩
        · exact Nat.le_trans reached later.leaves.reached
        · intro t ht
          obtain ⟨placed, start, stop⟩ := later.each t ht
          exact ⟨placed, Nat.le_trans begun.forward start, stop⟩
      · refine List.pairwise_cons.2 ⟨fun t ht => ?_, later.apart⟩
        exact Nat.le_trans stop (later.each t ht).2.1

omit hr in
/-- The fields of strings that were taken lie behind one another, between the two states. -/
lemma Strings.fields {ts : List Token} {s' : ParserState} (h : Strings source s s' ts) :
    ReplacementField.InOrder s.position s'.reached ((ts.filter (·.kind == .fstring)).flatMap fun t =>
      ReplacementField.spans t.text.toList t.span.start (Text.dropBytes source t.span.start)) := by
  have sub : (ts.filter (·.kind == .fstring)).Sublist ts := List.filter_sublist
  refine .flatMap (fun t ht => (h.each t (sub.mem ht)).2) (h.apart.sublist sub) ?_
  intro t ht
  obtain ⟨placed, -, -⟩ := h.each t (sub.mem ht)
  rcases placed.text with empty | text
  · rw [empty]
    exact .nil
  by_cases none : t.text.toList = []
  · rw [none]
    exact .nil
  · rw [← text] at none ⊢
    obtain ⟨before, after, whole, start, stop⟩ := Text.slice_ne_nil none
    have rest : Text.dropBytes source t.span.start = Text.slice source t.span ++ after := by
      rw [← start]
      conv_lhs => rw [whole, List.append_assoc]
      exact Text.dropBytes_append _ _
    rw [rest, ← stop, Text.width_append, ← start]
    exact ReplacementField.spans_inOrder

lemma strings_leaves (hs : s.Live source)
    (is : s.current.kind = .string ∨ s.current.kind = .fstring) :
    Ends (strings rules) s fun e s' => Leaves source s s' false [.read e] := by
  have tokens : Ends (collect stringToken?) s fun ts s' => Strings source s s' ts ∧ ts ≠ [] := by
    refine .look rfl ?_
    obtain ⟨taken, some⟩ := stringTokens _ hs
    exact ⟨taken, some (Nat.succ_ne_zero _) is⟩
  refine .look rfl (tokens.bind ?_)
  rintro ts s₁ ⟨taken, some⟩
  have begun : Leaves source s s₁ true [] := by
    have leaves := taken.leaves
    rw [List.isEmpty_eq_false_iff.2 some] at leaves
    exact leaves
  refine .look rfl ?_
  dsimp only
  split
  · exact begun.complete .read (.inl rfl) (.constant · _) (.inl rfl) rfl (fun _ => rfl)
      (fun _ => ⟨rfl, rfl, rfl⟩) (fun _ _ => trivial)
  · have fields := taken.fields
    rw [← begun.live.text] at fields
    refine .look rfl ((fields_aside hr fields begun.live).bind ?_)
    intro es s₂ aside
    have reached : s₁.reached = s₂.reached := by
      rw [ParserState.reached, ParserState.reached, aside.lastEnd, ParserState.position,
        ParserState.position, aside.current]
    have done : Leaves source s s₂ true (Node.reads es) := by
      have passed := begun.pass aside.passes
      refine ⟨passed.toPasses, fun clean => ?_, fun _ => passed.begun (.inl rfl)⟩
      have row := aside.row clean
      rw [reached] at row
      exact row.mono ⟨Nat.le_refl _, begun.exprs, begun.stmts⟩ (.refl _)
    refine done.complete .read (.inl rfl) (.fstring · es) (.inl rfl) ?_ (fun _ => rfl)
      (fun _ => ⟨rfl, rfl, rfl⟩) (fun _ _ => trivial)
    rw [aside.lastEnd]
    rfl

/-! ## Atoms and primaries -/

omit hr in
lemma constant_leaves (kind : ConstantKind) (hs : s.Live source)
    (takes : s.current.kind.takesSpace = true) :
    Ends (constant kind) s fun e s' => Leaves source s s' false [.read e] := by
  refine (Leaves.start hs).bump takes fun _ => ?_
  exact Leaves.completeToken .read hs takes (.constant · kind) (fun _ => rfl)
    (fun _ => ⟨rfl, rfl, rfl⟩) (fun _ _ => trivial)

lemma atom_lays : LaysExpr source (atom rules) := by
  intro s hs
  have takes {k : TokenKind} (is : s.current.kind = k) (h : k.takesSpace = true) :
      s.current.kind.takesSpace = true := is ▸ h
  refine .look rfl ?_
  split
  next is =>
    refine (Leaves.start hs).bump (takes is rfl) fun _ => ?_
    exact Leaves.completeToken .read hs (takes is rfl) (.name · s.current.text .load)
      (fun _ => rfl) (fun _ => ⟨rfl, rfl, rfl⟩) (fun _ _ => trivial)
  next is => exact constant_leaves _ hs (takes is rfl)
  next is => exact strings_leaves hr hs (.inl is)
  next is => exact strings_leaves hr hs (.inr is)
  next is => exact constant_leaves _ hs (takes is rfl)
  next is => exact constant_leaves _ hs (takes is rfl)
  next is => exact constant_leaves _ hs (takes is rfl)
  next is => exact constant_leaves _ hs (takes is rfl)
  next is => exact parenthesized_leaves hr hs (takes is rfl)
  next is => exact bracketed_leaves hr hs (takes is rfl)
  next is => exact braced_leaves hr hs (takes is rfl)
  · refine (Leaves.start hs).note ?_
    intro s₁ spoilt
    refine .look rfl ?_
    dsimp only
    split
    · exact spoilt.bind bump_quiet.keeps fun _ _ spoilt => spoilt.last (Leaves.complete_keeps _ _)
    · exact spoilt.last (Leaves.complete_keeps _ _)

lemma arg?_lays : Lays source (arg? rules) fun o => o.toList.flatMap fun a => [.read a.value] := by
  intro s hs
  have begun := Leaves.start hs
  refine .look rfl (.look rfl ?_)
  split
  · exact begun
  refine .look rfl (.look rfl ?_)
  split
  · refine begun.skip bump_quiet fun _ _ done => done.bind hr.expression ?_
    exact fun value s₁ done => .look rfl (done.give rfl)
  · refine begun.skip bump_quiet fun _ _ done => done.bind hr.expression ?_
    exact fun value s₁ done => .look rfl (done.give rfl)
  refine .look rfl (.look rfl ?_)
  split
  · refine begun.skip bump_quiet fun _ _ done => done.skip bump_quiet fun _ _ done => ?_
    refine done.bind hr.expression ?_
    exact fun value s₁ done => .look rfl (done.give rfl)
  · refine begun.bind (namedExpression_lays hr) ?_
    intro first s₁ done
    refine .look rfl ?_
    split
    · refine done.bind (generators_lays hr) ?_
      intro clauses s₂ done
      refine (done.completeFrom (.comprehension · .generator first none clauses) (.inl rfl)
        (.inr (List.cons_ne_nil _ _)) (fun _ => ⟨rfl, rfl, rfl⟩) (fun _ _ => trivial)).bind ?_
      exact fun value s₃ done => .look rfl (done.give rfl)
    · exact .look rfl (done.give rfl)

lemma args_lays : Lays source (args rules) fun as => Node.reads (as.map (·.value)) :=
  (separated_lays (arg?_lays hr)).congr fun _ => Node.flatMap_read _ _

lemma bound?_lays : Lays source (bound? rules) fun o => Node.reads o.toList := by
  intro s hs
  refine .look rfl ?_
  split
  · exact (Leaves.start hs).bind hr.expression fun e s₁ done => done.give rfl
  · exact Leaves.start hs

/-- A slice starts with its lower bound or, without one, with its colon. -/
lemma sliceAfter_leaves (lower : Option Expr) (colon : s₁.current.kind.takesSpace = true)
    (h : Leaves source s s₁ started (Node.reads lower.toList)) :
    Ends (sliceAfter rules s.position lower) s₁ fun e s' => Leaves source s s' false [.read e] := by
  refine h.bump colon fun begun => ?_
  refine begun.bind (bound?_lays hr) ?_
  intro upper s₂ done
  refine done.skip (eat_quiet _) ?_
  intro there s₃ done
  refine done.choice (bound?_lays hr) .none ?_
  intro step s₄ done
  exact done.completeFrom (.slice · lower upper step) (.inl rfl) (.inl rfl)
    (fun _ => ⟨rfl, by simp [Node.parts, Node.ofRead, Expr.children], rfl⟩) (fun _ _ => trivial)

lemma subscriptItem_lays : LaysExpr source (subscriptItem rules) := by
  intro s hs
  refine .look rfl (.look rfl ?_)
  split
  next colon =>
    exact sliceAfter_leaves hr none (takesSpace_of_isAt colon rfl) (Leaves.start hs)
  refine (Leaves.start hs).bind (element_lays hr) ?_
  intro e s₁ done
  refine .look rfl ?_
  split
  next colon => exact sliceAfter_leaves hr (some e) (takesSpace_of_isAt colon rfl) done
  · exact done

lemma subscriptItems_lays : LaysExpr source (subscriptItems rules) :=
  tupleOf_lays (subscriptItem_lays hr) fun _ => rfl

omit hr in
/-- The name of an attribute stands behind what the attribute is taken from. -/
lemma member_leaves {e : Expr} (h : Leaves source s s₁ started [.read e])
    (dot : s₁.current.kind.takesSpace = true) :
    Ends (do
      let _ ← bump
      let ident ← nameOrMissing
      return some (← completeFrom e.span.start (.attr · e ident .load))) s₁
      fun o s' => Leaves source s s' false [.read (o.getD e)] := by
  have dotted := advance_leaves h.live dot
  have begun := h.take dot
  refine h.bump dot fun _ => Ends.bind (nameOrMissing_quiet (advance s₁) begun.live) ?_
  intro ident s₂ name
  have done := begun.pass name.toPasses
  have behind : s₂.problems = [] → e.span.stop < s₂.lastEnd := by
    intro clean
    have clean' := name.clean clean
    have stop : e.span.stop ≤ s₁.reached :=
      ((h.row (dotted.clean clean')).within _ List.mem_cons_self).2
    have here : s₁.reached ≤ s₁.position := Nat.min_le_right _ _
    have less := (dotted.begun (.inl rfl) clean').1
    have later : (advance s₁).reached ≤ s₂.lastEnd :=
      Nat.le_trans name.reached (Nat.min_le_left _ _)
    omega
  have whole : Ends (completeFrom e.span.start (.attr · e ident .load)) s₂
      fun d s' => Leaves source s s' false [.read d] := by
    refine .look rfl (done.complete .read (.inl rfl) (.attr · e ident .load) (.inr ⟨_, _, rfl, rfl⟩)
      rfl (fun _ => rfl) (fun _ => ⟨rfl, rfl, rfl⟩) ?_)
    exact fun clean _ => behind clean
  exact whole.bind fun d s₃ done => done

/-- The arguments of a call, and the end of the call. -/
lemma arguments_leave {e : Expr} (h : Leaves source s s₁ started [.read e]) :
    Ends (do
      let arguments ← args rules
      let _ ← expectSymbol .rightParen
      return some (← completeFrom e.span.start (.call · e arguments))) s₁
      fun o s' => Leaves source s s' false [.read (o.getD e)] := by
  have read : Ends (args rules) s₁ fun as s' =>
      Leaves source s s' started (.read e :: Node.reads (as.map (·.value)))
        ∧ (s'.problems = [] → ∀ a ∈ as, a.span.stop = a.value.span.stop) := by
    refine ⟨h.append (args_lays hr s₁ h.live), fun clean => ?_⟩
    exact ((args_tells hr.spelling s₁).2 clean ⟨h.live, h.live.ended⟩).2
  refine read.bind ?_
  rintro arguments s₂ ⟨done, ends⟩
  refine Ends.bind (expectSymbol_quiet _ s₂ done.live) ?_
  intro _ s₃ closed
  have done := done.pass closed.toPasses
  have whole : Ends (completeFrom e.span.start (.call · e arguments)) s₃
      fun d s' => Leaves source s s' false [.read d] := by
    refine .look rfl (done.complete .read (.inr (List.cons_ne_nil _ _)) (.call · e arguments)
      (.inr ⟨_, _, rfl, rfl⟩) rfl (fun _ => rfl) (fun _ => ⟨rfl, rfl, rfl⟩) ?_)
    exact fun clean _ => ends (closed.clean clean)
  exact whole.bind fun d s₄ done => done

/-- One more call, subscript or attribute. -/
lemma extension?_leaves {e : Expr} (h : Leaves source s s₁ started [.read e]) :
    Ends (extension? rules e) s₁ fun o s' => Leaves source s s' false [.read (o.getD e)] := by
  refine .look rfl ?_
  split
  · refine h.skip bump_quiet ?_
    intro _ s₂ done
    exact arguments_leave hr done
  · refine h.skip bump_quiet ?_
    intro _ s₂ done
    refine done.bind (subscriptItems_lays hr) ?_
    intro index s₃ done
    refine done.skip (expectSymbol_quiet _) ?_
    intro _ s₄ done
    exact (done.completeFrom (.subscript · e index .load) (.inr ⟨_, _, rfl, rfl⟩)
      (.inr (List.cons_ne_nil _ _)) (fun _ => ⟨rfl, rfl, rfl⟩) (fun _ _ => trivial)).bind fun d s₅ done => done
  next is =>
    have dot : s₁.current.kind = .symbol .dot := is
    exact member_leaves h (by rw [dot]; rfl)
  · exact h.weaken

lemma primary_lays : LaysExpr source (primary rules) := by
  intro s hs
  refine (Leaves.start hs).bind (atom_lays hr) ?_
  intro e s₁ done
  exact extend_leaves (f := fun e => [.read e]) (fun a s₂ done => extension?_leaves hr done) done

/-! ## Operators -/

lemma power_lays : LaysExpr source (power rules) := by
  intro s hs
  have raised : ∀ (base : Expr) s₁, Leaves source s s₁ false [.read base] →
      Ends (do
        if ← eatSymbol .doubleStar then
          let right ← nested rules.unary
          completeFrom base.span.start (.binary · base .pow right)
        else return base) s₁ fun e s' => Leaves source s s' false [.read e] := by
    intro base s₁ done
    refine done.skip (eat_quiet _) ?_
    intro there s₂ done
    split
    · refine done.bind (nested_lays hr.unary) ?_
      intro right s₃ done
      exact done.completeFrom (.binary · base .pow right) (.inr ⟨_, _, rfl, rfl⟩)
        (.inr (List.cons_ne_nil _ _)) (fun _ => ⟨rfl, rfl, rfl⟩) (fun _ _ => trivial)
    · exact done
  refine .look rfl ?_
  dsimp only
  split
  next word =>
    refine (Leaves.start hs).bump (takesSpace_of_isAt word rfl) fun begun => ?_
    refine begun.bind (primary_lays hr) ?_
    intro value s₁ done
    exact (done.completeFrom (.await · value) (.inl rfl) (.inl rfl) (fun _ => ⟨rfl, rfl, rfl⟩)
      (fun _ _ => trivial)).bind raised
  · exact (Leaves.start hs).bind (primary_lays hr) raised

lemma unary_lays : LaysExpr source (unary rules) := by
  intro s hs
  refine .look rfl ?_
  split
  · exact hr.expression s hs
  refine .look rfl ?_
  split
  · exact power_lays hr s hs
  next op is =>
    have sign : unaryOperator? s.current.kind = some op := is
    have takes : s.current.kind.takesSpace = true := by
      unfold unaryOperator? at sign
      split at sign
      next plus => rw [plus]; rfl
      next minus => rw [minus]; rfl
      next tilde => rw [tilde]; rfl
      · nomatch sign
    refine (Leaves.start hs).bump takes fun begun => ?_
    refine begun.bind (nested_lays hr.unary) ?_
    intro operand s₁ done
    exact done.completeFrom (.unary · op operand) (.inl rfl) (.inl rfl)
      (fun _ => ⟨rfl, rfl, rfl⟩) (fun _ _ => trivial)

lemma binaryStep?_leaves (level : ℕ) {left : Expr} (h : Leaves source s s₁ started [.read left]) :
    Ends (binaryStep? rules level left) s₁
      fun o s' => Leaves source s s' false [.read (o.getD left)] := by
  refine .look rfl ?_
  split
  · exact h.weaken
  next op opLevel _ =>
  split
  · exact h.weaken
  refine h.skip bump_quiet ?_
  intro _ s₂ done
  refine done.bind (hr.binary _) ?_
  intro right s₃ done
  exact (done.completeFrom (.binary · left op right) (.inr ⟨_, _, rfl, rfl⟩)
    (.inr (List.cons_ne_nil _ _)) (fun _ => ⟨rfl, rfl, rfl⟩) (fun _ _ => trivial)).bind fun d s₄ done => done

lemma binary_lays (level : ℕ) : LaysExpr source (binary rules level) := by
  intro s hs
  refine (Leaves.start hs).bind (unary_lays hr) ?_
  intro e s₁ done
  exact extend_leaves (f := fun e => [.read e]) (fun a s₂ done => binaryStep?_leaves hr level done)
    done

omit hr in
lemma compareOperator?_quiet : Quiet source compareOperator? := by
  intro s hs
  have begun := Leaves.start hs
  have take (op : CompareOp) {s₁ : ParserState} (done : Leaves source s s₁ false []) :
      Ends (compareOperator?.take op) s₁ fun _ s' => Leaves source s s' false [] :=
    done.skip bump_quiet fun _ _ done => done
  refine .look rfl ?_
  split
  · exact take _ begun
  · exact take _ begun
  · exact take _ begun
  · exact take _ begun
  · exact take _ begun
  · exact take _ begun
  · exact take _ begun
  · refine .look rfl ?_
    split
    · exact begun.skip bump_quiet fun _ _ done => take _ done
    · exact begun
  · refine begun.skip bump_quiet fun _ _ done => done.skip (eat_quiet _) ?_
    intro there s₁ done
    split
    · exact done
    · exact done
  · exact begun

lemma comparison_lays : LaysExpr source (comparison rules) := by
  intro s hs
  refine (Leaves.start hs).bind (binary_lays hr 0) ?_
  intro left s₁ done
  refine done.bind (collect_lays (f := fun x => [.read x.2]) ?pair) ?_
  case pair =>
    intro s hs
    refine (Leaves.start hs).skip compareOperator?_quiet ?_
    intro op s₁ done
    cases op with
    | none => exact done
    | some op => exact done.bind (hr.binary 0) fun right s₂ done => done.give rfl
  intro pairs s₂ done
  split
  next empty =>
    obtain rfl := List.isEmpty_iff.1 empty
    exact done
  · refine done.completeFrom (.compare · left (pairs.map (·.1)) (pairs.map (·.2)))
      (.inr ⟨_, _, rfl, rfl⟩) (.inr (List.cons_ne_nil _ _)) (fun _ => ⟨rfl, ?_, rfl⟩) (fun _ _ => trivial)
    simp [Node.parts, Node.ofRead, Expr.children]

lemma negation_lays : LaysExpr source (negation rules) := by
  intro s hs
  refine .look rfl ?_
  split
  next word =>
    refine .look rfl ?_
    split
    · exact hr.expression s hs
    refine (Leaves.start hs).bump (takesSpace_of_isAt word rfl) fun begun => ?_
    refine begun.bind (nested_lays hr.negation) ?_
    intro operand s₁ done
    exact done.completeFrom (.unary · .not operand) (.inl rfl) (.inl rfl)
      (fun _ => ⟨rfl, rfl, rfl⟩) (fun _ _ => trivial)
  · exact comparison_lays hr s hs

omit hr in
lemma joined_lays (word : Keyword) (op : BoolOp) {item : Parser Expr} (h : LaysExpr source item) :
    LaysExpr source (joined word op item) := by
  intro s hs
  refine (Leaves.start hs).bind h ?_
  intro first s₁ done
  refine .look rfl ?_
  split
  · exact done
  have step : Lays source
      (do if ← eatKeyword word then return some (← item) else return none :
        Parser (Option Expr)) fun o => o.toList.flatMap fun e => [.read e] := afterEaten_lays h
  refine done.bind (collect_lays step) ?_
  intro others s₂ done
  exact done.completeFrom (.boolean · op (first :: others)) (.inr ⟨_, _, rfl, rfl⟩)
    (.inr (List.cons_ne_nil _ _))
    (fun _ => ⟨rfl, by simp [Node.parts, Node.ofRead, Expr.children], rfl⟩) (fun _ _ => trivial)

lemma conjunction_lays : LaysExpr source (conjunction rules) :=
  joined_lays .kAnd .and (negation_lays hr)

lemma disjunction_lays : LaysExpr source (disjunction rules) :=
  joined_lays .kOr .or (conjunction_lays hr)

lemma conditional_lays : LaysExpr source (conditional rules) := by
  intro s hs
  refine .look rfl ?_
  split
  next word => exact lambda_leaves hr hs (takesSpace_of_isAt word rfl)
  refine (Leaves.start hs).bind (disjunction_lays hr) ?_
  intro body s₁ done
  refine done.skip (eat_quiet _) ?_
  intro there s₂ done
  split
  · refine done.bind (disjunction_lays hr) ?_
    intro test s₃ done
    refine done.expectKeyword ?_
    intro s₄ done
    refine done.bind hr.expression ?_
    intro orelse s₅ done
    exact done.completeFrom (.conditional · test body orelse) (.inr ⟨_, _, rfl, rfl⟩) (.inl rfl)
      (fun _ => ⟨rfl, rfl, rfl⟩) (fun _ _ => trivial)
  · exact done

lemma expression_lays : LaysExpr source (expression rules) := by
  intro s hs
  refine .look rfl ?_
  split
  · refine (Leaves.start hs).note ?_
    intro s₁ spoilt
    refine .look rfl (.look rfl (.look rfl ?_))
    dsimp only
    split
    · exact spoilt.bind bump_quiet.keeps fun _ _ spoilt => spoilt.last (Leaves.complete_keeps _ _)
    · exact spoilt.last (Leaves.complete_keeps _ _)
  · exact nested_lays (conditional_lays hr) s hs

end

lemma exhausted_lays : LaysExpr source exhausted := by
  intro s hs
  refine (Leaves.start hs).note ?_
  exact fun s₁ spoilt => .look rfl (spoilt.last (Leaves.complete_keeps _ _))

end Parser

/-! ## The circle of the rules -/

lemma Rules.none_laying : Rules.none.Laying source :=
  ⟨Rules.none_spelling, Parser.exhausted_lays, Parser.exhausted_lays, Parser.exhausted_lays,
    fun _ => Parser.exhausted_lays, Parser.exhausted_lays⟩

lemma Rules.Laying.next (h : rules.Laying source) : rules.next.Laying source :=
  ⟨h.spelling.next, Parser.expression_lays h, Parser.disjunction_lays h, Parser.negation_lays h,
    Parser.binary_lays h, Parser.unary_lays h⟩

/-- However often the circle of the rules is tied, they leave the expressions that they read. -/
theorem Rules.upTo_laying (n : ℕ) : (Rules.upTo n).Laying source := by
  induction n with
  | zero => exact none_laying
  | succ n ih =>
    rw [upTo_succ]
    exact ih.next

end MethodLift.Syntax
