import MethodLift.Proofs.Syntax.Reading
import MethodLift.Syntax.Grammar.Expression

/-!
# Expressions stand in their text

Each level of the grammar of expressions reads an expression that stands in the text, if the levels
that it goes back to do.  The circle is tied by induction on the number of rounds
(`Rules.upTo_sound`), with the rules that give up at once as its start.

Two places do more than put nodes together.  Parentheses widen what they enclose, up to the last
token taken, which need not be a closing parenthesis (`widened_reads`).  The field of a formatted
string is read as a text of its own, after which reading goes on where it was
(`field?_gives`); its tokens stand in the whole text because the field does.
-/

namespace MethodLift.Syntax

open Text (Boundary)

variable {source : List Char} {rules : Rules}

/-- The levels of the grammar that others go back to read expressions. -/
structure Rules.Sound (source : List Char) (rules : Rules) : Prop where
  expression : ReadsExpr source rules.expression
  disjunction : ReadsExpr source rules.disjunction
  negation : ReadsExpr source rules.negation
  binary : ∀ level, ReadsExpr source (rules.binary level)
  unary : ReadsExpr source rules.unary

namespace Parser

variable {s : ParserState}

/-- A node that is built from expressions only. -/
lemma builds_of_children {build : Mark → Expr} (children : List Expr)
    (shape : ∀ m, (build m).mark = m ∧ (build m).children = children ∧ (build m).partSpans = []
      ∧ (build m).idents = [] ∧ (build m).isBareCall = false)
    (placed : ∀ c ∈ children, c.Placed source) : Builds source build := by
  intro m
  obtain ⟨mark, inside, parts, idents, noCall⟩ := shape m
  exact ⟨mark, .of_children parts idents (inside ▸ placed), noCall⟩

/-! ## Stars, walruses and lists -/

section

variable (hr : rules.Sound source)
include hr

lemma starredOr_reads {other : Parser Expr} (h : ReadsExpr source other) :
    ReadsExpr source (starredOr rules other) := by
  intro s hs
  refine .look rfl ?_
  split
  · refine (bump_reads hs).bind ?_
    rintro t s₁ moved ⟨rfl, -⟩
    refine (hr.binary 0 s₁ moved.sound).bind ?_
    intro value s₂ moved' read
    refine completeFromToken_reads hs (moved.trans moved') ?_
    exact builds_of_children [value] (fun _ => ⟨rfl, rfl, rfl, rfl, rfl⟩)
      (List.forall_mem_singleton.2 read.placed)
  · exact h s hs

lemma namedExpression_reads : ReadsExpr source (namedExpression rules) := by
  intro s hs
  refine .look rfl (.look rfl ?_)
  split
  · refine (bump_reads hs).bind ?_
    rintro t s₁ moved ⟨rfl, -⟩
    have name : Builds source (.name · s.current.text .store) :=
      builds_of_children [] (fun _ => ⟨rfl, rfl, rfl, rfl, rfl⟩) nofun
    refine (complete_reads moved.sound hs.current.span (Nat.le_refl _) moved.forward name).bind ?_
    intro target s₂ moved₂ left
    refine (bump_reads moved₂.sound).bind ?_
    intro _ s₃ moved₃ _
    refine (hr.expression s₃ moved₃.sound).bind ?_
    intro value s₄ moved₄ right
    refine completeFromToken_reads hs (((moved.trans moved₂).trans moved₃).trans moved₄) ?_
    exact builds_of_children [target, value] (fun _ => ⟨rfl, rfl, rfl, rfl, rfl⟩)
      (forall_mem_pair left.placed right.placed)
  · exact hr.expression s hs

lemma element_reads : ReadsExpr source (element rules) :=
  starredOr_reads hr (namedExpression_reads hr)

lemma operand_reads : ReadsExpr source (operand rules) := starredOr_reads hr (hr.binary 0)

omit hr in
lemma tupleOf_reads {item : Parser Expr} {mayFollow : Parser Bool} (h : ReadsExpr source item)
    (looks : ∀ s, (mayFollow.run s).2 = s) : ReadsExpr source (tupleOf item mayFollow) := by
  intro s hs
  refine (h s hs).bind ?_
  intro first s₁ moved read
  refine .look rfl ?_
  split
  · exact .pure moved.sound read
  have step : Gives source (do
      if (← eatSymbol .comma) && (← mayFollow) then return some (← item) else return none :
      Parser (Option Expr)) fun o => ∀ e ∈ o, e.Placed source := by
    intro s hs
    refine (eat_gives _ s hs).bind ?_
    intro there s₁ moved _
    refine .look (looks s₁) ?_
    split
    · refine (h s₁ moved.sound).bind ?_
      intro e s₂ moved' read
      refine .pure moved'.sound ?_
      rintro _ ⟨⟩
      exact read.placed
    · exact .pure moved.sound nofun
  refine (collect_gives step s₁ moved.sound).bind ?_
  intro others s₂ moved' placed
  refine completeFromExpr_reads read moved' ?_
  exact builds_of_children (first :: others) (fun _ => ⟨rfl, rfl, rfl, rfl, rfl⟩)
    (List.forall_mem_cons.2 ⟨read.placed, placed⟩)

lemma expressions_reads : ReadsExpr source (expressions rules) :=
  tupleOf_reads (element_reads hr) fun _ => rfl

lemma operands_reads : ReadsExpr source (operands rules) :=
  tupleOf_reads (operand_reads hr) fun _ => rfl

lemma yieldExpression_reads : ReadsExpr source (yieldExpression rules) := by
  intro s hs
  refine (bump_reads hs).bind ?_
  rintro t s₁ moved ⟨rfl, -⟩
  refine (eat_gives _ s₁ moved.sound).bind ?_
  intro there s₂ moved₂ _
  split
  · refine (hr.expression s₂ moved₂.sound).bind ?_
    intro value s₃ moved₃ read
    refine completeFromToken_reads hs ((moved.trans moved₂).trans moved₃) ?_
    exact builds_of_children [value] (fun _ => ⟨rfl, rfl, rfl, rfl, rfl⟩)
      (List.forall_mem_singleton.2 read.placed)
  · refine .look rfl (.choice moved₂.sound (expressions_reads hr).gives.some .none ?_)
    intro value s₃ moved₃ placed
    refine completeFromToken_reads hs ((moved.trans moved₂).trans moved₃) ?_
    exact builds_of_children value.toList (fun _ => ⟨rfl, rfl, rfl, rfl, rfl⟩)
      (forall_mem_toList placed)

lemma value_reads : ReadsExpr source (value rules) := by
  intro s hs
  refine .look rfl ?_
  split
  · exact yieldExpression_reads hr s hs
  · exact expressions_reads hr s hs

/-! ## Parameters and lambdas -/

omit hr in
lemma paramHead?_gives : Gives source paramHead? fun o => ∀ head ∈ o, ∀ i ∈ head.2,
    i.Placed source := by
  intro s hs
  refine .look rfl ?_
  split
  · refine (bump_reads hs).bind ?_
    intro _ s₁ moved _
    exact .pure_some moved.sound nofun
  · refine (bump_reads hs).bind ?_
    intro _ s₁ moved _
    refine (name?_gives s₁ moved.sound).bind ?_
    intro name s₂ moved' placed
    split
    · refine .pure_some moved'.sound ?_
      rintro _ ⟨⟩
      exact placed _ rfl
    · exact .pure_some moved'.sound nofun
  · refine (bump_reads hs).bind ?_
    intro _ s₁ moved _
    refine (nameOrMissing_gives s₁ moved.sound).bind ?_
    intro name s₂ moved' placed
    refine .pure_some moved'.sound ?_
    rintro _ ⟨⟩
    exact placed
  · refine (name?_gives s hs).bind ?_
    intro name s₁ moved placed
    exact .pure_some moved.sound placed
  · refine (note_reads hs _).bind ?_
    intro _ s₁ moved _
    exact .pure moved.sound nofun

omit hr in
lemma after?_gives {symbol : Symbol} {step : Parser Expr} {P : Expr → Prop}
    (h : Gives source step P) : Gives source (after? symbol step) fun o => ∀ e ∈ o, P e :=
  afterEaten_gives h

lemma param?_gives (close : Symbol) (annotated : Bool) :
    Gives source (param? rules close annotated) fun o => ∀ p ∈ o, p.Placed source := by
  intro s hs
  refine .look rfl (.look rfl ?_)
  split
  · exact .pure hs nofun
  refine .look rfl ((paramHead?_gives s hs).bind ?_)
  intro head s₁ moved placed
  split
  · exact .pure moved.sound nofun
  refine .choice moved.sound (after?_gives hr.expression.gives) .none ?_
  intro annotation s₂ moved₂ annotated
  refine .choice moved₂.sound (after?_gives hr.expression.gives) .none ?_
  intro default s₃ moved₃ defaulted
  refine .look rfl (.pure_some moved₃.sound ?_)
  exact ⟨spanFrom_placed moved₃.sound hs.current.span.start, placed _ rfl, annotated, defaulted⟩

lemma params_gives (close : Symbol) (annotated : Bool) :
    Gives source (params rules close annotated) fun ps => ∀ p ∈ ps, p.Placed source :=
  separated_gives (param?_gives hr close annotated)

lemma lambda_reads : ReadsExpr source (lambda rules) := by
  intro s hs
  refine (bump_reads hs).bind ?_
  rintro t s₁ moved ⟨rfl, -⟩
  refine .look rfl ((params_gives hr .colon false s₁ moved.sound).bind ?_)
  intro ps s₂ moved₂ placed
  refine .look rfl ((expectSymbol_gives _ s₂ moved₂.sound).bind ?_)
  intro _ s₃ moved₃ _
  refine (hr.expression s₃ moved₃.sound).bind ?_
  intro body s₄ moved₄ read
  refine completeFromToken_reads hs (((moved.trans moved₂).trans moved₃).trans moved₄) ?_
  have params : Parameters.Placed source ⟨ps, ⟨s₁.current.span.start, _⟩⟩ :=
    ⟨spanFrom_placed moved₂.sound moved.sound.current.span.start, placed⟩
  exact fun _ => ⟨rfl, .lambda params read.placed, rfl⟩

/-! ## Comprehensions -/

lemma generator?_gives : Gives source (generator? rules) fun o => ∀ g ∈ o, g.Placed source := by
  intro s hs
  refine .look rfl ?_
  split
  · exact .pure hs nofun
  refine .look rfl ((eat_gives _ s hs).bind ?_)
  intro isAsync s₁ moved₁ _
  refine (bump_reads moved₁.sound).bind ?_
  intro _ s₂ moved₂ _
  refine (operands_reads hr s₂ moved₂.sound).bind ?_
  intro e s₃ moved₃ read
  refine (target_gives read.placed s₃ moved₃.sound).bind ?_
  intro target s₄ moved₄ placed
  refine (expectKeyword_gives _ s₄ moved₄.sound).bind ?_
  intro _ s₅ moved₅ _
  refine (hr.disjunction s₅ moved₅.sound).bind ?_
  intro iter s₆ moved₆ iterated
  have condition : Gives source
      (do if ← eatKeyword .kIf then return some (← rules.disjunction) else return none :
        Parser (Option Expr)) fun o => ∀ e ∈ o, e.Placed source :=
    afterEaten_gives hr.disjunction.gives
  refine (collect_gives condition s₆ moved₆.sound).bind ?_
  intro conditions s₇ moved₇ filtered
  refine .look rfl (.pure_some moved₇.sound ⟨?_, ?_⟩)
  · exact spanFrom_placed moved₇.sound hs.current.span.start
  · exact List.forall_mem_cons.2 ⟨placed, List.forall_mem_cons.2 ⟨iterated.placed, filtered⟩⟩

lemma generators_gives : Gives source (generators rules) fun gs => ∀ g ∈ gs, g.Placed source :=
  collect_gives (generator?_gives hr)

lemma comprehension_reads (hs : s.Sound source) {s₁ : ParserState} (moved : Moves source s s₁)
    (close : Symbol) (kind : ComprehensionKind) {element : Expr} {value : Option Expr}
    (he : element.Placed source) (hv : ∀ e ∈ value, e.Placed source) :
    Reads source (comprehension rules s.current.span.start close kind element value) s₁
      (ExprRead source s) := by
  refine (generators_gives hr s₁ moved.sound).bind ?_
  intro clauses s₂ moved₂ placed
  refine (expectSymbol_gives _ s₂ moved₂.sound).bind ?_
  intro _ s₃ moved₃ _
  refine completeFromToken_reads hs ((moved.trans moved₂).trans moved₃) ?_
  exact fun _ => ⟨rfl, .comprehension he hv placed, rfl⟩

/-! ## Brackets -/

omit hr in
/-- Where the last token ended after a closing bracket, be it there or not: the byte before is a
place to cut at if it was one before, or else the bracket is there. -/
lemma closed_lastEnd {close : Symbol} (one : Text.width close.text.toList = 1)
    (hs : s.Sound source) {s' : ParserState}
    (closed : (s.current.kind = .symbol close ∧ s' = advance s) ∨ s'.lastEnd = s.lastEnd) :
    (s.position < s'.lastEnd ∧ Boundary source (s'.lastEnd - 1)) ∨ s'.lastEnd = s.lastEnd := by
  rcases closed with ⟨kind, rfl⟩ | same
  · have stop : (advance s).lastEnd = s.position + 1 := by
      rw [advance_lastEnd (by rw [kind]; nofun) (by rw [kind]; rfl),
        hs.current.symbol close kind, one]
    refine .inl ⟨by omega, ?_⟩
    rw [stop, Nat.add_sub_cancel]
    exact hs.current.span.start
  · exact .inr same

omit hr in
/-- The parentheses around an expression become part of its span, up to the last token taken. -/
lemma widened_reads (hs : s.Sound source) {s₁ s₂ : ParserState} {e : Expr}
    (moved : Moves source s s₁) (read : ExprRead source s₁ e s₂) (sound : s₂.Sound source) :
    Reads source (do
      let _ ← expectSymbol .rightParen
      return e.withSpan (← spanFrom s.current.span.start)) s₂ (ExprRead source s) := by
  refine (expectSymbol_reads sound .rightParen).bind ?_
  intro _ s₃ moved₃ closed
  refine .look rfl (.pure moved₃.sound ?_)
  set wide : Span := ⟨s.current.span.start, max s₃.lastEnd s.current.span.start⟩ with wide_eq
  have placed : Text.Placed source wide := spanFrom_placed moved₃.sound hs.current.span.start
  have start : s.current.span.start ≤ e.span.start := Nat.le_trans moved.forward read.lower
  have stops : e.isBareCall = true → wide.stop = s₃.lastEnd ∧ Boundary source (wide.stop - 1) := by
    intro bare
    have inner := read.closing bare
    have forward := read.placed.span.forward
    have upper := read.upper
    rcases closed_lastEnd (by decide) sound closed with ⟨behind, boundary⟩ | same
    · have stop : wide.stop = s₃.lastEnd := Nat.max_eq_left (by omega)
      exact ⟨stop, stop ▸ boundary⟩
    · have stop : wide.stop = s₃.lastEnd := Nat.max_eq_left (by omega)
      refine ⟨stop, ?_⟩
      rw [stop, same, inner]
      exact read.placed.here.closing bare
  have upper : s.position ≤ s₃.position :=
    Nat.le_trans start (Nat.le_trans read.upper moved₃.forward)
  refine ⟨?_, ?_, ?_, ?_⟩
  · refine (read.placed.inside_withSpan wide).placed ?_ ?_
    · rw [Expr.span_withSpan]
      exact placed
    · rw [Expr.span_withSpan, Expr.isBareCall_withSpan]
      exact fun bare => (stops bare).2
  · rw [Expr.span_withSpan]
    exact Nat.le_refl _
  · rw [Expr.span_withSpan]
    exact upper
  · rw [Expr.span_withSpan, Expr.isBareCall_withSpan]
    exact fun bare => (stops bare).1.symm

/-- The later elements of a bracketed list, its closing bracket, and the node of the list. -/
lemma listed_reads (hs : s.Sound source) {s₁ : ParserState} (moved : Moves source s s₁)
    (close : Symbol) {first : Expr} (placed : first.Placed source)
    (build : List Expr → Mark → Expr)
    (shape : ∀ es m, (build es m).mark = m ∧ (build es m).children = es
      ∧ (build es m).partSpans = [] ∧ (build es m).idents = [] ∧ (build es m).isBareCall = false) :
    Reads source (do
      let others ← elements close (element rules)
      let _ ← expectSymbol close
      completeFrom s.current.span.start (build (first :: others))) s₁ (ExprRead source s) := by
  refine (elements_gives (element_reads hr).gives s₁ moved.sound).bind ?_
  intro others s₂ moved₂ others_placed
  refine (expectSymbol_gives _ s₂ moved₂.sound).bind ?_
  intro _ s₃ moved₃ _
  refine completeFromToken_reads hs ((moved.trans moved₂).trans moved₃) ?_
  exact builds_of_children (first :: others) (shape _)
    (List.forall_mem_cons.2 ⟨placed, others_placed⟩)

lemma parenthesized_reads : ReadsExpr source (parenthesized rules) := by
  intro s hs
  refine (bump_reads hs).bind ?_
  rintro t s₁ moved ⟨rfl, -⟩
  refine (eat_gives _ s₁ moved.sound).bind ?_
  intro there s₂ moved₂ _
  have moved' := moved.trans moved₂
  split
  · refine completeFromToken_reads hs moved' ?_
    exact builds_of_children [] (fun _ => ⟨rfl, rfl, rfl, rfl, rfl⟩) nofun
  refine .look rfl ?_
  split
  · refine (yieldExpression_reads hr s₂ moved₂.sound).bind ?_
    intro e s₃ moved₃ read
    exact widened_reads hs moved' read moved₃.sound
  refine (element_reads hr s₂ moved₂.sound).bind ?_
  intro first s₃ moved₃ read
  refine .look rfl ?_
  split
  · exact comprehension_reads hr hs (moved'.trans moved₃) _ _ read.placed nofun
  refine .look rfl ?_
  split
  · exact widened_reads hs moved' read moved₃.sound
  · exact listed_reads hr hs (moved'.trans moved₃) _ read.placed
      (fun es m => .tuple m es .load true) fun _ _ => ⟨rfl, rfl, rfl, rfl, rfl⟩

lemma bracketed_reads : ReadsExpr source (bracketed rules) := by
  intro s hs
  refine (bump_reads hs).bind ?_
  rintro t s₁ moved ⟨rfl, -⟩
  refine (eat_gives _ s₁ moved.sound).bind ?_
  intro there s₂ moved₂ _
  have moved' := moved.trans moved₂
  split
  · refine completeFromToken_reads hs moved' ?_
    exact builds_of_children [] (fun _ => ⟨rfl, rfl, rfl, rfl, rfl⟩) nofun
  refine (element_reads hr s₂ moved₂.sound).bind ?_
  intro first s₃ moved₃ read
  refine .look rfl ?_
  split
  · exact comprehension_reads hr hs (moved'.trans moved₃) _ _ read.placed nofun
  · exact listed_reads hr hs (moved'.trans moved₃) _ read.placed
      (fun es m => .list m es .load) fun _ _ => ⟨rfl, rfl, rfl, rfl, rfl⟩

lemma dictItem_gives {key : Option Expr} (placed : ∀ e ∈ key, e.Placed source) :
    Gives source (dictItem rules key) fun item => ∀ e ∈ item.exprs, e.Placed source := by
  intro s hs
  cases key with
  | some key =>
    refine (expectSymbol_gives _ s hs).bind ?_
    intro _ s₁ moved _
    refine (hr.expression s₁ moved.sound).bind ?_
    intro value s₂ moved' read
    refine .pure moved'.sound ?_
    exact List.forall_mem_cons.2 ⟨placed key rfl, List.forall_mem_singleton.2 read.placed⟩
  | none =>
    refine (expectSymbol_gives _ s hs).bind ?_
    intro _ s₁ moved _
    refine (hr.binary 0 s₁ moved.sound).bind ?_
    intro value s₂ moved' read
    exact .pure moved'.sound (List.forall_mem_singleton.2 read.placed)

lemma laterDictItem_gives :
    Gives source (laterDictItem rules) fun item => ∀ e ∈ item.exprs, e.Placed source := by
  intro s hs
  refine .look rfl (.choice hs .none hr.expression.gives.some ?_)
  intro key s₁ moved placed
  exact dictItem_gives hr placed s₁ moved.sound

lemma setAfter_reads (hs : s.Sound source) {s₁ : ParserState} (moved : Moves source s s₁)
    {first : Expr} (placed : first.Placed source) :
    Reads source (setAfter rules s.current.span.start first) s₁ (ExprRead source s) := by
  refine .look rfl ?_
  split
  · exact comprehension_reads hr hs moved _ _ placed nofun
  · exact listed_reads hr hs moved _ placed (fun es m => .set m es)
      fun _ _ => ⟨rfl, rfl, rfl, rfl, rfl⟩

lemma dictAfter_others_reads (hs : s.Sound source) {s₁ : ParserState} (moved : Moves source s s₁)
    {first : DictItem Expr} (placed : ∀ e ∈ first.exprs, e.Placed source) :
    Reads source (dictAfter.others rules s.current.span.start first) s₁ (ExprRead source s) := by
  refine (elements_gives (laterDictItem_gives hr) s₁ moved.sound).bind ?_
  intro items s₂ moved₂ items_placed
  refine (expectSymbol_gives _ s₂ moved₂.sound).bind ?_
  intro _ s₃ moved₃ _
  refine completeFromToken_reads hs ((moved.trans moved₂).trans moved₃) ?_
  refine builds_of_children ((first :: items).flatMap (·.exprs))
    (fun _ => ⟨rfl, rfl, rfl, rfl, rfl⟩) ?_
  intro c hc
  obtain ⟨item, hi, inside⟩ := List.mem_flatMap.1 hc
  rcases List.mem_cons.1 hi with rfl | hi
  · exact placed c inside
  · exact items_placed item hi c inside

lemma dictAfter_reads (hs : s.Sound source) {s₁ : ParserState} (moved : Moves source s s₁)
    {key : Option Expr} (placed : ∀ e ∈ key, e.Placed source) :
    Reads source (dictAfter rules s.current.span.start key) s₁ (ExprRead source s) := by
  refine (dictItem_gives hr placed s₁ moved.sound).bind ?_
  intro first s₂ moved₂ item
  have moved' := moved.trans moved₂
  split
  next key is =>
    refine .look rfl ?_
    split
    · refine comprehension_reads hr hs moved' _ _ ?_ ?_
      · exact item key (List.mem_append_left _ (by rw [is]; exact List.mem_singleton.2 rfl))
      · rintro _ ⟨⟩
        exact item _ (List.mem_append_right _ (List.mem_singleton.2 rfl))
    · exact dictAfter_others_reads hr hs moved' item
  · exact dictAfter_others_reads hr hs moved' item

lemma braced_reads : ReadsExpr source (braced rules) := by
  intro s hs
  refine (bump_reads hs).bind ?_
  rintro t s₁ moved ⟨rfl, -⟩
  refine (eat_gives _ s₁ moved.sound).bind ?_
  intro there s₂ moved₂ _
  have moved' := moved.trans moved₂
  split
  · refine completeFromToken_reads hs moved' ?_
    exact builds_of_children [] (fun _ => ⟨rfl, rfl, rfl, rfl, rfl⟩) nofun
  refine .look rfl ?_
  split
  · exact dictAfter_reads hr hs moved' nofun
  refine (element_reads hr s₂ moved₂.sound).bind ?_
  intro first s₃ moved₃ read
  refine .look rfl ?_
  split
  · refine dictAfter_reads hr hs (moved'.trans moved₃) ?_
    rintro _ ⟨⟩
    exact read.placed
  · exact setAfter_reads hr hs (moved'.trans moved₃) read.placed

/-! ## Strings -/

omit hr in
/-- Where a field that is not empty is read, the state is sound: its tokens stand in the whole
text. -/
lemma field_sound (hs : s.Sound source) {span : Span} {text : List Char}
    (slice : Text.slice source span = text) (some : text ≠ []) :
    ParserState.Sound source { s with
      current := (lexBracketed span.start text).tokens.headD ⟨.endOfFile, "", .point span.stop⟩
      later := (lexBracketed span.start text).tokens.tail
      problems := (lexBracketed span.start text).problems.reverse ++ s.problems } := by
  obtain ⟨before, after, whole, start, stop⟩ := Text.slice_ne_nil (slice ▸ some)
  rw [slice] at whole stop
  have placed : (lexBracketed span.start text).Placed source span.start :=
    lexFrom_placed whole start
  refine ⟨hs.text, ?_, hs.lastEnd, ?_, hs.unused⟩
  · cases tokens : (lexBracketed span.start text).tokens with
    | nil =>
      refine ⟨List.forall_mem_singleton.2 ?_, List.pairwise_singleton _ _⟩
      exact .layout (.point ⟨before ++ text, after, whole, stop⟩) nofun
    | cons t ts => exact tokens ▸ placed.tokens
  · refine List.forall_mem_append.2 ⟨?_, hs.problems⟩
    intro p hp
    exact placed.problems p (List.mem_reverse.1 hp)

/-- The field of a formatted string.  What is known of the state behind it is that of the state
before it, since reading goes on there. -/
lemma field?_gives (span : Span) :
    Gives source (field? rules span) fun o => ∀ e ∈ o, e.Placed source := by
  intro s hs
  refine .look rfl (.look rfl ?_)
  split
  · exact .pure hs nofun
  next used =>
  have slice : Text.slice source span = Text.slice s.source span := by rw [hs.text]
  have some : Text.slice s.source span ≠ [] := by
    intro empty
    rw [Bool.or_eq_true, not_or] at used
    exact used.1 (by show (Text.slice s.source span).all _ = true; rw [empty]; rfl)
  have inner := field_sound hs slice some
  have back : ∀ (e : Expr) (s' : ParserState), s'.Sound source → e.Placed source →
      Ends (do
        modify fun state => { state with
          current := s.current
          later := s.later
          lastEnd := s.lastEnd }
        return Option.some e) s'
        fun o s'' => Moves source s s'' ∧ ∀ e ∈ o, e.Placed source := by
    intro e s' sound placed
    refine ⟨⟨⟨sound.text, hs.tokens, hs.lastEnd, sound.problems, sound.unused⟩, Nat.le_refl _⟩, ?_⟩
    rintro _ ⟨⟩
    exact placed
  refine .elsewhere ((nested_gives (value_reads hr).gives _ inner).ends ?_)
  intro e s' sound placed
  refine .look rfl ?_
  split
  · refine (note_reads sound _).ends ?_
    intro _ s' sound _
    exact back e s' sound placed
  · exact back e s' sound placed

omit hr in
lemma stringToken?_gives : Gives source stringToken? fun _ => True := by
  intro s hs
  refine .look rfl (.look rfl ?_)
  split
  · exact (bump_reads hs).bind fun _ _ moved _ => .pure moved.sound trivial
  · exact .pure hs trivial

lemma strings_reads : ReadsExpr source (strings rules) := by
  intro s hs
  have tokens : Gives source stringToken? fun o => ∀ t ∈ o, True :=
    fun s hs => (stringToken?_gives s hs).mono fun _ _ _ _ _ _ => trivial
  refine .look rfl ((collect_gives tokens s hs).bind ?_)
  intro tokens s₁ moved _
  have placed : Text.Placed source ⟨s.position, max s₁.lastEnd s.position⟩ :=
    spanFrom_placed moved.sound hs.current.span.start
  refine .look rfl ?_
  dsimp only
  split
  · refine complete_reads moved.sound placed (Nat.le_refl _) moved.forward ?_
    exact builds_of_children [] (fun _ => ⟨rfl, rfl, rfl, rfl, rfl⟩) nofun
  · refine .look rfl ((filterMapM_gives (fun span _ => field?_gives hr span) s₁
      moved.sound).bind ?_)
    intro values s₂ moved₂ read
    refine complete_reads moved₂.sound placed (Nat.le_refl _) (moved.trans moved₂).forward ?_
    exact builds_of_children values (fun _ => ⟨rfl, rfl, rfl, rfl, rfl⟩) read

/-! ## Atoms and primaries -/

omit hr in
lemma constant_reads (kind : ConstantKind) : ReadsExpr source (constant kind) := by
  intro s hs
  refine (bump_reads hs).bind ?_
  rintro t s₁ moved ⟨rfl, -⟩
  refine complete_reads moved.sound hs.current.span (Nat.le_refl _) moved.forward ?_
  exact builds_of_children [] (fun _ => ⟨rfl, rfl, rfl, rfl, rfl⟩) nofun

omit hr in
/-- Something stands in for an expression that is not there. -/
lemma missing_reads (hs : s.Sound source) {s₁ : ParserState} (moved : Moves source s s₁) :
    Reads source (complete s.current.span .missing) s₁ (ExprRead source s) := by
  refine complete_reads moved.sound hs.current.span (Nat.le_refl _) moved.forward ?_
  exact builds_of_children [] (fun _ => ⟨rfl, rfl, rfl, rfl, rfl⟩) nofun

lemma atom_reads : ReadsExpr source (atom rules) := by
  intro s hs
  refine .look rfl ?_
  split
  · refine (bump_reads hs).bind ?_
    rintro t s₁ moved ⟨rfl, -⟩
    refine complete_reads moved.sound hs.current.span (Nat.le_refl _) moved.forward ?_
    exact builds_of_children [] (fun _ => ⟨rfl, rfl, rfl, rfl, rfl⟩) nofun
  · exact constant_reads _ s hs
  · exact strings_reads hr s hs
  · exact strings_reads hr s hs
  · exact constant_reads _ s hs
  · exact constant_reads _ s hs
  · exact constant_reads _ s hs
  · exact constant_reads _ s hs
  · exact parenthesized_reads hr s hs
  · exact bracketed_reads hr s hs
  · exact braced_reads hr s hs
  · refine (note_reads hs _).bind ?_
    rintro _ s₁ moved ⟨same, -⟩
    refine .look rfl (.optional moved.sound bump_gives ?_)
    intro s₂ moved₂
    show Reads source (complete s₁.current.span .missing) s₂ (ExprRead source s)
    rw [same]
    exact missing_reads hs (moved.trans moved₂)

/-- Where there is no argument, nothing is taken. -/
lemma arg?_reads (hs : s.Sound source) :
    Reads source (arg? rules) s fun o s' => (∀ a ∈ o, a.Placed source) ∧ (o = none → s' = s) := by
  have done : ∀ {s₁ : ParserState} {a : Arg Expr}, s₁.Sound source → a.Placed source →
      Reads source (pure (some a)) s₁ fun o s' => (∀ a ∈ o, a.Placed source)
        ∧ (o = none → s' = s) := by
    intro s₁ a sound placed
    refine .pure sound ⟨?_, nofun⟩
    rintro _ ⟨⟩
    exact placed
  refine .look rfl (.look rfl ?_)
  split
  · exact .pure hs ⟨nofun, fun _ => rfl⟩
  refine .look rfl (.look rfl ?_)
  split
  · refine (bump_reads hs).bind ?_
    intro _ s₁ moved _
    refine (hr.expression s₁ moved.sound).bind ?_
    intro value s₂ moved₂ read
    refine .look rfl (done moved₂.sound ⟨?_, nofun, read.placed⟩)
    exact spanFrom_placed moved₂.sound hs.current.span.start
  · refine (bump_reads hs).bind ?_
    intro _ s₁ moved _
    refine (hr.expression s₁ moved.sound).bind ?_
    intro value s₂ moved₂ read
    refine .look rfl (done moved₂.sound ⟨?_, nofun, read.placed⟩)
    exact spanFrom_placed moved₂.sound hs.current.span.start
  refine .look rfl (.look rfl ?_)
  split
  · refine (bump_reads hs).bind ?_
    rintro t s₁ moved ⟨rfl, -⟩
    refine (bump_reads moved.sound).bind ?_
    intro _ s₂ moved₂ _
    refine (hr.expression s₂ moved₂.sound).bind ?_
    intro value s₃ moved₃ read
    refine .look rfl (done moved₃.sound ⟨?_, ?_, read.placed⟩)
    · exact spanFrom_placed moved₃.sound hs.current.span.start
    · rintro _ ⟨⟩
      exact ident_placed hs.current
  · refine (namedExpression_reads hr s hs).bind ?_
    intro first s₁ moved read
    have last : ∀ (value : Expr) s₂, Moves source s₁ s₂ → value.Placed source →
        Reads source (do return some ⟨.positional, value, ← spanFrom s.position⟩) s₂
          fun o s' => (∀ a ∈ o, Arg.Placed source a) ∧ (o = none → s' = s) := by
      intro value s₂ moved₂ placed
      refine .look rfl (done moved₂.sound ⟨?_, nofun, placed⟩)
      exact spanFrom_placed moved₂.sound hs.current.span.start
    refine .look rfl ?_
    split
    · refine (generators_gives hr s₁ moved.sound).bind ?_
      intro clauses s₂ moved₂ placed
      have builds : Builds source (.comprehension · .generator first none clauses) :=
        fun _ => ⟨rfl, .comprehension read.placed (by nofun) placed, rfl⟩
      refine (completeFromToken_reads hs (moved.trans moved₂) builds).bind ?_
      intro value s₃ moved₃ whole
      exact last value s₃ (moved₂.trans moved₃) whole.placed
    · exact last first s₁ moved.sound.moves read.placed

/-- Where a call has no arguments, nothing is taken between its parentheses. -/
lemma args_reads (hs : s.Sound source) :
    Reads source (args rules) s fun as s' => (∀ a ∈ as, a.Placed source) ∧ (as = [] → s' = s) := by
  have gives : Gives source (arg? rules) fun o => ∀ a ∈ o, Arg.Placed source a :=
    fun s hs => (arg?_reads hr hs).mono fun _ _ _ found => found.1
  refine (separated_reads gives hs).mono ?_
  rintro as s' - ⟨placed, none⟩
  refine ⟨placed, ?_⟩
  intro empty
  obtain ⟨state, result⟩ := none empty
  rw [state]
  exact (arg?_reads hr hs).2.2 result

lemma bound?_gives : Gives source (bound? rules) fun o => ∀ e ∈ o, e.Placed source := by
  intro s hs
  refine .look rfl ?_
  split
  · refine (hr.expression s hs).bind ?_
    intro e s₁ moved read
    exact .pure_some moved.sound read.placed
  · exact .pure hs nofun

/-- A slice starts with its lower bound or, without one, with its colon. -/
lemma sliceAfter_reads (hs : s.Sound source) {s₁ : ParserState} (moved : Moves source s s₁)
    {lower : Option Expr} (placed : ∀ e ∈ lower, e.Placed source) :
    Reads source (sliceAfter rules s.current.span.start lower) s₁ (ExprRead source s) := by
  refine (bump_reads moved.sound).bind ?_
  intro _ s₂ moved₂ _
  refine (bound?_gives hr s₂ moved₂.sound).bind ?_
  intro upper s₃ moved₃ upper_placed
  refine (eat_gives _ s₃ moved₃.sound).bind ?_
  intro there s₄ moved₄ _
  refine .choice moved₄.sound (bound?_gives hr) .none ?_
  intro step s₅ moved₅ step_placed
  refine completeFromToken_reads hs
    ((((moved.trans moved₂).trans moved₃).trans moved₄).trans moved₅) ?_
  refine builds_of_children (lower.toList ++ upper.toList ++ step.toList)
    (fun _ => ⟨rfl, rfl, rfl, rfl, rfl⟩) ?_
  refine List.forall_mem_append.2 ⟨List.forall_mem_append.2 ⟨?_, ?_⟩, ?_⟩
  · exact forall_mem_toList placed
  · exact forall_mem_toList upper_placed
  · exact forall_mem_toList step_placed

lemma subscriptItem_reads : ReadsExpr source (subscriptItem rules) := by
  intro s hs
  refine .look rfl (.look rfl ?_)
  split
  · refine sliceAfter_reads hr hs hs.moves ?_
    nofun
  refine (element_reads hr s hs).bind ?_
  intro e s₁ moved read
  refine .look rfl ?_
  split
  · refine sliceAfter_reads hr hs moved ?_
    rintro _ ⟨⟩
    exact read.placed
  · exact .pure moved.sound read

lemma subscriptItems_reads : ReadsExpr source (subscriptItems rules) :=
  tupleOf_reads (subscriptItem_reads hr) fun _ => rfl

omit hr in
/-- A call up to the last token taken, which is one byte wide if the call has no arguments. -/
lemma completeCall_reads {s₀ s₁ : ParserState} {e : Expr} {arguments : List (Arg Expr)}
    (read : ExprRead source s₀ e s) (moved : Moves source s s₁)
    (placed : ∀ a ∈ arguments, a.Placed source)
    (closing : arguments = [] → s.position < s₁.lastEnd ∧ Boundary source (s₁.lastEnd - 1)) :
    Reads source (completeFrom e.span.start (.call · e arguments)) s₁ (ExprRead source s₀) := by
  have sound := moved.sound
  set span : Span := ⟨e.span.start, max s₁.lastEnd e.span.start⟩ with span_eq
  set call : Expr := .call ⟨s₁.exprCount, span⟩ e arguments with call_eq
  have bare : call.isBareCall = true → span.stop = s₁.lastEnd
      ∧ Boundary source (s₁.lastEnd - 1) := by
    intro is
    have empty : arguments = [] := by
      cases arguments with
      | nil => rfl
      | cons _ _ => nomatch is
    obtain ⟨behind, boundary⟩ := closing empty
    have upper := read.upper
    exact ⟨Nat.max_eq_left (by omega), boundary⟩
  refine ⟨⟨⟨sound.text, sound.tokens, sound.lastEnd, sound.problems, sound.unused⟩,
    Nat.le_refl _⟩, ?_⟩
  show ExprRead source s₀ call _
  refine ⟨(Expr.Inside.call read.placed placed).placed ?_ ?_, read.lower, ?_, ?_⟩
  · exact spanFrom_placed sound read.placed.span.start
  · intro is
    obtain ⟨stop, boundary⟩ := bare is
    show Boundary source (span.stop - 1)
    rw [stop]
    exact boundary
  · exact Nat.le_trans read.upper moved.forward
  · exact fun is => (bare is).1.symm

/-- One more call, subscript or attribute.  A call without arguments ends with the last token taken:
its closing parenthesis, or the opening one if the other is missing. -/
lemma extension?_reads {s₀ : ParserState} {e : Expr} (hs : s.Sound source)
    (read : ExprRead source s₀ e s) :
    Reads source (extension? rules e) s fun o s' => (o = none → s' = s)
      ∧ ∀ x ∈ o, ExprRead source s₀ x s' := by
  have done : ∀ {s₁ : ParserState} {x : Expr}, s₁.Sound source → ExprRead source s₀ x s₁ →
      Reads source (pure (some x)) s₁ fun o s' => (o = none → s' = s)
        ∧ ∀ x ∈ o, ExprRead source s₀ x s' := by
    intro s₁ x sound placed
    refine .pure sound ⟨nofun, ?_⟩
    rintro _ ⟨⟩
    exact placed
  refine .look rfl ?_
  split
  next opens =>
    refine (bump_reads hs).bind ?_
    rintro t s₁ moved ⟨-, rfl⟩
    refine (args_reads hr moved.sound).bind ?_
    rintro arguments s₂ moved₂ ⟨placed, nothing⟩
    refine (expectSymbol_reads moved₂.sound .rightParen).bind ?_
    intro _ s₃ moved₃ closed
    have kind : s.current.kind = .symbol .leftParen := opens
    have open_ : (advance s).lastEnd = s.position + 1 := by
      rw [advance_lastEnd (by rw [kind]; nofun) (by rw [kind]; rfl), hs.current.symbol _ kind]
      rfl
    refine (completeCall_reads read ((moved.trans moved₂).trans moved₃) placed ?_).bind
      fun x s₄ moved₄ whole => done moved₄.sound whole
    intro empty
    obtain rfl := nothing empty
    rcases closed_lastEnd (by decide) moved.sound closed with ⟨behind, boundary⟩ | same
    · exact ⟨Nat.lt_of_le_of_lt moved.forward behind, boundary⟩
    · rw [same, open_, Nat.add_sub_cancel]
      exact ⟨Nat.lt_succ_self _, hs.current.span.start⟩
  · refine (bump_reads hs).bind ?_
    intro _ s₁ moved _
    refine (subscriptItems_reads hr s₁ moved.sound).bind ?_
    intro index s₂ moved₂ inner
    refine (expectSymbol_gives _ s₂ moved₂.sound).bind ?_
    intro _ s₃ moved₃ _
    refine (completeFromExpr_reads read ((moved.trans moved₂).trans moved₃) ?_).bind
      fun x s₄ moved₄ whole => done moved₄.sound whole
    exact builds_of_children [e, index] (fun _ => ⟨rfl, rfl, rfl, rfl, rfl⟩)
      (forall_mem_pair read.placed inner.placed)
  · refine (bump_reads hs).bind ?_
    intro _ s₁ moved _
    refine (nameOrMissing_gives s₁ moved.sound).bind ?_
    intro ident s₂ moved₂ placed
    refine (completeFromExpr_reads read (moved.trans moved₂) ?_).bind
      fun x s₃ moved₃ whole => done moved₃.sound whole
    exact fun _ => ⟨rfl, .attr read.placed placed, rfl⟩
  · exact .pure hs ⟨fun _ => rfl, nofun⟩

lemma primary_reads : ReadsExpr source (primary rules) := by
  intro s hs
  refine (atom_reads hr s hs).bind ?_
  intro e s₁ moved read
  exact extend_reads (fun a s₂ sound found => extension?_reads hr sound found) moved.sound read

/-! ## Operators -/

lemma power_reads : ReadsExpr source (power rules) := by
  intro s hs
  have raised : ∀ (base : Expr) s₁, Moves source s s₁ → ExprRead source s base s₁ →
      Reads source (do
        if ← eatSymbol .doubleStar then
          let right ← nested rules.unary
          completeFrom base.span.start (.binary · base .pow right)
        else return base) s₁ (ExprRead source s) := by
    intro base s₁ moved read
    refine (eat_reads moved.sound _).bind ?_
    intro there s₂ moved₂ taken
    split
    · refine (nested_readsExpr hr.unary s₂ moved₂.sound).bind ?_
      intro right s₃ moved₃ inner
      refine completeFromExpr_reads read (moved₂.trans moved₃) ?_
      exact builds_of_children [base, right] (fun _ => ⟨rfl, rfl, rfl, rfl, rfl⟩)
        (forall_mem_pair read.placed inner.placed)
    next no =>
      obtain rfl := taken.1 (by simpa using no)
      exact .pure moved.sound read
  refine .look rfl ?_
  dsimp only
  split
  · refine (bump_reads hs).bind ?_
    rintro t s₁ moved ⟨rfl, -⟩
    refine (primary_reads hr s₁ moved.sound).bind ?_
    intro value s₂ moved₂ inner
    refine (completeFromToken_reads hs (moved.trans moved₂) ?_).bind ?_
    · exact builds_of_children [value] (fun _ => ⟨rfl, rfl, rfl, rfl, rfl⟩)
        (List.forall_mem_singleton.2 inner.placed)
    · intro base s₃ moved₃ read
      exact raised base s₃ ((moved.trans moved₂).trans moved₃) read
  · exact (primary_reads hr s hs).bind raised

lemma unary_reads : ReadsExpr source (unary rules) := by
  intro s hs
  refine .look rfl ?_
  split
  · exact hr.expression s hs
  refine .look rfl ?_
  split
  · exact power_reads hr s hs
  next op _ =>
    refine (bump_reads hs).bind ?_
    rintro t s₁ moved ⟨rfl, -⟩
    refine (nested_readsExpr hr.unary s₁ moved.sound).bind ?_
    intro operand s₂ moved₂ inner
    refine completeFromToken_reads hs (moved.trans moved₂) ?_
    exact builds_of_children [operand] (fun _ => ⟨rfl, rfl, rfl, rfl, rfl⟩)
      (List.forall_mem_singleton.2 inner.placed)

lemma binaryStep?_reads (level : ℕ) {s₀ : ParserState} {left : Expr} (hs : s.Sound source)
    (read : ExprRead source s₀ left s) :
    Reads source (binaryStep? rules level left) s fun o s' => (o = none → s' = s)
      ∧ ∀ x ∈ o, ExprRead source s₀ x s' := by
  refine .look rfl ?_
  split
  · exact .pure hs ⟨fun _ => rfl, nofun⟩
  next op opLevel _ =>
  split
  · exact .pure hs ⟨fun _ => rfl, nofun⟩
  refine (bump_reads hs).bind ?_
  intro _ s₁ moved _
  refine (hr.binary _ s₁ moved.sound).bind ?_
  intro right s₂ moved₂ inner
  refine (completeFromExpr_reads read (moved.trans moved₂) ?_).bind ?_
  · exact builds_of_children [left, right] (fun _ => ⟨rfl, rfl, rfl, rfl, rfl⟩)
      (forall_mem_pair read.placed inner.placed)
  · intro x s₃ moved₃ whole
    refine .pure moved₃.sound ⟨nofun, ?_⟩
    rintro _ ⟨⟩
    exact whole

lemma binary_reads (level : ℕ) : ReadsExpr source (binary rules level) := by
  intro s hs
  refine (unary_reads hr s hs).bind ?_
  intro e s₁ moved read
  exact extend_reads (fun a s₂ sound found => binaryStep?_reads hr level sound found) moved.sound
    read

omit hr in
/-- Where there is no comparison operator, nothing is taken. -/
lemma compareOperator?_reads (hs : s.Sound source) :
    Reads source compareOperator? s fun o s' => o = none → s' = s := by
  have take : ∀ (op : CompareOp) s₁, s₁.Sound source →
      Reads source (compareOperator?.take op) s₁ fun o s' => o = none → s' = s :=
    fun op s₁ sound => (bump_reads sound).bind fun _ _ moved _ => .pure moved.sound nofun
  refine .look rfl ?_
  split
  · exact take _ s hs
  · exact take _ s hs
  · exact take _ s hs
  · exact take _ s hs
  · exact take _ s hs
  · exact take _ s hs
  · exact take _ s hs
  · refine .look rfl ?_
    split
    · exact (bump_reads hs).bind fun _ s₁ moved _ => take _ s₁ moved.sound
    · exact .pure hs fun _ => rfl
  · refine (bump_reads hs).bind ?_
    intro _ s₁ moved _
    refine (eat_gives _ s₁ moved.sound).bind ?_
    intro there s₂ moved₂ _
    split
    · exact .pure moved₂.sound nofun
    · exact .pure moved₂.sound nofun
  · exact .pure hs fun _ => rfl

lemma comparison_reads : ReadsExpr source (comparison rules) := by
  intro s hs
  refine (binary_reads hr 0 s hs).bind ?_
  intro left s₁ moved read
  refine (collect_reads (P := fun x => x.2.Placed source) moved.sound ?pair).bind ?_
  case pair =>
    intro s hs
    refine (compareOperator?_reads hs).bind ?_
    intro op s₁ moved same
    cases op with
    | none => exact .pure moved.sound ⟨nofun, fun _ => same rfl⟩
    | some op =>
      refine (hr.binary 0 s₁ moved.sound).bind ?_
      intro right s₂ moved₂ inner
      refine .pure moved₂.sound ⟨?_, nofun⟩
      rintro _ ⟨⟩
      exact inner.placed
  rintro pairs s₂ moved₂ ⟨placed, same⟩
  split
  next empty =>
    obtain rfl := same (List.isEmpty_iff.1 empty)
    exact .pure moved.sound read
  · refine completeFromExpr_reads read moved₂ ?_
    refine builds_of_children (left :: pairs.map (·.2)) (fun _ => ⟨rfl, rfl, rfl, rfl, rfl⟩) ?_
    refine List.forall_mem_cons.2 ⟨read.placed, ?_⟩
    intro e he
    obtain ⟨x, hx, rfl⟩ := List.mem_map.1 he
    exact placed x hx

lemma negation_reads : ReadsExpr source (negation rules) := by
  intro s hs
  refine .look rfl ?_
  split
  · refine .look rfl ?_
    split
    · exact hr.expression s hs
    refine (bump_reads hs).bind ?_
    rintro t s₁ moved ⟨rfl, -⟩
    refine (nested_readsExpr hr.negation s₁ moved.sound).bind ?_
    intro operand s₂ moved₂ inner
    refine completeFromToken_reads hs (moved.trans moved₂) ?_
    exact builds_of_children [operand] (fun _ => ⟨rfl, rfl, rfl, rfl, rfl⟩)
      (List.forall_mem_singleton.2 inner.placed)
  · exact comparison_reads hr s hs

omit hr in
lemma joined_reads (word : Keyword) (op : BoolOp) {item : Parser Expr}
    (h : ReadsExpr source item) : ReadsExpr source (joined word op item) := by
  intro s hs
  refine (h s hs).bind ?_
  intro first s₁ moved read
  refine .look rfl ?_
  split
  · exact .pure moved.sound read
  have step : Gives source
      (do if ← eatKeyword word then return some (← item) else return none :
        Parser (Option Expr)) fun o => ∀ e ∈ o, e.Placed source :=
    afterEaten_gives h.gives
  refine (collect_gives step s₁ moved.sound).bind ?_
  intro others s₂ moved₂ placed
  refine completeFromExpr_reads read moved₂ ?_
  exact builds_of_children (first :: others) (fun _ => ⟨rfl, rfl, rfl, rfl, rfl⟩)
    (List.forall_mem_cons.2 ⟨read.placed, placed⟩)

lemma conjunction_reads : ReadsExpr source (conjunction rules) :=
  joined_reads .kAnd .and (negation_reads hr)

lemma disjunction_reads : ReadsExpr source (disjunction rules) :=
  joined_reads .kOr .or (conjunction_reads hr)

lemma conditional_reads : ReadsExpr source (conditional rules) := by
  intro s hs
  refine .look rfl ?_
  split
  · exact lambda_reads hr s hs
  refine (disjunction_reads hr s hs).bind ?_
  intro body s₁ moved read
  refine (eat_reads moved.sound _).bind ?_
  intro there s₂ moved₂ taken
  split
  · refine (disjunction_reads hr s₂ moved₂.sound).bind ?_
    intro test s₃ moved₃ tested
    refine (expectKeyword_gives _ s₃ moved₃.sound).bind ?_
    intro _ s₄ moved₄ _
    refine (hr.expression s₄ moved₄.sound).bind ?_
    intro orelse s₅ moved₅ other
    refine completeFromExpr_reads read (((moved₂.trans moved₃).trans moved₄).trans moved₅) ?_
    refine builds_of_children [body, test, orelse] (fun _ => ⟨rfl, rfl, rfl, rfl, rfl⟩) ?_
    exact List.forall_mem_cons.2 ⟨read.placed, List.forall_mem_cons.2
      ⟨tested.placed, List.forall_mem_singleton.2 other.placed⟩⟩
  next no =>
    obtain rfl := taken.1 (by simpa using no)
    exact .pure moved.sound read

lemma expression_reads : ReadsExpr source (expression rules) := by
  intro s hs
  refine .look rfl ?_
  split
  · refine (note_reads hs _).bind ?_
    rintro _ s₁ moved ⟨same, -⟩
    refine .look rfl (.look rfl (.look rfl (.optional moved.sound bump_gives ?_)))
    intro s₂ moved₂
    show Reads source (complete s₁.current.span .missing) s₂ (ExprRead source s)
    rw [same]
    exact missing_reads hs (moved.trans moved₂)
  · exact nested_readsExpr (conditional_reads hr) s hs

end

lemma exhausted_reads : ReadsExpr source exhausted := by
  intro s hs
  refine (note_reads hs _).bind ?_
  rintro _ s₁ moved ⟨same, -⟩
  refine .look rfl ?_
  show Reads source (complete s₁.current.span .missing) s₁ (ExprRead source s)
  rw [same]
  exact missing_reads hs moved

end Parser

/-! ## The circle of the rules -/

lemma Rules.none_sound : Rules.none.Sound source :=
  ⟨Parser.exhausted_reads, Parser.exhausted_reads, Parser.exhausted_reads,
    fun _ => Parser.exhausted_reads, Parser.exhausted_reads⟩

lemma Rules.Sound.next (h : rules.Sound source) : rules.next.Sound source :=
  ⟨Parser.expression_reads h, Parser.disjunction_reads h, Parser.negation_reads h,
    Parser.binary_reads h, Parser.unary_reads h⟩

/-- However often the circle of the rules is tied, they read expressions that stand in the text. -/
theorem Rules.upTo_sound (n : ℕ) : (Rules.upTo n).Sound source := by
  induction n with
  | zero => exact none_sound
  | succ n ih =>
    rw [upTo_succ]
    exact ih.next

end MethodLift.Syntax
