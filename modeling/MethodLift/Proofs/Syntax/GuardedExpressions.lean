import MethodLift.Proofs.Syntax.Brackets

/-!
# Expressions keep to the brackets that there is room for

Each level of the grammar of expressions leaves the brackets as they are, if the levels that it goes
back to do; the circle is tied by induction on the number of rounds (`Rules.upTo_nesting`).
-/

namespace MethodLift.Syntax

open Syntax.Parser (maxNesting)

variable {source : List Char} {rules : Rules} {α : Type}

/-- The levels of the grammar that others go back to leave the brackets as they are: expressions in
brackets, because they are counted, and the others among operators. -/
structure Rules.Nesting (source : List Char) (rules : Rules) : Prop where
  expression : ∀ s, Nests source .inside rules.expression s
  disjunction : ∀ s, Nests source .operand rules.disjunction s
  negation : ∀ s, Nests source .operand rules.negation s
  binary : ∀ level s, Nests source .operand (rules.binary level) s
  unary : ∀ s, Nests source .operand rules.unary s
  spelling : rules.Spelling source

namespace Parser

variable {s : ParserState} {r : Room}

/-! ## Stars, walruses and lists -/

section

variable (hr : rules.Nesting source)
include hr

/-- The operand of a star is not counted, and the star is why it need not be. -/
lemma starredOr_nests {other : Parser Expr} (h : ∀ s, Nests source .inside other s)
    (s : ParserState) : Nests source .inside (starredOr rules other) s := by
  refine .look rfl ?_
  split
  next there =>
    refine (bump_loosens (eq_of_beq there) rfl rfl).bind fun _ s₁ => ?_
    exact (hr.binary 0 s₁).bind fun value s₂ => completeFrom_nests _ _ s₂
  · exact h s

lemma namedExpression_nests (s : ParserState) : Nests source .inside (namedExpression rules) s := by
  refine .look rfl (.look rfl ?_)
  split
  next walrus =>
    obtain ⟨isName, isNext⟩ := Bool.and_eq_true_iff.1 walrus
    have name : s.current.kind = .name := eq_of_beq isName
    have colonEqual : (advance s).current.kind = .symbol .colonEqual :=
      advance_kind (by rw [name]; nofun) nofun (eq_of_beq isNext)
    refine .take name rfl (.step (complete_nests _ _ _) (.take colonEqual rfl ?_))
    exact (hr.expression _).bind fun value s₁ => completeFrom_nests _ _ s₁
  · exact hr.expression s

lemma element_nests (s : ParserState) : Nests source .inside (element rules) s :=
  starredOr_nests hr (namedExpression_nests hr) s

lemma operand_nests (s : ParserState) : Nests source .operand (operand rules) s := by
  refine .look rfl ?_
  split
  next there =>
    refine .take (eq_of_beq there) rfl ?_
    exact (hr.binary 0 _).bind fun value s₁ => completeFrom_nests _ _ s₁
  · exact hr.binary 0 s

omit hr in
lemma tupleOf_nests {item : Parser Expr} {mayFollow : Parser Bool} (h : ∀ s, Nests source r item s)
    (looks : ∀ s, (mayFollow.run s).2 = s) (s : ParserState) :
    Nests source r (tupleOf item mayFollow) s := by
  refine (h s).bind fun first s₁ => .look rfl ?_
  split
  · exact .give first
  have next (s : ParserState) : Nests source r (do
      if (← eatSymbol .comma) && (← mayFollow) then return some (← item) else return none :
      Parser (Option Expr)) s := by
    refine (eat_nests rfl s).bind fun there s₁ => .look (looks s₁) ?_
    split
    · exact (h s₁).bind fun e s₂ => .give (some e)
    · exact .give none
  exact (collect_nests next s₁).bind fun others s₂ => completeFrom_nests _ _ s₂

lemma expressions_nests (s : ParserState) : Nests source .inside (expressions rules) s :=
  tupleOf_nests (element_nests hr) (fun _ => rfl) s

lemma operands_nests (s : ParserState) : Nests source .operand (operands rules) s :=
  tupleOf_nests (operand_nests hr) (fun _ => rfl) s

lemma yieldExpression_nests (there : s.current.kind = .keyword .kYield) :
    Nests source .inside (yieldExpression rules) s := by
  refine .take there rfl ((eat_nests rfl _).bind fun there s₁ => ?_)
  split
  · exact (hr.expression s₁).bind fun value s₂ => completeFrom_nests _ _ s₂
  · refine .look rfl ?_
    exact .choice (some_nests (expressions_nests hr) s₁) (.give none)
      fun value s₂ => completeFrom_nests _ _ s₂

lemma value_nests (s : ParserState) : Nests source .inside (value rules) s := by
  refine .look rfl ?_
  split
  next there => exact yieldExpression_nests hr (eq_of_beq there)
  · exact expressions_nests hr s

/-! ## Parameters and lambdas -/

omit hr in
lemma paramHead?_nests (s : ParserState) : Nests source r paramHead? s := by
  refine .look rfl ?_
  split
  next there => exact .take there rfl (.give _)
  next there =>
    refine .take there rfl ((name?_nests _).bind fun name s₁ => ?_)
    split <;> exact .give _
  next there => exact .take there rfl ((nameOrMissing_nests _).bind fun name s₁ => .give _)
  · exact (name?_nests s).bind fun name s₁ => .give _
  · exact .note fun _ => id

omit hr in
lemma after?_nests {symbol : Symbol} {step : Parser Expr}
    (plain : (TokenKind.symbol symbol).isBracket = false) (h : ∀ s, Nests source r step s)
    (s : ParserState) : Nests source r (after? symbol step) s :=
  afterEaten_nests (fun s => (h s).bind fun e _ => .give (some e)) plain s

lemma param?_nests (close : Symbol) (annotated : Bool) (s : ParserState) :
    Nests source .inside (param? rules close annotated) s := by
  refine .look rfl (.look rfl ?_)
  split
  · exact .give none
  refine .look rfl ((paramHead?_nests s).bind fun head s₁ => ?_)
  split
  · exact .give none
  refine .choice (after?_nests rfl hr.expression s₁) (.give none) fun annotation s₂ => ?_
  refine .choice (after?_nests rfl hr.expression s₂) (.give none) fun default s₃ => ?_
  exact .look rfl (.give _)

lemma params_nests (close : Symbol) (annotated : Bool) (s : ParserState) :
    Nests source .inside (params rules close annotated) s :=
  separated_nests (param?_nests hr close annotated) rfl s

lemma lambda_nests (there : s.current.kind = .keyword .kLambda) :
    Nests source .inside (lambda rules) s := by
  refine .take there rfl (.look rfl ((params_nests hr .colon false _).bind fun ps s₁ => ?_))
  refine .look rfl ((expectSymbol_nests rfl s₁).bind fun _ s₂ => ?_)
  exact (hr.expression s₂).bind fun body s₃ => completeFrom_nests _ _ s₃

/-! ## Comprehensions -/

/-- The parts of a clause are not counted, and its `for` is why they need not be. -/
lemma clause_nests {f : Expr → Expr → List Expr → Parser α} (there : s.current.kind = .keyword .kFor)
    (rest : ∀ target iter conditions s', Nests source .operand (f target iter conditions) s') :
    Nests source .inside (do
      let _ ← bump
      let target ← target .store (← operands rules)
      expectKeyword .kIn
      let iter ← rules.disjunction
      let conditions ← collect do
        if ← eatKeyword .kIf then return some (← rules.disjunction) else return none
      f target iter conditions) s := by
  refine (bump_loosens there rfl rfl).bind fun _ s₁ => (operands_nests hr s₁).bind fun e s₂ => ?_
  refine (target_nests .store e s₂).bind fun target s₃ => ?_
  refine (expectKeyword_nests .kIn s₃).bind fun _ s₄ => (hr.disjunction s₄).bind fun iter s₅ => ?_
  have condition (s : ParserState) : Nests source .operand (some <$> rules.disjunction) s :=
    hr.disjunction s
  exact (collect_nests (afterEaten_nests condition rfl) s₅).bind fun conditions s₆ => rest _ _ _ s₆

lemma generator?_nests (s : ParserState) : Nests source .inside (generator? rules) s := by
  refine .look rfl ?_
  split
  · exact .give none
  next begins =>
  have begins' : (atGenerator.run s).1 = true := by simpa using begins
  have there : ((s.current.kind == .keyword .kFor) || ((s.current.kind == .keyword .kAsync)
      && ((s.later.head?.map (·.kind)).getD .endOfFile == .keyword .kFor))) = true :=
    begins'
  refine .look rfl (.eat rfl (fun isAsync => ?_) fun other => ?_)
  · have isFor : (advance s).current.kind = .keyword .kFor := by
      refine advance_kind (by rw [isAsync]; nofun) nofun ?_
      simpa [isAsync] using there
    exact clause_nests hr isFor fun _ _ _ s₁ => .look rfl (.give _)
  · have isFor : s.current.kind = .keyword .kFor := by simpa [other] using there
    exact clause_nests hr isFor fun _ _ _ s₁ => .look rfl (.give _)

lemma generators_nests (s : ParserState) : Nests source .inside (generators rules) s :=
  collect_nests (generator?_nests hr) s

lemma comprehension_closes {close : Symbol} (opens : close.opens = false)
    (closes : close.closes = true) (start : ℕ) (kind : ComprehensionKind) (element : Expr)
    (value : Option Expr) (s : ParserState) :
    Closes source (comprehension rules start close kind element value) s :=
  (generators_nests hr s).closes fun _ s₁ =>
    (expectSymbol_closes opens closes s₁).bind fun _ s₂ => completeFrom_nests _ _ s₂

/-! ## Brackets -/

omit hr in
/-- The later elements in brackets, the closing bracket, and the node of the whole. -/
lemma listed_closes {close : Symbol} (opens : close.opens = false) (closes : close.closes = true)
    {item : Parser α} (h : ∀ s, Nests source .inside item s) (start : ℕ)
    (build : List α → Mark → Expr) (s : ParserState) :
    Closes source (do
      let others ← elements close item
      let _ ← expectSymbol close
      completeFrom start (build others)) s :=
  (elements_nests h close s).closes fun _ s₁ =>
    (expectSymbol_closes opens closes s₁).bind fun _ s₂ => completeFrom_nests _ _ s₂

omit hr in
/-- A closing parenthesis, and the expression that is widened to it. -/
lemma widened_closes (start : ℕ) (e : Expr) (s : ParserState) :
    Closes source (do
      let _ ← expectSymbol .rightParen
      return e.withSpan (← spanFrom start)) s :=
  (expectSymbol_closes rfl rfl s).bind fun _ _ => .look rfl (.give _)

lemma parenthesized_nests (there : s.current.kind = .symbol .leftParen) :
    Nests source .primary (parenthesized rules) s := by
  refine .takeOpen there rfl (.eat rfl rfl (fun s₁ => completeFrom_nests _ _ s₁) (.look rfl ?_))
  split
  next isYield =>
    exact (yieldExpression_nests hr (eq_of_beq isYield)).closes fun e s₁ => widened_closes _ e s₁
  refine (element_nests hr _).closes fun first s₁ => .look rfl ?_
  split
  · exact comprehension_closes hr rfl rfl _ _ first none s₁
  refine .look rfl ?_
  split
  · exact widened_closes _ first s₁
  · exact listed_closes rfl rfl (element_nests hr) _ _ s₁

lemma bracketed_nests (there : s.current.kind = .symbol .leftBracket) :
    Nests source .primary (bracketed rules) s := by
  refine .takeOpen there rfl (.eat rfl rfl (fun s₁ => completeFrom_nests _ _ s₁) ?_)
  refine (element_nests hr _).closes fun first s₁ => .look rfl ?_
  split
  · exact comprehension_closes hr rfl rfl _ _ first none s₁
  · exact listed_closes rfl rfl (element_nests hr) _ _ s₁

lemma dictItem_nests (key : Option Expr) (s : ParserState) :
    Nests source .inside (dictItem rules key) s := by
  cases key with
  | some key =>
    exact (expectSymbol_nests rfl s).bind fun _ s₁ => (hr.expression s₁).bind fun _ s₂ => .give _
  | none =>
    exact (expectSymbol_loosens rfl rfl s).bind fun _ s₁ =>
      (hr.binary 0 s₁).bind fun _ s₂ => .give _

lemma laterDictItem_nests (s : ParserState) : Nests source .inside (laterDictItem rules) s :=
  .look rfl (.choice (.give none) (some_nests hr.expression s) fun key s₁ =>
    dictItem_nests hr key s₁)

lemma setAfter_closes (start : ℕ) (first : Expr) (s : ParserState) :
    Closes source (setAfter rules start first) s := by
  refine .look rfl ?_
  split
  · exact comprehension_closes hr rfl rfl _ _ first none s
  · exact listed_closes rfl rfl (element_nests hr) _ _ s

lemma dictAfter_closes (start : ℕ) (key : Option Expr) (s : ParserState) :
    Closes source (dictAfter rules start key) s := by
  refine (dictItem_nests hr key s).closes fun first s₁ => ?_
  split
  · refine .look rfl ?_
    split
    · exact comprehension_closes hr rfl rfl _ _ _ _ s₁
    · exact listed_closes rfl rfl (laterDictItem_nests hr) _ _ s₁
  · exact listed_closes rfl rfl (laterDictItem_nests hr) _ _ s₁

lemma braced_nests (there : s.current.kind = .symbol .leftBrace) :
    Nests source .primary (braced rules) s := by
  refine .takeOpen there rfl (.eat rfl rfl (fun s₁ => completeFrom_nests _ _ s₁) (.look rfl ?_))
  split
  · exact dictAfter_closes hr _ none _
  refine (element_nests hr _).closes fun first s₁ => .look rfl ?_
  split
  · exact dictAfter_closes hr _ (some first) s₁
  · exact setAfter_closes hr _ first s₁

/-! ## Strings -/

omit hr in
lemma stringToken?_nests (s : ParserState) : Nests source r stringToken? s := by
  refine .look rfl (.look rfl ?_)
  split
  next string =>
    rcases Bool.or_eq_true_iff.1 string with there | there
    · exact .take (eq_of_beq there) rfl (.give _)
    · exact .take (eq_of_beq there) rfl (.give _)
  · exact .give none

omit hr in
/-- The fields of a string take no token. -/
lemma eq_nil_of_fields {es : List Expr} {ts : List Token}
    (h : Spelled source (es.map .field) ts) : ts = [] := by
  induction es generalizing ts with
  | nil =>
    cases h
    rfl
  | cons e es ih =>
    cases h with
    | leaf is => exact is.elim
    | field _ _ _ rest => exact ih rest

/-- The brackets in a field are brackets of another text. -/
lemma field?_nests (span : Span) (s : ParserState) : Nests source r (field? rules span) s := by
  have read := (field?_spells hr.spelling span s).1
  refine ⟨read.clean, ?_, fun clean ready => ?_⟩
  · show Ends (field? rules span) s fun _ s' => s'.problems = [] → s'.depth = s.depth
    refine .look rfl (.look rfl ?_)
    split
    · exact fun _ => rfl
    have kept (s : ParserState) : Ends (nested (value rules)) s fun _ s' =>
        s'.problems = [] → s'.depth = s.depth :=
      (nested_nests (fun s => (value_nests hr s).anywhere .operand) s).depth
    refine Ends.elsewhere (Ends.bind (kept _) fun e s₁ depth => ?_)
    refine .look rfl ?_
    split
    · exact nofun
    · exact depth
  · obtain ⟨ready', ts, taken, spelled⟩ := read.spelled clean ready
    obtain rfl := eq_nil_of_fields spelled
    exact ⟨ready', [], taken, fun _ fits => .nothing fits.bounded⟩

lemma strings_nests (s : ParserState) : Nests source r (strings rules) s := by
  refine .look rfl ((collect_nests stringToken?_nests s).bind fun tokens s₁ => .look rfl ?_)
  dsimp only
  split
  · exact complete_nests _ _ s₁
  · refine .look rfl ?_
    exact (filterMapM_nests (field?_nests hr) _ s₁).bind fun values s₂ => complete_nests _ _ s₂

/-! ## Atoms and primaries -/

omit hr in
lemma constant_nests {k : TokenKind} (there : s.current.kind = k) (plain : k.isBracket = false)
    (kind : ConstantKind) : Nests source r (constant kind) s :=
  .take there plain (complete_nests _ _ _)

lemma atom_nests (s : ParserState) : Nests source .primary (atom rules) s := by
  refine .look rfl ?_
  split
  next there => exact .take there rfl (complete_nests _ _ _)
  next there => exact constant_nests there rfl .number
  · exact strings_nests hr s
  · exact strings_nests hr s
  next there => exact constant_nests there rfl .ellipsis
  next there => exact constant_nests there rfl .none
  next there => exact constant_nests there rfl .true
  next there => exact constant_nests there rfl .false
  next there => exact parenthesized_nests hr there
  next there => exact bracketed_nests hr there
  next there => exact braced_nests hr there
  · refine .note fun s₁ => .look rfl ?_
    split
    · exact Remembers.bind (Skips.remembers (fun _ => bump_skips) s₁) fun _ _ => id
    · exact id

lemma arg?_nests (s : ParserState) : Nests source .inside (arg? rules) s := by
  have starred {k : TokenKind} {s : ParserState} (there : s.current.kind = k)
      (plain : k.isBracket = false) (kind : ArgKind) (start : ℕ) : Nests source .inside (do
        let _ ← bump
        let value ← rules.expression
        return some ⟨kind, value, ← spanFrom start⟩ : Parser (Option (Arg Expr))) s :=
    .take there plain ((hr.expression _).bind fun value s₁ => .look rfl (.give _))
  refine .look rfl (.look rfl ?_)
  split
  · exact .give none
  refine .look rfl (.look rfl ?_)
  split
  next there => exact starred there rfl .star _
  next there => exact starred there rfl .doubleStar _
  refine .look rfl (.look rfl ?_)
  split
  next keyword =>
    obtain ⟨isName, isNext⟩ := Bool.and_eq_true_iff.1 keyword
    have name : s.current.kind = .name := eq_of_beq isName
    have equal : (advance s).current.kind = .symbol .equal :=
      advance_kind (by rw [name]; nofun) nofun (eq_of_beq isNext)
    exact .take name rfl (starred equal rfl _ _)
  · refine (namedExpression_nests hr s).bind fun first s₁ => .look rfl ?_
    split
    · refine (generators_nests hr s₁).bind fun clauses s₂ => ?_
      exact (completeFrom_nests _ _ s₂).bind fun value s₃ => .look rfl (.give _)
    · exact .look rfl (.give _)

lemma args_nests (s : ParserState) : Nests source .inside (args rules) s :=
  separated_nests (arg?_nests hr) rfl s

lemma bound?_nests (s : ParserState) : Nests source .inside (bound? rules) s := by
  refine .look rfl ?_
  split
  · exact some_nests hr.expression s
  · exact .give none

lemma sliceAfter_nests (there : s.current.kind = .symbol .colon) (start : ℕ)
    (lower : Option Expr) : Nests source .inside (sliceAfter rules start lower) s := by
  refine .take there rfl ((bound?_nests hr _).bind fun upper s₁ => ?_)
  refine (eat_nests rfl s₁).bind fun colon s₂ => ?_
  exact .choice (bound?_nests hr s₂) (.give none) fun step s₃ => completeFrom_nests _ _ s₃

lemma subscriptItem_nests (s : ParserState) : Nests source .inside (subscriptItem rules) s := by
  refine .look rfl (.look rfl ?_)
  split
  next there => exact sliceAfter_nests hr (eq_of_beq there) _ none
  refine (element_nests hr s).bind fun e s₁ => .look rfl ?_
  split
  next there => exact sliceAfter_nests hr (eq_of_beq there) _ (some e)
  · exact .give e

lemma subscriptItems_nests (s : ParserState) : Nests source .inside (subscriptItems rules) s :=
  tupleOf_nests (subscriptItem_nests hr) (fun _ => rfl) s

lemma extension?_nests (e : Expr) (s : ParserState) :
    Nests source .primary (extension? rules e) s := by
  have closed {close : Symbol} (opens : close.opens = false) (closes : close.closes = true)
      (build : Mark → Expr) (s : ParserState) : Closes source (do
        let _ ← expectSymbol close
        return some (← completeFrom e.span.start build)) s :=
    (expectSymbol_closes opens closes s).bind fun _ s₁ =>
      (completeFrom_nests _ _ s₁).bind fun e s₂ => .give (some e)
  refine .look rfl ?_
  split
  next there => exact .takeOpen there rfl ((args_nests hr _).closes fun _ => closed rfl rfl _)
  next there =>
    exact .takeOpen there rfl ((subscriptItems_nests hr _).closes fun _ => closed rfl rfl _)
  next there =>
    refine .take there rfl ((nameOrMissing_nests _).bind fun ident s₁ => ?_)
    exact (completeFrom_nests _ _ s₁).bind fun e s₂ => .give (some e)
  · exact .give none

lemma primary_nests (s : ParserState) : Nests source .primary (primary rules) s :=
  (atom_nests hr s).bind fun e s₁ => extend_nests (extension?_nests hr) e s₁

/-! ## Operators -/

lemma power_nests (s : ParserState) : Nests source .primary (power rules) s := by
  have raised (base : Expr) (s : ParserState) : Nests source .primary (do
      if ← eatSymbol .doubleStar then
        let right ← nested rules.unary
        completeFrom base.span.start (.binary · base .pow right)
      else return base) s := by
    refine (eat_nests rfl s).bind fun there s₁ => ?_
    split
    · exact ((nested_nests hr.unary s₁).anywhere .primary).bind fun right s₂ =>
        completeFrom_nests _ _ s₂
    · exact .give base
  refine .look rfl ?_
  split
  next there =>
    refine .take (eq_of_beq there) rfl ((primary_nests hr _).bind fun value s₁ => ?_)
    exact (completeFrom_nests _ _ s₁).bind raised
  · exact (primary_nests hr s).bind raised

omit hr in
lemma unaryOperator?_plain {k : TokenKind} {op : UnaryOp} (h : unaryOperator? k = some op) :
    k.isBracket = false := by
  unfold unaryOperator? at h
  split at h
  · rfl
  · rfl
  · rfl
  · nomatch h

lemma unary_nests (s : ParserState) : Nests source .operand (unary rules) s := by
  refine .look rfl ?_
  split
  · exact (hr.expression s).anywhere .operand
  next shallow =>
  refine .look rfl ?_
  split
  · have deep : (tooDeep.run s).1 = decide (maxNesting ≤ s.depth) := rfl
    rw [deep, decide_eq_true_iff, Nat.not_le] at shallow
    exact (power_nests hr s).operand shallow
  next is =>
    refine .take rfl (unaryOperator?_plain is) ?_
    exact ((nested_nests hr.unary _).anywhere .operand).bind fun operand s₁ =>
      completeFrom_nests _ _ s₁

omit hr in
lemma binaryOperator?_plain {k : TokenKind} {op : BinaryOp × ℕ}
    (h : binaryOperator? k = some op) : k.isBracket = false := by
  unfold binaryOperator? at h
  split at h
  · split at h
    all_goals first | rfl | nomatch h
  · nomatch h

lemma binaryStep?_nests (level : ℕ) (left : Expr) (s : ParserState) :
    Nests source .operand (binaryStep? rules level left) s := by
  refine .look rfl ?_
  split
  · exact .give none
  next is =>
    split
    · exact .give none
    refine .take rfl (binaryOperator?_plain is) ((hr.binary _ _).bind fun right s₁ => ?_)
    exact (completeFrom_nests _ _ s₁).bind fun e s₂ => .give (some e)

lemma binary_nests (level : ℕ) (s : ParserState) : Nests source .operand (binary rules level) s :=
  (unary_nests hr s).bind fun e s₁ => extend_nests (binaryStep?_nests hr level) e s₁

omit hr in
lemma compareOperator?_nests (s : ParserState) : Nests source r compareOperator? s := by
  have one {k : TokenKind} {s : ParserState} (there : s.current.kind = k)
      (plain : k.isBracket = false) (op : CompareOp) :
      Nests source r (compareOperator?.take op) s := .take there plain (.give _)
  refine .look rfl ?_
  split
  next there => exact one there rfl .lt
  next there => exact one there rfl .gt
  next there => exact one there rfl .eq
  next there => exact one there rfl .ge
  next there => exact one there rfl .le
  next there => exact one there rfl .notEq
  next there => exact one there rfl .in
  next isNot =>
    have there : s.current.kind = .keyword .kNot := isNot
    refine .look rfl ?_
    split
    next isNext =>
      have isIn : (advance s).current.kind = .keyword .kIn :=
        advance_kind (by rw [there]; nofun) nofun (eq_of_beq isNext)
      exact .take there rfl (one isIn rfl .notIn)
    · exact .give none
  next there =>
    refine .take there rfl ((eat_nests rfl _).bind fun word s₁ => ?_)
    split <;> exact .give _
  · exact .give none

lemma comparison_nests (s : ParserState) : Nests source .operand (comparison rules) s := by
  refine (binary_nests hr 0 s).bind fun left s₁ => ?_
  refine (collect_nests ?pair s₁).bind fun pairs s₂ => ?_
  case pair =>
    intro s
    refine (compareOperator?_nests s).bind fun op s₁ => ?_
    split
    · exact .give none
    · exact (hr.binary 0 s₁).bind fun e s₂ => .give _
  split
  · exact .give left
  · exact completeFrom_nests _ _ s₂

lemma negation_nests (s : ParserState) : Nests source .operand (negation rules) s := by
  refine .look rfl ?_
  split
  next there =>
    refine .look rfl ?_
    split
    · exact (hr.expression s).anywhere .operand
    refine .take (eq_of_beq there) rfl ?_
    exact ((nested_nests hr.negation _).anywhere .operand).bind fun operand s₁ =>
      completeFrom_nests _ _ s₁
  · exact comparison_nests hr s

omit hr in
lemma joined_nests {item : Parser Expr} (word : Keyword) (op : BoolOp)
    (h : ∀ s, Nests source r item s) (s : ParserState) :
    Nests source r (joined word op item) s := by
  refine (h s).bind fun first s₁ => .look rfl ?_
  split
  · exact .give first
  · exact (collect_nests (afterEaten_nests (some_nests h) rfl) s₁).bind fun others s₂ =>
      completeFrom_nests _ _ s₂

lemma conjunction_nests (s : ParserState) : Nests source .operand (conjunction rules) s :=
  joined_nests .kAnd .and (negation_nests hr) s

lemma disjunction_nests (s : ParserState) : Nests source .operand (disjunction rules) s :=
  joined_nests .kOr .or (conjunction_nests hr) s

lemma conditional_nests (s : ParserState) : Nests source .operand (conditional rules) s := by
  refine .look rfl ?_
  split
  next there => exact (lambda_nests hr (eq_of_beq there)).anywhere .operand
  refine (disjunction_nests hr s).bind fun body s₁ => (eat_nests rfl s₁).bind fun isIf s₂ => ?_
  split
  · refine (disjunction_nests hr s₂).bind fun test s₃ => ?_
    refine (expectKeyword_nests .kElse s₃).bind fun _ s₄ => ?_
    exact ((hr.expression s₄).anywhere .operand).bind fun orelse s₅ => completeFrom_nests _ _ s₅
  · exact .give body

/-- An expression is counted, with the bracket that it stands in. -/
theorem expression_nests (s : ParserState) : Nests source .inside (expression rules) s := by
  refine .look rfl ?_
  split
  · refine .note fun s₁ => .look rfl (.look rfl (.look rfl ?_))
    split
    · exact Remembers.bind (Skips.remembers (fun _ => bump_skips) s₁) fun _ _ => id
    · exact id
  · exact nested_nests (conditional_nests hr) s

end

lemma exhausted_nests (r : Room) (s : ParserState) : Nests source r exhausted s :=
  .note fun _ => id

end Parser

/-! ## The circle of the rules -/

lemma Rules.none_nesting : Rules.none.Nesting source where
  expression := Parser.exhausted_nests .inside
  disjunction := Parser.exhausted_nests .operand
  negation := Parser.exhausted_nests .operand
  binary _ := Parser.exhausted_nests .operand
  unary := Parser.exhausted_nests .operand
  spelling := none_spelling

lemma Rules.Nesting.next (h : rules.Nesting source) : rules.next.Nesting source where
  expression := Parser.expression_nests h
  disjunction := Parser.disjunction_nests h
  negation := Parser.negation_nests h
  binary := Parser.binary_nests h
  unary := Parser.unary_nests h
  spelling := h.spelling.next

/-- However often the circle of the rules is tied, they leave the brackets as they are. -/
theorem Rules.upTo_nesting (n : ℕ) : (Rules.upTo n).Nesting source := by
  induction n with
  | zero => exact none_nesting
  | succ n ih =>
    rw [upTo_succ]
    exact ih.next

end MethodLift.Syntax
