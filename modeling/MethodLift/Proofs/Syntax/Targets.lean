import MethodLift.Proofs.Syntax.Contexts
import MethodLift.Syntax.Module

/-!
# Whatever is read fits

Each level of the grammar gives expressions that are there to be read and whose contexts fit
everywhere in them, if the levels that it goes back to do; each kind of statement gives a statement
that fits.  It does not matter for this which tokens there are and what the state of reading is, so
the steps are only asked what they give (`SatisfiesM`), and the steps that look at tokens, take them
or note problems are passed over (`giving`).

The circles of the grammar are tied by induction on the number of rounds (`Rules.upTo_fitting`,
`Blocks.upTo_fitting`).  So the tree of any text fits, with problems or without, and its contexts
are those that the places of its expressions ask for (`contexts_exact`).
-/

namespace MethodLift.Syntax

variable {rules : Rules} {blocks : Blocks}

namespace Parser

variable {α β : Type}

/-! ## Steps and loops -/

/-- What is given after a step does not depend on what the step gives. -/
lemma giving {p : Parser α} {f : α → Parser β} {P : β → Prop} (h : ∀ a, SatisfiesM P (f a)) :
    SatisfiesM P (p >>= f) :=
  SatisfiesM.trivial.bind fun a _ => h a

/-- One of two steps, and then the same step after either. -/
lemma choice {c : Prop} [Decidable c] {p q : Parser α} {f : α → Parser β} {P : α → Prop}
    {Q : β → Prop} (hp : SatisfiesM P p) (hq : SatisfiesM P q)
    (later : ∀ a, P a → SatisfiesM Q (f a)) :
    SatisfiesM Q (if c then p >>= f else q >>= f) := by
  split
  · exact hp.bind later
  · exact hq.bind later

lemma forall_mem_some {P : α → Prop} {a : α} (h : P a) : ∀ b ∈ some a, P b := by
  rintro _ ⟨⟩
  exact h

lemma giving_none {P : α → Prop} :
    SatisfiesM (fun o => ∀ a ∈ o, P a) (pure none : Parser (Option α)) :=
  .pure nofun

lemma giving_some {p : Parser α} {P : α → Prop} (h : SatisfiesM P p) :
    SatisfiesM (fun o => ∀ a ∈ o, P a) (some <$> p) :=
  h.map forall_mem_some

lemma collectAtMost_giving {step : Parser (Option α)} {P : α → Prop}
    (h : SatisfiesM (fun o => ∀ a ∈ o, P a) step) (n : ℕ) :
    SatisfiesM (fun as => ∀ a ∈ as, P a) (collectAtMost step n) := by
  induction n with
  | zero => exact .pure nofun
  | succ n ih =>
    unfold collectAtMost
    refine h.bind fun o found => ?_
    cases o with
    | none => exact .pure nofun
    | some a => exact ih.bind fun as later => .pure (List.forall_mem_cons.2 ⟨found a rfl, later⟩)

lemma collect_giving {step : Parser (Option α)} {P : α → Prop}
    (h : SatisfiesM (fun o => ∀ a ∈ o, P a) step) :
    SatisfiesM (fun as => ∀ a ∈ as, P a) (collect step) :=
  giving fun _ => collectAtMost_giving h _

/-- A thing after something that has to be there for it. -/
lemma afterEaten_giving {k : TokenKind} {item : Parser α} {P : α → Prop} (h : SatisfiesM P item) :
    SatisfiesM (fun o => ∀ a ∈ o, P a)
      (do if ← eat k then return some (← item) else return none : Parser (Option α)) := by
  refine giving fun there => ?_
  split
  · exact h.bind fun a is => .pure (forall_mem_some is)
  · exact .pure nofun

lemma separated_giving {separator : Symbol} {item : Parser (Option α)} {P : α → Prop}
    (h : SatisfiesM (fun o => ∀ a ∈ o, P a) item) :
    SatisfiesM (fun as => ∀ a ∈ as, P a) (separated separator item) := by
  unfold separated
  refine h.bind fun o found => ?_
  cases o with
  | none => exact .pure nofun
  | some a =>
    have others : SatisfiesM (fun as => ∀ a ∈ as, P a)
        (collect do if ← eatSymbol separator then item else return none) := by
      refine collect_giving (giving fun there => ?_)
      split
      · exact h
      · exact giving_none
    exact others.bind fun as later => .pure (List.forall_mem_cons.2 ⟨found a rfl, later⟩)

lemma elementsAtMost_giving {close : Symbol} {item : Parser α} {P : α → Prop}
    (h : SatisfiesM P item) (n : ℕ) :
    SatisfiesM (fun as => ∀ a ∈ as, P a) (elementsAtMost close item n) := by
  induction n with
  | zero => exact .pure nofun
  | succ n ih =>
    unfold elementsAtMost
    refine giving fun comma => ?_
    split
    · exact .pure nofun
    refine giving fun closed => ?_
    split
    · exact .pure nofun
    refine giving fun before => h.bind fun a is => giving fun after => ?_
    split
    · exact .pure (List.forall_mem_singleton.2 is)
    · exact ih.bind fun as later => .pure (List.forall_mem_cons.2 ⟨is, later⟩)

lemma elements_giving {close : Symbol} {item : Parser α} {P : α → Prop} (h : SatisfiesM P item) :
    SatisfiesM (fun as => ∀ a ∈ as, P a) (elements close item) :=
  giving fun _ => elementsAtMost_giving h _

lemma extendAtMost_giving {step : α → Parser (Option α)} {P : α → Prop}
    (h : ∀ a, P a → SatisfiesM (fun o => ∀ b ∈ o, P b) (step a)) (n : ℕ) {a : α} (ha : P a) :
    SatisfiesM P (extendAtMost step n a) := by
  induction n generalizing a with
  | zero => exact .pure ha
  | succ n ih =>
    unfold extendAtMost
    refine (h a ha).bind fun o found => ?_
    cases o with
    | none => exact .pure ha
    | some b => exact ih (found b rfl)

lemma extend_giving {step : α → Parser (Option α)} {P : α → Prop}
    (h : ∀ a, P a → SatisfiesM (fun o => ∀ b ∈ o, P b) (step a)) {a : α} (ha : P a) :
    SatisfiesM P (extend step a) :=
  giving fun _ => extendAtMost_giving h _ ha

lemma nested_giving {p : Parser α} {P : α → Prop} (h : SatisfiesM P p) :
    SatisfiesM P (nested p) :=
  giving fun _ => h.bind fun _ is => giving fun _ => .pure is

lemma mapM_giving {f : α → Parser β} {xs : List α} {P : β → Prop}
    (h : ∀ x ∈ xs, SatisfiesM P (f x)) : SatisfiesM (fun bs => ∀ b ∈ bs, P b) (xs.mapM f) := by
  induction xs with
  | nil => exact .pure nofun
  | cons x xs ih =>
    rw [List.mapM_cons]
    obtain ⟨first, later⟩ := List.forall_mem_cons.1 h
    exact first.bind fun b is => (ih later).bind fun bs others =>
      .pure (List.forall_mem_cons.2 ⟨is, others⟩)

lemma filterMapM_giving {f : α → Parser (Option β)} {xs : List α} {P : β → Prop}
    (h : ∀ x, SatisfiesM (fun o => ∀ b ∈ o, P b) (f x)) :
    SatisfiesM (fun bs => ∀ b ∈ bs, P b) (xs.filterMapM f) := by
  induction xs with
  | nil => exact .pure nofun
  | cons x xs ih =>
    rw [List.filterMapM_cons]
    refine (h x).bind fun o found => ?_
    cases o with
    | none => exact ih
    | some b => exact ih.bind fun bs others => .pure (List.forall_mem_cons.2 ⟨found b rfl, others⟩)

/-! ## Completing nodes -/

lemma completeFrom_giving {start : ℕ} {build : Mark → Expr} {P : Expr → Prop}
    (h : ∀ m, P (build m)) : SatisfiesM P (completeFrom start build) :=
  giving fun _ => giving fun _ => giving fun _ => .pure (h _)

lemma complete_giving {span : Span} {build : Mark → Expr} {P : Expr → Prop}
    (h : ∀ m, P (build m)) : SatisfiesM P (complete span build) :=
  giving fun _ => giving fun _ => .pure (h _)

lemma completeStmt_giving {span : Span} {build : Mark → Stmt} {P : Stmt → Prop}
    (h : ∀ m, P (build m)) : SatisfiesM P (completeStmt span build) :=
  giving fun _ => giving fun _ => .pure (h _)

lemma completeStmtFrom_giving {start : ℕ} {build : Mark → Stmt} {P : Stmt → Prop}
    (h : ∀ m, P (build m)) : SatisfiesM P (completeStmtFrom start build) :=
  giving fun _ => completeStmt_giving h

/-- A target is made of whatever was read. -/
lemma target_giving {ctx : Context} {e : Expr} (h : e.For .load) :
    SatisfiesM (Expr.For ctx) (target ctx e) :=
  giving fun _ => .pure (Expr.for_retarget h.inside)

end Parser

/-! ## Expressions -/

/-- A clause of a comprehension whose expressions are there for what their places ask for. -/
structure Generator.Fitting (g : Generator Expr) : Prop where
  target : g.target.For .store
  iter : g.iter.For .load
  conditions : ∀ c ∈ g.conditions, c.For .load

/-- The levels of the grammar that others go back to read expressions that fit. -/
structure Rules.Fitting (rules : Rules) : Prop where
  expression : SatisfiesM (Expr.For .load) rules.expression
  disjunction : SatisfiesM (Expr.For .load) rules.disjunction
  negation : SatisfiesM (Expr.For .load) rules.negation
  binary : ∀ level, SatisfiesM (Expr.For .load) (rules.binary level)
  unary : SatisfiesM (Expr.For .load) rules.unary

/-- Two expressions that are read. -/
lemma for_pair {a b : Expr} {ctx : Context} (ha : a.For ctx) (hb : b.For ctx) :
    ∀ c ∈ [a, b], c.For ctx := forall_mem_pair ha hb

namespace Parser

section

variable (hr : rules.Fitting)
include hr

lemma starredOr_fitting {other : Parser Expr} (h : SatisfiesM (Expr.For .load) other) :
    SatisfiesM (Expr.For .load) (starredOr rules other) := by
  unfold starredOr
  refine giving fun star => ?_
  split
  · refine giving fun t => (hr.binary 0).bind fun value is => completeFrom_giving fun m => ?_
    exact .node rfl nofun (List.forall_mem_singleton.2 is) nofun
  · exact h

lemma namedExpression_fitting : SatisfiesM (Expr.For .load) (namedExpression rules) := by
  unfold namedExpression
  refine giving fun isName => giving fun next => ?_
  split
  · -- the name is a target from the beginning
    have name (t : Token) : SatisfiesM (fun e => e.For .store ∧ ∃ m id ctx, e = .name m id ctx)
        (complete t.span (.name · t.text .store)) :=
      complete_giving fun m => ⟨.reading rfl rfl rfl nofun, m, t.text, .store, rfl⟩
    refine giving fun t => (name t).bind fun target ⟨stored, isName⟩ => giving fun _ => ?_
    refine hr.expression.bind fun value read => completeFrom_giving fun m => ?_
    refine .node rfl (List.forall_mem_singleton.2 read) nofun
      (List.forall_mem_singleton.2 stored) isName
  · exact hr.expression

lemma element_fitting : SatisfiesM (Expr.For .load) (element rules) :=
  starredOr_fitting hr (namedExpression_fitting hr)

lemma operand_fitting : SatisfiesM (Expr.For .load) (operand rules) :=
  starredOr_fitting hr (hr.binary 0)

omit hr in
lemma tupleOf_fitting {item : Parser Expr} {mayFollow : Parser Bool}
    (h : SatisfiesM (Expr.For .load) item) :
    SatisfiesM (Expr.For .load) (tupleOf item mayFollow) := by
  unfold tupleOf
  refine h.bind fun first is => giving fun comma => ?_
  split
  · exact .pure is
  have step : SatisfiesM (fun o => ∀ e ∈ o, e.For .load) (do
      if (← eatSymbol .comma) && (← mayFollow) then return some (← item) else return none :
      Parser (Option Expr)) := by
    refine giving fun comma => giving fun more => ?_
    split
    · exact h.bind fun e is => .pure (forall_mem_some is)
    · exact .pure nofun
  refine (collect_giving step).bind fun others are => completeFrom_giving fun m => ?_
  exact .node rfl nofun (List.forall_mem_cons.2 ⟨is, are⟩) nofun

lemma expressions_fitting : SatisfiesM (Expr.For .load) (expressions rules) :=
  tupleOf_fitting (element_fitting hr)

lemma operands_fitting : SatisfiesM (Expr.For .load) (operands rules) :=
  tupleOf_fitting (operand_fitting hr)

lemma yieldExpression_fitting : SatisfiesM (Expr.For .load) (yieldExpression rules) := by
  unfold yieldExpression
  refine giving fun t => giving fun fromThere => ?_
  split
  · refine hr.expression.bind fun value is => completeFrom_giving fun m => ?_
    exact .reading rfl rfl rfl (List.forall_mem_singleton.2 is)
  · refine giving fun begins => ?_
    refine choice (giving_some (expressions_fitting hr)) giving_none fun value are => ?_
    exact completeFrom_giving fun m => .reading rfl rfl rfl (forall_mem_toList are)

lemma value_fitting : SatisfiesM (Expr.For .load) (value rules) := by
  unfold value
  refine giving fun isYield => ?_
  split
  · exact yieldExpression_fitting hr
  · exact expressions_fitting hr

/-! ### Parameters and lambdas -/

omit hr in
lemma after?_fitting {symbol : Symbol} {step : Parser Expr}
    (h : SatisfiesM (Expr.For .load) step) :
    SatisfiesM (fun o => ∀ e ∈ o, e.For .load) (after? symbol step) :=
  afterEaten_giving h

lemma param?_fitting (close : Symbol) (annotated : Bool) :
    SatisfiesM (fun o => ∀ p ∈ o, ∀ e ∈ p.annotation.toList ++ p.default.toList, e.For .load)
      (param? rules close annotated) := by
  unfold param?
  refine giving fun closed => giving fun ended => ?_
  split
  · exact .pure nofun
  refine giving fun start => giving fun head => ?_
  split
  · exact .pure nofun
  refine choice (after?_fitting hr.expression) giving_none fun annotation annotated => ?_
  refine choice (after?_fitting hr.expression) giving_none fun default defaulted => ?_
  refine giving fun span => .pure (forall_mem_some (List.forall_mem_append.2 ?_))
  exact ⟨forall_mem_toList annotated, forall_mem_toList defaulted⟩

lemma params_fitting (close : Symbol) (annotated : Bool) :
    SatisfiesM (fun ps => ∀ p ∈ ps, ∀ e ∈ p.annotation.toList ++ p.default.toList, e.For .load)
      (params rules close annotated) :=
  separated_giving (param?_fitting hr close annotated)

lemma lambda_fitting : SatisfiesM (Expr.For .load) (lambda rules) := by
  unfold lambda
  refine giving fun t => giving fun start => (params_fitting hr _ _).bind fun ps are => ?_
  refine giving fun span => giving fun colon => hr.expression.bind fun body is => ?_
  refine completeFrom_giving fun m => .reading rfl rfl rfl (List.forall_mem_append.2 ⟨?_, ?_⟩)
  · intro e he
    obtain ⟨p, hp, he⟩ := List.mem_flatMap.1 he
    exact are p hp e he
  · exact List.forall_mem_singleton.2 is

/-! ### Comprehensions -/

lemma generator?_fitting : SatisfiesM (fun o => ∀ g ∈ o, g.Fitting) (generator? rules) := by
  unfold generator?
  refine giving fun begins => ?_
  split
  · exact .pure nofun
  refine giving fun start => giving fun isAsync => giving fun word => ?_
  refine (operands_fitting hr).bind fun e is => (target_giving is).bind fun target stored => ?_
  refine giving fun word => hr.disjunction.bind fun iter read => ?_
  refine (collect_giving (afterEaten_giving hr.disjunction)).bind fun conditions filtered => ?_
  exact giving fun span => .pure (forall_mem_some ⟨stored, read, filtered⟩)

lemma generators_fitting : SatisfiesM (fun gs => ∀ g ∈ gs, g.Fitting) (generators rules) :=
  collect_giving (generator?_fitting hr)

omit hr in
lemma for_comprehension {m : Mark} {kind : ComprehensionKind} {element : Expr}
    {value : Option Expr} {clauses : List (Generator Expr)} (he : element.For .load)
    (hv : ∀ e ∈ value, e.For .load) (hc : ∀ g ∈ clauses, g.Fitting) :
    (Expr.comprehension m kind element value clauses).For .load := by
  refine .node rfl (List.forall_mem_cons.2 ⟨he, List.forall_mem_append.2 ⟨?_, ?_⟩⟩) nofun ?_
  · exact forall_mem_toList hv
  · intro e he
    obtain ⟨g, hg, he⟩ := List.mem_flatMap.1 he
    exact List.forall_mem_cons.2 ⟨(hc g hg).iter, (hc g hg).conditions⟩ e he
  · exact List.forall_mem_map.2 fun g hg => (hc g hg).target

lemma comprehension_fitting (start : ℕ) (close : Symbol) (kind : ComprehensionKind)
    {element : Expr} {value : Option Expr} (he : element.For .load)
    (hv : ∀ e ∈ value, e.For .load) :
    SatisfiesM (Expr.For .load) (comprehension rules start close kind element value) := by
  unfold comprehension
  refine (generators_fitting hr).bind fun clauses are => giving fun closed => ?_
  exact completeFrom_giving fun m => for_comprehension he hv are

/-! ### Brackets -/

lemma parenthesized_fitting : SatisfiesM (Expr.For .load) (parenthesized rules) := by
  unfold parenthesized
  refine giving fun t => giving fun empty => ?_
  split
  · exact completeFrom_giving fun m => .node rfl nofun nofun nofun
  refine giving fun isYield => ?_
  split
  · refine (yieldExpression_fitting hr).bind fun e is => giving fun closed => ?_
    exact giving fun span => .pure (is.withSpan _)
  refine (element_fitting hr).bind fun first is => giving fun begins => ?_
  split
  · exact comprehension_fitting hr _ _ _ is nofun
  refine giving fun comma => ?_
  split
  · exact giving fun closed => giving fun span => .pure (is.withSpan _)
  refine (elements_giving (element_fitting hr)).bind fun others are => giving fun closed => ?_
  exact completeFrom_giving fun m => .node rfl nofun (List.forall_mem_cons.2 ⟨is, are⟩) nofun

lemma bracketed_fitting : SatisfiesM (Expr.For .load) (bracketed rules) := by
  unfold bracketed
  refine giving fun t => giving fun empty => ?_
  split
  · exact completeFrom_giving fun m => .node rfl nofun nofun nofun
  refine (element_fitting hr).bind fun first is => giving fun begins => ?_
  split
  · exact comprehension_fitting hr _ _ _ is nofun
  refine (elements_giving (element_fitting hr)).bind fun others are => giving fun closed => ?_
  exact completeFrom_giving fun m => .node rfl nofun (List.forall_mem_cons.2 ⟨is, are⟩) nofun

lemma dictItem_fitting {key : Option Expr} (h : ∀ e ∈ key, e.For .load) :
    SatisfiesM (fun item => (∀ e ∈ item.key, e.For .load) ∧ item.value.For .load)
      (dictItem rules key) := by
  unfold dictItem
  split
  · exact giving fun colon => hr.expression.bind fun value is => .pure ⟨h, is⟩
  · exact giving fun stars => (hr.binary 0).bind fun value is => .pure ⟨nofun, is⟩

lemma laterDictItem_fitting :
    SatisfiesM (fun item => (∀ e ∈ item.key, e.For .load) ∧ item.value.For .load)
      (laterDictItem rules) := by
  unfold laterDictItem
  exact giving fun stars =>
    choice giving_none (giving_some hr.expression) fun key is => dictItem_fitting hr is

lemma setAfter_fitting (start : ℕ) {first : Expr} (is : first.For .load) :
    SatisfiesM (Expr.For .load) (setAfter rules start first) := by
  unfold setAfter
  refine giving fun begins => ?_
  split
  · exact comprehension_fitting hr _ _ _ is nofun
  refine (elements_giving (element_fitting hr)).bind fun others are => giving fun closed => ?_
  exact completeFrom_giving fun m => .reading rfl rfl rfl (List.forall_mem_cons.2 ⟨is, are⟩)

lemma dictAfter_others_fitting (start : ℕ) {first : DictItem Expr}
    (is : (∀ e ∈ first.key, e.For .load) ∧ first.value.For .load) :
    SatisfiesM (Expr.For .load) (dictAfter.others rules start first) := by
  unfold dictAfter.others
  refine (elements_giving (laterDictItem_fitting hr)).bind fun items are => giving fun closed => ?_
  refine completeFrom_giving fun m => .reading rfl rfl rfl fun e he => ?_
  obtain ⟨item, hi, he⟩ := List.mem_flatMap.1 he
  have here : (∀ e ∈ item.key, e.For .load) ∧ item.value.For .load := by
    rcases List.mem_cons.1 hi with rfl | hi
    · exact is
    · exact are item hi
  rcases List.mem_append.1 he with he | he
  · exact forall_mem_toList here.1 e he
  · exact List.forall_mem_singleton.2 here.2 e he

lemma dictAfter_fitting (start : ℕ) {key : Option Expr} (h : ∀ e ∈ key, e.For .load) :
    SatisfiesM (Expr.For .load) (dictAfter rules start key) := by
  unfold dictAfter
  refine (dictItem_fitting hr h).bind fun first is => ?_
  split
  next key known =>
    refine giving fun begins => ?_
    split
    · exact comprehension_fitting hr _ _ _ (is.1 key known) (forall_mem_some is.2)
    · exact dictAfter_others_fitting hr start is
  · exact dictAfter_others_fitting hr start is

lemma braced_fitting : SatisfiesM (Expr.For .load) (braced rules) := by
  unfold braced
  refine giving fun t => giving fun empty => ?_
  split
  · exact completeFrom_giving fun m => .reading rfl rfl rfl nofun
  refine giving fun stars => ?_
  split
  · exact dictAfter_fitting hr _ nofun
  refine (element_fitting hr).bind fun first is => giving fun colon => ?_
  split
  · exact dictAfter_fitting hr _ (forall_mem_some is)
  · exact setAfter_fitting hr _ is

/-! ### Strings -/

lemma field?_fitting (span : Span) :
    SatisfiesM (fun o => ∀ e ∈ o, e.For .load) (field? rules span) := by
  unfold field?
  refine giving fun outside => giving fun deep => ?_
  split
  · exact .pure nofun
  refine giving fun _ => (nested_giving (value_fitting hr)).bind fun e is => ?_
  refine giving fun ended => ?_
  split
  · exact giving fun _ => giving fun _ => .pure (forall_mem_some is)
  · exact giving fun _ => .pure (forall_mem_some is)

lemma strings_fitting : SatisfiesM (Expr.For .load) (strings rules) := by
  unfold strings
  refine giving fun start => giving fun tokens => giving fun span => ?_
  dsimp only
  split
  · exact complete_giving fun m => .reading rfl rfl rfl nofun
  refine giving fun source => (filterMapM_giving (field?_fitting hr)).bind fun values are => ?_
  exact complete_giving fun m => .reading rfl rfl rfl are

/-! ### Atoms and primaries -/

omit hr in
lemma constant_fitting (kind : ConstantKind) : SatisfiesM (Expr.For .load) (constant kind) :=
  giving fun _ => complete_giving fun _ => .reading rfl rfl rfl nofun

lemma atom_fitting : SatisfiesM (Expr.For .load) (atom rules) := by
  unfold atom
  refine giving fun kind => ?_
  split
  · exact giving fun t => complete_giving fun m => .reading rfl rfl rfl nofun
  · exact constant_fitting _
  · exact strings_fitting hr
  · exact strings_fitting hr
  · exact constant_fitting _
  · exact constant_fitting _
  · exact constant_fitting _
  · exact constant_fitting _
  · exact parenthesized_fitting hr
  · exact bracketed_fitting hr
  · exact braced_fitting hr
  · refine giving fun _ => giving fun t => ?_
    have missing : SatisfiesM (Expr.For .load) (complete t.span .missing) :=
      complete_giving fun m => .reading rfl rfl rfl nofun
    split
    · exact giving fun _ => missing
    · exact missing

lemma arg?_fitting :
    SatisfiesM (fun o => ∀ a ∈ o, a.value.For .load) (arg? rules) := by
  unfold arg?
  refine giving fun closed => giving fun ended => ?_
  split
  · exact .pure nofun
  have given (build : Expr → Span → Arg Expr) (same : ∀ e span, (build e span).value = e)
      (start : ℕ) {value : Expr} (is : value.For .load) :
      SatisfiesM (fun o => ∀ a ∈ o, a.value.For .load)
        (do return some (build value (← spanFrom start))) :=
    giving fun span => .pure (forall_mem_some ((same value span).symm ▸ is))
  refine giving fun start => giving fun kind => ?_
  split
  · exact giving fun _ => hr.expression.bind fun _ => given (⟨.star, ·, ·⟩) (fun _ _ => rfl) start
  · exact giving fun _ => hr.expression.bind fun _ =>
      given (⟨.doubleStar, ·, ·⟩) (fun _ _ => rfl) start
  refine giving fun isName => giving fun next => ?_
  split
  · exact giving fun t => giving fun _ => hr.expression.bind fun _ =>
      given (⟨.keyword ⟨t.text, t.span⟩, ·, ·⟩) (fun _ _ => rfl) start
  have last {value : Expr} (is : value.For .load) :=
    given (⟨.positional, ·, ·⟩) (fun _ _ => rfl) start is
  refine (namedExpression_fitting hr).bind fun first is => giving fun begins => ?_
  split
  · refine (generators_fitting hr).bind fun clauses are => ?_
    have node (m : Mark) : (Expr.comprehension m .generator first none clauses).For .load :=
      for_comprehension is nofun are
    exact (completeFrom_giving node).bind fun _ => last
  · exact (SatisfiesM.pure is).bind fun _ => last

lemma args_fitting : SatisfiesM (fun as => ∀ a ∈ as, a.value.For .load) (args rules) :=
  separated_giving (arg?_fitting hr)

lemma bound?_fitting : SatisfiesM (fun o => ∀ e ∈ o, e.For .load) (bound? rules) := by
  unfold bound?
  refine giving fun begins => ?_
  split
  · exact hr.expression.bind fun e is => .pure (forall_mem_some is)
  · exact .pure nofun

lemma sliceAfter_fitting (start : ℕ) {lower : Option Expr} (h : ∀ e ∈ lower, e.For .load) :
    SatisfiesM (Expr.For .load) (sliceAfter rules start lower) := by
  unfold sliceAfter
  refine giving fun _ => (bound?_fitting hr).bind fun upper above => giving fun colon => ?_
  refine choice (bound?_fitting hr) giving_none fun step steps => completeFrom_giving fun m => ?_
  refine .reading rfl rfl rfl (List.forall_mem_append.2 ⟨List.forall_mem_append.2 ⟨?_, ?_⟩, ?_⟩)
  · exact forall_mem_toList h
  · exact forall_mem_toList above
  · exact forall_mem_toList steps

lemma subscriptItem_fitting : SatisfiesM (Expr.For .load) (subscriptItem rules) := by
  unfold subscriptItem
  refine giving fun start => giving fun colon => ?_
  split
  · exact sliceAfter_fitting hr _ nofun
  refine (element_fitting hr).bind fun e is => giving fun colon => ?_
  split
  · exact sliceAfter_fitting hr _ (forall_mem_some is)
  · exact .pure is

lemma subscriptItems_fitting : SatisfiesM (Expr.For .load) (subscriptItems rules) :=
  tupleOf_fitting (subscriptItem_fitting hr)

lemma extension?_fitting {e : Expr} (is : e.For .load) :
    SatisfiesM (fun o => ∀ e ∈ o, e.For .load) (extension? rules e) := by
  have extended {start : ℕ} {build : Mark → Expr} (h : ∀ m, (build m).For .load) :
      SatisfiesM (fun o => ∀ e ∈ o, e.For .load)
        (do return some (← completeFrom start build)) :=
    (completeFrom_giving h).bind fun e is => .pure (forall_mem_some is)
  unfold extension?
  refine giving fun kind => ?_
  split
  · refine giving fun _ => (args_fitting hr).bind fun arguments are => giving fun closed => ?_
    refine extended fun m => .reading rfl rfl rfl (List.forall_mem_cons.2 ⟨is, ?_⟩)
    exact List.forall_mem_map.2 are
  · refine giving fun _ => (subscriptItems_fitting hr).bind fun index read => ?_
    exact giving fun closed => extended fun m => .reading rfl rfl rfl (for_pair is read)
  · refine giving fun _ => giving fun ident => extended fun m => ?_
    exact .reading rfl rfl rfl (List.forall_mem_singleton.2 is)
  · exact .pure nofun

lemma primary_fitting : SatisfiesM (Expr.For .load) (primary rules) :=
  (atom_fitting hr).bind fun _ is => extend_giving (fun _ => extension?_fitting hr) is

/-! ### Operators -/

lemma power_fitting : SatisfiesM (Expr.For .load) (power rules) := by
  have raised {base : Expr} (is : base.For .load) : SatisfiesM (Expr.For .load) (do
      if ← eatSymbol .doubleStar then
        let right ← nested rules.unary
        completeFrom base.span.start (.binary · base .pow right)
      else return base) := by
    refine giving fun stars => ?_
    split
    · refine (nested_giving hr.unary).bind fun right read => completeFrom_giving fun m => ?_
      exact .reading rfl rfl rfl (for_pair is read)
    · exact .pure is
  unfold power
  refine giving fun awaits => ?_
  split
  · refine giving fun t => (primary_fitting hr).bind fun value is => ?_
    refine (completeFrom_giving fun m => ?_).bind fun _ => raised
    exact .reading rfl rfl rfl (List.forall_mem_singleton.2 is)
  · exact (primary_fitting hr).bind fun _ => raised

lemma unary_fitting : SatisfiesM (Expr.For .load) (unary rules) := by
  unfold unary
  refine giving fun deep => ?_
  split
  · exact hr.expression
  refine giving fun kind => ?_
  split
  · exact power_fitting hr
  refine giving fun t => (nested_giving hr.unary).bind fun operand is => ?_
  exact completeFrom_giving fun m => .reading rfl rfl rfl (List.forall_mem_singleton.2 is)

lemma binaryStep?_fitting (level : ℕ) {left : Expr} (is : left.For .load) :
    SatisfiesM (fun o => ∀ e ∈ o, e.For .load) (binaryStep? rules level left) := by
  unfold binaryStep?
  refine giving fun kind => ?_
  split
  · exact .pure nofun
  next op opLevel _ =>
  split
  · exact .pure nofun
  refine giving fun _ => (hr.binary _).bind fun right read => ?_
  have node (m : Mark) : (Expr.binary m left op right).For .load :=
    .reading rfl rfl rfl (for_pair is read)
  exact (completeFrom_giving node).bind fun e is => .pure (forall_mem_some is)

lemma binary_fitting (level : ℕ) : SatisfiesM (Expr.For .load) (binary rules level) :=
  (unary_fitting hr).bind fun _ is => extend_giving (fun _ => binaryStep?_fitting hr level) is

lemma comparison_fitting : SatisfiesM (Expr.For .load) (comparison rules) := by
  unfold comparison
  refine (binary_fitting hr 0).bind fun left is => ?_
  refine (collect_giving (P := fun pair => pair.2.For .load) ?step).bind fun pairs are => ?_
  case step =>
    refine giving fun op => ?_
    split
    · exact .pure (by simp)
    · exact (hr.binary 0).bind fun right is => .pure (forall_mem_some is)
  split
  · exact .pure is
  refine completeFrom_giving fun m => .reading rfl rfl rfl (List.forall_mem_cons.2 ⟨is, ?_⟩)
  exact List.forall_mem_map.2 are

lemma negation_fitting : SatisfiesM (Expr.For .load) (negation rules) := by
  unfold negation
  refine giving fun isNot => ?_
  split
  · refine giving fun deep => ?_
    split
    · exact hr.expression
    refine giving fun t => (nested_giving hr.negation).bind fun operand is => ?_
    exact completeFrom_giving fun m => .reading rfl rfl rfl (List.forall_mem_singleton.2 is)
  · exact comparison_fitting hr

omit hr in
lemma joined_fitting (word : Keyword) (op : BoolOp) {item : Parser Expr}
    (h : SatisfiesM (Expr.For .load) item) :
    SatisfiesM (Expr.For .load) (joined word op item) := by
  unfold joined
  refine h.bind fun first is => giving fun more => ?_
  split
  · exact .pure is
  refine (collect_giving (afterEaten_giving h)).bind fun others are => ?_
  exact completeFrom_giving fun m => .reading rfl rfl rfl (List.forall_mem_cons.2 ⟨is, are⟩)

lemma disjunction_fitting : SatisfiesM (Expr.For .load) (disjunction rules) :=
  joined_fitting .kOr .or (joined_fitting .kAnd .and (negation_fitting hr))

lemma conditional_fitting : SatisfiesM (Expr.For .load) (conditional rules) := by
  unfold conditional
  refine giving fun isLambda => ?_
  split
  · exact lambda_fitting hr
  refine (disjunction_fitting hr).bind fun body is => giving fun isIf => ?_
  split
  · refine (disjunction_fitting hr).bind fun test tested => giving fun _ => ?_
    refine hr.expression.bind fun orelse other => completeFrom_giving fun m => ?_
    exact .reading rfl rfl rfl (List.forall_mem_cons.2 ⟨is, for_pair tested other⟩)
  · exact .pure is

lemma expression_fitting : SatisfiesM (Expr.For .load) (expression rules) := by
  unfold expression
  refine giving fun deep => ?_
  split
  · refine giving fun _ => giving fun t => giving fun atNewline => giving fun atEnd => ?_
    have missing : SatisfiesM (Expr.For .load) (complete t.span .missing) :=
      complete_giving fun m => .reading rfl rfl rfl nofun
    split
    · exact giving fun _ => missing
    · exact missing
  · exact nested_giving (conditional_fitting hr)

end

lemma exhausted_fitting : SatisfiesM (Expr.For .load) exhausted :=
  giving fun _ => giving fun _ => complete_giving fun _ => .reading rfl rfl rfl nofun

end Parser

lemma Rules.none_fitting : Rules.none.Fitting :=
  ⟨Parser.exhausted_fitting, Parser.exhausted_fitting, Parser.exhausted_fitting,
    fun _ => Parser.exhausted_fitting, Parser.exhausted_fitting⟩

/-- One more round of the circle gives expressions that fit. -/
lemma Rules.Fitting.next (hr : rules.Fitting) : rules.next.Fitting :=
  ⟨Parser.expression_fitting hr, Parser.disjunction_fitting hr, Parser.negation_fitting hr,
    Parser.binary_fitting hr, Parser.unary_fitting hr⟩

theorem Rules.upTo_fitting (n : ℕ) : (Rules.upTo n).Fitting := by
  induction n with
  | zero => exact Rules.none_fitting
  | succ n ih => exact ih.next

/-! ## Statements -/

/-- The circle of the statements gives statements that fit. -/
structure Blocks.Fitting (blocks : Blocks) : Prop where
  block : SatisfiesM (fun ss => ∀ s ∈ ss, s.Everywhere Stmt.Fitting) blocks.block
  branch : SatisfiesM (Stmt.Everywhere Stmt.Fitting) blocks.branch

namespace Stmt

variable {s : Stmt}

/-- A statement that only reads its expressions, and has others in it that fit. -/
lemma Everywhere.reading (stored : s.stored = []) (deleted : s.deleted = [])
    (reads : ∀ e ∈ s.reads, e.For .load) (children : ∀ c ∈ s.children, c.Everywhere Fitting) :
    s.Everywhere Fitting :=
  .node ⟨reads, stored ▸ nofun, deleted ▸ nofun⟩ children

/-- A statement without expressions and without statements in it. -/
lemma Everywhere.empty (reads : s.reads = []) (stored : s.stored = []) (deleted : s.deleted = [])
    (children : s.children = []) : s.Everywhere Fitting :=
  .reading stored deleted (reads ▸ nofun) (children ▸ nofun)

/-- A statement that assigns, and has others in it that fit. -/
lemma Everywhere.storing (deleted : s.deleted = []) (reads : ∀ e ∈ s.reads, e.For .load)
    (stored : ∀ e ∈ s.stored, e.For .store) (children : ∀ c ∈ s.children, c.Everywhere Fitting) :
    s.Everywhere Fitting :=
  .node ⟨reads, stored, deleted ▸ nofun⟩ children

end Stmt

namespace Parser

/-! ### Simple statements -/

lemma wordStmt_fitting {build : Mark → Stmt} (h : ∀ m, (build m).Everywhere Stmt.Fitting) :
    SatisfiesM (Stmt.Everywhere Stmt.Fitting) (wordStmt build) :=
  giving fun _ => completeStmt_giving h

lemma declarationStmt_fitting {build : Mark → List Ident → Stmt}
    (h : ∀ m names, (build m names).Everywhere Stmt.Fitting) :
    SatisfiesM (Stmt.Everywhere Stmt.Fitting) (declarationStmt build) :=
  giving fun _ => giving fun _ => completeStmtFrom_giving fun m => h m _

lemma importStmt_fitting : SatisfiesM (Stmt.Everywhere Stmt.Fitting) importStmt :=
  giving fun _ => giving fun _ => completeStmtFrom_giving fun _ => .empty rfl rfl rfl rfl

lemma importFromStmt_fitting : SatisfiesM (Stmt.Everywhere Stmt.Fitting) importFromStmt := by
  have node {start : ℕ} {module : Option String} {level : ℕ} {isStar : Bool} (names : List Alias) :
      SatisfiesM (Stmt.Everywhere Stmt.Fitting)
        (completeStmtFrom start (.importFrom · module level names isStar)) :=
    completeStmtFrom_giving fun m => .empty rfl rfl rfl rfl
  have imported {start : ℕ} {module : Option String} {level : ℕ} :
      SatisfiesM (Stmt.Everywhere Stmt.Fitting) (do
        expectKeyword .kImport
        let isStar ← eatSymbol .star
        let names ← if isStar then pure [] else importedNames
        completeStmtFrom start (.importFrom · module level names isStar)) := by
    refine giving fun _ => giving fun isStar => ?_
    split
    · exact giving node
    · exact giving node
  unfold importFromStmt
  refine giving fun t => giving fun level => giving fun module => ?_
  dsimp only
  split
  · exact giving fun _ => imported
  · exact imported

section

variable (hr : rules.Fitting)
include hr

lemma returnStmt_fitting : SatisfiesM (Stmt.Everywhere Stmt.Fitting) (returnStmt rules) := by
  unfold returnStmt
  refine giving fun t => giving fun begins => ?_
  refine choice (giving_some (expressions_fitting hr)) giving_none fun value are => ?_
  exact completeStmtFrom_giving fun m => .reading rfl rfl (forall_mem_toList are) nofun

/-- The elements of a bare tuple are targets of their own, with its context. -/
lemma deleteStmt_fitting : SatisfiesM (Stmt.Everywhere Stmt.Fitting) (deleteStmt rules) := by
  have node {start : ℕ} {targets : List Expr} (are : ∀ e ∈ targets, e.For .del) :
      SatisfiesM (Stmt.Everywhere Stmt.Fitting) (completeStmtFrom start (.delete · targets)) :=
    completeStmtFrom_giving fun m => .node ⟨nofun, nofun, are⟩ nofun
  unfold deleteStmt
  refine giving fun t => (operands_fitting hr).bind fun e is => ?_
  refine (target_giving is).bind fun e is => ?_
  dsimp only
  split
  next elements _ =>
    have are : SatisfiesM (fun es => ∀ e ∈ es, e.For .del) (pure elements : Parser (List Expr)) :=
      .pure fun d hd => is.of_mem_unpacked hd
    exact giving fun _ => are.bind fun _ => node
  · have are : SatisfiesM (fun es => ∀ e ∈ es, e.For .del) (pure [e] : Parser (List Expr)) :=
      .pure (List.forall_mem_singleton.2 is)
    exact are.bind fun _ => node

lemma raiseStmt_fitting : SatisfiesM (Stmt.Everywhere Stmt.Fitting) (raiseStmt rules) := by
  unfold raiseStmt
  refine giving fun t => giving fun begins => ?_
  split
  · refine hr.expression.bind fun exc is => giving fun fromThere => ?_
    refine choice (giving_some hr.expression) giving_none fun cause are => ?_
    refine completeStmtFrom_giving fun m => .reading rfl rfl ?_ nofun
    exact List.forall_mem_cons.2 ⟨is, forall_mem_toList are⟩
  · exact completeStmtFrom_giving fun m => .empty rfl rfl rfl rfl

lemma assertStmt_fitting : SatisfiesM (Stmt.Everywhere Stmt.Fitting) (assertStmt rules) := by
  unfold assertStmt
  refine giving fun t => hr.expression.bind fun test is => ?_
  refine (after?_fitting hr.expression).bind fun message are => ?_
  refine completeStmtFrom_giving fun m => .reading rfl rfl ?_ nofun
  exact List.forall_mem_cons.2 ⟨is, forall_mem_toList are⟩

/-- All of a chain but its last value are targets. -/
lemma assignStmt_fitting (start : ℕ) {first : Expr} (is : first.For .load) :
    SatisfiesM (Stmt.Everywhere Stmt.Fitting) (assignStmt rules start first) := by
  unfold assignStmt
  refine (collect_giving (after?_fitting (value_fitting hr))).bind fun others are => ?_
  have chain : ∀ e ∈ first :: others, e.For .load := List.forall_mem_cons.2 ⟨is, are⟩
  have assigned : (others.getLastD first).For .load := chain _ List.getLastD_mem_cons
  have targets : SatisfiesM (fun es => ∀ e ∈ es, e.For .store)
      ((first :: others).dropLast.mapM (target .store)) :=
    mapM_giving fun e he => target_giving (chain e (List.mem_of_mem_dropLast he))
  refine targets.bind fun targets stored => completeStmtFrom_giving fun m => ?_
  exact .storing rfl (List.forall_mem_singleton.2 assigned) stored nofun

lemma exprStmt_fitting : SatisfiesM (Stmt.Everywhere Stmt.Fitting) (exprStmt rules) := by
  unfold exprStmt
  refine giving fun start => giving fun begins => giving fun isYield => ?_
  split
  · exact giving fun _ => giving fun _ =>
      completeStmtFrom_giving fun m => .empty rfl rfl rfl rfl
  refine (value_fitting hr).bind fun first is => giving fun colon => ?_
  split
  · refine (target_giving is).bind fun target stored => ?_
    refine hr.expression.bind fun annotation read => ?_
    refine (after?_fitting (value_fitting hr)).bind fun assigned are => ?_
    refine completeStmtFrom_giving fun m => .storing rfl ?_ ?_ nofun
    · exact List.forall_mem_cons.2 ⟨read, forall_mem_toList are⟩
    · exact List.forall_mem_singleton.2 stored
  refine giving fun kind => ?_
  split
  · refine giving fun _ => (target_giving is).bind fun target stored => ?_
    refine (value_fitting hr).bind fun assigned read => completeStmtFrom_giving fun m => ?_
    exact .storing rfl (List.forall_mem_singleton.2 read)
      (List.forall_mem_singleton.2 stored) nofun
  refine giving fun equal => ?_
  split
  · exact assignStmt_fitting hr _ is
  · exact completeStmtFrom_giving fun m =>
      .reading rfl rfl (List.forall_mem_singleton.2 is) nofun

lemma smallStmt_fitting : SatisfiesM (Stmt.Everywhere Stmt.Fitting) (smallStmt rules) := by
  have word {build : Mark → Stmt} (h : ∀ m, (build m).Everywhere Stmt.Fitting) :
      SatisfiesM (Stmt.Everywhere Stmt.Fitting) (wordStmt build) := wordStmt_fitting h
  unfold smallStmt
  refine giving fun kind => ?_
  split
  · exact word fun m => .empty rfl rfl rfl rfl
  · exact word fun m => .empty rfl rfl rfl rfl
  · exact word fun m => .empty rfl rfl rfl rfl
  · exact returnStmt_fitting hr
  · exact deleteStmt_fitting hr
  · exact declarationStmt_fitting fun m names => .empty rfl rfl rfl rfl
  · exact declarationStmt_fitting fun m names => .empty rfl rfl rfl rfl
  · exact importStmt_fitting
  · exact importFromStmt_fitting
  · exact raiseStmt_fitting hr
  · exact assertStmt_fitting hr
  · exact exprStmt_fitting hr

omit hr in
lemma progressing_giving {α : Type} {step : Parser α} {P : α → Prop} (h : SatisfiesM P step) :
    SatisfiesM P (progressing step) := by
  unfold progressing
  refine giving fun before => h.bind fun result is => giving fun after => ?_
  split
  · exact giving fun _ => .pure is
  · exact .pure is

lemma simpleStmts_fitting :
    SatisfiesM (fun ss => ∀ s ∈ ss, s.Everywhere Stmt.Fitting) (simpleStmts rules) := by
  have one := progressing_giving (smallStmt_fitting hr)
  have step : SatisfiesM (fun o => ∀ s ∈ o, s.Everywhere Stmt.Fitting) (do
      if ← eatSymbol .semicolon then
        if (← isAt .newline) || (← isAt .endOfFile) then return none
        else return some (← progressing (smallStmt rules))
      else return none : Parser (Option Stmt)) := by
    refine giving fun semicolon => ?_
    split
    · refine giving fun newline => giving fun ended => ?_
      split
      · exact giving_none
      · exact one.bind fun s is => .pure (forall_mem_some is)
    · exact giving_none
  unfold simpleStmts
  refine one.bind fun first is => (collect_giving step).bind fun others are => ?_
  have all : ∀ s ∈ first :: others, s.Everywhere Stmt.Fitting :=
    List.forall_mem_cons.2 ⟨is, are⟩
  refine giving fun newline => ?_
  split
  · refine giving fun ended => ?_
    split
    · exact giving fun _ => giving fun _ => giving fun _ => .pure all
    · exact .pure all
  · exact .pure all

/-! ### Compound statements -/

variable (hb : blocks.Fitting)
include hb

omit hr in
lemma blockAfter_fitting (word : Keyword) :
    SatisfiesM (fun ss => ∀ s ∈ ss, s.Everywhere Stmt.Fitting) (blockAfter blocks word) := by
  unfold blockAfter
  refine giving fun there => ?_
  split
  · exact hb.block
  · exact .pure nofun

lemma ifStmt_fitting : SatisfiesM (Stmt.Everywhere Stmt.Fitting) (ifStmt rules blocks) := by
  unfold ifStmt
  refine giving fun word => (namedExpression_fitting hr).bind fun test is => ?_
  refine hb.block.bind fun body bodies => giving fun isElif => ?_
  have node {orelse : List Stmt} (others : ∀ s ∈ orelse, s.Everywhere Stmt.Fitting) :
      SatisfiesM (Stmt.Everywhere Stmt.Fitting) (completeStmtFrom word.span.start
        (.ifElse · (word.kind == .keyword .kElif) test body orelse)) :=
    completeStmtFrom_giving fun m => .reading rfl rfl
      (List.forall_mem_singleton.2 is) (List.forall_mem_append.2 ⟨bodies, others⟩)
  split
  · exact hb.branch.bind fun inner is => node (List.forall_mem_singleton.2 is)
  · exact (blockAfter_fitting hb .kElse).bind fun _ => node

lemma whileStmt_fitting : SatisfiesM (Stmt.Everywhere Stmt.Fitting) (whileStmt rules blocks) := by
  unfold whileStmt
  refine giving fun t => (namedExpression_fitting hr).bind fun test is => ?_
  refine hb.block.bind fun body bodies => (blockAfter_fitting hb _).bind fun orelse others => ?_
  exact completeStmtFrom_giving fun m => .reading rfl rfl
    (List.forall_mem_singleton.2 is) (List.forall_mem_append.2 ⟨bodies, others⟩)

lemma forStmt_fitting (async? : Option ℕ) :
    SatisfiesM (Stmt.Everywhere Stmt.Fitting) (forStmt rules blocks async?) := by
  unfold forStmt
  refine giving fun t => (operands_fitting hr).bind fun e is => ?_
  refine (target_giving is).bind fun target stored => giving fun _ => ?_
  refine (expressions_fitting hr).bind fun iter read => hb.block.bind fun body bodies => ?_
  refine (blockAfter_fitting hb _).bind fun orelse others => completeStmtFrom_giving fun m => ?_
  exact .storing rfl (List.forall_mem_singleton.2 read)
    (List.forall_mem_singleton.2 stored) (List.forall_mem_append.2 ⟨bodies, others⟩)

omit hb in
lemma handlerHead_fitting :
    SatisfiesM (fun head => ∀ e ∈ head.1, e.For .load) (handlerHead rules) := by
  unfold handlerHead
  refine giving fun colon => ?_
  split
  · exact .pure nofun
  · exact hr.expression.bind fun type is => giving fun name => .pure (forall_mem_some is)

lemma handler?_fitting :
    SatisfiesM (fun o => ∀ h ∈ o, (∀ e ∈ h.type, e.For .load)
      ∧ ∀ s ∈ h.body, s.Everywhere Stmt.Fitting) (handler? rules blocks) := by
  unfold handler?
  refine giving fun begins => ?_
  split
  · exact .pure nofun
  refine giving fun t => giving fun star => (handlerHead_fitting hr).bind fun head is => ?_
  refine hb.block.bind fun body bodies => giving fun span => ?_
  exact .pure (forall_mem_some ⟨is, bodies⟩)

lemma tryStmt_fitting : SatisfiesM (Stmt.Everywhere Stmt.Fitting) (tryStmt rules blocks) := by
  unfold tryStmt
  refine giving fun t => hb.block.bind fun body bodies => ?_
  refine (collect_giving (handler?_fitting hr hb)).bind fun handlers handled => ?_
  refine (blockAfter_fitting hb _).bind fun orelse others => ?_
  refine (blockAfter_fitting hb _).bind fun finalbody last => ?_
  have node {start : ℕ} : SatisfiesM (Stmt.Everywhere Stmt.Fitting)
      (completeStmtFrom start (.tryBlock · body handlers orelse finalbody)) := by
    refine completeStmtFrom_giving fun m => .reading rfl rfl (fun e he => ?_) ?_
    · obtain ⟨h, hh, he⟩ := List.mem_flatMap.1 he
      exact (handled h hh).1 e (Option.mem_toList.1 he)
    · simp only [Stmt.children, List.forall_mem_append, List.forall_mem_flatMap]
      exact ⟨⟨⟨bodies, fun h hh => (handled h hh).2⟩, others⟩, last⟩
  dsimp only
  split
  · exact giving fun _ => node
  · exact node

omit hb in
lemma withItem_fitting :
    SatisfiesM (fun item => item.context.For .load ∧ ∀ e ∈ item.target, e.For .store)
      (withItem rules) := by
  have bound : SatisfiesM (Expr.For .store) (do target .store (← operand rules)) :=
    (operand_fitting hr).bind fun e is => target_giving is
  unfold withItem
  refine hr.expression.bind fun context is => giving fun named => ?_
  exact choice (giving_some bound) giving_none fun target stored => .pure ⟨is, stored⟩

lemma withStmt_fitting (async? : Option ℕ) :
    SatisfiesM (Stmt.Everywhere Stmt.Fitting) (withStmt rules blocks async?) := by
  unfold withStmt
  refine giving fun t => ?_
  refine (separated_giving (giving_some (withItem_fitting hr))).bind fun items are => ?_
  refine hb.block.bind fun body bodies => completeStmtFrom_giving fun m => ?_
  refine .storing rfl ?_ (fun e he => ?_) bodies
  · exact List.forall_mem_map.2 fun item hi => (are item hi).1
  · obtain ⟨item, hi, he⟩ := List.mem_flatMap.1 he
    exact (are item hi).2 e (Option.mem_toList.1 he)

omit hb in
lemma parameters_fitting :
    SatisfiesM (fun ps => ∀ e ∈ ps.exprs, e.For .load) (parameters rules) := by
  unfold parameters
  refine giving fun opening => (params_fitting hr _ _).bind fun ps are => giving fun _ => ?_
  refine giving fun last => .pure fun e he => ?_
  obtain ⟨p, hp, he⟩ := List.mem_flatMap.1 he
  exact are p hp e he

omit hb in
lemma parametersOrMissing_fitting :
    SatisfiesM (fun ps => ∀ e ∈ ps.exprs, e.For .load) (parametersOrMissing rules) := by
  unfold parametersOrMissing
  refine giving fun there => ?_
  split
  · exact parameters_fitting hr
  · exact giving fun _ => giving fun _ => .pure nofun

lemma functionStmt_fitting {decorators : List Expr} (start : ℕ) (isAsync : Bool)
    (decorated : ∀ e ∈ decorators, e.For .load) : SatisfiesM (Stmt.Everywhere Stmt.Fitting)
      (functionStmt rules blocks decorators start isAsync) := by
  unfold functionStmt
  refine giving fun _ => giving fun name => ?_
  refine (parametersOrMissing_fitting hr).bind fun params are => ?_
  refine (after?_fitting hr.expression).bind fun returns returned => ?_
  refine hb.block.bind fun body bodies => completeStmtFrom_giving fun m => ?_
  refine .reading rfl rfl (List.forall_mem_append.2 ⟨?_, ?_⟩) bodies
  · exact List.forall_mem_append.2 ⟨decorated, are⟩
  · exact forall_mem_toList returned

lemma classStmt_fitting {decorators : List Expr} (start : ℕ)
    (decorated : ∀ e ∈ decorators, e.For .load) :
    SatisfiesM (Stmt.Everywhere Stmt.Fitting) (classStmt rules blocks decorators start) := by
  unfold classStmt
  refine giving fun _ => giving fun name => giving fun opens => ?_
  have node {bases : List (Arg Expr)} (are : ∀ a ∈ bases, a.value.For .load) :
      SatisfiesM (Stmt.Everywhere Stmt.Fitting) (do
        let body ← blocks.block
        completeStmtFrom start fun mark => .classDef ⟨mark, name, decorators, bases, body⟩) := by
    refine hb.block.bind fun body bodies => completeStmtFrom_giving fun m => ?_
    refine .reading rfl rfl (List.forall_mem_append.2 ⟨decorated, ?_⟩) bodies
    exact List.forall_mem_map.2 are
  split
  · exact (args_fitting hr).bind fun bases are => giving fun _ => node are
  · exact node nofun

omit hb in
lemma decorator?_fitting : SatisfiesM (fun o => ∀ e ∈ o, e.For .load) (decorator? rules) := by
  unfold decorator?
  refine giving fun there => ?_
  split
  · exact .pure nofun
  refine (namedExpression_fitting hr).bind fun e is => giving fun newline => ?_
  split
  · exact giving fun _ => giving fun _ => giving fun _ => .pure (forall_mem_some is)
  · exact .pure (forall_mem_some is)

lemma decorated_fitting : SatisfiesM (Stmt.Everywhere Stmt.Fitting) (decorated rules blocks) := by
  unfold decorated
  refine giving fun start => (collect_giving (decorator?_fitting hr)).bind fun decorators are => ?_
  refine giving fun kind => ?_
  split
  · exact functionStmt_fitting hr hb _ _ are
  · exact classStmt_fitting hr hb _ are
  refine giving fun next => ?_
  split
  · exact giving fun _ => functionStmt_fitting hr hb _ _ are
  · exact giving fun _ => giving fun _ =>
      completeStmtFrom_giving fun m => .empty rfl rfl rfl rfl

lemma asyncStmt_fitting : SatisfiesM (Stmt.Everywhere Stmt.Fitting) (asyncStmt rules blocks) := by
  unfold asyncStmt
  refine giving fun t => giving fun kind => ?_
  split
  · exact functionStmt_fitting hr hb _ _ nofun
  · exact forStmt_fitting hr hb _
  · exact withStmt_fitting hr hb _

omit hr hb in
lemma single_fitting {step : Parser Stmt} (h : SatisfiesM (Stmt.Everywhere Stmt.Fitting) step) :
    SatisfiesM (fun ss => ∀ s ∈ ss, s.Everywhere Stmt.Fitting) (statement.single step) :=
  h.bind fun _ is => .pure (List.forall_mem_singleton.2 is)

lemma statement_fitting :
    SatisfiesM (fun ss => ∀ s ∈ ss, s.Everywhere Stmt.Fitting) (statement rules blocks) := by
  unfold statement
  refine giving fun kind => ?_
  split
  · exact single_fitting (ifStmt_fitting hr hb)
  · exact single_fitting (whileStmt_fitting hr hb)
  · exact single_fitting (forStmt_fitting hr hb _)
  · exact single_fitting (tryStmt_fitting hr hb)
  · exact single_fitting (withStmt_fitting hr hb _)
  · exact giving fun _ => single_fitting (functionStmt_fitting hr hb _ _ nofun)
  · exact giving fun _ => single_fitting (classStmt_fitting hr hb _ nofun)
  · exact single_fitting (decorated_fitting hr hb)
  · refine giving fun next => ?_
    split
    · exact single_fitting (asyncStmt_fitting hr hb)
    · exact simpleStmts_fitting hr
  · exact simpleStmts_fitting hr

/-! ### Blocks and modules -/

lemma blockStep?_fitting :
    SatisfiesM (fun o => ∀ ss ∈ o, ∀ s ∈ ss, s.Everywhere Stmt.Fitting)
      (blockStep? rules blocks) := by
  unfold blockStep?
  refine giving fun kind => ?_
  split
  · exact giving_none
  · exact giving_none
  · exact giving fun _ => .pure (forall_mem_some nofun)
  · exact giving fun _ => giving fun _ => .pure (forall_mem_some nofun)
  · exact (progressing_giving (statement_fitting hr hb)).bind fun ss are =>
      .pure (forall_mem_some are)

lemma block_fitting :
    SatisfiesM (fun ss => ∀ s ∈ ss, s.Everywhere Stmt.Fitting) (block rules blocks) := by
  unfold block
  refine giving fun colon => ?_
  split
  · refine giving fun _ => giving fun _ => giving fun indented => ?_
    split
    · exact giving fun _ => .pure nofun
    · exact .pure nofun
  refine giving fun newline => ?_
  split
  · exact simpleStmts_fitting hr
  refine giving fun indented => ?_
  split
  · exact giving fun _ => .pure nofun
  refine giving fun deep => ?_
  split
  · exact giving fun _ => giving fun _ => .pure nofun
  refine (nested_giving (collect_giving (blockStep?_fitting hr hb))).bind fun body are => ?_
  refine giving fun _ => .pure fun s hs => ?_
  obtain ⟨ss, hss, hs⟩ := List.mem_flatten.1 hs
  exact are ss hss s hs

lemma moduleStep?_fitting :
    SatisfiesM (fun o => ∀ ss ∈ o, ∀ s ∈ ss, s.Everywhere Stmt.Fitting)
      (moduleStep? rules blocks) := by
  unfold moduleStep?
  refine giving fun kind => ?_
  split
  · exact giving_none
  · exact giving fun _ => .pure (forall_mem_some nofun)
  · exact giving fun _ => .pure (forall_mem_some nofun)
  · exact giving fun _ => giving fun _ => .pure (forall_mem_some nofun)
  · exact (progressing_giving (statement_fitting hr hb)).bind fun ss are =>
      .pure (forall_mem_some are)

lemma moduleBody_fitting :
    SatisfiesM (fun ss => ∀ s ∈ ss, s.Everywhere Stmt.Fitting) (moduleBody rules blocks) := by
  refine (collect_giving (moduleStep?_fitting hr hb)).bind fun body are => .pure fun s hs => ?_
  obtain ⟨ss, hss, hs⟩ := List.mem_flatten.1 hs
  exact are ss hss s hs

end

lemma exhaustedStmt_fitting : SatisfiesM (Stmt.Everywhere Stmt.Fitting) exhaustedStmt :=
  giving fun _ => giving fun _ => completeStmt_giving fun _ => .empty rfl rfl rfl rfl

end Parser

lemma Blocks.none_fitting : Blocks.none.Fitting :=
  ⟨Parser.exhaustedStmt_fitting.bind fun _ is => .pure (List.forall_mem_singleton.2 is),
    Parser.exhaustedStmt_fitting⟩

/-- One more round of the circle gives statements that fit. -/
lemma Blocks.Fitting.next (hb : blocks.Fitting) (hr : rules.Fitting) :
    (blocks.next rules).Fitting :=
  ⟨Parser.block_fitting hr hb, Parser.ifStmt_fitting hr hb⟩

theorem Blocks.upTo_fitting (hr : rules.Fitting) (n : ℕ) : (Blocks.upTo rules n).Fitting := by
  induction n with
  | zero => exact Blocks.none_fitting
  | succ n ih => exact ih.next hr

/-! ## A whole text -/

/-- The statements of any text fit, with everything inside them. -/
theorem parse_fitting (text : String) :
    ∀ s ∈ (parse text).module.body, s.Everywhere Stmt.Fitting := by
  have rules := Rules.upTo_fitting (2 * Text.width text.toList + 8)
  have blocks := Blocks.upTo_fitting rules (Text.width text.toList + 8)
  have body := Parser.moduleBody_fitting rules blocks
  exact SatisfiesM_Id_eq.1 (SatisfiesM_StateT_eq.1 body _)

/-- In the tree of any text, an expression that carries a context carries the one that its place
asks for: it is there to be assigned to exactly if it is reached from a target of an assignment, a
loop, a `with`, a comprehension or a walrus through tuples, lists and stars, it is there to be
deleted exactly if it is reached so from a target of a `del`, and else it is there to be read. -/
theorem contexts_exact (text : String) {e : Expr} {ctx : Context}
    (inTree : e ∈ (parse text).module.reachableExprs) (carries : e.context? = some ctx) :
    (parse text).module.Exact e ctx :=
  Module.exact_of_fitting (parse_fitting text) inTree carries

set_option maxRecDepth 100000 in
/-- The name in a star before an equals sign is there to be assigned to. -/
theorem starred_name_stored :
    let text := "*a, b.c = d\n"
    let a : Expr := .name ⟨0, ⟨1, 2⟩⟩ "a" .store
    a ∈ (parse text).module.reachableExprs ∧ a.context? = some .store
      ∧ (parse text).module.Exact a .store := by
  intro text a
  have inTree : a ∈ (parse text).module.reachableExprs := by
    unfold text a
    cbv
    exact .tail _ (.tail _ (.head _))
  exact ⟨inTree, rfl, contexts_exact text inTree rfl⟩

end MethodLift.Syntax
