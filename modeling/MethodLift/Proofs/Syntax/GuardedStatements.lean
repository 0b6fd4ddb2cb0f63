import MethodLift.Proofs.Syntax.GuardedExpressions

/-!
# How deep a text can nest its brackets

Statements stand outside of brackets, and each of them leaves no bracket open; the circle of the
blocks is tied as that of the expressions was.
-/

namespace MethodLift.Syntax

open Syntax.Parser (maxNesting)

variable {source : List Char} {rules : Rules} {blocks : Blocks} {α : Type}

/-- What statements go back to leaves no bracket open. -/
structure Blocks.Nesting (source : List Char) (blocks : Blocks) : Prop where
  block : ∀ s, Nests source .top blocks.block s
  branch : ∀ s : ParserState, s.current.kind = .keyword .kElif → Nests source .top blocks.branch s
  spelling : blocks.Spelling source

namespace Parser

variable {s : ParserState} {r : Room}

lemma skipLine_remembers (s : ParserState) : Remembers skipLine s :=
  Skips.remembers (fun _ => skipLine_skips) s

lemma bump_remembers (s : ParserState) : Remembers bump s := Skips.remembers (fun _ => bump_skips) s

lemma eat_remembers (k : TokenKind) (s : ParserState) : Remembers (eat k) s :=
  Skips.remembers (fun _ => eat_skips k) s

lemma skipBlock_remembers (s : ParserState) : Remembers skipBlock s :=
  Skips.remembers (fun _ => skipBlock_skips) s

/-- A step that takes a token whenever there is no problem makes progress of its own. -/
lemma progressing_nests {step : Parser α} {f : α → List Segment}
    (h : ∀ s, Nests source .top step s)
    (spells : ∀ s, Ends step s fun a s' =>
      Gathers source s s' (f a) ∧ (f a).any Segment.isSolid = true) (s : ParserState) :
    Nests source .top (progressing step) s := by
  refine .look rfl ?_
  have both : Ends step s fun a s' => Bounds source .top id s s'
      ∧ Gathers source s s' (f a) ∧ (f a).any Segment.isSolid = true := ⟨h s, spells s⟩
  refine both.bind ?_
  rintro a s₁ ⟨bounds, read, solid⟩
  refine .look rfl ?_
  dsimp only
  split
  next same =>
    refine ⟨fun clean => bounds.clean (bump_remembers s₁ clean), fun clean => ?_,
      fun clean ready => ?_⟩
    · have depth : (advance s₁).depth = s₁.depth := by
        unfold advance
        split <;> rfl
      exact depth.trans (bounds.depth (bump_remembers s₁ clean))
    · obtain ⟨-, ts, taken, spelled⟩ := read.spelled (bump_remembers s₁ clean) ready
      have less := taken.length_lt (spelled.ne_nil solid)
      have equal : s₁.later.length = s.later.length := eq_of_beq same
      omega
  · exact bounds

/-! ## Simple statements -/

lemma wordStmt_nests {k : TokenKind} (there : s.current.kind = k) (plain : k.isBracket = false)
    (build : Mark → Stmt) : Nests source r (wordStmt build) s :=
  .take there plain (completeStmt_nests _ _ _)

lemma listedName?_nests (cause : Problem.Cause) (s : ParserState) :
    Nests source r (listedName? cause) s := by
  refine (name?_nests s).bind fun name s₁ => ?_
  split
  · exact .give _
  · exact .note fun _ => id

lemma declarationStmt_nests {k : TokenKind} (there : s.current.kind = k)
    (plain : k.isBracket = false) (build : Mark → List Ident → Stmt) :
    Nests source r (declarationStmt build) s :=
  .take there plain ((separated_nests (listedName?_nests _) rfl _).bind fun _ s₁ =>
    completeStmtFrom_nests _ _ s₁)

lemma dottedName?_nests (s : ParserState) : Nests source r dottedName? s := by
  have part (s : ParserState) : Nests source r (do
      if (← atSymbol .dot) && (← nextKind) == .name then
        let _ ← bump
        return some ("." ++ (← bump).text)
      else return none : Parser (Option String)) s := by
    refine .look rfl (.look rfl ?_)
    split
    next both =>
      obtain ⟨isDot, isNext⟩ := Bool.and_eq_true_iff.1 both
      have dot : s.current.kind = .symbol .dot := eq_of_beq isDot
      have name : (advance s).current.kind = .name :=
        advance_kind (by rw [dot]; nofun) nofun (eq_of_beq isNext)
      exact .take dot rfl (.take name rfl (.give _))
    · exact .give none
  refine (name?_nests s).bind fun name s₁ => ?_
  split
  · exact .give none
  · exact (collect_nests part s₁).bind fun parts s₂ => .give _

lemma asName?_nests (s : ParserState) : Nests source r asName? s := by
  refine (eat_nests rfl s).bind fun there s₁ => ?_
  split
  · refine (name?_nests s₁).bind fun name s₂ => ?_
    split
    · exact .give _
    · exact .note fun _ => id
  · exact .give none

lemma alias?_nests (dotted : Bool) (s : ParserState) : Nests source r (alias? dotted) s := by
  have plainName (s : ParserState) : Nests source r plainName? s :=
    (name?_nests s).bind fun _ s₁ => .give _
  refine .choice (dottedName?_nests s) (plainName s) fun found s₁ => ?_
  dsimp only
  split
  · exact .give none
  · exact (asName?_nests s₁).bind fun asname s₂ => .look rfl (.give _)

lemma moduleAlias?_nests (s : ParserState) : Nests source r moduleAlias? s := by
  refine (alias?_nests true s).bind fun found s₁ => ?_
  split
  · exact .give _
  · exact .note fun _ => id

lemma importStmt_nests (there : s.current.kind = .keyword .kImport) :
    Nests source r importStmt s :=
  .take there rfl ((separated_nests moduleAlias?_nests rfl _).bind fun _ s₁ =>
    completeStmtFrom_nests _ _ s₁)

lemma levelStep?_nests (s : ParserState) : Nests source r levelStep? s := by
  refine (eat_nests rfl s).bind fun dot s₁ => ?_
  split
  · exact .give _
  refine (eat_nests rfl s₁).bind fun ellipsis s₂ => ?_
  split
  · exact .give _
  · exact .give none

lemma importedNames_nests (s : ParserState) : Nests source .primary importedNames s := by
  have names {r : Room} (s : ParserState) :
      Nests source r (separated .comma (alias? false)) s :=
    separated_nests (alias?_nests false) rfl s
  refine .eatOpen rfl (fun s₁ => ?_) ?_
  · refine (names s₁).closes fun as s₂ => ?_
    have closed (s : ParserState) : Closes source (do
        let _ ← expectSymbol .rightParen
        return as) s := (expectSymbol_closes rfl rfl s).bind fun _ s₃ => .give as
    dsimp only
    split
    · exact .note fun s₃ => (closed s₃).clean
    · exact closed s₂
  · refine (names s).bind fun as s₂ => ?_
    dsimp only
    split
    · exact .note fun _ => id
    · exact .give as

lemma importFromStmt_nests (there : s.current.kind = .keyword .kFrom) :
    Nests source .primary importFromStmt s := by
  have rest (start level : ℕ) (module : Option String) (s : ParserState) :
      Nests source .primary (do
        expectKeyword .kImport
        let isStar ← eatSymbol .star
        let names ← if isStar then pure [] else importedNames
        completeStmtFrom start (.importFrom · module level names isStar)) s := by
    refine (expectKeyword_nests .kImport s).bind fun _ s₁ => ?_
    refine (eat_nests rfl s₁).bind fun isStar s₂ => ?_
    exact .choice (.give []) (importedNames_nests s₂) fun names s₃ => completeStmtFrom_nests _ _ s₃
  refine .take there rfl ((collect_nests levelStep?_nests _).bind fun levels s₁ => ?_)
  refine (dottedName?_nests s₁).bind fun module s₂ => ?_
  dsimp only
  split
  · exact .note fun s₃ => (rest _ _ _ s₃).remembers
  · exact rest _ _ _ s₂

section

variable (hr : rules.Nesting source)
include hr

lemma returnStmt_nests (there : s.current.kind = .keyword .kReturn) :
    Nests source .inside (returnStmt rules) s := by
  refine .take there rfl (.look rfl ?_)
  exact .choice (some_nests (expressions_nests hr) _) (.give none) fun value s₁ =>
    completeStmtFrom_nests _ _ s₁

lemma deleteStmt_nests (there : s.current.kind = .keyword .kDel) :
    Nests source .operand (deleteStmt rules) s := by
  refine .take there rfl ((operands_nests hr _).bind fun e s₁ => ?_)
  refine (target_nests .del e s₁).bind fun e s₂ => ?_
  split
  · exact (discard_nests _ s₂).bind fun _ s₃ => (Nests.give _).bind fun targets s₄ =>
      completeStmtFrom_nests _ _ s₄
  · exact (Nests.give _).bind fun targets s₄ => completeStmtFrom_nests _ _ s₄

lemma raiseStmt_nests (there : s.current.kind = .keyword .kRaise) :
    Nests source .inside (raiseStmt rules) s := by
  refine .take there rfl (.look rfl ?_)
  split
  · refine (hr.expression _).bind fun exc s₁ => (eat_nests rfl s₁).bind fun word s₂ => ?_
    exact .choice (some_nests hr.expression s₂) (.give none) fun cause s₃ =>
      completeStmtFrom_nests _ _ s₃
  · exact completeStmtFrom_nests _ _ _

lemma assertStmt_nests (there : s.current.kind = .keyword .kAssert) :
    Nests source .inside (assertStmt rules) s := by
  refine .take there rfl ((hr.expression _).bind fun test s₁ => ?_)
  exact (after?_nests rfl hr.expression s₁).bind fun message s₂ => completeStmtFrom_nests _ _ s₂

lemma assignStmt_nests (start : ℕ) (first : Expr) (s : ParserState) :
    Nests source .inside (assignStmt rules start first) s := by
  refine (collect_nests (after?_nests rfl (value_nests hr)) s).bind fun others s₁ => ?_
  exact (targets_nests .store _ s₁).bind fun targets s₂ => completeStmtFrom_nests _ _ s₂

omit hr in
lemma augmentedOperator?_plain {k : TokenKind} {op : BinaryOp}
    (h : augmentedOperator? k = some op) : k.isBracket = false := by
  rw [augmentedOperator?_eq h]
  cases op <;> rfl

lemma exprStmt_nests (s : ParserState) : Nests source .inside (exprStmt rules) s := by
  refine .look rfl (.look rfl (.look rfl ?_))
  split
  · exact .note fun s₁ => Remembers.bind (skipLine_remembers s₁) fun _ _ => id
  refine (value_nests hr s).bind fun first s₁ => (eat_nests rfl s₁).bind fun colon s₂ => ?_
  split
  · refine (target_nests .store first s₂).bind fun first s₃ => ?_
    refine (hr.expression s₃).bind fun annotation s₄ => ?_
    exact (after?_nests rfl (value_nests hr) s₄).bind fun assigned s₅ =>
      completeStmtFrom_nests _ _ s₅
  refine .look rfl ?_
  split
  next is =>
    refine .take rfl (augmentedOperator?_plain is) ((target_nests .store first _).bind ?_)
    exact fun first s₃ => (value_nests hr s₃).bind fun assigned s₄ => completeStmtFrom_nests _ _ s₄
  · refine .look rfl ?_
    split
    · exact assignStmt_nests hr _ first s₂
    · exact completeStmtFrom_nests _ _ s₂

lemma smallStmt_nests (s : ParserState) : Nests source .top (smallStmt rules) s := by
  refine .look rfl ?_
  split
  next there => exact wordStmt_nests there rfl .pass
  next there => exact wordStmt_nests there rfl .breakLoop
  next there => exact wordStmt_nests there rfl .continueLoop
  next there => exact (returnStmt_nests hr there).anywhere .top
  next there => exact (deleteStmt_nests hr there).primary.top
  next there => exact declarationStmt_nests there rfl .global
  next there => exact declarationStmt_nests there rfl .nonlocal
  next there => exact importStmt_nests there
  next there => exact (importFromStmt_nests there).top
  next there => exact (raiseStmt_nests hr there).anywhere .top
  next there => exact (assertStmt_nests hr there).anywhere .top
  · exact (exprStmt_nests hr s).anywhere .top

lemma progressing_small_nests (s : ParserState) :
    Nests source .top (progressing (smallStmt rules)) s :=
  progressing_nests (f := fun d => [.stmt d]) (smallStmt_nests hr)
    (fun s => ⟨smallStmt_spells hr.spelling s, rfl⟩) s

lemma simpleStmts_nests (s : ParserState) : Nests source .top (simpleStmts rules) s := by
  have next (s : ParserState) : Nests source .top (do
      if ← eatSymbol .semicolon then
        if (← isAt .newline) || (← isAt .endOfFile) then return none
        else return some (← progressing (smallStmt rules))
      else return none : Parser (Option Stmt)) s := by
    refine (eat_nests rfl s).bind fun there s₁ => ?_
    split
    · refine .look rfl (.look rfl ?_)
      split
      · exact .give none
      · exact (progressing_small_nests hr s₁).bind fun d s₂ => .give (some d)
    · exact .give none
  refine (progressing_small_nests hr s).bind fun first s₁ => ?_
  refine (collect_nests next s₁).bind fun others s₂ => (eat_nests rfl s₂).bind fun ended s₃ => ?_
  split
  · refine .look rfl ?_
    split
    · refine .note fun s₄ => Remembers.bind (skipLine_remembers s₄) fun _ s₅ => ?_
      exact Remembers.bind (eat_remembers _ s₅) fun _ _ => id
    · exact .give _
  · exact .give _

/-! ## Compound statements -/

variable (hb : blocks.Nesting source)
include hb

omit hr in
lemma blockAfter_nests (word : Keyword) (s : ParserState) :
    Nests source .top (blockAfter blocks word) s :=
  .eat rfl (fun _ => hb.block _) fun _ => .give []

lemma ifStmt_nests (plain : s.current.kind.isBracket = false) :
    Nests source .top (ifStmt rules blocks) s := by
  refine .take rfl plain (((namedExpression_nests hr _).anywhere .top).bind fun test s₁ => ?_)
  refine (hb.block s₁).bind fun body s₂ => .look rfl ?_
  split
  next elif =>
    refine (hb.branch s₂ (eq_of_beq elif)).bind fun inner s₃ => ?_
    exact (Nests.give _).bind fun orelse s₄ => completeStmtFrom_nests _ _ s₄
  · exact (blockAfter_nests hb .kElse s₂).bind fun orelse s₃ => completeStmtFrom_nests _ _ s₃

lemma whileStmt_nests (there : s.current.kind = .keyword .kWhile) :
    Nests source .top (whileStmt rules blocks) s := by
  refine .take there rfl (((namedExpression_nests hr _).anywhere .top).bind fun test s₁ => ?_)
  refine (hb.block s₁).bind fun body s₂ => (blockAfter_nests hb .kElse s₂).bind fun orelse s₃ => ?_
  exact completeStmtFrom_nests _ _ s₃

lemma forStmt_nests (there : s.current.kind = .keyword .kFor) (async? : Option ℕ) :
    Nests source .top (forStmt rules blocks async?) s := by
  refine .take there rfl ((operands_nests hr _).primary.top.bind fun e s₁ => ?_)
  refine (target_nests .store e s₁).bind fun target s₂ => ?_
  refine (expectKeyword_nests .kIn s₂).bind fun _ s₃ => ?_
  refine ((expressions_nests hr s₃).anywhere .top).bind fun iter s₄ => ?_
  refine (hb.block s₄).bind fun body s₅ => (blockAfter_nests hb .kElse s₅).bind fun orelse s₆ => ?_
  exact completeStmtFrom_nests _ _ s₆

omit hb in
lemma handlerHead_nests (s : ParserState) : Nests source .inside (handlerHead rules) s := by
  refine .look rfl ?_
  split
  · exact .give _
  · exact (hr.expression s).bind fun type s₁ => (asName?_nests s₁).bind fun name s₂ => .give _

lemma handler?_nests (s : ParserState) : Nests source .top (handler? rules blocks) s := by
  refine .look rfl ?_
  split
  · exact .give none
  next there =>
    have word : s.current.kind = .keyword .kExcept := by
      have is : ((atKeyword .kExcept).run s).1 = true := by simpa using there
      exact eq_of_beq is
    refine .take word rfl ((eat_nests rfl _).bind fun star s₁ => ?_)
    refine ((handlerHead_nests hr s₁).anywhere .top).bind fun head s₂ => ?_
    exact (hb.block s₂).bind fun body s₃ => .look rfl (.give _)

lemma tryStmt_nests (there : s.current.kind = .keyword .kTry) :
    Nests source .top (tryStmt rules blocks) s := by
  refine .take there rfl ((hb.block _).bind fun body s₁ => ?_)
  refine (collect_nests (handler?_nests hr hb) s₁).bind fun handlers s₂ => ?_
  refine (blockAfter_nests hb .kElse s₂).bind fun orelse s₃ => ?_
  refine (blockAfter_nests hb .kFinally s₃).bind fun finalbody s₄ => ?_
  split
  · exact .note fun _ => id
  · exact completeStmtFrom_nests _ _ s₄

omit hb in
lemma withItem_nests (s : ParserState) : Nests source .operand (withItem rules) s := by
  refine ((hr.expression s).anywhere .operand).bind fun context s₁ => ?_
  refine (eat_nests rfl s₁).bind fun as s₂ => ?_
  have target (s : ParserState) :
      Nests source .operand (do target .store (← Parser.operand rules)) s :=
    (operand_nests hr s).bind fun e s₁ => target_nests .store e s₁
  exact .choice (some_nests target s₂) (.give none) fun _ s₃ => .give _

lemma withStmt_nests (plain : s.current.kind.isBracket = false) (async? : Option ℕ) :
    Nests source .top (withStmt rules blocks async?) s := by
  have item (s : ParserState) : Nests source .top (some <$> withItem rules) s :=
    (withItem_nests hr s).primary.top
  refine .take rfl plain ((separated_nests item rfl _).bind fun items s₁ => ?_)
  exact (hb.block s₁).bind fun body s₂ => completeStmtFrom_nests _ _ s₂

omit hb in
lemma parametersOrMissing_nests (s : ParserState) :
    Nests source .primary (parametersOrMissing rules) s := by
  refine .look rfl ?_
  split
  next there =>
    refine .takeOpen (eq_of_beq there) rfl ((params_nests hr .rightParen true _).closes ?_)
    exact fun ps s₁ => (expectSymbol_closes rfl rfl s₁).bind fun _ _ => .look rfl (.give _)
  · exact .note fun _ => id

lemma functionStmt_nests (decorators : List Expr) (start : ℕ) (isAsync : Bool)
    (s : ParserState) : Nests source .top (functionStmt rules blocks decorators start isAsync) s := by
  refine (expectKeyword_nests .kDef s).bind fun _ s₁ => (nameOrMissing_nests s₁).bind fun name s₂ => ?_
  refine (parametersOrMissing_nests hr s₂).top.bind fun params s₃ => ?_
  refine ((after?_nests rfl hr.expression s₃).anywhere .top).bind fun returns s₄ => ?_
  exact (hb.block s₄).bind fun body s₅ => completeStmtFrom_nests _ _ s₅

lemma classStmt_nests (there : s.current.kind = .keyword .kClass) (decorators : List Expr)
    (start : ℕ) : Nests source .top (classStmt rules blocks decorators start) s := by
  have whole (name : Ident) (bases : List (Arg Expr)) (s : ParserState) : Nests source .top (do
      let body ← blocks.block
      completeStmtFrom start fun mark => .classDef ⟨mark, name, decorators, bases, body⟩) s :=
    (hb.block s).bind fun body s₁ => completeStmtFrom_nests _ _ s₁
  refine .take there rfl ((nameOrMissing_nests _).bind fun name s₁ => ?_)
  refine eat_cases (.symbol .leftParen) s₁ (fun opens => ?_) fun _ => whole name [] s₁
  refine Ends.bind (args_nests hr (advance s₁)) fun bases s₂ inner => ?_
  have closes : Closes source (expectSymbol .rightParen) s₂ := expectSymbol_closes rfl rfl s₂
  refine Ends.bind closes fun _ s₃ closed => ?_
  have bracket := Bounds.bracket (by rw [opens]; rfl) (inner.close closed)
  exact bracket.top.append (whole name bases s₃)

omit hb in
lemma decorator?_nests (s : ParserState) : Nests source .top (decorator? rules) s := by
  refine (eat_nests rfl s).bind fun there s₁ => ?_
  split
  · exact .give none
  refine ((namedExpression_nests hr s₁).anywhere .top).bind fun e s₂ => ?_
  refine (eat_nests rfl s₂).bind fun ended s₃ => ?_
  split
  · refine .note fun s₄ => Remembers.bind (skipLine_remembers s₄) fun _ s₅ => ?_
    exact Remembers.bind (eat_remembers _ s₅) fun _ _ => id
  · exact .give _

lemma decorated_nests (s : ParserState) : Nests source .top (decorated rules blocks) s := by
  refine .look rfl ((collect_nests (decorator?_nests hr) s).bind fun decorators s₁ => ?_)
  refine .look rfl ?_
  split
  · exact functionStmt_nests hr hb decorators _ false s₁
  next there => exact classStmt_nests hr hb there decorators _
  refine .look rfl ?_
  split
  next isAsync =>
    have there : s₁.current.kind = .keyword .kAsync :=
      eq_of_beq (Bool.and_eq_true_iff.1 isAsync).1
    exact .take there rfl (functionStmt_nests hr hb decorators _ true _)
  · exact .note fun _ => id

omit hr hb in
lemma followsAsync_plain {k : TokenKind} (h : followsAsync k = true) :
    k.isBracket = false ∧ k ≠ .endOfFile := by
  unfold followsAsync at h
  split at h
  · exact ⟨rfl, nofun⟩
  · exact ⟨rfl, nofun⟩
  · exact ⟨rfl, nofun⟩
  · nomatch h

lemma asyncStmt_nests (there : s.current.kind = .keyword .kAsync)
    (follows : followsAsync ((s.later.head?.map (·.kind)).getD .endOfFile) = true) :
    Nests source .top (asyncStmt rules blocks) s := by
  obtain ⟨plain, some⟩ := followsAsync_plain follows
  have next : (advance s).current.kind = (s.later.head?.map (·.kind)).getD .endOfFile :=
    advance_kind (by rw [there]; nofun) some rfl
  refine .take there rfl (.look rfl ?_)
  split
  · exact functionStmt_nests hr hb [] _ true _
  next isFor => exact forStmt_nests hr hb isFor _
  · exact withStmt_nests hr hb (next ▸ plain) _

lemma statement_nests (s : ParserState) : Nests source .top (statement rules blocks) s := by
  have single {step : Parser Stmt} (h : Nests source .top step s) :
      Nests source .top (statement.single step) s := h.bind fun d s₁ => .give [d]
  have keyword {k : Keyword} (there : s.current.kind = .keyword k) :
      s.current.kind.isBracket = false := by
    rw [there]
    rfl
  refine .look rfl ?_
  split
  next there => exact single (ifStmt_nests hr hb (keyword there))
  next there => exact single (whileStmt_nests hr hb there)
  next there => exact single (forStmt_nests hr hb there none)
  next there => exact single (tryStmt_nests hr hb there)
  next there => exact single (withStmt_nests hr hb (keyword there) none)
  · exact .look rfl (single (functionStmt_nests hr hb [] _ false s))
  next there => exact .look rfl (single (classStmt_nests hr hb there [] _))
  · exact single (decorated_nests hr hb s)
  next there =>
    refine .look rfl ?_
    split
    next follows => exact single (asyncStmt_nests hr hb there follows)
    · exact simpleStmts_nests hr s
  · exact simpleStmts_nests hr s

/-! ## Blocks and modules -/

lemma progressing_statement_nests (s : ParserState) :
    Nests source .top (progressing (statement rules blocks)) s :=
  progressing_nests (statement_nests hr hb) (statement_spells hr.spelling hb.spelling) s

lemma blockStep?_nests (s : ParserState) : Nests source .top (blockStep? rules blocks) s := by
  refine .look rfl ?_
  split
  · exact .give none
  · exact .give none
  next there => exact .take there rfl (.give _)
  · exact .note fun s₁ => Remembers.bind (bump_remembers s₁) fun _ _ => id
  · exact (progressing_statement_nests hr hb s).bind fun ss s₁ => .give _

lemma moduleStep?_nests (s : ParserState) : Nests source .top (moduleStep? rules blocks) s := by
  refine .look rfl ?_
  split
  · exact .give none
  next there => exact .take there rfl (.give _)
  next there => exact .take there rfl (.give _)
  · exact .note fun s₁ => Remembers.bind (bump_remembers s₁) fun _ _ => id
  · exact (progressing_statement_nests hr hb s).bind fun ss s₁ => .give _

lemma block_nests (s : ParserState) : Nests source .top (block rules blocks) s := by
  refine .expect rfl (fun s₁ => ?_) fun s₁ => ?_
  · refine .eat rfl (fun _ => ?_) fun _ => simpleStmts_nests hr s₁
    refine .eat rfl (fun _ => ?_) fun _ => .note fun _ => id
    refine .look rfl ?_
    split
    · exact .note fun s₂ => Remembers.bind (skipBlock_remembers s₂) fun _ _ => id
    · have lines := collect_nests (blockStep?_nests hr hb)
      refine (nested_bounds .top (fun _ fits => fits) lines).bind fun bodies s₂ => ?_
      exact (eat_nests rfl s₂).bind fun _ _ => .give _
  · refine Remembers.bind (skipLine_remembers s₁) fun _ s₂ => ?_
    refine Remembers.bind (eat_remembers _ s₂) fun _ s₃ => ?_
    refine Remembers.bind (eat_remembers _ s₃) fun indented s₄ => ?_
    split
    · exact Remembers.bind (skipBlock_remembers s₄) fun _ _ => id
    · exact id

lemma moduleBody_nests (s : ParserState) : Nests source .top (moduleBody rules blocks) s :=
  (collect_nests (moduleStep?_nests hr hb) s).bind fun _ _ => .give _

end

lemma exhaustedStmt_nests (s : ParserState) : Nests source r exhaustedStmt s := .note fun _ => id

end Parser

/-! ## The circle of the blocks -/

lemma Blocks.none_nesting : Blocks.none.Nesting source where
  block s := (Parser.exhaustedStmt_nests s).bind fun _ _ => .give _
  branch s _ := Parser.exhaustedStmt_nests s
  spelling := none_spelling

lemma Blocks.Nesting.next (hr : rules.Nesting source) (hb : blocks.Nesting source) :
    (blocks.next rules).Nesting source where
  block := Parser.block_nests hr hb
  branch s there := Parser.ifStmt_nests hr hb (by rw [there]; rfl)
  spelling := hb.spelling.next hr.spelling

/-- However often the circle of the blocks is tied, they leave no bracket open. -/
theorem Blocks.upTo_nesting (hr : rules.Nesting source) (n : ℕ) :
    (Blocks.upTo rules n).Nesting source := by
  induction n with
  | zero => exact none_nesting
  | succ n ih =>
    rw [upTo_succ]
    exact ih.next hr

/-! ## A whole text -/

/-- The tokens of a text without problems leave no bracket open, and on the way there are never too
many that are guarded. -/
theorem parse_leads {text : String} (valid : (parse text).problems = []) :
    Brackets.Leads [] (lex text).tokens [] := by
  have rules : (Rules.upTo (2 * Text.width text.toList + 8)).Nesting text.toList :=
    Rules.upTo_nesting _
  have blocks := Blocks.upTo_nesting rules (Text.width text.toList + 8)
  have read := Parser.moduleBody_nests rules blocks (.start text)
  have clean := final_problems valid
  obtain ⟨ready, ts, taken, leads⟩ := read.leads clean (start_ready text)
  have atEnd : (ParserState.final text).current.kind = .endOfFile :=
    Parser.moduleBody_stops rules.spelling blocks.spelling (.start text) ⟨clean, start_ready text⟩
  have tokens : (lex text).tokens = ts ++ [(ParserState.final text).current] := by
    have none := Parser.later_of_endOfFile ready.ended atEnd
    rw [← start_tokens, taken.tokens]
    exact congrArg (ts ++ _ :: ·) none
  have nested := leads [] rfl
  have closed : Brackets.past [] ts = [] := Brackets.below_nil.1 nested.below
  have same : Brackets.behind [] (ParserState.final text).current.kind = [] := by
    rw [atEnd]
    rfl
  have ending : Brackets.Leads (Brackets.past [] ts) [(ParserState.final text).current] [] := by
    have none : (Brackets.behind [] (ParserState.final text).current.kind).guarded
        ≤ maxNesting := by
      rw [same]
      exact Nat.zero_le _
    have step := Brackets.Leads.token (b := []) (Nat.zero_le maxNesting) none
    rw [same] at step
    rw [closed]
    exact step
  rw [tokens]
  exact nested.append ending

end MethodLift.Syntax
