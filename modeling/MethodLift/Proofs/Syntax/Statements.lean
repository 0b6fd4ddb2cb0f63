import MethodLift.Proofs.Syntax.Expressions
import MethodLift.Syntax.Grammar.Statement

/-!
# Statements stand in their text

The grammar of statements goes back to itself at blocks only, so the statements of a block and the
`if` that an `elif` is are what has to be known of smaller programs (`Blocks.Sound`).  The circle is
tied as that of the expressions is (`Blocks.upTo_sound`).

Where decorators have nothing to decorate, and where the targets of a `del` are taken out of a tuple,
expressions are set aside that the tree does not use.  They stand in the text like the others.
-/

namespace MethodLift.Syntax

open Text (Boundary)

variable {source : List Char} {rules : Rules} {blocks : Blocks}

/-- What statements go back to gives statements that stand in the text. -/
structure Blocks.Sound (source : List Char) (blocks : Blocks) : Prop where
  block : Gives source blocks.block fun body => ∀ s ∈ body, s.Placed source
  branch : Gives source blocks.branch (Stmt.Placed source)

namespace Parser

variable {s : ParserState}

/-- A node that is built from expressions and statements only. -/
lemma buildsStmt_of_exprs {build : Mark → Stmt} (exprs : List Expr) (children : List Stmt)
    (shape : ∀ m, (build m).mark = m ∧ (build m).exprs = exprs ∧ (build m).children = children
      ∧ (build m).partSpans = [] ∧ (build m).idents = [])
    (he : ∀ e ∈ exprs, e.Placed source) (hc : ∀ c ∈ children, c.Placed source) :
    BuildsStmt source build := by
  intro m
  obtain ⟨mark, own, inside, parts, idents⟩ := shape m
  exact ⟨mark, .of_exprs parts idents (own ▸ he), inside ▸ hc⟩

/-! ## Simple statements -/

lemma wordStmt_gives {build : Mark → Stmt} (builds : BuildsStmt source build) :
    Gives source (wordStmt build) (Stmt.Placed source) := by
  intro s hs
  refine (bump_gives s hs).bind ?_
  intro t s₁ moved placed
  exact completeStmt_reads moved.sound placed.span builds

lemma returnStmt_gives (hr : rules.Sound source) :
    Gives source (returnStmt rules) (Stmt.Placed source) := by
  intro s hs
  refine (bump_gives s hs).bind ?_
  intro t s₁ moved placed
  refine .look rfl (.choice moved.sound (expressions_reads hr).gives.some .none ?_)
  intro value s₂ moved₂ read
  refine completeStmtFrom_reads moved₂.sound placed.span.start ?_
  exact buildsStmt_of_exprs value.toList [] (fun _ => ⟨rfl, rfl, rfl, rfl, rfl⟩)
    (forall_mem_toList read) nofun

lemma deleteStmt_gives (hr : rules.Sound source) :
    Gives source (deleteStmt rules) (Stmt.Placed source) := by
  intro s hs
  refine (bump_gives s hs).bind ?_
  intro t s₁ moved placed
  refine ((operands_reads hr).gives s₁ moved.sound).bind ?_
  intro e s₂ moved₂ read
  refine (target_gives read s₂ moved₂.sound).bind ?_
  intro e s₃ moved₃ target
  have rest : ∀ (targets : List Expr) s₄, Moves source s₃ s₄ → (∀ e ∈ targets, e.Placed source) →
      Reads source (completeStmtFrom t.span.start (.delete · targets)) s₄
        fun stmt _ => stmt.Placed source := by
    intro targets s₄ moved₄ all
    refine completeStmtFrom_reads moved₄.sound placed.span.start ?_
    exact buildsStmt_of_exprs targets [] (fun _ => ⟨rfl, rfl, rfl, rfl, rfl⟩) all nofun
  dsimp only
  split
  · refine (discard_gives (List.forall_mem_singleton.2 target) s₃ moved₃.sound).bind ?_
    intro _ s₄ moved₄ _
    exact rest _ s₄ moved₄ fun e he => target.child he
  · exact rest _ s₃ moved₃.sound.moves (List.forall_mem_singleton.2 target)

lemma listedName?_gives (cause : Problem.Cause) :
    Gives source (listedName? cause) fun o => ∀ i ∈ o, i.Placed source := by
  intro s hs
  refine (name?_gives s hs).bind ?_
  intro name s₁ moved placed
  split
  · exact .pure_some moved.sound (placed _ rfl)
  · exact (note_gives _ s₁ moved.sound).bind fun _ s₂ moved₂ _ => .pure moved₂.sound nofun

lemma declarationStmt_gives {build : Mark → List Ident → Stmt}
    (builds : ∀ names : List Ident, (∀ i ∈ names, i.Placed source) →
      BuildsStmt source (build · names)) :
    Gives source (declarationStmt build) (Stmt.Placed source) := by
  intro s hs
  refine (bump_gives s hs).bind ?_
  intro t s₁ moved placed
  refine (separated_gives (listedName?_gives _) s₁ moved.sound).bind ?_
  intro names s₂ moved₂ written
  exact completeStmtFrom_reads moved₂.sound placed.span.start (builds names written)

lemma dottedName?_gives : Gives source dottedName? fun o => ∀ x ∈ o, Boundary source x.2 := by
  intro s hs
  refine (name?_gives s hs).bind ?_
  intro name s₁ moved placed
  split
  · exact .pure moved.sound nofun
  next first =>
  have part : Gives source (do
      if (← atSymbol .dot) && (← nextKind) == .name then
        let _ ← bump
        return some ("." ++ (← bump).text)
      else return none : Parser (Option String)) fun o => ∀ x ∈ o, True := by
    intro s hs
    refine .look rfl (.look rfl ?_)
    split
    · refine (bump_gives s hs).bind ?_
      intro _ s₁ moved _
      exact (bump_gives s₁ moved.sound).bind fun _ _ moved₂ _ => .pure_some moved₂.sound trivial
    · exact .pure hs nofun
  refine (collect_gives part s₁ moved.sound).bind ?_
  intro parts s₂ moved₂ _
  exact .pure_some moved₂.sound (placed first rfl).span.start

lemma asName?_gives : Gives source asName? fun o => ∀ i ∈ o, i.Placed source := by
  intro s hs
  refine (eat_gives _ s hs).bind ?_
  intro there s₁ moved _
  split
  · exact listedName?_gives _ s₁ moved.sound
  · exact .pure moved.sound nofun

lemma plainName?_gives : Gives source plainName? fun o => ∀ x ∈ o, Boundary source x.2 := by
  intro s hs
  refine (name?_gives s hs).bind ?_
  intro name s₁ moved placed
  refine .pure moved.sound ?_
  intro x hx
  obtain ⟨i, hi, rfl⟩ := Option.map_eq_some_iff.1 hx
  exact (placed i hi).span.start

lemma alias?_gives (dotted : Bool) :
    Gives source (alias? dotted) fun o => ∀ a ∈ o, a.Placed source := by
  intro s hs
  refine .choice hs dottedName?_gives plainName?_gives ?_
  intro found s₁ moved start
  cases found with
  | none => exact .pure moved.sound nofun
  | some found =>
    refine (asName?_gives s₁ moved.sound).bind ?_
    intro asname s₂ moved₂ placed
    exact .look rfl (.pure_some moved₂.sound ⟨spanFrom_placed moved₂.sound (start _ rfl), placed⟩)

lemma moduleAlias?_gives : Gives source moduleAlias? fun o => ∀ a ∈ o, a.Placed source := by
  intro s hs
  refine (alias?_gives true s hs).bind ?_
  intro found s₁ moved placed
  split
  · exact .pure_some moved.sound (placed _ rfl)
  · exact (note_gives _ s₁ moved.sound).bind fun _ s₂ moved₂ _ => .pure moved₂.sound nofun

/-- Imported names, as a statement holds them. -/
lemma aliases_placed {names : List Alias} (h : ∀ a ∈ names, a.Placed source) :
    (∀ p ∈ names.map (·.span), Text.Placed source p)
      ∧ ∀ i ∈ names.filterMap (·.asname), i.Placed source := by
  constructor
  · intro p hp
    obtain ⟨a, ha, rfl⟩ := List.mem_map.1 hp
    exact (h a ha).span
  · intro i hi
    obtain ⟨a, ha, name⟩ := List.mem_filterMap.1 hi
    exact (h a ha).ident i name

lemma importStmt_gives : Gives source importStmt (Stmt.Placed source) := by
  intro s hs
  refine (bump_gives s hs).bind ?_
  intro t s₁ moved placed
  refine (separated_gives moduleAlias?_gives s₁ moved.sound).bind ?_
  intro names s₂ moved₂ imported
  refine completeStmtFrom_reads moved₂.sound placed.span.start fun m => ⟨rfl, ?_, ?_⟩
  · exact ⟨(aliases_placed imported).1, (aliases_placed imported).2, nofun⟩
  · nofun

lemma importedNames_gives : Gives source importedNames fun as => ∀ a ∈ as, a.Placed source := by
  intro s hs
  refine (eat_gives _ s hs).bind ?_
  intro inParens s₁ moved _
  refine (separated_gives (alias?_gives false) s₁ moved.sound).bind ?_
  intro names s₂ moved₂ placed
  refine .optional moved₂.sound (note_gives _) ?_
  intro s₃ moved₃
  refine .optional moved₃.sound (expectSymbol_gives _) ?_
  intro s₄ moved₄
  exact .pure moved₄.sound placed

lemma levelStep?_gives : Gives source levelStep? fun o => ∀ n ∈ o, True := by
  intro s hs
  refine (eat_gives _ s hs).bind ?_
  intro there s₁ moved _
  split
  · exact .pure_some moved.sound trivial
  refine (eat_gives _ s₁ moved.sound).bind ?_
  intro there s₂ moved₂ _
  split
  · exact .pure_some moved₂.sound trivial
  · exact .pure moved₂.sound nofun

lemma importFromStmt_gives : Gives source importFromStmt (Stmt.Placed source) := by
  intro s hs
  refine (bump_gives s hs).bind ?_
  intro t s₁ moved placed
  refine (collect_gives levelStep?_gives s₁ moved.sound).bind ?_
  intro levels s₂ moved₂ _
  refine (dottedName?_gives s₂ moved₂.sound).bind ?_
  intro module s₃ moved₃ _
  refine .optional moved₃.sound (note_gives _) ?_
  intro s₄ moved₄
  refine (expectKeyword_gives _ s₄ moved₄.sound).bind ?_
  intro _ s₅ moved₅ _
  refine (eat_gives _ s₅ moved₅.sound).bind ?_
  intro isStar s₆ moved₆ _
  refine .choice moved₆.sound (fun _ hs => .pure hs (by nofun)) importedNames_gives ?_
  intro names s₇ moved₇ imported
  refine completeStmtFrom_reads moved₇.sound placed.span.start fun m => ⟨rfl, ?_, ?_⟩
  · exact ⟨(aliases_placed imported).1, (aliases_placed imported).2, nofun⟩
  · nofun

lemma raiseStmt_gives (hr : rules.Sound source) :
    Gives source (raiseStmt rules) (Stmt.Placed source) := by
  intro s hs
  refine (bump_gives s hs).bind ?_
  intro t s₁ moved placed
  refine .look rfl ?_
  split
  · refine (hr.expression.gives s₁ moved.sound).bind ?_
    intro exc s₂ moved₂ raised
    refine (eat_gives _ s₂ moved₂.sound).bind ?_
    intro there s₃ moved₃ _
    refine .choice moved₃.sound hr.expression.gives.some .none ?_
    intro cause s₄ moved₄ from_
    refine completeStmtFrom_reads moved₄.sound placed.span.start ?_
    exact buildsStmt_of_exprs (exc :: cause.toList) [] (fun _ => ⟨rfl, rfl, rfl, rfl, rfl⟩)
      (List.forall_mem_cons.2 ⟨raised, forall_mem_toList from_⟩) nofun
  · refine completeStmtFrom_reads moved.sound placed.span.start ?_
    exact buildsStmt_of_exprs [] [] (fun _ => ⟨rfl, rfl, rfl, rfl, rfl⟩) nofun nofun

lemma assertStmt_gives (hr : rules.Sound source) :
    Gives source (assertStmt rules) (Stmt.Placed source) := by
  intro s hs
  refine (bump_gives s hs).bind ?_
  intro t s₁ moved placed
  refine (hr.expression.gives s₁ moved.sound).bind ?_
  intro test s₂ moved₂ tested
  refine (after?_gives hr.expression.gives s₂ moved₂.sound).bind ?_
  intro message s₃ moved₃ said
  refine completeStmtFrom_reads moved₃.sound placed.span.start ?_
  exact buildsStmt_of_exprs (test :: message.toList) [] (fun _ => ⟨rfl, rfl, rfl, rfl, rfl⟩)
    (List.forall_mem_cons.2 ⟨tested, forall_mem_toList said⟩) nofun

lemma assignStmt_gives (hr : rules.Sound source) {start : ℕ} (boundary : Boundary source start)
    {first : Expr} (placed : first.Placed source) :
    Gives source (assignStmt rules start first) (Stmt.Placed source) := by
  intro s hs
  refine (collect_gives (after?_gives (value_reads hr).gives) s hs).bind ?_
  intro others s₁ moved read
  have chain : ∀ e ∈ first :: others, e.Placed source := List.forall_mem_cons.2 ⟨placed, read⟩
  have assigned : (others.getLastD first).Placed source := chain _ List.getLastD_mem_cons
  have targets : ∀ e ∈ (first :: others).dropLast, Gives source (target .store e)
      (Expr.Placed source) := fun e he => target_gives (chain e ((List.dropLast_sublist _).mem he))
  refine (mapM_gives targets s₁ moved.sound).bind ?_
  intro targets s₂ moved₂ all
  refine completeStmtFrom_reads moved₂.sound boundary ?_
  exact buildsStmt_of_exprs (targets ++ [others.getLastD first]) []
    (fun _ => ⟨rfl, rfl, rfl, rfl, rfl⟩)
    (List.forall_mem_append.2 ⟨all, List.forall_mem_singleton.2 assigned⟩) nofun

lemma exprStmt_gives (hr : rules.Sound source) :
    Gives source (exprStmt rules) (Stmt.Placed source) := by
  intro s hs
  have start := hs.current.span.start
  refine .look rfl (.look rfl (.look rfl ?_))
  split
  · refine (note_gives _ s hs).bind ?_
    intro _ s₁ moved _
    refine (skipLine_gives s₁ moved.sound).bind ?_
    intro _ s₂ moved₂ _
    refine completeStmtFrom_reads moved₂.sound start ?_
    exact buildsStmt_of_exprs [] [] (fun _ => ⟨rfl, rfl, rfl, rfl, rfl⟩) nofun nofun
  refine ((value_reads hr).gives s hs).bind ?_
  intro first s₁ moved read
  refine (eat_gives _ s₁ moved.sound).bind ?_
  intro there s₂ moved₂ _
  split
  · refine (target_gives read s₂ moved₂.sound).bind ?_
    intro target s₃ moved₃ stored
    refine (hr.expression.gives s₃ moved₃.sound).bind ?_
    intro annotation s₄ moved₄ annotated
    refine (after?_gives (value_reads hr).gives s₄ moved₄.sound).bind ?_
    intro assigned s₅ moved₅ given
    refine completeStmtFrom_reads moved₅.sound start ?_
    refine buildsStmt_of_exprs (target :: annotation :: assigned.toList) []
      (fun _ => ⟨rfl, rfl, rfl, rfl, rfl⟩) ?_ nofun
    exact List.forall_mem_cons.2 ⟨stored, List.forall_mem_cons.2
      ⟨annotated, forall_mem_toList given⟩⟩
  refine .look rfl ?_
  split
  next op _ =>
    refine (bump_gives s₂ moved₂.sound).bind ?_
    intro _ s₃ moved₃ _
    refine (target_gives read s₃ moved₃.sound).bind ?_
    intro target s₄ moved₄ stored
    refine ((value_reads hr).gives s₄ moved₄.sound).bind ?_
    intro assigned s₅ moved₅ given
    refine completeStmtFrom_reads moved₅.sound start ?_
    exact buildsStmt_of_exprs [target, assigned] [] (fun _ => ⟨rfl, rfl, rfl, rfl, rfl⟩)
      (forall_mem_pair stored given) nofun
  · refine .look rfl ?_
    split
    · exact assignStmt_gives hr start read s₂ moved₂.sound
    · refine completeStmtFrom_reads moved₂.sound start ?_
      exact buildsStmt_of_exprs [first] [] (fun _ => ⟨rfl, rfl, rfl, rfl, rfl⟩)
        (List.forall_mem_singleton.2 read) nofun

lemma smallStmt_gives (hr : rules.Sound source) :
    Gives source (smallStmt rules) (Stmt.Placed source) := by
  intro s hs
  have word {build : Mark → Stmt} (shape : ∀ m, (build m).mark = m ∧ (build m).exprs = []
      ∧ (build m).children = [] ∧ (build m).partSpans = [] ∧ (build m).idents = []) :
      Gives source (wordStmt build) (Stmt.Placed source) :=
    wordStmt_gives (buildsStmt_of_exprs [] [] shape nofun nofun)
  refine .look rfl ?_
  split
  · exact word (fun _ => ⟨rfl, rfl, rfl, rfl, rfl⟩) s hs
  · exact word (fun _ => ⟨rfl, rfl, rfl, rfl, rfl⟩) s hs
  · exact word (fun _ => ⟨rfl, rfl, rfl, rfl, rfl⟩) s hs
  · exact returnStmt_gives hr s hs
  · exact deleteStmt_gives hr s hs
  · refine declarationStmt_gives ?_ s hs
    exact fun names placed _ => ⟨rfl, ⟨nofun, placed, nofun⟩, nofun⟩
  · refine declarationStmt_gives ?_ s hs
    exact fun names placed _ => ⟨rfl, ⟨nofun, placed, nofun⟩, nofun⟩
  · exact importStmt_gives s hs
  · exact importFromStmt_gives s hs
  · exact raiseStmt_gives hr s hs
  · exact assertStmt_gives hr s hs
  · exact exprStmt_gives hr s hs

lemma progressing_gives {α : Type} {step : Parser α} {P : α → Prop} (h : Gives source step P) :
    Gives source (progressing step) P := by
  intro s hs
  refine .look rfl ((h s hs).bind ?_)
  intro a s₁ moved found
  refine .look rfl (.optional moved.sound bump_gives ?_)
  exact fun s₂ moved₂ => .pure moved₂.sound found

lemma simpleStmts_gives (hr : rules.Sound source) :
    Gives source (simpleStmts rules) fun body => ∀ s ∈ body, s.Placed source := by
  intro s hs
  have small := progressing_gives (smallStmt_gives hr)
  refine (small s hs).bind ?_
  intro first s₁ moved placed
  have step : Gives source (do
      if ← eatSymbol .semicolon then
        if (← isAt .newline) || (← isAt .endOfFile) then return none
        else return some (← progressing (smallStmt rules))
      else return none : Parser (Option Stmt)) fun o => ∀ s ∈ o, s.Placed source := by
    intro s hs
    refine (eat_gives _ s hs).bind ?_
    intro there s₁ moved _
    split
    · refine .look rfl (.look rfl ?_)
      split
      · exact .pure moved.sound nofun
      · refine (small s₁ moved.sound).bind ?_
        intro stmt s₂ moved₂ placed
        exact .pure_some moved₂.sound placed
    · exact .pure moved.sound nofun
  refine (collect_gives step s₁ moved.sound).bind ?_
  intro others s₂ moved₂ later
  have done : ∀ s', s'.Sound source → Reads source (pure (first :: others)) s'
      fun body _ => ∀ s ∈ body, s.Placed source :=
    fun s' sound => .pure sound (List.forall_mem_cons.2 ⟨placed, later⟩)
  refine (eat_gives _ s₂ moved₂.sound).bind ?_
  intro ended s₃ moved₃ _
  dsimp only
  split
  · refine .look rfl ?_
    split
    · refine (note_gives _ s₃ moved₃.sound).bind ?_
      intro _ s₄ moved₄ _
      refine (skipLine_gives s₄ moved₄.sound).bind ?_
      intro _ s₅ moved₅ _
      refine (eat_gives _ s₅ moved₅.sound).bind ?_
      intro _ s₆ moved₆ _
      exact done s₆ moved₆.sound
    · exact done s₃ moved₃.sound
  · exact done s₃ moved₃.sound

/-! ## Compound statements -/

lemma skipBlocksAtMost_gives (n level : ℕ) :
    Gives source (skipBlocksAtMost n level) fun _ => True := by
  induction n generalizing level with
  | zero => exact fun s hs => .pure hs trivial
  | succ n ih =>
    intro s hs
    cases level with
    | zero => exact .pure hs trivial
    | succ level =>
      refine .look rfl ?_
      split
      · exact .pure hs trivial
      refine (bump_gives s hs).bind ?_
      intro t s₁ moved _
      split
      · exact ih _ s₁ moved.sound
      · exact ih _ s₁ moved.sound
      · exact ih _ s₁ moved.sound

lemma skipBlock_gives : Gives source skipBlock fun _ => True :=
  fun s hs => .look rfl (skipBlocksAtMost_gives _ _ s hs)

section

variable (hr : rules.Sound source) (hb : blocks.Sound source)
include hb

lemma blockAfter_gives (word : Keyword) :
    Gives source (blockAfter blocks word) fun body => ∀ s ∈ body, s.Placed source := by
  intro s hs
  refine (eat_gives _ s hs).bind ?_
  intro there s₁ moved _
  split
  · exact hb.block s₁ moved.sound
  · exact .pure moved.sound nofun

include hr

lemma ifStmt_gives : Gives source (ifStmt rules blocks) (Stmt.Placed source) := by
  intro s hs
  refine (bump_gives s hs).bind ?_
  intro word s₁ moved placed
  refine ((namedExpression_reads hr).gives s₁ moved.sound).bind ?_
  intro test s₂ moved₂ tested
  refine (hb.block s₂ moved₂.sound).bind ?_
  intro body s₃ moved₃ inner
  have branch : Gives source (do let inner ← blocks.branch; pure [inner])
      fun body => ∀ s ∈ body, s.Placed source := by
    intro s hs
    refine (hb.branch s hs).bind ?_
    intro stmt s₁ moved placed
    exact .pure moved.sound (List.forall_mem_singleton.2 placed)
  have rest : ∀ (orelse : List Stmt) s₄, Moves source s₃ s₄ → (∀ s ∈ orelse, s.Placed source) →
      Reads source (completeStmtFrom word.span.start
        (.ifElse · (word.kind == .keyword .kElif) test body orelse)) s₄
        fun stmt _ => stmt.Placed source := by
    intro orelse s₄ moved₄ other
    refine completeStmtFrom_reads moved₄.sound placed.span.start ?_
    exact buildsStmt_of_exprs [test] (body ++ orelse) (fun _ => ⟨rfl, rfl, rfl, rfl, rfl⟩)
      (List.forall_mem_singleton.2 tested) (List.forall_mem_append.2 ⟨inner, other⟩)
  refine .look rfl ?_
  dsimp only
  split
  · exact (branch s₃ moved₃.sound).bind rest
  · exact (blockAfter_gives hb _ s₃ moved₃.sound).bind rest

lemma whileStmt_gives : Gives source (whileStmt rules blocks) (Stmt.Placed source) := by
  intro s hs
  refine (bump_gives s hs).bind ?_
  intro word s₁ moved placed
  refine ((namedExpression_reads hr).gives s₁ moved.sound).bind ?_
  intro test s₂ moved₂ tested
  refine (hb.block s₂ moved₂.sound).bind ?_
  intro body s₃ moved₃ inner
  refine (blockAfter_gives hb _ s₃ moved₃.sound).bind ?_
  intro orelse s₄ moved₄ other
  refine completeStmtFrom_reads moved₄.sound placed.span.start ?_
  exact buildsStmt_of_exprs [test] (body ++ orelse) (fun _ => ⟨rfl, rfl, rfl, rfl, rfl⟩)
    (List.forall_mem_singleton.2 tested) (List.forall_mem_append.2 ⟨inner, other⟩)

omit hr hb in
/-- A statement starts with its own word or with an `async` before it. -/
lemma boundary_getD {async? : Option ℕ} {own : ℕ} (boundary : ∀ n ∈ async?, Boundary source n)
    (h : Boundary source own) : Boundary source (async?.getD own) := by
  cases async? with
  | none => exact h
  | some n => exact boundary n rfl

lemma forStmt_gives {async? : Option ℕ} (boundary : ∀ n ∈ async?, Boundary source n) :
    Gives source (forStmt rules blocks async?) (Stmt.Placed source) := by
  intro s hs
  refine (bump_gives s hs).bind ?_
  intro word s₁ moved placed
  have start := boundary_getD boundary placed.span.start
  refine ((operands_reads hr).gives s₁ moved.sound).bind ?_
  intro e s₂ moved₂ read
  refine (target_gives read s₂ moved₂.sound).bind ?_
  intro target s₃ moved₃ stored
  refine (expectKeyword_gives _ s₃ moved₃.sound).bind ?_
  intro _ s₄ moved₄ _
  refine ((expressions_reads hr).gives s₄ moved₄.sound).bind ?_
  intro iter s₅ moved₅ iterated
  refine (hb.block s₅ moved₅.sound).bind ?_
  intro body s₆ moved₆ inner
  refine (blockAfter_gives hb _ s₆ moved₆.sound).bind ?_
  intro orelse s₇ moved₇ other
  refine completeStmtFrom_reads moved₇.sound start ?_
  exact buildsStmt_of_exprs [target, iter] (body ++ orelse) (fun _ => ⟨rfl, rfl, rfl, rfl, rfl⟩)
    (forall_mem_pair stored iterated) (List.forall_mem_append.2 ⟨inner, other⟩)

omit hb in
lemma handlerHead_gives : Gives source (handlerHead rules) fun head =>
    (∀ e ∈ head.1, e.Placed source) ∧ ∀ i ∈ head.2, i.Placed source := by
  intro s hs
  refine .look rfl ?_
  split
  · exact .pure hs ⟨nofun, nofun⟩
  refine (hr.expression.gives s hs).bind ?_
  intro type s₁ moved read
  refine (asName?_gives s₁ moved.sound).bind ?_
  intro name s₂ moved₂ placed
  refine .pure moved₂.sound ⟨?_, placed⟩
  rintro _ ⟨⟩
  exact read

/-- A clause and the statements in it. -/
lemma handler?_gives : Gives source (handler? rules blocks) fun o =>
    ∀ h ∈ o, h.Placed source ∧ ∀ s ∈ h.body, s.Placed source := by
  intro s hs
  refine .look rfl ?_
  split
  · exact .pure hs nofun
  refine (bump_gives s hs).bind ?_
  intro word s₁ moved placed
  refine (eat_gives _ s₁ moved.sound).bind ?_
  intro _ s₂ moved₂ _
  refine (handlerHead_gives hr s₂ moved₂.sound).bind ?_
  rintro ⟨type, name⟩ s₃ moved₃ ⟨typed, named⟩
  refine (hb.block s₃ moved₃.sound).bind ?_
  intro body s₄ moved₄ inner
  refine .look rfl (.pure_some moved₄.sound ⟨⟨?_, named, typed⟩, inner⟩)
  exact spanFrom_placed moved₄.sound placed.span.start

lemma tryStmt_gives : Gives source (tryStmt rules blocks) (Stmt.Placed source) := by
  intro s hs
  refine (bump_gives s hs).bind ?_
  intro word s₁ moved placed
  refine (hb.block s₁ moved.sound).bind ?_
  intro body s₂ moved₂ inner
  refine (collect_gives (handler?_gives hr hb) s₂ moved₂.sound).bind ?_
  intro handlers s₃ moved₃ caught
  refine (blockAfter_gives hb _ s₃ moved₃.sound).bind ?_
  intro orelse s₄ moved₄ other
  refine (blockAfter_gives hb _ s₄ moved₄.sound).bind ?_
  intro finalbody s₅ moved₅ last
  refine .optional moved₅.sound (note_gives _) ?_
  intro s₆ moved₆
  refine completeStmtFrom_reads moved₆.sound placed.span.start fun m => ⟨rfl, ⟨?_, ?_, ?_⟩, ?_⟩
  · intro p hp
    obtain ⟨h, hh, rfl⟩ := List.mem_map.1 hp
    exact (caught h hh).1.span
  · intro i hi
    obtain ⟨h, hh, name⟩ := List.mem_filterMap.1 hi
    exact (caught h hh).1.ident i name
  · intro e he
    obtain ⟨h, hh, type⟩ := List.mem_flatMap.1 he
    exact forall_mem_toList (caught h hh).1.type e type
  · refine List.forall_mem_append.2 ⟨List.forall_mem_append.2
      ⟨List.forall_mem_append.2 ⟨inner, ?_⟩, other⟩, last⟩
    intro c hc
    obtain ⟨h, hh, hc⟩ := List.mem_flatMap.1 hc
    exact (caught h hh).2 c hc

omit hb in
lemma withItem_gives : Gives source (withItem rules) fun item =>
    ∀ e ∈ item.context :: item.target.toList, e.Placed source := by
  intro s hs
  refine (hr.expression.gives s hs).bind ?_
  intro context s₁ moved read
  refine (eat_gives _ s₁ moved.sound).bind ?_
  intro there s₂ moved₂ _
  have bound : Gives source (do target .store (← operand rules)) (Expr.Placed source) := by
    intro s hs
    refine ((operand_reads hr).gives s hs).bind ?_
    intro e s₁ moved read
    exact target_gives read s₁ moved.sound
  refine .choice moved₂.sound bound.some .none ?_
  intro target s₃ moved₃ stored
  exact .pure moved₃.sound (List.forall_mem_cons.2
    ⟨read, forall_mem_toList stored⟩)

lemma withStmt_gives {async? : Option ℕ} (boundary : ∀ n ∈ async?, Boundary source n) :
    Gives source (withStmt rules blocks async?) (Stmt.Placed source) := by
  intro s hs
  refine (bump_gives s hs).bind ?_
  intro word s₁ moved placed
  have start := boundary_getD boundary placed.span.start
  refine (separated_gives (withItem_gives hr).some s₁ moved.sound).bind ?_
  intro items s₂ moved₂ given
  refine (hb.block s₂ moved₂.sound).bind ?_
  intro body s₃ moved₃ inner
  refine completeStmtFrom_reads moved₃.sound start ?_
  refine buildsStmt_of_exprs (items.flatMap fun item => item.context :: item.target.toList) body
    (fun _ => ⟨rfl, rfl, rfl, rfl, rfl⟩) ?_ inner
  intro e he
  obtain ⟨item, hi, he⟩ := List.mem_flatMap.1 he
  exact given item hi e he

omit hb in
lemma parameters_gives (at_ : s.Sound source) :
    Reads source (parameters rules) s fun ps _ => ps.Placed source := by
  refine (bump_gives s at_).bind ?_
  intro opening s₁ moved placed
  refine (params_gives hr .rightParen true s₁ moved.sound).bind ?_
  intro ps s₂ moved₂ each
  refine (expectSymbol_gives _ s₂ moved₂.sound).bind ?_
  intro _ s₃ moved₃ _
  refine .look rfl (.pure moved₃.sound ⟨⟨placed.span.start, ?_, ?_⟩, each⟩)
  · exact moved₃.sound.lastEnd.max placed.span.stop
  · exact Nat.le_trans placed.span.forward (Nat.le_max_right _ _)

omit hb in
lemma parametersOrMissing_gives :
    Gives source (parametersOrMissing rules) (Parameters.Placed source) := by
  intro s hs
  refine .look rfl ?_
  split
  · exact parameters_gives hr hs
  refine (note_gives _ s hs).bind ?_
  intro _ s₁ moved _
  exact .look rfl (.pure moved.sound ⟨.point moved.sound.current.span.start, nofun⟩)

lemma functionStmt_gives {decorators : List Expr} {start : ℕ} (isAsync : Bool)
    (decorating : ∀ e ∈ decorators, e.Placed source) (boundary : Boundary source start) :
    Gives source (functionStmt rules blocks decorators start isAsync) (Stmt.Placed source) := by
  intro s hs
  refine (expectKeyword_gives _ s hs).bind ?_
  intro _ s₁ moved _
  refine (nameOrMissing_gives s₁ moved.sound).bind ?_
  intro name s₂ moved₂ named
  refine (parametersOrMissing_gives hr s₂ moved₂.sound).bind ?_
  intro params s₃ moved₃ placed
  refine (after?_gives hr.expression.gives s₃ moved₃.sound).bind ?_
  intro returns s₄ moved₄ returned
  refine (hb.block s₄ moved₄.sound).bind ?_
  intro body s₅ moved₅ inner
  refine completeStmtFrom_reads moved₅.sound boundary fun m => ⟨rfl, ⟨?_, ?_, ?_⟩, inner⟩
  · exact placed.spans
  · exact List.forall_mem_cons.2 ⟨named, placed.names⟩
  · exact List.forall_mem_append.2 ⟨List.forall_mem_append.2 ⟨decorating, placed.exprs⟩,
      forall_mem_toList returned⟩

lemma classStmt_gives {decorators : List Expr} {start : ℕ}
    (decorating : ∀ e ∈ decorators, e.Placed source) (boundary : Boundary source start) :
    Gives source (classStmt rules blocks decorators start) (Stmt.Placed source) := by
  intro s hs
  refine (bump_gives s hs).bind ?_
  intro _ s₁ moved _
  refine (nameOrMissing_gives s₁ moved.sound).bind ?_
  intro name s₂ moved₂ named
  refine (eat_gives _ s₂ moved₂.sound).bind ?_
  intro there s₃ moved₃ _
  have rest : ∀ (bases : List (Arg Expr)) s₄, Moves source s₃ s₄ →
      (∀ a ∈ bases, a.Placed source) → Reads source (do
        let body ← blocks.block
        completeStmtFrom start fun mark => .classDef ⟨mark, name, decorators, bases, body⟩) s₄
        fun stmt _ => stmt.Placed source := by
    intro bases s₄ moved₄ based
    refine (hb.block s₄ moved₄.sound).bind ?_
    intro body s₅ moved₅ inner
    refine completeStmtFrom_reads moved₅.sound boundary fun m => ⟨rfl, ⟨?_, ?_, ?_⟩, inner⟩
    · intro p hp
      obtain ⟨a, ha, rfl⟩ := List.mem_map.1 hp
      exact (based a ha).span
    · refine List.forall_mem_cons.2 ⟨named, ?_⟩
      intro i hi
      obtain ⟨a, ha, ident⟩ := List.mem_filterMap.1 hi
      exact (based a ha).ident i ident
    · refine List.forall_mem_append.2 ⟨decorating, ?_⟩
      intro e he
      obtain ⟨a, ha, rfl⟩ := List.mem_map.1 he
      exact (based a ha).value
  dsimp only
  split
  · refine (args_reads hr moved₃.sound).bind ?_
    rintro bases s₄ moved₄ ⟨based, -⟩
    refine (expectSymbol_gives _ s₄ moved₄.sound).bind ?_
    intro _ s₅ moved₅ _
    exact rest bases s₅ (moved₄.trans moved₅) based
  · exact rest [] s₃ moved₃.sound.moves nofun

omit hb in
lemma decorator?_gives : Gives source (decorator? rules) fun o => ∀ e ∈ o, e.Placed source := by
  intro s hs
  refine (eat_gives _ s hs).bind ?_
  intro there s₁ moved _
  split
  · exact .pure moved.sound nofun
  refine ((namedExpression_reads hr).gives s₁ moved.sound).bind ?_
  intro e s₂ moved₂ read
  refine (eat_gives _ s₂ moved₂.sound).bind ?_
  intro ended s₃ moved₃ _
  dsimp only
  split
  · refine (note_gives _ s₃ moved₃.sound).bind ?_
    intro _ s₄ moved₄ _
    refine (skipLine_gives s₄ moved₄.sound).bind ?_
    intro _ s₅ moved₅ _
    refine (eat_gives _ s₅ moved₅.sound).bind ?_
    intro _ s₆ moved₆ _
    exact .pure_some moved₆.sound read
  · exact .pure_some moved₃.sound read

lemma decorated_gives : Gives source (decorated rules blocks) (Stmt.Placed source) := by
  intro s hs
  have start := hs.current.span.start
  refine .look rfl ((collect_gives (decorator?_gives hr) s hs).bind ?_)
  intro decorators s₁ moved decorating
  refine .look rfl ?_
  split
  · exact functionStmt_gives hr hb false decorating start s₁ moved.sound
  · exact classStmt_gives hr hb decorating start s₁ moved.sound
  refine .look rfl ?_
  split
  · refine (bump_gives s₁ moved.sound).bind ?_
    intro _ s₂ moved₂ _
    exact functionStmt_gives hr hb true decorating start s₂ moved₂.sound
  refine (note_gives _ s₁ moved.sound).bind ?_
  intro _ s₂ moved₂ _
  have inner : ∀ e ∈ decorators.flatMap (·.descendants), e.Placed source := by
    intro e he
    obtain ⟨d, hd, he⟩ := List.mem_flatMap.1 he
    exact (decorating d hd).descendant he
  refine (discard_gives inner s₂ moved₂.sound).bind ?_
  intro _ s₃ moved₃ _
  refine completeStmtFrom_reads moved₃.sound start ?_
  exact buildsStmt_of_exprs [] [] (fun _ => ⟨rfl, rfl, rfl, rfl, rfl⟩) nofun nofun

lemma asyncStmt_gives : Gives source (asyncStmt rules blocks) (Stmt.Placed source) := by
  intro s hs
  refine (bump_gives s hs).bind ?_
  intro word s₁ moved placed
  have boundary : ∀ n ∈ some word.span.start, Boundary source n := by
    rintro _ ⟨⟩
    exact placed.span.start
  have plain : ∀ e ∈ ([] : List Expr), e.Placed source := nofun
  refine .look rfl ?_
  split
  · exact functionStmt_gives hr hb true plain placed.span.start s₁ moved.sound
  · exact forStmt_gives hr hb boundary s₁ moved.sound
  · exact withStmt_gives hr hb boundary s₁ moved.sound

lemma statement_gives : Gives source (statement rules blocks) fun body =>
    ∀ s ∈ body, s.Placed source := by
  intro s hs
  have single {step : Parser Stmt} (h : Gives source step (Stmt.Placed source)) :
      Gives source (statement.single step) fun body => ∀ s ∈ body, s.Placed source := by
    intro s hs
    refine (h s hs).bind ?_
    intro stmt s₁ moved placed
    exact .pure moved.sound (List.forall_mem_singleton.2 placed)
  have start := hs.current.span.start
  have plain : ∀ e ∈ ([] : List Expr), e.Placed source := nofun
  have sync : ∀ n ∈ (none : Option ℕ), Boundary source n := nofun
  refine .look rfl ?_
  split
  · exact single (ifStmt_gives hr hb) s hs
  · exact single (whileStmt_gives hr hb) s hs
  · exact single (forStmt_gives hr hb sync) s hs
  · exact single (tryStmt_gives hr hb) s hs
  · exact single (withStmt_gives hr hb sync) s hs
  · exact .look rfl (single (functionStmt_gives hr hb false plain start) s hs)
  · exact .look rfl (single (classStmt_gives hr hb plain start) s hs)
  · exact single (decorated_gives hr hb) s hs
  · refine .look rfl ?_
    split
    · exact single (asyncStmt_gives hr hb) s hs
    · exact simpleStmts_gives hr s hs
  · exact simpleStmts_gives hr s hs

/-! ## Blocks and modules -/

/-- A step of a block or of a module gives statements that stand in the text. -/
lemma blockStep?_gives : Gives source (blockStep? rules blocks) fun o =>
    ∀ body ∈ o, ∀ s ∈ body, s.Placed source := by
  intro s hs
  refine .look rfl ?_
  split
  · exact .pure hs nofun
  · exact .pure hs nofun
  · refine (bump_gives s hs).bind ?_
    intro _ s₁ moved _
    exact .pure_some moved.sound nofun
  · refine (note_gives _ s hs).bind ?_
    intro _ s₁ moved _
    refine (bump_gives s₁ moved.sound).bind ?_
    intro _ s₂ moved₂ _
    exact .pure_some moved₂.sound nofun
  · refine (progressing_gives (statement_gives hr hb) s hs).bind ?_
    intro body s₁ moved placed
    exact .pure_some moved.sound placed

lemma moduleStep?_gives : Gives source (moduleStep? rules blocks) fun o =>
    ∀ body ∈ o, ∀ s ∈ body, s.Placed source := by
  intro s hs
  refine .look rfl ?_
  split
  · exact .pure hs nofun
  · refine (bump_gives s hs).bind ?_
    intro _ s₁ moved _
    exact .pure_some moved.sound nofun
  · refine (bump_gives s hs).bind ?_
    intro _ s₁ moved _
    exact .pure_some moved.sound nofun
  · refine (note_gives _ s hs).bind ?_
    intro _ s₁ moved _
    refine (bump_gives s₁ moved.sound).bind ?_
    intro _ s₂ moved₂ _
    exact .pure_some moved₂.sound nofun
  · refine (progressing_gives (statement_gives hr hb) s hs).bind ?_
    intro body s₁ moved placed
    exact .pure_some moved.sound placed

omit hr hb in
/-- Statements of several steps together. -/
lemma flatten_placed {bodies : List (List Stmt)}
    (h : ∀ body ∈ bodies, ∀ s ∈ body, s.Placed source) : ∀ s ∈ bodies.flatten, s.Placed source := by
  intro s hs
  obtain ⟨body, hb, hs⟩ := List.mem_flatten.1 hs
  exact h body hb s hs

lemma block_gives : Gives source (block rules blocks) fun body => ∀ s ∈ body, s.Placed source := by
  intro s hs
  refine (expectSymbol_gives _ s hs).bind ?_
  intro colon s₁ moved _
  split
  · refine (skipLine_gives s₁ moved.sound).bind ?_
    intro _ s₂ moved₂ _
    refine (eat_gives _ s₂ moved₂.sound).bind ?_
    intro _ s₃ moved₃ _
    refine (eat_gives _ s₃ moved₃.sound).bind ?_
    intro _ s₄ moved₄ _
    refine .optional moved₄.sound skipBlock_gives ?_
    exact fun s₅ moved₅ => .pure moved₅.sound nofun
  refine (eat_gives _ s₁ moved.sound).bind ?_
  intro ended s₂ moved₂ _
  split
  · exact simpleStmts_gives hr s₂ moved₂.sound
  refine (eat_gives _ s₂ moved₂.sound).bind ?_
  intro indented s₃ moved₃ _
  split
  · refine (note_gives _ s₃ moved₃.sound).bind ?_
    intro _ s₄ moved₄ _
    exact .pure moved₄.sound nofun
  refine .look rfl ?_
  split
  · refine (note_gives _ s₃ moved₃.sound).bind ?_
    intro _ s₄ moved₄ _
    refine (skipBlock_gives s₄ moved₄.sound).bind ?_
    intro _ s₅ moved₅ _
    exact .pure moved₅.sound nofun
  · refine (nested_gives (collect_gives (blockStep?_gives hr hb)) s₃ moved₃.sound).bind ?_
    intro bodies s₄ moved₄ placed
    refine (eat_gives _ s₄ moved₄.sound).bind ?_
    intro _ s₅ moved₅ _
    exact .pure moved₅.sound (flatten_placed placed)

lemma moduleBody_gives :
    Gives source (moduleBody rules blocks) fun body => ∀ s ∈ body, s.Placed source := by
  intro s hs
  refine (collect_gives (moduleStep?_gives hr hb) s hs).bind ?_
  intro bodies s₁ moved placed
  exact .pure moved.sound (flatten_placed placed)

end

lemma exhaustedStmt_gives : Gives source exhaustedStmt (Stmt.Placed source) := by
  intro s hs
  refine (note_gives _ s hs).bind ?_
  intro _ s₁ moved _
  refine .look rfl (completeStmt_reads moved.sound moved.sound.current.span ?_)
  exact buildsStmt_of_exprs [] [] (fun _ => ⟨rfl, rfl, rfl, rfl, rfl⟩) nofun nofun

end Parser

/-! ## The circle of the blocks -/

lemma Blocks.none_sound : Blocks.none.Sound source := by
  refine ⟨?_, Parser.exhaustedStmt_gives⟩
  intro s hs
  refine (Parser.exhaustedStmt_gives s hs).bind ?_
  intro stmt s₁ moved placed
  exact .pure moved.sound (List.forall_mem_singleton.2 placed)

lemma Blocks.Sound.next (hr : rules.Sound source) (hb : blocks.Sound source) :
    (blocks.next rules).Sound source := ⟨Parser.block_gives hr hb, Parser.ifStmt_gives hr hb⟩

/-- However often the circle of the blocks is tied, they give statements that stand in the text. -/
theorem Blocks.upTo_sound (hr : rules.Sound source) (n : ℕ) :
    (Blocks.upTo rules n).Sound source := by
  induction n with
  | zero => exact none_sound
  | succ n ih =>
    rw [upTo_succ]
    exact ih.next hr

/-! ## A whole text -/

/-- The state in which reading a text starts. -/
abbrev ParserState.start (text : String) : ParserState where
  source := text.toList
  current := (lex text).tokens.headD ⟨.endOfFile, "", .point 0⟩
  later := (lex text).tokens.tail
  lastEnd := 0
  depth := 0
  exprCount := 0
  stmtCount := 0
  problems := []
  unused := []

/-- Reading a text starts in a sound state. -/
lemma start_sound (text : String) : (ParserState.start text).Sound text.toList := by
  have placed := (lex_placed text).tokens
  refine ⟨rfl, ?_, Boundary.zero _, nofun, nofun⟩
  dsimp only [ParserState.start]
  cases tokens : (lex text).tokens with
  | nil =>
    refine ⟨List.forall_mem_singleton.2 ?_, List.pairwise_singleton _ _⟩
    exact .layout (.point (Boundary.zero _)) nofun
  | cons t ts => exact tokens ▸ placed

/-- What is read from a text stands in it, whatever the text is: its tree, and what is wrong with
it. -/
theorem parse_sound (text : String) :
    (parse text).module.Placed text.toList
      ∧ ∀ p ∈ (parse text).problems, Text.Placed text.toList p.span := by
  have rules : (Rules.upTo (2 * Text.width text.toList + 8)).Sound text.toList :=
    Rules.upTo_sound _
  have blocks := Blocks.upTo_sound rules (Text.width text.toList + 8)
  obtain ⟨moved, body⟩ := Parser.moduleBody_gives rules blocks _ (start_sound text)
  refine ⟨⟨body, ?_⟩, ?_⟩
  · intro e he
    exact moved.sound.unused e (List.mem_reverse.1 he)
  · intro p hp
    rcases List.mem_append.1 (List.mem_mergeSort.1 hp) with hp | hp
    · exact (lex_placed text).problems p hp
    · exact moved.sound.problems p (List.mem_reverse.1 hp)

/-- The tree of a text stands in it. -/
theorem parse_placed (text : String) : (parse text).module.Placed text.toList :=
  (parse_sound text).1

end MethodLift.Syntax
