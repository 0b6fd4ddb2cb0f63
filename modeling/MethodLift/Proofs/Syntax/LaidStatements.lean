import MethodLift.Proofs.Syntax.LaidExpressions
import MethodLift.Proofs.Syntax.Statements

/-!
# Reading lays statements

The grammar of statements leaves the statements that it reads, if the blocks that it goes back to do.
The circle is tied by induction on the number of rounds (`Blocks.upTo_laying`).

So the statements of a text without problems are a row (`parse_row`): all nodes stand one behind the
other or one inside the other, no two have the same number, and what was set aside are tuples.
-/

namespace MethodLift.Syntax

variable {source : List Char} {rules : Rules} {blocks : Blocks}

/-- From everywhere, a step leaves the statement that it reads. -/
abbrev LaysStmt (source : List Char) (p : Parser Stmt) : Prop :=
  Lays source p fun d => [.stmt d]

/-- What statements go back to leaves what it reads.  A branch begins with its word. -/
structure Blocks.Laying (source : List Char) (blocks : Blocks) : Prop where
  block : Lays source blocks.block Node.stmts
  branch : ∀ s : ParserState, s.Live source → s.current.kind.takesSpace = true →
    Ends blocks.branch s fun d s' => Leaves source s s' false [.stmt d]

namespace Parser

variable {s s₁ : ParserState} {started : Bool} {ns : List Node}

/-! ## Simple statements -/

lemma wordStmt_leaves (hs : s.Live source) (takes : s.current.kind.takesSpace = true)
    (build : Mark → Stmt) (shape : ∀ m, (build m).mark = m ∧ (Node.stmt (build m)).parts = []) :
    Ends (wordStmt build) s fun d s' => Leaves source s s' false [.stmt d] := by
  refine (Leaves.start hs).bump takes fun begun => ?_
  have solid := hs.solid s.current List.mem_cons_self takes
  refine begun.completeStmt build (.inl rfl) (.inl rfl) ?_ shape
  rw [TokenKind.takesSpace, Bool.and_eq_true, Bool.not_eq_true', bne_iff_ne] at takes
  rw [advance_lastEnd takes.2 takes.1]
  exact (Nat.max_eq_left solid.le).symm

lemma collect_quiet {α : Type} {step : Parser (Option α)} (h : Quiet source step) :
    Quiet source (collect step) :=
  (collect_lays (f := fun _ => []) (h.congr fun _ => by simp)).congr fun _ => by simp

lemma separated_quiet {α : Type} {separator : Symbol} {item : Parser (Option α)}
    (h : Quiet source item) : Quiet source (separated separator item) :=
  (separated_lays (f := fun _ => []) (h.congr fun _ => by simp)).congr fun _ => by simp

lemma listedName?_quiet (cause : Problem.Cause) : Quiet source (listedName? cause) := by
  intro s hs
  refine (Leaves.start hs).skip name?_quiet ?_
  intro name s₁ done
  split
  · exact done
  · exact done.skip (note_quiet _) fun _ _ done => done

lemma declarationStmt_leaves (hs : s.Live source) (takes : s.current.kind.takesSpace = true)
    (build : Mark → List Ident → Stmt)
    (shape : ∀ names m, (build m names).mark = m ∧ (Node.stmt (build m names)).parts = []) :
    Ends (declarationStmt build) s fun d s' => Leaves source s s' false [.stmt d] := by
  refine (Leaves.start hs).bump takes fun begun => ?_
  refine begun.skip (separated_quiet (listedName?_quiet _)) ?_
  intro names s₁ done
  exact done.completeStmtFrom (build · names) (.inl rfl) (.inl rfl) (shape names)

lemma dottedName?_quiet : Quiet source dottedName? := by
  intro s hs
  have step : Quiet source (do
      if (← atSymbol .dot) && (← nextKind) == .name then
        let _ ← bump
        return some ("." ++ (← bump).text)
      else return none : Parser (Option String)) := by
    intro s hs
    refine .look rfl (.look rfl ?_)
    split
    · exact (Leaves.start hs).skip bump_quiet fun _ _ done => done.skip bump_quiet
        fun _ _ done => done
    · exact Leaves.start hs
  refine (Leaves.start hs).skip name?_quiet ?_
  intro name s₁ done
  split
  · exact done
  · exact done.skip (collect_quiet step) fun _ _ done => done

lemma asName?_quiet : Quiet source asName? := by
  intro s hs
  refine (Leaves.start hs).skip (eat_quiet _) ?_
  intro there s₁ done
  split
  · refine done.skip name?_quiet ?_
    intro name s₂ done
    split
    · exact done
    · exact done.skip (note_quiet _) fun _ _ done => done
  · exact done

lemma plainName?_quiet : Quiet source plainName? := by
  intro s hs
  exact (Leaves.start hs).skip name?_quiet fun _ _ done => done

lemma alias?_quiet (dotted : Bool) : Quiet source (alias? dotted) := by
  intro s hs
  refine (Leaves.start hs).choice dottedName?_quiet plainName?_quiet ?_
  intro found s₁ done
  dsimp only
  split
  · exact done
  · exact done.skip asName?_quiet fun _ _ done => .look rfl done

lemma moduleAlias?_quiet : Quiet source moduleAlias? := by
  intro s hs
  refine (Leaves.start hs).skip (alias?_quiet true) ?_
  intro found s₁ done
  split
  · exact done
  · exact done.skip (note_quiet _) fun _ _ done => done

lemma importStmt_leaves (hs : s.Live source) (takes : s.current.kind.takesSpace = true) :
    Ends importStmt s fun d s' => Leaves source s s' false [.stmt d] := by
  refine (Leaves.start hs).bump takes fun begun => ?_
  refine begun.skip (separated_quiet moduleAlias?_quiet) ?_
  intro names s₁ done
  exact done.completeStmtFrom (.importModules · names) (.inl rfl) (.inl rfl) fun _ => ⟨rfl, rfl⟩

lemma levelStep?_quiet : Quiet source levelStep? := by
  intro s hs
  refine (Leaves.start hs).skip (eat_quiet _) ?_
  intro there s₁ done
  split
  · exact done
  · refine done.skip (eat_quiet _) ?_
    intro there s₂ done
    split
    · exact done
    · exact done

lemma importedNames_quiet : Quiet source importedNames := by
  intro s hs
  refine (Leaves.start hs).skip (eat_quiet _) ?_
  intro inParens s₁ done
  refine done.skip (separated_quiet (alias?_quiet false)) ?_
  intro names s₂ done
  refine done.optional (note_quiet _) ?_
  intro s₃ done
  exact done.optional (expectSymbol_quiet _) fun _ done => done

lemma importFromStmt_leaves (hs : s.Live source) (takes : s.current.kind.takesSpace = true) :
    Ends importFromStmt s fun d s' => Leaves source s s' false [.stmt d] := by
  refine (Leaves.start hs).bump takes fun begun => ?_
  refine begun.skip (collect_quiet levelStep?_quiet) ?_
  intro levels s₁ done
  refine done.skip dottedName?_quiet ?_
  intro path s₂ done
  refine done.optional (note_quiet _) ?_
  intro s₃ done
  refine done.expectKeyword ?_
  intro s₄ done
  refine done.skip (eat_quiet _) ?_
  intro isStar s₅ done
  have nothing : Quiet source (Pure.pure [] : Parser (List Alias)) := .pure rfl
  refine done.choice nothing importedNames_quiet ?_
  intro names s₆ done
  exact done.completeStmtFrom
    (.importFrom · (path.map (·.1)) (levels.foldl Nat.add 0) names isStar) (.inl rfl) (.inl rfl)
    fun _ => ⟨rfl, rfl⟩

section

variable (hr : rules.Laying source)
include hr

lemma returnStmt_leaves (hs : s.Live source) (takes : s.current.kind.takesSpace = true) :
    Ends (returnStmt rules) s fun d s' => Leaves source s s' false [.stmt d] := by
  refine (Leaves.start hs).bump takes fun begun => ?_
  refine .look rfl (begun.choice (expressions_lays hr).some .none ?_)
  intro value s₁ done
  exact done.completeStmtFrom (.ret · value) (.inl rfl) (.inl rfl)
    fun _ => ⟨rfl, List.append_nil _⟩

lemma deleteStmt_leaves (hs : s.Live source) (takes : s.current.kind.takesSpace = true) :
    Ends (deleteStmt rules) s fun d s' => Leaves source s s' false [.stmt d] := by
  refine (Leaves.start hs).bump takes fun begun => ?_
  refine begun.bind (operands_lays hr) ?_
  intro e s₁ done
  refine (done.target .del nofun).bind ?_
  intro t s₂ done
  split
  next m elements ctx =>
    have apart : Leaves source s s₂ true (Node.targets elements) := Leaves.parts done
    refine (apart.discard (List.forall_mem_singleton.2 ⟨_, _, _, _, rfl⟩)).bind ?_
    intro _ s₃ done
    exact done.completeStmtFrom (.delete · elements) (.inl rfl) (.inl rfl) fun _ => ⟨rfl, rfl⟩
  · exact done.completeStmtFrom (.delete · [t]) (.inl rfl) (.inl rfl) fun _ => ⟨rfl, rfl⟩

lemma raiseStmt_leaves (hs : s.Live source) (takes : s.current.kind.takesSpace = true) :
    Ends (raiseStmt rules) s fun d s' => Leaves source s s' false [.stmt d] := by
  refine (Leaves.start hs).bump takes fun begun => ?_
  refine .look rfl ?_
  split
  · refine begun.bind hr.expression ?_
    intro exc s₁ done
    refine done.skip (eat_quiet _) ?_
    intro there s₂ done
    refine done.choice hr.expression.some .none ?_
    intro cause s₃ done
    exact done.completeStmtFrom (.raise · (some exc) cause) (.inl rfl) (.inl rfl)
      fun _ => ⟨rfl, by simp [Node.parts, Node.ofStmt, Stmt.exprs, Stmt.children]⟩
  · exact begun.completeStmtFrom (.raise · none none) (.inl rfl) (.inl rfl) fun _ => ⟨rfl, rfl⟩

lemma assertStmt_leaves (hs : s.Live source) (takes : s.current.kind.takesSpace = true) :
    Ends (assertStmt rules) s fun d s' => Leaves source s s' false [.stmt d] := by
  refine (Leaves.start hs).bump takes fun begun => ?_
  refine begun.bind hr.expression ?_
  intro test s₁ done
  refine done.bind (after?_lays hr.expression) ?_
  intro message s₂ done
  exact done.completeStmtFrom (.assert · test message) (.inl rfl) (.inl rfl)
    fun _ => ⟨rfl, by simp [Node.parts, Node.ofStmt, Stmt.exprs, Stmt.children]⟩

lemma assignStmt_leaves {first : Expr} (h : Leaves source s s₁ started [.read first]) :
    Ends (assignStmt rules s.position first) s₁ fun d s' => Leaves source s s' false [.stmt d] := by
  have step : Lays source (after? .equal (value rules)) fun o =>
      o.toList.flatMap fun e => [.read e] := (after?_lays (value_lays hr)).congr fun _ => by simp
  refine h.bind (collect_lays step) ?_
  intro others s₂ done
  set chain := first :: others with chain_eq
  have last : chain.getLast (List.cons_ne_nil _ _) = others.getLastD first := by
    cases others with
    | nil => rfl
    | cons a as => simp [chain_eq, List.getLast?_eq_some_getLast]
  have all : Leaves source s s₂ started
      ([] ++ Node.reads chain.dropLast ++ [.read (others.getLastD first)]) := by
    refine done.congr ?_
    rw [← last, List.nil_append]
    have whole := congrArg Node.reads (List.dropLast_append_getLast (List.cons_ne_nil first others))
    rw [Node.reads_append] at whole
    exact (whole.trans (by simp)).symm
  refine (all.targets .store nofun).bind ?_
  intro ts s₃ done
  exact done.completeStmtFrom (.assign · ts (others.getLastD first)) (.inl rfl) (.inr (by simp))
    fun _ => ⟨rfl, rfl⟩

lemma exprStmt_lays : LaysStmt source (exprStmt rules) := by
  intro s hs
  refine .look rfl (.look rfl (.look rfl ?_))
  split
  · refine (Leaves.start hs).note ?_
    intro s₁ spoilt
    refine spoilt.bind skipLine_quiet.keeps ?_
    exact fun _ s₂ spoilt => .look rfl (spoilt.last (Leaves.completeStmt_keeps _ _))
  refine (Leaves.start hs).bind (value_lays hr) ?_
  intro first s₁ done
  refine done.skip (eat_quiet _) ?_
  intro colon s₂ done
  split
  · refine (done.target .store nofun).bind ?_
    intro target s₃ done
    refine done.bind hr.expression ?_
    intro annotation s₄ done
    refine done.bind (after?_lays (value_lays hr)) ?_
    intro assigned s₅ done
    exact done.completeStmtFrom (.annAssign · target annotation assigned) (.inl rfl)
      (.inr (List.cons_ne_nil _ _)) fun _ => ⟨rfl, rfl⟩
  refine .look rfl ?_
  split
  · refine done.skip bump_quiet ?_
    intro _ s₃ done
    refine (done.target .store nofun).bind ?_
    intro target s₄ done
    refine done.bind (value_lays hr) ?_
    intro assigned s₅ done
    exact done.completeStmtFrom (.augAssign · target _ assigned) (.inl rfl)
      (.inr (List.cons_ne_nil _ _)) fun _ => ⟨rfl, rfl⟩
  · refine .look rfl ?_
    split
    · exact assignStmt_leaves hr done
    · exact done.completeStmtFrom (.expr · first) (.inl rfl) (.inr (List.cons_ne_nil _ _))
        fun _ => ⟨rfl, rfl⟩

lemma smallStmt_lays : LaysStmt source (smallStmt rules) := by
  intro s hs
  have takes {k : TokenKind} (is : s.current.kind = k) (h : k.takesSpace = true) :
      s.current.kind.takesSpace = true := is ▸ h
  refine .look rfl ?_
  split
  next is => exact wordStmt_leaves hs (takes is rfl) .pass fun _ => ⟨rfl, rfl⟩
  next is => exact wordStmt_leaves hs (takes is rfl) .breakLoop fun _ => ⟨rfl, rfl⟩
  next is => exact wordStmt_leaves hs (takes is rfl) .continueLoop fun _ => ⟨rfl, rfl⟩
  next is => exact returnStmt_leaves hr hs (takes is rfl)
  next is => exact deleteStmt_leaves hr hs (takes is rfl)
  next is => exact declarationStmt_leaves hs (takes is rfl) .global fun _ _ => ⟨rfl, rfl⟩
  next is => exact declarationStmt_leaves hs (takes is rfl) .nonlocal fun _ _ => ⟨rfl, rfl⟩
  next is => exact importStmt_leaves hs (takes is rfl)
  next is => exact importFromStmt_leaves hs (takes is rfl)
  next is => exact raiseStmt_leaves hr hs (takes is rfl)
  next is => exact assertStmt_leaves hr hs (takes is rfl)
  · exact exprStmt_lays hr s hs

omit hr in
lemma progressing_lays {α : Type} {step : Parser α} {f : α → List Node} (h : Lays source step f) :
    Lays source (progressing step) f := by
  intro s hs
  refine .look rfl ((Leaves.start hs).bind h ?_)
  intro result s₁ done
  exact .look rfl (done.optional bump_quiet fun _ done => done)

/-- The next statement of a line, if there is one. -/
abbrev nextSmallStmt? (rules : Rules) : Parser (Option Stmt) := do
  if ← eatSymbol .semicolon then
    if (← isAt .newline) || (← isAt .endOfFile) then return none
    else return some (← progressing (smallStmt rules))
  else return none

lemma nextSmallStmt?_lays : Lays source (nextSmallStmt? rules) fun o =>
    o.toList.flatMap fun d => [.stmt d] := by
  intro s hs
  refine (Leaves.start hs).skip (eat_quiet _) ?_
  intro there s₁ done
  split
  · refine .look rfl (.look rfl ?_)
    split
    · exact done
    · exact done.bind (progressing_lays (smallStmt_lays hr)) fun d s₂ done => done.give rfl
  · exact done

lemma simpleStmts_lays : Lays source (simpleStmts rules) Node.stmts := by
  intro s hs
  refine (Leaves.start hs).bind (progressing_lays (smallStmt_lays hr)) ?_
  intro first s₁ done
  refine done.bind (collect_lays (nextSmallStmt?_lays hr)) ?_
  intro others s₂ done
  have all : Leaves source s s₂ false (Node.stmts (first :: others)) :=
    done.congr (congrArg (_ :: ·) List.map_eq_flatMap.symm)
  refine all.skip (eat_quiet _) ?_
  intro ended s₃ done
  dsimp only
  split
  · refine .look rfl ?_
    split
    · refine done.skip (note_quiet _) fun _ _ done => done.skip skipLine_quiet ?_
      exact fun _ _ done => done.skip (eat_quiet _) fun _ _ done => done
    · exact done
  · exact done

/-! ## Compound statements -/

omit hr in
lemma skipBlocksAtMost_quiet (n level : ℕ) : Quiet source (skipBlocksAtMost n level) := by
  induction n generalizing level with
  | zero => exact fun s hs => Leaves.start hs
  | succ n ih =>
    cases level with
    | zero => exact fun s hs => Leaves.start hs
    | succ level =>
      intro s hs
      refine .look rfl ?_
      split
      · exact Leaves.start hs
      refine (Leaves.start hs).skip bump_quiet ?_
      intro t s₁ done
      split
      · exact done.pass (ih _ s₁ done.live).toPasses
      · exact done.pass (ih _ s₁ done.live).toPasses
      · exact done.pass (ih _ s₁ done.live).toPasses

omit hr in
lemma skipBlock_quiet : Quiet source skipBlock :=
  fun s hs => .look rfl (skipBlocksAtMost_quiet _ _ s hs)

variable (hb : blocks.Laying source)
include hb

omit hr in
lemma blockAfter_lays (word : Keyword) : Lays source (blockAfter blocks word) Node.stmts := by
  intro s hs
  refine (Leaves.start hs).skip (eat_quiet _) ?_
  intro there s₁ done
  split
  · exact done.append (hb.block s₁ done.live)
  · exact done

lemma ifStmt_leaves (hs : s.Live source) (takes : s.current.kind.takesSpace = true) :
    Ends (ifStmt rules blocks) s fun d s' => Leaves source s s' false [.stmt d] := by
  refine (Leaves.start hs).bump takes fun begun => ?_
  refine begun.bind (namedExpression_lays hr) ?_
  intro test s₁ done
  refine done.bind hb.block ?_
  intro body s₂ done
  have whole : ∀ orelse s₃, Leaves source s s₃ true
      ([] ++ [.read test] ++ Node.stmts body ++ Node.stmts orelse) →
      Ends (completeStmtFrom s.current.span.start
        (.ifElse · (s.current.kind == .keyword .kElif) test body orelse)) s₃
        fun d s' => Leaves source s s' false [.stmt d] := by
    intro orelse s₃ done
    exact done.completeStmtFrom (.ifElse · _ test body orelse) (.inl rfl) (.inl rfl)
      fun _ => ⟨rfl, by simp [Node.parts, Node.ofStmt, Stmt.exprs, Stmt.children]⟩
  refine .look rfl ?_
  dsimp only
  split
  next word =>
    have branch := hb.branch s₂ done.live (takesSpace_of_isAt word rfl)
    exact branch.bind fun inner s₃ inside => whole [inner] s₃ (done.append inside)
  · exact done.bind (blockAfter_lays hb .kElse) whole

lemma whileStmt_leaves (hs : s.Live source) (takes : s.current.kind.takesSpace = true) :
    Ends (whileStmt rules blocks) s fun d s' => Leaves source s s' false [.stmt d] := by
  refine (Leaves.start hs).bump takes fun begun => ?_
  refine begun.bind (namedExpression_lays hr) ?_
  intro test s₁ done
  refine done.bind hb.block ?_
  intro body s₂ done
  refine done.bind (blockAfter_lays hb .kElse) ?_
  intro orelse s₃ done
  exact done.completeStmtFrom (.whileLoop · test body orelse) (.inl rfl) (.inl rfl)
    fun _ => ⟨rfl, by simp [Node.parts, Node.ofStmt, Stmt.exprs, Stmt.children]⟩

omit hr hb in
/-- The word that a statement begins with, unless it begins with an `async` that was taken before. -/
lemma word_leaves {g : Token → Parser Stmt} {post : Stmt → ParserState → Prop}
    (h : Leaves source s s₁ started [])
    (begins : started = true ∨ s₁.current.kind.takesSpace = true)
    (rest : Leaves source s (advance s₁) true [] → Ends (g s₁.current) (advance s₁) post) :
    Ends (bump >>= g) s₁ post := by
  rcases begins with rfl | takes
  · exact rest (h.pass (advance_passes h.live))
  · exact rest (h.take takes)

lemma forStmt_leaves (async? : Option ℕ) (start : async?.getD s₁.position = s.position)
    (h : Leaves source s s₁ started [])
    (begins : started = true ∨ s₁.current.kind.takesSpace = true) :
    Ends (forStmt rules blocks async?) s₁ fun d s' => Leaves source s s' false [.stmt d] := by
  refine word_leaves h begins fun begun => ?_
  refine begun.bind (operands_lays hr) ?_
  intro e s₂ done
  refine (done.target .store nofun).bind ?_
  intro target s₃ done
  refine done.expectKeyword ?_
  intro s₄ done
  refine done.bind (expressions_lays hr) ?_
  intro iter s₅ done
  refine done.bind hb.block ?_
  intro body s₆ done
  refine done.bind (blockAfter_lays hb .kElse) ?_
  intro orelse s₇ done
  refine done.completeStmtFrom (.forLoop · async?.isSome target iter body orelse) (.inl start)
    (.inl rfl) fun _ => ⟨rfl, ?_⟩
  simp [Node.parts, Node.ofStmt]

omit hb in
lemma handlerHead_lays : Lays source (handlerHead rules) fun head => Node.reads head.1.toList := by
  intro s hs
  refine .look rfl ?_
  split
  · exact Leaves.start hs
  refine (Leaves.start hs).bind hr.expression ?_
  intro type s₁ done
  exact done.skip asName?_quiet fun name s₂ done => done

lemma handler?_lays : Lays source (handler? rules blocks) fun o =>
    o.toList.flatMap Node.ofHandler := by
  intro s hs
  refine .look rfl ?_
  split
  · exact Leaves.start hs
  refine (Leaves.start hs).skip bump_quiet ?_
  intro _ s₁ done
  refine done.skip (eat_quiet _) ?_
  intro _ s₂ done
  refine done.bind (handlerHead_lays hr) ?_
  rintro ⟨type, name⟩ s₃ done
  refine done.bind hb.block ?_
  intro body s₄ done
  exact .look rfl (done.give (by simp [Node.ofHandler]))

lemma tryStmt_leaves (hs : s.Live source) (takes : s.current.kind.takesSpace = true) :
    Ends (tryStmt rules blocks) s fun d s' => Leaves source s s' false [.stmt d] := by
  refine (Leaves.start hs).bump takes fun begun => ?_
  refine begun.bind hb.block ?_
  intro body s₁ done
  refine done.bind (collect_lays (handler?_lays hr hb)) ?_
  intro handlers s₂ done
  refine done.bind (blockAfter_lays hb .kElse) ?_
  intro orelse s₃ done
  refine done.bind (blockAfter_lays hb .kFinally) ?_
  intro finalbody s₄ done
  refine done.optional (note_quiet _) ?_
  intro s₅ done
  exact done.completeStmtFrom (.tryBlock · body handlers orelse finalbody) (.inl rfl) (.inl rfl)
    fun _ => ⟨rfl, by simp [Node.parts, Node.ofStmt]⟩

omit hb in
lemma withItem_lays : Lays source (withItem rules) Node.ofWithItem := by
  intro s hs
  refine (Leaves.start hs).bind hr.expression ?_
  intro context s₁ done
  refine done.skip (eat_quiet _) ?_
  intro there s₂ done
  have bound : Lays source (some <$> (do target .store (← operand rules)) : Parser (Option Expr))
      fun o => Node.targets o.toList := by
    have single : Lays source (do target .store (← operand rules)) fun t => [.target t] := by
      intro s hs
      refine (Leaves.start hs).bind (operand_lays hr) ?_
      intro e s₁ done
      exact done.target .store nofun
    exact single.map
  have unbound : Lays source (pure none : Parser (Option Expr)) fun o => Node.targets o.toList :=
    .pure rfl
  refine done.choice bound unbound ?_
  exact fun target s₃ done => done

lemma withStmt_leaves (async? : Option ℕ) (start : async?.getD s₁.position = s.position)
    (h : Leaves source s s₁ started [])
    (begins : started = true ∨ s₁.current.kind.takesSpace = true) :
    Ends (withStmt rules blocks async?) s₁ fun d s' => Leaves source s s' false [.stmt d] := by
  refine word_leaves h begins fun begun => ?_
  have item : Lays source (some <$> withItem rules) fun o => o.toList.flatMap Node.ofWithItem :=
    Lays.map ((withItem_lays hr).congr fun _ => (List.flatMap_singleton _ _).symm)
  refine begun.bind (separated_lays item) ?_
  intro items s₂ done
  refine done.bind hb.block ?_
  intro body s₃ done
  exact done.completeStmtFrom (.withBlock · async?.isSome items body) (.inl start) (.inl rfl)
    fun _ => ⟨rfl, rfl⟩

omit hb in
lemma parameters_lays : Lays source (parameters rules) fun ps => Node.reads ps.exprs := by
  intro s hs
  refine (Leaves.start hs).skip bump_quiet ?_
  intro opening s₁ done
  refine done.bind (params_lays hr .rightParen true) ?_
  intro ps s₂ done
  refine done.skip (expectSymbol_quiet _) ?_
  intro _ s₃ done
  exact .look rfl done

omit hb in
lemma parametersOrMissing_lays :
    Lays source (parametersOrMissing rules) fun ps => Node.reads ps.exprs := by
  intro s hs
  refine .look rfl ?_
  split
  · exact parameters_lays hr s hs
  · exact (Leaves.start hs).skip (note_quiet _) fun _ _ done => .look rfl done

/-- A function starts with its decorators, with an `async`, or with its word. -/
lemma functionStmt_leaves (decorators : List Expr) (isAsync : Bool)
    (h : Leaves source s s₁ started (Node.reads decorators)) :
    Ends (functionStmt rules blocks decorators s.position isAsync) s₁
      fun d s' => Leaves source s s' false [.stmt d] := by
  refine h.expectKeyword ?_
  intro s₂ done
  refine done.skip nameOrMissing_quiet ?_
  intro name s₃ done
  refine done.bind (parametersOrMissing_lays hr) ?_
  intro params s₄ done
  refine done.bind (after?_lays hr.expression) ?_
  intro returns s₅ done
  refine done.bind hb.block ?_
  intro body s₆ done
  exact done.completeStmtFrom
    (fun mark => .functionDef ⟨mark, name, decorators, params, returns, body, isAsync⟩) (.inl rfl)
    (.inl rfl) fun _ => ⟨rfl, by simp [Node.parts, Node.ofStmt, Stmt.exprs, Stmt.children]⟩

/-- A class starts with its decorators or with its word. -/
lemma classStmt_leaves (decorators : List Expr) (word : s₁.current.kind.takesSpace = true)
    (h : Leaves source s s₁ started (Node.reads decorators)) :
    Ends (classStmt rules blocks decorators s.position) s₁
      fun d s' => Leaves source s s' false [.stmt d] := by
  refine h.bump word fun done => done.skip nameOrMissing_quiet ?_
  intro name s₂ done
  refine done.skip (eat_quiet _) ?_
  intro there s₃ done
  have whole : ∀ bases s₄, Leaves source s s₄ true
      (Node.reads decorators ++ Node.reads (bases.map Arg.value)) → Ends (do
        let body ← blocks.block
        completeStmtFrom s.position fun mark => .classDef ⟨mark, name, decorators, bases, body⟩) s₄
        fun d s' => Leaves source s s' false [.stmt d] := by
    intro bases s₄ done
    refine done.bind hb.block ?_
    intro body s₅ done
    exact done.completeStmtFrom (fun mark => .classDef ⟨mark, name, decorators, bases, body⟩)
      (.inl rfl) (.inl rfl)
      fun _ => ⟨rfl, by simp [Node.parts, Node.ofStmt, Stmt.exprs, Stmt.children]⟩
  dsimp only
  split
  · refine done.bind (args_lays hr) ?_
    intro bases s₄ done
    exact done.skip (expectSymbol_quiet _) fun _ s₅ done => whole bases s₅ done
  · exact whole [] s₃ (done.congr (List.append_nil _).symm)

omit hb in
lemma decorator?_lays : Lays source (decorator? rules) fun o =>
    o.toList.flatMap fun e => [.read e] := by
  intro s hs
  refine (Leaves.start hs).skip (eat_quiet _) ?_
  intro there s₁ done
  split
  · exact done
  refine done.bind (namedExpression_lays hr) ?_
  intro e s₂ done
  refine done.skip (eat_quiet _) ?_
  intro ended s₃ done
  dsimp only
  split
  · refine done.skip (note_quiet _) fun _ _ done => done.skip skipLine_quiet ?_
    exact fun _ _ done => done.skip (eat_quiet _) fun _ _ done => done
  · exact done

lemma decorated_lays : LaysStmt source (decorated rules blocks) := by
  intro s hs
  refine .look rfl ((Leaves.start hs).bind (collect_lays (decorator?_lays hr)) ?_)
  intro decorators s₁ done
  have decorating : Leaves source s s₁ false (Node.reads decorators) :=
    done.congr List.map_eq_flatMap.symm
  refine .look rfl ?_
  split
  · exact functionStmt_leaves hr hb decorators false decorating
  next word =>
    have kind : s₁.current.kind = .keyword .kClass := word
    exact classStmt_leaves hr hb decorators (by rw [kind]; rfl) decorating
  refine .look rfl ?_
  split
  · refine decorating.skip bump_quiet ?_
    intro _ s₂ done
    exact functionStmt_leaves hr hb decorators true done
  refine decorating.note ?_
  intro s₂ spoilt
  refine spoilt.discard.bind ?_
  exact fun _ s₃ spoilt => .look rfl (spoilt.last (Leaves.completeStmt_keeps _ _))

lemma asyncStmt_leaves (hs : s.Live source) (takes : s.current.kind.takesSpace = true) :
    Ends (asyncStmt rules blocks) s fun d s' => Leaves source s s' false [.stmt d] := by
  refine (Leaves.start hs).bump takes fun begun => ?_
  refine .look rfl ?_
  split
  · exact functionStmt_leaves hr hb [] true begun
  · exact forStmt_leaves hr hb (some s.position) rfl begun (.inl rfl)
  · exact withStmt_leaves hr hb (some s.position) rfl begun (.inl rfl)

lemma statement_lays : Lays source (statement rules blocks) Node.stmts := by
  intro s hs
  have takes {k : TokenKind} (is : s.current.kind = k) (h : k.takesSpace = true) :
      s.current.kind.takesSpace = true := is ▸ h
  have begun := Leaves.start hs
  have single {step : Parser Stmt}
      (h : Ends step s fun d s' => Leaves source s s' false [.stmt d]) :
      Ends (statement.single step) s fun body s' => Leaves source s s' false (Node.stmts body) :=
    h.bind fun d s₁ done => done
  refine .look rfl ?_
  split
  next is => exact single (ifStmt_leaves hr hb hs (takes is rfl))
  next is => exact single (whileStmt_leaves hr hb hs (takes is rfl))
  next is => exact single (forStmt_leaves hr hb none rfl begun (.inr (takes is rfl)))
  next is => exact single (tryStmt_leaves hr hb hs (takes is rfl))
  next is => exact single (withStmt_leaves hr hb none rfl begun (.inr (takes is rfl)))
  next is => exact .look rfl (single (functionStmt_leaves hr hb [] false begun))
  next is => exact .look rfl (single (classStmt_leaves hr hb [] (takes is rfl) begun))
  next is => exact single (decorated_lays hr hb s hs)
  next is =>
    refine .look rfl ?_
    split
    · exact single (asyncStmt_leaves hr hb hs (takes is rfl))
    · exact simpleStmts_lays hr s hs
  · exact simpleStmts_lays hr s hs

/-! ## Blocks and modules -/

lemma blockStep?_lays : Lays source (blockStep? rules blocks) fun o =>
    o.toList.flatMap Node.stmts := by
  intro s hs
  have begun := Leaves.start hs
  refine .look rfl ?_
  split
  · exact begun
  · exact begun
  · exact begun.skip bump_quiet fun _ _ done => done
  · exact begun.skip (note_quiet _) fun _ _ done => done.skip bump_quiet fun _ _ done => done
  · refine begun.bind (progressing_lays (statement_lays hr hb)) ?_
    exact fun body s₁ done => done.give (by simp)

lemma moduleStep?_lays : Lays source (moduleStep? rules blocks) fun o =>
    o.toList.flatMap Node.stmts := by
  intro s hs
  have begun := Leaves.start hs
  refine .look rfl ?_
  split
  · exact begun
  · exact begun.skip bump_quiet fun _ _ done => done
  · exact begun.skip bump_quiet fun _ _ done => done
  · exact begun.skip (note_quiet _) fun _ _ done => done.skip bump_quiet fun _ _ done => done
  · refine begun.bind (progressing_lays (statement_lays hr hb)) ?_
    exact fun body s₁ done => done.give (by simp)

omit hr hb in
/-- Statements of several steps together. -/
lemma stmts_flatten (bodies : List (List Stmt)) :
    bodies.flatMap Node.stmts = Node.stmts bodies.flatten := by
  rw [Node.stmts, List.map_flatten, List.flatMap_def]
  rfl

lemma block_lays : Lays source (block rules blocks) Node.stmts := by
  intro s hs
  refine (Leaves.start hs).skip (expectSymbol_quiet _) ?_
  intro colon s₁ done
  split
  · refine done.skip skipLine_quiet fun _ _ done => done.skip (eat_quiet _) ?_
    intro _ s₂ done
    refine done.skip (eat_quiet _) ?_
    intro indented s₃ done
    exact done.optional skipBlock_quiet fun _ done => done
  refine done.skip (eat_quiet _) ?_
  intro ended s₂ done
  split
  · exact done.append (simpleStmts_lays hr s₂ done.live)
  refine done.skip (eat_quiet _) ?_
  intro indented s₃ done
  split
  · exact done.skip (note_quiet _) fun _ _ done => done
  refine .look rfl ?_
  split
  · exact done.skip (note_quiet _) fun _ _ done => done.skip skipBlock_quiet fun _ _ done => done
  · refine done.bind (nested_lays (collect_lays (blockStep?_lays hr hb))) ?_
    intro bodies s₄ done
    refine done.skip (eat_quiet _) ?_
    exact fun _ s₅ done => done.give (stmts_flatten bodies)

lemma moduleBody_lays : Lays source (moduleBody rules blocks) Node.stmts := by
  intro s hs
  refine (Leaves.start hs).bind (collect_lays (moduleStep?_lays hr hb)) ?_
  exact fun bodies s₁ done => done.give (stmts_flatten bodies)

end

lemma exhaustedStmt_lays : LaysStmt source exhaustedStmt := by
  intro s hs
  refine (Leaves.start hs).note ?_
  exact fun s₁ spoilt => .look rfl (spoilt.last (Leaves.completeStmt_keeps _ _))

end Parser

/-! ## The circle of the blocks -/

lemma Blocks.none_laying : Blocks.none.Laying source := by
  refine ⟨?_, fun s hs _ => Parser.exhaustedStmt_lays s hs⟩
  intro s hs
  exact Ends.bind (Parser.exhaustedStmt_lays s hs) fun d s₁ done => done

lemma Blocks.Laying.next (hr : rules.Laying source) (hb : blocks.Laying source) :
    (blocks.next rules).Laying source :=
  ⟨Parser.block_lays hr hb, fun _ hs takes => Parser.ifStmt_leaves hr hb hs takes⟩

/-- However often the circle of the blocks is tied, they leave the statements that they read. -/
theorem Blocks.upTo_laying (hr : rules.Laying source) (n : ℕ) :
    (Blocks.upTo rules n).Laying source := by
  induction n with
  | zero => exact none_laying
  | succ n ih =>
    rw [upTo_succ]
    exact ih.next hr

/-! ## A whole text -/

/-- Reading starts with all tokens of the text. -/
lemma start_tokens (text : String) :
    (ParserState.start text).current :: (ParserState.start text).later = (lex text).tokens := by
  obtain ⟨ts, e, whole, -⟩ := lexFrom_complete .module 0 text.toList
  dsimp only [ParserState.start]
  cases parts : (lex text).tokens with
  | cons t ts => rfl
  | nil => exact absurd (whole.symm.trans parts) (by simp)

lemma start_ended (text : String) : (ParserState.start text).Ended := by
  rw [ParserState.Ended, start_tokens]
  exact lexFrom_complete .module 0 text.toList

/-- Reading a text starts with tokens that are as their kinds say. -/
lemma start_live (text : String) : (ParserState.start text).Live text.toList := by
  refine ⟨rfl, (start_sound text).tokens, ?_, start_ended text⟩
  have solid : ∀ t ∈ (lex text).tokens, t.Solid := lexFrom_solid _ _ _
  dsimp only [ParserState.start]
  cases tokens : (lex text).tokens with
  | nil => exact List.forall_mem_singleton.2 nofun
  | cons t ts => exact tokens ▸ solid

/-- The state in which reading a text ends. -/
abbrev ParserState.final (text : String) : ParserState :=
  let size := Text.width text.toList
  let rules := Rules.upTo (2 * size + 8)
  ((Parser.moduleBody rules (Blocks.upTo rules (size + 8))).run (ParserState.start text)).2

/-- If there is no problem with a text, reading it has noted none. -/
lemma final_problems {text : String} (valid : (parse text).problems = []) :
    (ParserState.final text).problems = [] := by
  have none : ((lex text).problems ++ (ParserState.final text).problems.reverse).mergeSort
      (fun a b => a.span.notAfter b.span) = [] := valid
  have perm := List.mergeSort_perm
    ((lex text).problems ++ (ParserState.final text).problems.reverse)
    (fun a b => a.span.notAfter b.span)
  rw [none] at perm
  simpa using (List.append_eq_nil_iff.1 (List.nil_perm.1 perm)).2

/-- In the tree of a text without problems the statements are a row, and what was set aside are
tuples. -/
theorem parse_row {text : String} (valid : (parse text).problems = []) :
    ∃ a b, Row a b (Node.stmts (parse text).module.body)
      ∧ ∀ e ∈ (parse text).module.unused, e.IsTuple := by
  set size := Text.width text.toList
  have rules : (Rules.upTo (2 * size + 8)).Laying text.toList := Rules.upTo_laying _
  have blocks := Blocks.upTo_laying rules (size + 8)
  have done := Parser.moduleBody_lays rules blocks _ (start_live text)
  have clean := final_problems valid
  refine ⟨_, _, done.row clean, ?_⟩
  intro e he
  rcases done.unused clean e (List.mem_reverse.1 he) with he | tuple
  · nomatch he
  · exact tuple

end MethodLift.Syntax
