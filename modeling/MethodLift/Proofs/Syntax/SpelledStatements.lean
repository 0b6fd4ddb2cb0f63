import MethodLift.Proofs.Syntax.LaidStatements
import MethodLift.Proofs.Syntax.SpelledExpressions

/-!
# Reading spells statements

The grammar of statements reads what its results consist of, if the blocks that it goes back to do.
The circle is tied by induction on the number of rounds (`Blocks.upTo_spelling`).

Between statements stand line ends, indentation and semicolons.  They are gathered as gaps, and two
gaps are one (`Gathers.merge`).  Where reading makes progress by passing over a token, no statement
was read before it; in a text without problems that does not happen (`progressing_spells`).

So the tokens of a text without problems spell the statements of its tree up to the end of the text,
and of every text the nodes of the tree and those that were set aside are numbered (`parse_yields`).
-/

namespace MethodLift.Syntax

open Segment (nodes sign word)

variable {source : List Char} {rules : Rules} {blocks : Blocks}

/-- From everywhere, a step reads a statement. -/
abbrev SpellsStmt (source : List Char) (p : Parser Stmt) : Prop :=
  Spells source p fun d => [.stmt d]

/-- What statements go back to reads what its results consist of.  A branch begins with its word. -/
structure Blocks.Spelling (source : List Char) (blocks : Blocks) : Prop where
  block : Spells source blocks.block Segment.block
  branch : ∀ s : ParserState, s.current.kind = .keyword .kElif →
    Ends blocks.branch s fun d s' => Gathers source s s' [.stmt d]

lemma Expr.eq_of_bareTuple {e : Expr} (h : e.shape = .bareTuple) :
    ∃ m elements ctx, e = .tuple m elements ctx false := by
  cases e with
  | tuple m elements ctx parenthesized =>
    cases parenthesized with
    | false => exact ⟨m, elements, ctx, rfl⟩
    | true => nomatch h
  | comprehension _ kind => cases kind <;> nomatch h
  | _ => nomatch h

/-! ## Gaps -/

/-- Two gaps are one. -/
lemma Spelled.merge {xs : List Segment} {ts : List Token}
    (h : Spelled source (.gap :: .gap :: xs) ts) : Spelled source (.gap :: xs) ts := by
  obtain ⟨_, _, rfl, first, rest⟩ := h.uncons
  obtain ⟨_, _, rfl, second, rest⟩ := rest.uncons
  have left := first.leaf_of_single nofun nofun nofun
  have right := second.leaf_of_single nofun nofun nofun
  rw [← List.append_assoc]
  exact .leaf (List.forall_mem_append.2 ⟨left, right⟩) rest

/-- Lines of statements behind a gap end with a gap. -/
lemma Segment.gap_lines (ss : List Stmt) : ∃ front, .gap :: lines ss = front ++ [.gap] := by
  rcases List.eq_nil_or_concat ss with rfl | ⟨ss, d, rfl⟩
  · exact ⟨[], rfl⟩
  · exact ⟨.gap :: lines ss ++ [.stmt d], by simp [lines]⟩

@[simp] lemma Segment.lines_append (ss ss' : List Stmt) : lines (ss ++ ss') = lines ss ++ lines ss' :=
  List.flatMap_append

/-- A gap between lines is no more than the gap before it. -/
lemma Spelled.merge_lines {ss : List Stmt} {xs : List Segment} {ts : List Token}
    (h : Spelled source (.gap :: Segment.lines ss ++ .gap :: xs) ts) :
    Spelled source (.gap :: Segment.lines ss ++ xs) ts := by
  obtain ⟨front, whole⟩ := Segment.gap_lines ss
  rw [whole, List.append_assoc] at h ⊢
  obtain ⟨_, _, rfl, first, rest⟩ := h.split
  exact first.append rest.merge

/-- Lines of several steps, with gaps between them. -/
lemma Spelled.flatten {bodies : List (List Stmt)} {ts : List Token}
    (h : Spelled source (.gap :: bodies.flatMap fun ss => .gap :: Segment.lines ss) ts) :
    Spelled source (.gap :: Segment.lines bodies.flatten) ts := by
  induction bodies generalizing ts with
  | nil => exact h
  | cons ss bodies ih =>
    have merged : Spelled source
        (.gap :: Segment.lines ss ++ bodies.flatMap fun ss => .gap :: Segment.lines ss) ts := h.merge
    obtain ⟨front, whole⟩ := Segment.gap_lines ss
    have again : Spelled source
        (front ++ .gap :: bodies.flatMap fun ss => .gap :: Segment.lines ss) ts := by
      rw [whole, List.append_assoc] at merged
      exact merged
    obtain ⟨_, _, rfl, first, rest⟩ := again.split
    have all := first.append (ih rest)
    rw [List.flatten_cons, Segment.lines_append, ← List.cons_append, whole, List.append_assoc]
    exact all

namespace Gathers

variable {s₀ s : ParserState} {xs : List Segment}

/-- A token between statements is taken. -/
lemma takeGap {k : TokenKind} (h : Gathers source s₀ s xs) (there : s.current.kind = k)
    (between : k.isLayout = true ∨ k = .symbol .semicolon) (more : k ≠ .endOfFile) :
    Gathers source s₀ (Parser.advance s) (xs ++ [.gap]) :=
  h.take (List.forall_mem_singleton.2 (there ▸ between)) rfl (there ▸ more)

/-- There may be nothing between statements. -/
lemma noGap (h : Gathers source s₀ s xs) : Gathers source s₀ s (xs ++ [.gap]) := by
  refine h.recast (by simp) fun ts spelled => ?_
  have nothing : Spelled source [.gap] [] := .single (List.forall_mem_nil _)
  have all := spelled.append nothing
  rwa [List.append_nil] at all

lemma merge (h : Gathers source s₀ s (xs ++ [.gap] ++ [.gap])) :
    Gathers source s₀ s (xs ++ [.gap]) := by
  refine h.recast (by simp) fun ts spelled => ?_
  rw [List.append_assoc] at spelled
  obtain ⟨_, _, rfl, first, rest⟩ := spelled.split
  exact first.append rest.merge

/-- Two tokens that may be missing were there. -/
lemma both {ys : List Segment} {k l : TokenKind}
    (h : Gathers source s₀ s (xs ++ .token k :: .token l :: ys)) :
    Gathers source s₀ s (xs ++ .optional [k, l] :: ys) := by
  refine h.recast (by simp) fun ts spelled => ?_
  obtain ⟨_, _, rfl, first, rest⟩ := spelled.split
  obtain ⟨_, _, rfl, left, middle⟩ := rest.uncons
  obtain ⟨_, _, rfl, right, last⟩ := middle.uncons
  obtain ⟨t, rfl, rfl⟩ := left.leaf_of_single nofun nofun nofun
  obtain ⟨u, rfl, rfl⟩ := right.leaf_of_single nofun nofun nofun
  have two : Segment.Leaf (.optional [t.kind, u.kind]) [t, u] := .inr rfl
  have seen : Spelled source (.optional [t.kind, u.kind] :: ys) ([t, u] ++ _) := .leaf two last
  exact first.append seen

/-- An expression is read whose word was taken. -/
lemma wordThen {p : Parser Expr} {k : Keyword} {a : Position}
    (h : Gathers source s₀ s (xs ++ [word k])) (hp : SpellsExpr source p a) :
    Ends (some <$> p) s fun o s' => Gathers source s₀ s' (xs ++ Segment.afterWord k a o) :=
  (h.append (hp s)).congr (List.append_assoc _ _ _)

/-- A symbol that has to be there: without it there is a problem. -/
lemma expectSymbol {β : Type} {symbol : Symbol} {g : Bool → Parser β}
    {post : β → ParserState → Prop} (h : Gathers source s₀ s xs)
    (yes : ∀ s', Gathers source s₀ s' (xs ++ [sign symbol]) → Ends (g true) s' post)
    (no : ∀ s', Broken source s₀ s' xs → Ends (g false) s' post) :
    Ends (Parser.expectSymbol symbol >>= g) s post := by
  have expected : Ends (Parser.expectSymbol symbol) s fun there s' =>
      if there then Gathers source s₀ s' (xs ++ [sign symbol]) else Broken source s₀ s' xs :=
    h.eat (k := .symbol symbol) nofun (fun s' done => done) fun _ => h.note fun s' broken => broken
  refine expected.bind fun there s' known => ?_
  cases there with
  | true => exact yes s' known
  | false => exact no s' known

end Gathers

namespace Parser

variable {s s₁ : ParserState} {xs : List Segment}

/-- A step that reads something that takes space makes progress of its own. -/
lemma progressing_spells {α : Type} {step : Parser α} {f : α → List Segment}
    (h : ∀ s, Ends step s fun a s' =>
      Gathers source s s' (f a) ∧ (f a).any Segment.isSolid = true) :
    ∀ s, Ends (progressing step) s fun a s' =>
      Gathers source s s' (f a) ∧ (f a).any Segment.isSolid = true := by
  intro s
  refine .look rfl ((h s).bind ?_)
  rintro a s₁ ⟨done, solid⟩
  refine .look rfl ?_
  dsimp only
  split
  next same =>
    have broken : Broken source s s₁ (f a) := done.mono fun _ _ ts taken spelled => by
      have less := taken.length_lt (spelled.ne_nil solid)
      have equal : s₁.later.length = s.later.length := eq_of_beq same
      omega
    exact broken.skip bump_skips fun _ s₂ broken => ⟨broken.gathers rfl, solid⟩
  · exact ⟨done, solid⟩

/-! ## Simple statements -/

lemma wordStmt_spells {k : Keyword} (there : s.current.kind = .keyword k) (build : Mark → Stmt)
    (shape : ∀ m, (build m).mark = m ∧ (build m).segments = [word k]) :
    Ends (wordStmt build) s fun d s' => Gathers source s s' [.stmt d] := by
  refine (Gathers.start source s).bump there nofun fun _ => ?_
  exact Gathers.completeStmtToken (x := word k) ⟨_, rfl, there⟩ rfl (by rw [there]; rfl) build shape

lemma listedName?_spells (cause : Problem.Cause) :
    Spells source (listedName? cause) fun o => o.elim [] fun ident => [.name ident] := by
  intro s
  refine (Gathers.start source s).bind name?_spells ?_
  intro name s₁ done
  split
  · exact done
  · exact done.note fun s₂ broken => broken.gathers rfl

lemma declarationStmt_spells {k : Keyword} (there : s.current.kind = .keyword k)
    (build : Mark → List Ident → Stmt)
    (shape : ∀ names m, (build m names).mark = m ∧ (build m names).segments
      = word k :: Segment.list (names.map fun ident => [.name ident])) :
    Ends (declarationStmt build) s fun d s' => Gathers source s s' [.stmt d] := by
  refine (Gathers.start source s).bump there nofun fun begun => ?_
  refine begun.bind (separated_spells (listedName?_spells _)) ?_
  intro names s₁ done
  exact done.completeStmtFrom (build · names) (.inl rfl) rfl (shape names)

/-- The further components of a dotted name. -/
lemma dottedParts_spell {s₀ : ParserState} (n : ℕ) {path : String}
    (h : Gathers source s₀ s [.path path]) :
    Ends (collectAtMost (do
      if (← atSymbol .dot) && (← nextKind) == .name then
        let _ ← bump
        return some ("." ++ (← bump).text)
      else return none : Parser (Option String)) n) s
      fun parts s' => Gathers source s₀ s' [.path (parts.foldl (· ++ ·) path)] := by
  induction n generalizing s path with
  | zero => exact h
  | succ n ih =>
    have step : Ends (do
        if (← atSymbol .dot) && (← nextKind) == .name then
          let _ ← bump
          return some ("." ++ (← bump).text)
        else return none : Parser (Option String)) s
        fun o s' => Gathers source s₀ s' [.path (path ++ o.getD "")] := by
      refine .look rfl (.look rfl ?_)
      split
      next both =>
        obtain ⟨isDot, isNext⟩ := Bool.and_eq_true_iff.1 both
        have dot : s.current.kind = .symbol .dot := eq_of_beq isDot
        have name : (advance s).current.kind = .name :=
          advance_kind (by rw [dot]; nofun) nofun (eq_of_beq isNext)
        have taken := (advance_takes source (s := s) (by rw [dot]; nofun)).trans
          (advance_takes source (s := advance s) (by rw [name]; nofun))
          (R := fun ts => ts = [s.current, (advance s).current]) (by rintro _ _ rfl rfl; rfl)
        refine h.trans (R := Spelled source [.path (path ++ ("." ++ (advance s).current.text))])
          taken ?_
        rintro ts _ spelled rfl
        have front := spelled.leaf_of_single nofun nofun nofun
        exact .single (.more front dot name)
      · exact (h.congr (by simp) : Gathers source s₀ s [.path (path ++ "")])
    refine step.bind ?_
    intro o s₁ done
    cases o with
    | none => exact (done.congr (by simp) : Gathers source s₀ s₁ [.path path])
    | some part => exact (ih done).bind fun parts s₂ done => done

lemma dottedName?_spells :
    Spells source dottedName? fun o => o.toList.map fun found => .path found.1 := by
  intro s
  refine (Gathers.start source s).bind name?_spells ?_
  intro name s₁ done
  split
  · exact done
  next first =>
    have path : Gathers source s s₁ [.path first.name] := done.recast rfl fun ts spelled => by
      obtain ⟨t, rfl, is, rfl⟩ := spelled.leaf_of_single nofun nofun nofun
      exact .single (.one is)
    exact Ends.bind (.look rfl (dottedParts_spell _ path)) fun parts s₂ done => done

lemma asName?_spells : Spells source asName? fun o =>
    o.toList.flatMap fun ident => [word .kAs, .name ident] := by
  intro s
  refine (Gathers.start source s).eat (k := .keyword .kAs) nofun (fun s₁ done => ?_)
    fun _ => .start source s
  refine done.bind name?_spells ?_
  intro name s₂ done
  split
  · exact done
  · exact done.note fun s₃ broken => broken.gathers rfl

lemma plainName?_spells :
    Spells source plainName? fun o => o.toList.map fun found => .path found.1 := by
  intro s
  refine (Gathers.start source s).bind name?_spells ?_
  intro name s₁ done
  cases name with
  | none => exact done
  | some ident =>
    refine (done.recast rfl fun ts spelled => ?_ : Gathers source s s₁ [.path ident.name])
    obtain ⟨t, rfl, is, rfl⟩ := spelled.leaf_of_single nofun nofun nofun
    exact .single (.one is)

lemma alias?_spells (dotted : Bool) :
    Spells source (alias? dotted) fun o => o.elim [] Alias.segments := by
  intro s
  refine (Gathers.start source s).choice dottedName?_spells plainName?_spells ?_
  intro found s₁ done
  dsimp only
  split
  · exact done
  · exact done.bind asName?_spells fun asname s₂ done => .look rfl done

lemma moduleAlias?_spells : Spells source moduleAlias? fun o => o.elim [] Alias.segments := by
  intro s
  refine (Gathers.start source s).bind (alias?_spells true) ?_
  intro found s₁ done
  split
  · exact done
  · exact done.note fun s₂ broken => broken.gathers rfl

lemma importStmt_spells (there : s.current.kind = .keyword .kImport) :
    Ends importStmt s fun d s' => Gathers source s s' [.stmt d] := by
  refine (Gathers.start source s).bump there nofun fun begun => ?_
  refine begun.bind (separated_spells moduleAlias?_spells) ?_
  intro names s₁ done
  exact done.completeStmtFrom (.importModules · names) (.inl rfl) rfl fun _ => ⟨rfl, rfl⟩

lemma levelStep?_spells : Spells source levelStep? fun o => o.elim [] fun level => [.dots level] := by
  intro s
  have begun := Gathers.start source s
  refine eat_cases (.symbol .dot) s (fun there => ?_) fun _ => ?_
  · refine begun.take (x := .dots 1) ⟨List.forall_mem_singleton.2 (.inl there), ?_⟩ rfl
      (by rw [there]; nofun)
    simp [Token.levels, there]
  · refine eat_cases (.symbol .ellipsis) s (fun there => ?_) fun _ => begun
    refine begun.take (x := .dots 3) ⟨List.forall_mem_singleton.2 (.inr there), ?_⟩ rfl
      (by rw [there]; nofun)
    simp [Token.levels, there]

/-- All dots together. -/
lemma levels_spell {levels : List ℕ} {ts : List Token}
    (h : Spelled source (levels.flatMap fun level => [.dots level]) ts) :
    Spelled source [.dots (levels.foldl Nat.add 0)] ts := by
  have sum : levels.foldl Nat.add 0 = levels.sum := List.sum_eq_foldl.symm
  rw [sum]
  clear sum
  refine .single ?_
  induction levels generalizing ts with
  | nil =>
    rw [h.eq_nil]
    exact ⟨List.forall_mem_nil _, rfl⟩
  | cons level levels ih =>
    obtain ⟨_, _, rfl, first, rest⟩ := h.split
    obtain ⟨kinds, total⟩ := first.leaf_of_single nofun nofun nofun
    obtain ⟨kinds', total'⟩ := ih rest
    refine ⟨List.forall_mem_append.2 ⟨kinds, kinds'⟩, ?_⟩
    rw [List.map_append, List.sum_append, total, total', List.sum_cons]

lemma importedNames_spells : Spells source importedNames fun names =>
    .optional [.symbol .leftParen] :: Segment.list (names.map (·.segments))
      ++ [.optional [.symbol .rightParen]] := by
  intro s
  have ends (inParens : Bool) (names : List Alias) (s₁ : ParserState)
      (done : Gathers source s s₁
        (.optional [.symbol .leftParen] :: Segment.list (names.map (·.segments)))) :
      Ends (do
        if inParens then
          let _ ← expectSymbol .rightParen
        return names) s₁ fun names s' => Gathers source s s'
          (.optional [.symbol .leftParen] :: Segment.list (names.map (·.segments))
            ++ [.optional [.symbol .rightParen]]) := by
    cases inParens with
    | true => exact done.bind (expectSymbol_spells .rightParen) fun _ s₂ done => trailing _ done
    | false => exact absent _ done
  have rest (inParens : Bool) (s₁ : ParserState)
      (done : Gathers source s s₁ [.optional [.symbol .leftParen]]) :
      Ends (do
        let names ← separated .comma (alias? false)
        if names.isEmpty then note .expectedImportedName
        if inParens then
          let _ ← expectSymbol .rightParen
        return names) s₁ fun names s' => Gathers source s s'
          (.optional [.symbol .leftParen] :: Segment.list (names.map (·.segments))
            ++ [.optional [.symbol .rightParen]]) := by
    refine done.bind (separated_spells (alias?_spells false)) ?_
    intro names s₂ done
    dsimp only
    split
    · exact done.note fun s₃ broken => ends inParens names s₃ (broken.gathers rfl)
    · exact ends inParens names s₂ done
  have begun := Gathers.start source s
  refine begun.eat (k := .symbol .leftParen) nofun (fun s₁ done => ?_) fun _ => ?_
  · exact rest true s₁ (trailing .leftParen done)
  · exact rest false s (absent _ begun)

/-- The statement that names a module, levels, and a star or what is imported. -/
lemma importFrom_complete {s₀ : ParserState} {module : Option String} {level : ℕ} (isStar : Bool)
    (names : List Alias) (done : Gathers source s₀ s (word .kFrom :: .dots level
      :: module.toList.map .path ++ word .kImport
      :: if isStar then sign .star :: Segment.list (names.map (·.segments))
        else .optional [.symbol .leftParen] :: Segment.list (names.map (·.segments))
          ++ [.optional [.symbol .rightParen]])) :
    Ends (completeStmtFrom s₀.position (.importFrom · module level names isStar)) s
      fun d s' => Gathers source s₀ s' [.stmt d] :=
  done.completeStmtFrom (.importFrom · module level names isStar) (.inl rfl) rfl
    fun _ => ⟨rfl, rfl⟩

lemma importFromStmt_spells (there : s.current.kind = .keyword .kFrom) :
    Ends importFromStmt s fun d s' => Gathers source s s' [.stmt d] := by
  refine (Gathers.start source s).bump there nofun fun begun => ?_
  refine begun.bind (collect_spells_all levelStep?_spells) ?_
  intro levels s₁ done
  have dots : Gathers source s s₁ [word .kFrom, .dots (levels.foldl Nat.add 0)] := by
    refine done.recast (by simp [Segment.nodes_flatMap]) fun ts spelled => ?_
    obtain ⟨_, _, rfl, first, rest⟩ := spelled.split
    exact first.append (levels_spell rest)
  refine dots.bind dottedName?_spells ?_
  intro path s₂ done
  have named : Gathers source s s₂ (word .kFrom :: .dots (levels.foldl Nat.add 0)
      :: (path.map (·.1)).toList.map .path) := done.congr (by cases path <;> rfl)
  have rest (s₃ : ParserState) (named : Gathers source s s₃ (word .kFrom
      :: .dots (levels.foldl Nat.add 0) :: (path.map (·.1)).toList.map .path)) :
      Ends (do
        expectKeyword .kImport
        let isStar ← eatSymbol .star
        let names ← if isStar then pure [] else importedNames
        completeStmtFrom s.position
          (.importFrom · (path.map (·.1)) (levels.foldl Nat.add 0) names isStar)) s₃
        fun d s' => Gathers source s s' [.stmt d] := by
    refine named.bind (expectKeyword_spells .kImport) ?_
    intro _ s₄ done
    refine done.eat (k := .symbol .star) nofun (fun s₅ done => ?_) fun _ => ?_
    · exact importFrom_complete true [] (done.congr (by simp [Segment.list]))
    · refine done.bind importedNames_spells ?_
      exact fun names s₅ done => importFrom_complete false names (done.congr (by simp))
  dsimp only
  split
  · exact named.note fun s₃ broken => rest s₃ (broken.gathers rfl)
  · exact rest s₂ named

section

variable (hr : rules.Spelling source)
include hr

lemma returnStmt_spells (there : s.current.kind = .keyword .kReturn) :
    Ends (returnStmt rules) s fun d s' => Gathers source s s' [.stmt d] := by
  refine (Gathers.start source s).bump there nofun fun begun => ?_
  refine .look rfl (begun.choice (expressions_spells hr).some .none ?_)
  intro value s₁ done
  exact done.completeStmtFrom (.ret · value) (.inl rfl) rfl fun _ => ⟨rfl, rfl⟩

omit hr in
/-- What stands where a target or a bare tuple of them may, and is no tuple, is a target. -/
lemma one_target {s₀ : ParserState} {e : Expr}
    (h : Gathers source s₀ s (xs ++ [.part .targets e])) (other : e.shape ≠ .bareTuple) :
    Gathers source s₀ s (xs ++ [.part .target e]) := by
  refine h.recast (by simp) fun ts spelled => ?_
  obtain ⟨_, _, rfl, first, rest⟩ := spelled.split
  refine first.append ?_
  cases rest with
  | leaf here _ => nomatch here
  | bare admits covers inside rest =>
    refine .bare ?_ covers (Expr.segments_congr other _ _ ▸ inside) rest
    cases shape : e.shape with
    | bareTuple => exact absurd shape other
    | _ =>
      rw [shape] at admits
      exact admits
  | paren opens closes widened inside rest => exact .paren opens closes widened inside rest

lemma deleteStmt_spells (there : s.current.kind = .keyword .kDel) :
    Ends (deleteStmt rules) s fun d s' => Gathers source s s' [.stmt d] := by
  refine (Gathers.start source s).bump there nofun fun begun => ?_
  refine begun.bind (operands_spells hr) ?_
  intro e s₁ done
  refine (done.target .del).bind ?_
  intro t s₂ done
  split
  next m elements ctx =>
    have opened : Yields source s s₂ [.read (.tuple m elements ctx false)]
        (Spelled source (word .kDel :: Segment.parts .target elements)) := by
      refine done.mono fun _ _ ts _ spelled => ?_
      obtain ⟨_, _, rfl, first, rest⟩ := spelled.split
      exact first.append rest.opened
    have discarded : Ends (discard [.tuple m elements ctx false]) s₂ fun _ s' =>
        Yields source s s' (Node.reads elements)
          (Spelled source (word .kDel :: Segment.parts .target elements)) := by
      refine opened.discard ?_ fun all n hn => ?_
      · rw [Node.flatMap_numbers_reads, List.flatMap_singleton]
        show List.Perm _ (Expr.numbers _)
        rw [Expr.numbers_eq]
        exact List.perm_append_comm
      · obtain ⟨e, he, rfl⟩ := List.mem_map.1 hn
        have tuple : (Expr.tuple m elements ctx false).Descending := all _ List.mem_cons_self
        exact tuple.child he
    refine discarded.bind fun _ s₃ done => ?_
    have targets : Gathers source s s₃ (word .kDel :: Segment.parts .target elements) := by
      unfold Gathers
      rw [Segment.nodes_token, Segment.nodes_parts]
      exact done
    exact targets.completeStmtFrom (.delete · elements) (.inl rfl) rfl fun _ => ⟨rfl, rfl⟩
  next other =>
    have noTuple : t.shape ≠ .bareTuple := by
      intro is
      obtain ⟨m, elements, ctx, rfl⟩ := Expr.eq_of_bareTuple is
      exact other _ _ _ rfl
    exact (absent [.symbol .comma] (one_target done noTuple)).completeStmtFrom (.delete · [t])
      (.inl rfl) rfl fun _ => ⟨rfl, rfl⟩

lemma raiseStmt_spells (there : s.current.kind = .keyword .kRaise) :
    Ends (raiseStmt rules) s fun d s' => Gathers source s s' [.stmt d] := by
  refine (Gathers.start source s).bump there nofun fun begun => ?_
  refine .look rfl ?_
  split
  · refine begun.bind hr.expression ?_
    intro exc s₁ done
    have ends (cause : Option Expr) (s₂ : ParserState) (done : Gathers source s s₂
        ([word .kRaise, .operand 1 exc] ++ Segment.afterWord .kFrom (.operand 1) cause)) :
        Ends (completeStmtFrom s.position (.raise · (some exc) cause)) s₂
          fun d s' => Gathers source s s' [.stmt d] :=
      done.completeStmtFrom (.raise · (some exc) cause) (.inl rfl) rfl fun _ => ⟨rfl, rfl⟩
    refine done.eat (k := .keyword .kFrom) nofun (fun s₂ done => ?_) fun _ => ?_
    · exact (done.wordThen hr.expression).bind ends
    · exact ends none s₁ (done.congr (by simp [Segment.afterWord]))
  · exact begun.completeStmtFrom (.raise · none none) (.inl rfl) rfl fun _ => ⟨rfl, rfl⟩

lemma assertStmt_spells (there : s.current.kind = .keyword .kAssert) :
    Ends (assertStmt rules) s fun d s' => Gathers source s s' [.stmt d] := by
  refine (Gathers.start source s).bump there nofun fun begun => ?_
  refine begun.bind hr.expression ?_
  intro test s₁ done
  refine done.bind (after?_spells hr.expression) ?_
  intro message s₂ done
  exact done.completeStmtFrom (.assert · test message) (.inl rfl) rfl fun _ => ⟨rfl, rfl⟩

omit hr in
/-- A chain of values with an equals sign before each but the first: each but the last one stands
before an equals sign. -/
lemma chain_segments (first : Expr) (others : List Expr) :
    .part .value first :: others.flatMap (fun e => [sign .equal, .part .value e])
      = ((first :: others).dropLast.flatMap fun e => [.part .value e, sign .equal])
        ++ [.part .value (others.getLastD first)] := by
  induction others generalizing first with
  | nil => rfl
  | cons second others ih =>
    rw [List.flatMap_cons, List.dropLast_cons_cons, List.flatMap_cons, List.getLastD_cons,
      List.append_assoc, ← ih second]
    rfl

omit hr in
/-- Values before equals signs become targets. -/
lemma chain_retargeted (ctx : Context) (es : List Expr) (xs : List Segment) :
    List.Forall₂ (Segment.Retargeted ctx)
      (es.flatMap (fun e => [.part .value e, sign .equal]) ++ xs)
      ((es.map fun e => e.retarget ctx).flatMap (fun e => [.part .value e, sign .equal]) ++ xs) := by
  refine List.rel_append ?_ (Segment.retargeted_refl xs)
  induction es with
  | nil => exact .nil
  | cons e es ih => exact .cons (.part .value e) (.cons (.same _) ih)

lemma assignStmt_spells {first : Expr} (h : Gathers source s s₁ [.part .value first]) :
    Ends (assignStmt rules s.position first) s₁ fun d s' => Gathers source s s' [.stmt d] := by
  have step : Spells source (after? .equal (value rules)) fun o =>
      o.elim [] fun e => [sign .equal, .part .value e] :=
    (after?_spells (value_spells hr)).congr fun o => by cases o <;> rfl
  refine h.bind (collect_spells_all step) ?_
  intro others s₂ done
  have chain := done.congr (chain_segments first others)
  refine Ends.bind (targets_run .store (first :: others).dropLast s₂) ?_
  rintro ts s₃ ⟨rfl, problems, rfl⟩
  have assigned := chain.retarget (chain_retargeted .store _ _) problems
  exact assigned.completeStmtFrom (.assign · _ (others.getLastD first)) (.inl rfl)
    (by simp [Segment.isSolid]) fun _ => ⟨rfl, rfl⟩

omit hr in
lemma augmentedOperator?_eq {k : TokenKind} {op : BinaryOp}
    (h : augmentedOperator? k = some op) : k = .symbol op.assigning := by
  unfold augmentedOperator? at h
  split at h
  · split at h
    case h_14 => nomatch h
    all_goals
      obtain rfl := Option.some.inj h
      rfl
  · nomatch h

lemma exprStmt_spells : SpellsStmt source (exprStmt rules) := by
  intro s
  refine .look rfl (.look rfl (.look rfl ?_))
  split
  · refine (Gathers.start source s).note fun s₁ broken => broken.skip skipLine_skips ?_
    exact fun _ s₂ broken => .look rfl (broken.completeStmt fun _ => ⟨rfl, rfl⟩)
  refine (Gathers.start source s).bind (value_spells hr) ?_
  intro first s₁ done
  refine done.eat (k := .symbol .colon) nofun (fun s₂ done => ?_) fun _ => ?_
  · have read : Gathers source s s₂ ([] ++ .part .value first :: [sign .colon]) := done
    refine (read.targetAmong .store).bind ?_
    intro target s₃ done
    refine done.bind hr.expression ?_
    intro annotation s₄ done
    refine done.bind (after?_spells (value_spells hr)) ?_
    intro assigned s₅ done
    exact done.completeStmtFrom (.annAssign · target annotation assigned) (.inl rfl) rfl
      fun _ => ⟨rfl, rfl⟩
  refine .look rfl ?_
  split
  next op is =>
    have there : s₁.current.kind = .symbol op.assigning := augmentedOperator?_eq is
    refine done.bump there nofun fun done => ?_
    have read : Gathers source s (advance s₁) ([] ++ .part .value first :: [sign op.assigning]) :=
      done
    refine (read.targetAmong .store).bind ?_
    intro target s₃ done
    refine done.bind (value_spells hr) ?_
    intro assigned s₄ done
    exact done.completeStmtFrom (.augAssign · target op assigned) (.inl rfl) rfl
      fun _ => ⟨rfl, rfl⟩
  · refine .look rfl ?_
    split
    · exact assignStmt_spells hr done
    · exact done.completeStmtFrom (.expr · first) (.inl rfl) rfl fun _ => ⟨rfl, rfl⟩

lemma smallStmt_spells : SpellsStmt source (smallStmt rules) := by
  intro s
  refine .look rfl ?_
  split
  next is => exact wordStmt_spells is .pass fun _ => ⟨rfl, rfl⟩
  next is => exact wordStmt_spells is .breakLoop fun _ => ⟨rfl, rfl⟩
  next is => exact wordStmt_spells is .continueLoop fun _ => ⟨rfl, rfl⟩
  next is => exact returnStmt_spells hr is
  next is => exact deleteStmt_spells hr is
  next is => exact declarationStmt_spells is .global fun _ _ => ⟨rfl, rfl⟩
  next is => exact declarationStmt_spells is .nonlocal fun _ _ => ⟨rfl, rfl⟩
  next is => exact importStmt_spells is
  next is => exact importFromStmt_spells is
  next is => exact raiseStmt_spells hr is
  next is => exact assertStmt_spells hr is
  · exact exprStmt_spells hr s

/-- One statement of a line. -/
lemma progressing_small (s : ParserState) :
    Ends (progressing (smallStmt rules)) s fun d s' => Gathers source s s' [.stmt d] := by
  have small (s : ParserState) : Ends (smallStmt rules) s fun d s' =>
      Gathers source s s' [.stmt d] ∧ [Segment.stmt d].any Segment.isSolid = true :=
    ⟨smallStmt_spells hr s, rfl⟩
  exact (progressing_spells (f := fun d => [.stmt d]) small s).1

/-- The next statement of a line, behind its semicolon. -/
lemma nextSmallStmt?_spells : Spells source (nextSmallStmt? rules) fun o =>
    o.elim [.gap] fun d => [.gap, .stmt d] := by
  intro s
  have begun := Gathers.start source s
  refine eat_cases (.symbol .semicolon) s (fun there => ?_) fun _ => begun.noGap
  have taken := begun.takeGap there (.inr rfl) nofun
  refine .look rfl (.look rfl ?_)
  split
  · exact taken
  · exact Ends.bind (progressing_small hr (advance s)) fun d s₁ done => taken.append done

omit hr in
/-- Statements with a gap between each two, and one at the end. -/
lemma lines_cons (first : Stmt) (others : List Stmt) :
    .stmt first :: others.flatMap (fun d => [.gap, .stmt d]) ++ [.gap]
      = Segment.lines (first :: others) := by
  induction others generalizing first with
  | nil => rfl
  | cons second others ih =>
    show _ = .stmt first :: .gap :: Segment.lines (second :: others)
    rw [List.flatMap_cons, ← ih second]
    rfl

lemma simpleStmts_spells (s : ParserState) : Ends (simpleStmts rules) s fun ss s' =>
    Gathers source s s' (Segment.lines ss) ∧ (Segment.lines ss).any Segment.isSolid = true := by
  refine Ends.bind (progressing_small hr s) ?_
  intro first s₁ done
  refine done.bind (collect_spells (nextSmallStmt?_spells hr) rfl (.single (List.forall_mem_nil _))) ?_
  intro others s₂ done
  set read := .stmt first :: others.flatMap (fun d => [Segment.gap, .stmt d]) with read_eq
  have done : Gathers source s s₂ (read ++ [.gap]) := done.congr (by simp [read_eq])
  have finish (s₃ : ParserState) (done : Gathers source s s₃ (read ++ [.gap])) :
      Gathers source s s₃ (Segment.lines (first :: others))
        ∧ (Segment.lines (first :: others)).any Segment.isSolid = true :=
    ⟨done.congr (lines_cons first others), rfl⟩
  refine eat_cases .newline s₂ (fun there => ?_) fun _ => ?_
  · exact finish _ (done.takeGap there (.inl rfl) nofun).merge
  · refine .look rfl ?_
    dsimp only
    split
    · refine done.note fun s₃ broken => broken.skip skipLine_skips fun _ s₄ broken => ?_
      exact broken.skip (eat_skips _) fun _ s₅ broken => finish _ (broken.gathers rfl)
    · exact finish _ done

/-! ## Compound statements -/

omit hr in
lemma skipBlocksAtMost_skips (n level : ℕ) : Skips source (skipBlocksAtMost n level) := by
  induction n generalizing level with
  | zero => exact fun s => .nothing trivial
  | succ n ih =>
    cases level with
    | zero => exact fun s => .nothing trivial
    | succ level =>
      intro s
      refine .look rfl ?_
      split
      · exact .nothing trivial
      have first : Ends bump s fun _ s' => Yields source s s' [] fun _ => True := bump_skips s
      refine first.bind fun t s₁ taken => ?_
      split
      · exact taken.trans (ih _ s₁) fun _ _ _ _ => trivial
      · exact taken.trans (ih _ s₁) fun _ _ _ _ => trivial
      · exact taken.trans (ih _ s₁) fun _ _ _ _ => trivial

omit hr in
lemma skipBlock_skips : Skips source skipBlock := fun s => .look rfl (skipBlocksAtMost_skips _ _ s)

variable (hb : blocks.Spelling source)
include hb

omit hr in
lemma blockAfter_spells (k : Keyword) :
    Spells source (blockAfter blocks k) (Segment.blockAfter k) := by
  intro s
  refine (Gathers.start source s).eat (k := .keyword k) nofun (fun s₁ done => ?_) fun _ => ?_
  · have read : Ends blocks.block s₁ fun ss s' => Gathers source s s'
        ([] ++ .token (.keyword k) :: .token (.symbol .colon) :: .gap :: Segment.lines ss) :=
      done.append (hb.block s₁)
    exact Gathers.both read
  · exact (absent _ (.start source s)).noGap

lemma ifStmt_spells (isElif : Bool)
    (there : s.current.kind = .keyword (if isElif then .kElif else .kIf)) :
    Ends (ifStmt rules blocks) s fun d s' => Gathers source s s' [.stmt d] := by
  refine (Gathers.start source s).bump there nofun fun begun => ?_
  refine begun.bind (namedExpression_spells hr) ?_
  intro test s₁ done
  refine done.bind hb.block ?_
  intro body s₂ done
  have which : (s.current.kind == .keyword .kElif) = isElif := by
    rw [there]
    cases isElif <;> rfl
  have whole (orelse : List Stmt) (s₃ : ParserState) (done : Gathers source s s₃
      ([word (if isElif then .kElif else .kIf), .part .named test] ++ Segment.block body
        ++ Segment.blockAfter .kElse orelse)) :
      Ends (completeStmtFrom s.position
        (.ifElse · (s.current.kind == .keyword .kElif) test body orelse)) s₃
        fun d s' => Gathers source s s' [.stmt d] := by
    rw [which]
    exact done.completeStmtFrom (.ifElse · isElif test body orelse) (.inl rfl) rfl
      fun _ => ⟨rfl, rfl⟩
  refine .look rfl ?_
  dsimp only
  split
  next elif =>
    have branch := hb.branch s₂ (eq_of_beq elif)
    refine branch.bind fun inner s₃ inside => whole [inner] s₃ ?_
    have apart := (absent [.keyword .kElse, .symbol .colon] done).noGap
    exact ((apart.append inside).noGap).congr (by simp [Segment.blockAfter, Segment.lines])
  · exact done.bind (blockAfter_spells hb .kElse) whole

lemma whileStmt_spells (there : s.current.kind = .keyword .kWhile) :
    Ends (whileStmt rules blocks) s fun d s' => Gathers source s s' [.stmt d] := by
  refine (Gathers.start source s).bump there nofun fun begun => ?_
  refine begun.bind (namedExpression_spells hr) ?_
  intro test s₁ done
  refine done.bind hb.block ?_
  intro body s₂ done
  refine done.bind (blockAfter_spells hb .kElse) ?_
  intro orelse s₃ done
  exact done.completeStmtFrom (.whileLoop · test body orelse) (.inl rfl) rfl fun _ => ⟨rfl, rfl⟩

lemma forStmt_spells (async? : Option ℕ) (start : async?.getD s₁.position = s.position)
    (there : s₁.current.kind = .keyword .kFor)
    (h : Gathers source s s₁ (Stmt.asyncSegments async?.isSome)) :
    Ends (forStmt rules blocks async?) s₁ fun d s' => Gathers source s s' [.stmt d] := by
  refine h.bump there nofun fun begun => ?_
  refine begun.bind (operands_spells hr) ?_
  intro e s₂ done
  refine (done.target .store).bind ?_
  intro target s₃ done
  refine done.bind (expectKeyword_spells .kIn) ?_
  intro _ s₄ done
  refine done.bind (expressions_spells hr) ?_
  intro iter s₅ done
  refine done.bind hb.block ?_
  intro body s₆ done
  refine done.bind (blockAfter_spells hb .kElse) ?_
  intro orelse s₇ done
  exact done.completeStmtFrom (.forLoop · async?.isSome target iter body orelse) (.inl start)
    (by simp [Segment.isSolid]) fun _ => ⟨rfl, by simp [Stmt.segments]⟩

omit hb in
lemma handlerHead_spells : Spells source (handlerHead rules) fun head =>
    Segment.maybe (.operand 1) head.1
      ++ head.2.toList.flatMap fun ident => [word .kAs, .name ident] := by
  intro s
  refine .look rfl ?_
  split
  · exact Gathers.start source s
  refine (Gathers.start source s).bind hr.expression ?_
  intro type s₁ done
  exact done.bind asName?_spells fun name s₂ done => done

lemma handler?_spells : Spells source (handler? rules blocks) fun o => o.elim [] Handler.segments := by
  intro s
  refine .look rfl ?_
  split
  · exact Gathers.start source s
  next there =>
  have word : s.current.kind = .keyword .kExcept := by
    have isThere : (atKeyword .kExcept).run s |>.1 := by simpa using there
    exact eq_of_beq isThere
  refine (Gathers.start source s).bump word (by simp) fun begun => ?_
  have rest (g : Bool) (s₁ : ParserState)
      (done : Gathers source s s₁ [.token (.keyword .kExcept), .optional [.symbol .star]]) :
      Ends (do
        let head ← handlerHead rules
        let body ← blocks.block
        return some ⟨head.1, head.2, body, ← spanFrom s.position⟩) s₁
        fun o s' => Gathers source s s' (o.elim [] Handler.segments) := by
    refine done.bind (handlerHead_spells hr) ?_
    rintro ⟨type, name⟩ s₂ done
    refine done.bind hb.block ?_
    intro body s₃ done
    exact .look rfl (done.give (f := fun o : Option (Handler Stmt) => o.elim [] Handler.segments)
      (by simp [Handler.segments]))
  refine begun.eat (k := .symbol .star) (by simp) (fun s₁ done => ?_) fun _ => ?_
  · exact rest true s₁ (trailing .star done)
  · exact rest false _ (absent [.symbol .star] begun)

lemma tryStmt_spells (there : s.current.kind = .keyword .kTry) :
    Ends (tryStmt rules blocks) s fun d s' => Gathers source s s' [.stmt d] := by
  refine (Gathers.start source s).bump there nofun fun begun => ?_
  refine begun.bind hb.block ?_
  intro body s₁ done
  refine done.bind (collect_spells_all (handler?_spells hr hb)) ?_
  intro handlers s₂ done
  refine done.bind (blockAfter_spells hb .kElse) ?_
  intro orelse s₃ done
  refine done.bind (blockAfter_spells hb .kFinally) ?_
  intro finalbody s₄ done
  have whole (s₅ : ParserState) (done : Gathers source s s₅ (word .kTry :: Segment.block body
      ++ handlers.flatMap (·.segments) ++ Segment.blockAfter .kElse orelse
      ++ Segment.blockAfter .kFinally finalbody)) :
      Ends (completeStmtFrom s.position (.tryBlock · body handlers orelse finalbody)) s₅
        fun d s' => Gathers source s s' [.stmt d] :=
    done.completeStmtFrom (.tryBlock · body handlers orelse finalbody) (.inl rfl) rfl
      fun _ => ⟨rfl, rfl⟩
  dsimp only
  split
  · exact done.note fun s₅ broken => whole s₅ (broken.gathers rfl)
  · exact whole s₄ done

omit hb in
lemma withItem_spells : Spells source (withItem rules) WithItem.segments := by
  intro s
  refine (Gathers.start source s).bind hr.expression ?_
  intro context s₁ done
  have bound : SpellsExpr source (do target .store (← Parser.operand rules)) .target := by
    intro s
    refine (Gathers.start source s).bind (operand_spells hr) ?_
    exact fun e s₁ done => done.target .store
  refine done.eat (k := .keyword .kAs) nofun (fun s₂ done => ?_) fun _ => ?_
  · exact (done.wordThen bound).bind fun target s₃ done => done
  · exact (done.congr (List.append_nil _).symm : Gathers source s s₁ (WithItem.segments ⟨context, none⟩))

lemma withStmt_spells (async? : Option ℕ) (start : async?.getD s₁.position = s.position)
    (there : s₁.current.kind = .keyword .kWith)
    (h : Gathers source s s₁ (Stmt.asyncSegments async?.isSome)) :
    Ends (withStmt rules blocks async?) s₁ fun d s' => Gathers source s s' [.stmt d] := by
  refine h.bump there nofun fun begun => ?_
  have item : Spells source (some <$> withItem rules) fun o => o.elim [] WithItem.segments :=
    Spells.map (withItem_spells hr)
  refine begun.bind (separated_spells item) ?_
  intro items s₂ done
  refine done.bind hb.block ?_
  intro body s₃ done
  exact done.completeStmtFrom (.withBlock · async?.isSome items body) (.inl start)
    (by simp [Segment.isSolid, TokenKind.takesSpace, TokenKind.isLayout])
    fun _ => ⟨rfl, by simp [Stmt.segments]⟩

omit hb in
/-- The parameters of a function with their parentheses. -/
lemma parametersOrMissing_spells : Spells source (parametersOrMissing rules) fun ps =>
    sign .leftParen :: Segment.list (ps.params.map (·.segments)) ++ [sign .rightParen] := by
  intro s
  refine .look rfl ?_
  split
  next there =>
    refine (Gathers.start source s).bump (eq_of_beq there) nofun fun begun => ?_
    refine begun.bind (params_spells hr .rightParen true) ?_
    intro ps s₁ done
    refine done.bind (expectSymbol_spells .rightParen) ?_
    exact fun _ s₂ done => .look rfl done
  · exact (Gathers.start source s).note fun s₁ broken => .look rfl (broken.gathers rfl)

/-- A function starts with its decorators, with an `async`, or with its word. -/
lemma functionStmt_spells (decorators : List Expr) (isAsync : Bool)
    (h : Gathers source s s₁ (Stmt.decoratorSegments decorators ++ Stmt.asyncSegments isAsync)) :
    Ends (functionStmt rules blocks decorators s.position isAsync) s₁
      fun d s' => Gathers source s s' [.stmt d] := by
  refine h.bind (expectKeyword_spells .kDef) ?_
  intro _ s₂ done
  refine done.bind nameOrMissing_spells ?_
  intro name s₃ done
  refine done.bind (parametersOrMissing_spells hr) ?_
  intro params s₄ done
  refine done.bind (after?_spells hr.expression) ?_
  intro returns s₅ done
  refine done.bind hb.block ?_
  intro body s₆ done
  exact done.completeStmtFrom
    (fun mark => .functionDef ⟨mark, name, decorators, params, returns, body, isAsync⟩) (.inl rfl)
    (by simp [Segment.isSolid]) fun _ => ⟨rfl, by simp [Stmt.segments]⟩

/-- A class starts with its decorators or with its word. -/
lemma classStmt_spells (decorators : List Expr) (there : s₁.current.kind = .keyword .kClass)
    (h : Gathers source s s₁ (Stmt.decoratorSegments decorators)) :
    Ends (classStmt rules blocks decorators s.position) s₁
      fun d s' => Gathers source s s' [.stmt d] := by
  refine h.bump there (by simp) fun done => ?_
  refine done.bind nameOrMissing_spells ?_
  intro name s₂ done
  have whole (bases : List (Arg Expr)) (s₃ : ParserState) (done : Gathers source s s₃
      (Stmt.decoratorSegments decorators ++ [word .kClass] ++ [.name name]
        ++ Stmt.baseSegments bases)) : Ends (do
        let body ← blocks.block
        completeStmtFrom s.position fun mark => .classDef ⟨mark, name, decorators, bases, body⟩) s₃
        fun d s' => Gathers source s s' [.stmt d] := by
    refine done.bind hb.block ?_
    intro body s₄ done
    exact done.completeStmtFrom (fun mark => .classDef ⟨mark, name, decorators, bases, body⟩)
      (.inl rfl) (by simp [Segment.isSolid]) fun _ => ⟨rfl, by simp [Stmt.segments]⟩
  refine done.eat (k := .symbol .leftParen) (by simp) (fun s₃ done => ?_) fun _ => ?_
  · refine done.bind (args_spells hr) ?_
    intro bases s₄ done
    refine done.bind (expectSymbol_spells .rightParen) ?_
    intro _ s₅ done
    refine whole bases s₅ ?_
    cases bases with
    | nil => exact Gathers.both (done.congr (by simp [Segment.list]))
    | cons base bases => exact done.congr (by simp [Stmt.baseSegments])
  · exact whole [] s₂ (absent _ done)

omit hb in
lemma decorator?_spells : Spells source (decorator? rules) fun o =>
    o.elim [] fun e => [sign .atSign, .part .named e, .token .newline] := by
  intro s
  refine (Gathers.start source s).eat (k := .symbol .atSign) nofun (fun s₁ done => ?_)
    fun _ => .start source s
  refine done.bind (namedExpression_spells hr) ?_
  intro e s₂ done
  refine done.eat (k := .newline) nofun (fun s₃ done => done) fun _ => ?_
  refine done.note fun s₃ broken => broken.skip skipLine_skips fun _ s₄ broken => ?_
  exact broken.skip (eat_skips _) fun _ s₅ broken => broken.gathers rfl

lemma decorated_spells : SpellsStmt source (decorated rules blocks) := by
  intro s
  have decorators := collect_spells_all (decorator?_spells hr)
  refine .look rfl ((Gathers.start source s).bind decorators ?_)
  intro decorators s₁ done
  have decorating : Gathers source s s₁ (Stmt.decoratorSegments decorators) := done
  refine .look rfl ?_
  split
  · exact functionStmt_spells hr hb decorators false (decorating.congr (List.append_nil _).symm)
  next there => exact classStmt_spells hr hb decorators there decorating
  refine .look rfl ?_
  split
  next isAsync =>
    have there : s₁.current.kind = .keyword .kAsync :=
      eq_of_beq (Bool.and_eq_true_iff.1 isAsync).1
    refine decorating.bump there nofun fun done => ?_
    exact functionStmt_spells hr hb decorators true done
  refine decorating.note fun s₂ broken => ?_
  have discarded : Ends (discard (decorators.flatMap (·.descendants))) s₂ fun _ s' =>
      Broken source s s' [] := by
    unfold Broken
    refine Yields.discard broken ?_ nofun
    rw [Stmt.nodes_decoratorSegments, Node.flatMap_numbers_reads, List.map_flatMap]
    exact .refl _
  refine discarded.bind fun _ s₃ broken => .look rfl (broken.completeStmt fun _ => ⟨rfl, rfl⟩)

lemma asyncStmt_spells (there : s.current.kind = .keyword .kAsync)
    (follows : followsAsync ((s.later.head?.map (·.kind)).getD .endOfFile) = true) :
    Ends (asyncStmt rules blocks) s fun d s' => Gathers source s s' [.stmt d] := by
  refine (Gathers.start source s).bump there nofun fun begun => ?_
  refine .look rfl ?_
  split
  · exact functionStmt_spells hr hb [] true begun
  next is => exact forStmt_spells hr hb (some s.position) rfl is begun
  next notDef notFor =>
    have next : (advance s).current.kind = (s.later.head?.map (·.kind)).getD .endOfFile := by
      refine advance_kind (by rw [there]; nofun) (fun is => ?_) rfl
      rw [is] at follows
      nomatch follows
    rw [← next] at follows
    have isWith : (advance s).current.kind = .keyword .kWith := by
      unfold followsAsync at follows
      split at follows
      next is => exact absurd is notDef
      next is => exact absurd is notFor
      next is => exact is
      · nomatch follows
    exact withStmt_spells hr hb (some s.position) rfl isWith begun

lemma statement_spells (s : ParserState) : Ends (statement rules blocks) s fun ss s' =>
    Gathers source s s' (Segment.lines ss) ∧ (Segment.lines ss).any Segment.isSolid = true := by
  have begun := Gathers.start source s
  have single {step : Parser Stmt} (h : Ends step s fun d s' => Gathers source s s' [.stmt d]) :
      Ends (statement.single step) s fun ss s' => Gathers source s s' (Segment.lines ss)
        ∧ (Segment.lines ss).any Segment.isSolid = true :=
    h.bind fun d s₁ done => ⟨done.noGap, rfl⟩
  refine .look rfl ?_
  split
  next is => exact single (ifStmt_spells hr hb false is)
  next is => exact single (whileStmt_spells hr hb is)
  next is => exact single (forStmt_spells hr hb none rfl is begun)
  next is => exact single (tryStmt_spells hr hb is)
  next is => exact single (withStmt_spells hr hb none rfl is begun)
  next is => exact .look rfl (single (functionStmt_spells hr hb [] false begun))
  next is => exact .look rfl (single (classStmt_spells hr hb [] is begun))
  next is => exact single (decorated_spells hr hb s)
  next is =>
    refine .look rfl ?_
    split
    next follows => exact single (asyncStmt_spells hr hb is follows)
    · exact simpleStmts_spells hr s
  · exact simpleStmts_spells hr s

/-! ## Blocks and modules -/

lemma blockStep?_spells : Spells source (blockStep? rules blocks) fun o =>
    o.elim [] fun ss => .gap :: Segment.lines ss := by
  intro s
  have begun := Gathers.start source s
  refine .look rfl ?_
  split
  · exact begun
  · exact begun
  next is => exact (begun.takeGap is (.inl rfl) nofun :)
  · refine begun.note fun s₁ broken => broken.skip bump_skips ?_
    exact fun _ s₂ broken => broken.gathers rfl
  · refine Ends.bind (progressing_spells (statement_spells hr hb) s) ?_
    rintro ss s₁ ⟨read, -⟩
    exact begun.noGap.append read

lemma moduleStep?_spells : Spells source (moduleStep? rules blocks) fun o =>
    o.elim [] fun ss => .gap :: Segment.lines ss := by
  intro s
  have begun := Gathers.start source s
  refine .look rfl ?_
  split
  · exact begun
  next is => exact (begun.takeGap is (.inl rfl) nofun :)
  next is => exact (begun.takeGap is (.inl rfl) nofun :)
  · refine begun.note fun s₁ broken => broken.skip bump_skips ?_
    exact fun _ s₂ broken => broken.gathers rfl
  · refine Ends.bind (progressing_spells (statement_spells hr hb) s) ?_
    rintro ss s₁ ⟨read, -⟩
    exact begun.noGap.append read

omit hr hb in
/-- Lines of several steps behind a gap. -/
lemma flatten_spells {s₀ : ParserState} {bodies : List (List Stmt)}
    (h : Gathers source s₀ s (xs ++ [.gap] ++ bodies.flatMap fun ss => .gap :: Segment.lines ss)) :
    Gathers source s₀ s (xs ++ .gap :: Segment.lines bodies.flatten) := by
  refine h.recast ?_ fun ts spelled => ?_
  · simp [Segment.nodes_flatMap, stmts_flatten]
  · rw [List.append_assoc] at spelled
    obtain ⟨_, _, rfl, first, rest⟩ := spelled.split
    exact first.append rest.flatten

lemma block_spells : Spells source (block rules blocks) Segment.block := by
  intro s
  refine (Gathers.start source s).expectSymbol (fun s₁ colon => ?_) fun s₁ broken => ?_
  · refine eat_cases .newline s₁ (fun there => ?_) fun _ => ?_
    · have ended := colon.takeGap there (.inl rfl) nofun
      refine eat_cases .indent (advance s₁) (fun there => ?_) fun _ => ?_
      · have indented := (ended.takeGap there (.inl rfl) nofun).merge
        refine .look rfl ?_
        split
        · refine indented.note fun s₂ broken => broken.skip skipBlock_skips ?_
          exact fun _ s₃ broken => broken.gathers rfl
        refine indented.bind (nested_spells (collect_spells_all (blockStep?_spells hr hb))) ?_
        intro bodies s₂ done
        have flat : Gathers source s s₂ (Segment.block bodies.flatten) := flatten_spells done
        have closed (there : s₂.current.kind = .dedent) :
            Gathers source s (advance s₂) (Segment.block bodies.flatten) := by
          have dedented := flat.takeGap there (.inl rfl) nofun
          refine dedented.recast (by simp) fun ts spelled => ?_
          obtain ⟨_, _, rfl, first, rest⟩ := spelled.uncons
          have merged := Spelled.merge_lines rest
          rw [List.append_nil] at merged
          exact first.append merged
        exact eat_cases .dedent s₂ closed fun _ => flat
      · exact ended.note fun s₂ broken => broken.gathers rfl
    · have inline := colon.noGap.append (simpleStmts_spells hr s₁).1
      exact inline.congr (by simp [Segment.block])
  · refine broken.skip skipLine_skips fun _ s₂ broken => broken.skip (eat_skips _) ?_
    intro _ s₃ broken
    refine broken.skip (eat_skips _) fun indented s₄ broken => ?_
    dsimp only
    split
    · exact broken.skip skipBlock_skips fun _ s₅ broken => broken.gathers rfl
    · exact broken.gathers rfl

lemma moduleBody_spells : Spells source (moduleBody rules blocks) fun ss =>
    .gap :: Segment.lines ss := by
  intro s
  refine (Gathers.start source s).noGap.bind (collect_spells_all (moduleStep?_spells hr hb)) ?_
  intro bodies s₁ done
  exact flatten_spells done

/-- The loop over a module takes a token each time, and ends at the end of the text only. -/
lemma moduleStep?_progress (s : ParserState) : Ends (moduleStep? rules blocks) s fun o s' =>
    (o = none → s'.current.kind = .endOfFile)
      ∧ (o ≠ none → s'.problems = [] → s.Ready source → s'.later.length < s.later.length) := by
  have taken {k : TokenKind} (is : s.current.kind = k) (more : k ≠ .endOfFile)
      (ready : s.Ready source) : (advance s).later.length < s.later.length :=
    (advance_taken ready (is ▸ more)).2.length_lt (List.cons_ne_nil _ _)
  refine .look rfl ?_
  split
  next is => exact ⟨fun _ => is, fun some => absurd rfl some⟩
  next is => exact ⟨nofun, fun _ _ => taken is nofun⟩
  next is => exact ⟨nofun, fun _ _ => taken is nofun⟩
  · refine (Gathers.start source s).note fun s₁ broken => broken.skip bump_skips ?_
    exact fun _ s₂ broken => ⟨nofun, fun _ clean ready => (broken.spelled clean ready).2.elim
      fun _ none => none.2.elim⟩
  · refine Ends.bind (progressing_spells (statement_spells hr hb) s) ?_
    rintro ss s₁ ⟨read, solid⟩
    refine ⟨nofun, fun _ clean ready => ?_⟩
    obtain ⟨-, ts, took, spelled⟩ := read.spelled clean ready
    exact took.length_lt (spelled.ne_nil solid)

/-- In a text without problems the statements are read up to the end of the text. -/
lemma moduleBody_stops (s : ParserState) : Ends (moduleBody rules blocks) s fun _ s' =>
    s'.problems = [] ∧ s.Ready source → s'.current.kind = .endOfFile := by
  have loop : Ends (collect (moduleStep? rules blocks)) s fun _ s' =>
      s'.problems = [] ∧ s.Ready source → s'.current.kind = .endOfFile := by
    refine collect_stops
      (fun s₁ (inv : s₁.problems = [] → s.Ready source → s₁.Ready source) => ?_)
      fun _ ready => ready
    have read := moduleStep?_spells hr hb s₁
    obtain ⟨ends, progress⟩ := moduleStep?_progress hr hb s₁
    have back (clean : ((moduleStep? rules blocks).run s₁).2.problems = []) (ready : s.Ready source) :
        s₁.problems = [] ∧ s₁.Ready source := ⟨read.clean clean, inv (read.clean clean) ready⟩
    refine ⟨fun clean ready => ?_, fun fair => ?_, fun fair => ⟨ends, fun some => ?_⟩⟩
    · exact (read.spelled clean (back clean ready).2).1
    · exact ⟨(back fair.1 fair.2).1, fair.2⟩
    · exact progress some fair.1 (back fair.1 fair.2).2
  exact loop.bind fun _ _ stops => stops

end

lemma exhaustedStmt_spells : SpellsStmt source exhaustedStmt := by
  intro s
  exact (Gathers.start source s).note fun s₁ broken =>
    .look rfl (broken.completeStmt fun _ => ⟨rfl, rfl⟩)

lemma exhaustedStmt_problems (s : ParserState) :
    Ends exhaustedStmt s fun _ s' => s'.problems ≠ [] := nofun

end Parser

/-! ## The circle of the blocks -/

lemma Blocks.none_spelling : Blocks.none.Spelling source := by
  refine ⟨fun s => ?_, fun s _ => Parser.exhaustedStmt_spells s⟩
  have read : Ends Parser.exhaustedStmt s fun d s' =>
      Gathers source s s' [.stmt d] ∧ s'.problems ≠ [] :=
    ⟨Parser.exhaustedStmt_spells s, Parser.exhaustedStmt_problems s⟩
  refine read.bind ?_
  rintro d s₁ ⟨read, problems⟩
  exact (read.spoilt problems rfl : Gathers source s s₁ (Segment.block [d]))

lemma Blocks.Spelling.next (hr : rules.Spelling source) (hb : blocks.Spelling source) :
    (blocks.next rules).Spelling source :=
  ⟨Parser.block_spells hr hb, fun _ there => Parser.ifStmt_spells hr hb true there⟩

/-- However often the circle of the blocks is tied, they read what their results consist of. -/
theorem Blocks.upTo_spelling (hr : rules.Spelling source) (n : ℕ) :
    (Blocks.upTo rules n).Spelling source := by
  induction n with
  | zero => exact none_spelling
  | succ n ih =>
    rw [upTo_succ]
    exact ih.next hr

/-! ## A whole text -/

lemma start_ready (text : String) : (ParserState.start text).Ready text.toList :=
  ⟨start_live text, start_ended text⟩

/-- What reading a text gathers are the lines of its tree. -/
lemma parse_gathers (text : String) : Gathers text.toList (.start text) (.final text)
    (.gap :: Segment.lines (parse text).module.body) := by
  set size := Text.width text.toList
  have rules : (Rules.upTo (2 * size + 8)).Spelling text.toList := Rules.upTo_spelling _
  have blocks := Blocks.upTo_spelling rules (size + 8)
  exact Parser.moduleBody_spells rules blocks (.start text)

/-- The nodes of a tree and the expressions that were set aside are numbered. -/
theorem parse_numbered (text : String) : ∃ a b, Numbered a b
    (Node.stmts (parse text).module.body) (parse text).module.unused := by
  obtain ⟨dropped, unused, numbered⟩ := (parse_gathers text).numbered
  rw [Segment.nodes_gap, Segment.nodes_lines] at numbered
  have whole : (parse text).module.unused = dropped.reverse :=
    congrArg List.reverse (unused.trans (List.append_nil _))
  refine ⟨_, _, numbered.perm (List.Perm.append_left _ ?_) numbered.descending⟩
  rw [whole]
  exact (List.reverse_perm dropped).map _

/-- The tokens of a text without problems spell the lines of its tree, up to the end of the text. -/
theorem parse_spelled {text : String} (valid : (parse text).problems = []) :
    ∃ ts ending, (lex text).tokens = ts ++ [ending] ∧ ending.kind = .endOfFile
      ∧ Spelled text.toList (.gap :: Segment.lines (parse text).module.body) ts := by
  have clean := final_problems valid
  have ready := start_ready text
  obtain ⟨ready', ts, taken, spelled⟩ := (parse_gathers text).spelled clean ready
  have atEnd : (ParserState.final text).current.kind = .endOfFile := by
    have rules : (Rules.upTo (2 * Text.width text.toList + 8)).Spelling text.toList :=
      Rules.upTo_spelling _
    have blocks := Blocks.upTo_spelling rules (Text.width text.toList + 8)
    exact Parser.moduleBody_stops rules blocks (.start text) ⟨clean, ready⟩
  refine ⟨ts, (ParserState.final text).current, ?_, atEnd, spelled⟩
  rw [← start_tokens, taken.tokens, Parser.later_of_endOfFile ready'.ended atEnd]

end MethodLift.Syntax
