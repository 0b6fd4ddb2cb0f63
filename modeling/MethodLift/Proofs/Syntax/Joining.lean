import MethodLift.Proofs.Syntax.LineBreaks
import MethodLift.Proofs.Syntax.Pieces

/-!
# The tokens of a text, layout apart

What a text consists of, layout apart, does not depend on the lines around it: it is found piece by
piece (`solids`).  Blanks, line breaks and backslashes may be left out of a text one by one
(`solids_skip`), and lines without tokens as a whole (`solids_emptyLine`).  Whatever the layout is, the
tokens of a text that take space are those of its pieces (`lexFrom_solids`).
-/

namespace MethodLift.Syntax

open Text (width)

/-! ## What takes space -/

/-- The token of a piece, if it takes space, with what is wrong with it. -/
def contributed (piece : Piece) (taken : List Char) (span : Span) : List (Token × List Problem) :=
  let step := contribution .module piece taken span
  (step.tokens.filter (·.kind.takesSpace)).map (·, step.problems)

/-- The tokens that take space of a text that begins at an offset. -/
def solids (offset : ℕ) : List Char → List (Token × List Problem)
  | [] => []
  | c :: rest =>
    let found := Piece.read c rest
    let stop := offset + width found.2.taken
    contributed found.1 found.2.taken ⟨offset, stop⟩ ++ solids stop found.2.rest
termination_by cs => cs.length
decreasing_by exact Piece.read_rest_length c rest

@[simp] lemma solids_nil (offset : ℕ) : solids offset [] = [] := by rw [solids]

lemma solids_cons (offset : ℕ) (c : Char) (cs : List Char) :
    solids offset (c :: cs) = contributed (Piece.read c cs).1 (Piece.read c cs).2.taken
        ⟨offset, offset + width (Piece.read c cs).2.taken⟩
      ++ solids (offset + width (Piece.read c cs).2.taken) (Piece.read c cs).2.rest := by
  rw [solids]

lemma solids_break {c : Char} (h : isLineEnd c = true) (offset : ℕ) (cs : List Char) :
    solids offset (c :: cs)
      = solids (offset + width (c :: (Piece.afterBreak c cs).taken)) (Piece.afterBreak c cs).rest := by
  rw [solids_cons, Piece.read_of_isLineEnd h]
  rfl

/-- A carriage return and a line feed may be taken for two breaks. -/
lemma solids_lineEnd {c : Char} (h : isLineEnd c = true) (offset : ℕ) (cs : List Char) :
    solids offset (c :: cs) = solids (offset + c.utf8Size) cs := by
  rw [solids_break h]
  unfold Piece.afterBreak
  split
  next rest =>
    split
    next returns =>
      rw [solids_break (by decide) _ rest, Piece.afterBreak_feed_eq]
      simp [Nat.add_assoc]
    · simp
  · simp

lemma solids_skip {c : Char} (h : isSkipped c = true) (offset : ℕ) (cs : List Char) :
    solids offset (c :: cs) = solids (offset + c.utf8Size) cs := by
  rw [isSkipped, Bool.or_eq_true, Bool.or_eq_true, beq_iff_eq] at h
  rcases h with (blank | lineEnd) | rfl
  · rw [solids_cons, Piece.read_of_isBlank blank]
    simp [contributed, contribution]
  · exact solids_lineEnd lineEnd offset cs
  cases cs with
  | nil =>
    rw [solids_cons]
    simp [Piece.read, contributed, contribution, isBlank, isLineEnd]
  | cons d ds =>
    rw [solids_cons]
    by_cases lineEnd : isLineEnd d = true
    · rw [Piece.read_joint lineEnd, solids_break lineEnd]
      simp [contributed, contribution, Nat.add_assoc]
    · rw [Piece.read_strayBackslash lineEnd]
      simp [contributed, contribution]

/-! ## The tokens of a text are its solids -/

/-- What a piece contributes does not depend on the layout around it. -/
lemma contribution_filter (layout : Layout) (piece : Piece) (taken : List Char) (span : Span) :
    (contribution layout piece taken span).tokens.filter (·.kind.takesSpace)
        = (contributed piece taken span).map (·.1)
      ∧ ∀ x ∈ contributed piece taken span,
        x.2 = (contribution layout piece taken span).problems := by
  cases piece with
  | blank | comment | joint | strayBackslash => exact ⟨rfl, List.forall_mem_nil _⟩
  | number | symbol | unknown => exact ⟨rfl, List.forall_mem_singleton.2 rfl⟩
  | word =>
    have takes : (wordKind (String.ofList taken)).takesSpace = true := by
      rw [wordKind]
      split <;> rfl
    simp [contributed, contribution, takes]
  | string formatted =>
    cases formatted <;> exact ⟨rfl, List.forall_mem_singleton.2 rfl⟩
  | lineBreak =>
    refine ⟨?_, List.forall_mem_nil _⟩
    rw [contribution]
    split
    · split <;> rfl
    · rfl

lemma solids_skips {cs : List Char} (skipped : ∀ c ∈ cs, isSkipped c = true) (offset : ℕ)
    (rest : List Char) : solids offset (cs ++ rest) = solids (offset + width cs) rest := by
  induction cs generalizing offset with
  | nil => rfl
  | cons c cs ih =>
    obtain ⟨first, others⟩ := List.forall_mem_cons.1 skipped
    rw [List.cons_append, solids_skip first, ih others, Text.width_cons, Nat.add_assoc]

/-- A longest front part ends in front of a character without the property. -/
lemma Cut.head?_rest_spanning (p : Char → Bool) (cs : List Char) :
    ∀ c ∈ (Cut.spanning p cs).rest.head?, p c = false := by
  intro c hc
  have first := List.head?_dropWhile_not p cs
  rw [show (cs.dropWhile p).head? = some c from hc] at first
  simpa using first

lemma solids_comment (offset : ℕ) (cs : List Char) :
    solids offset ('#' :: cs) = solids (offset + width ('#' :: (Cut.spanning (!isLineEnd ·) cs).taken))
      (Cut.spanning (!isLineEnd ·) cs).rest := by
  rw [solids_cons]
  rfl

lemma solids_emptyLine {c : Char} (h : beginsEmptyLine c = true) (offset : ℕ) (cs : List Char) :
    solids offset (c :: cs)
      = solids (offset + width (emptyLine c cs).taken) (emptyLine c cs).rest := by
  unfold emptyLine
  split
  next is =>
    obtain rfl := beq_iff_eq.1 is
    rw [solids_comment]
    split
    next none =>
      rw [none, solids_nil, solids_nil]
    next d ds rest =>
      have lineEnd : isLineEnd d = true := by
        have stops := Cut.head?_rest_spanning (!isLineEnd ·) cs d (by rw [rest]; rfl)
        simpa using stops
      rw [rest, solids_break lineEnd]
      simp [Nat.add_assoc]
  next other =>
    have lineEnd : isLineEnd c = true := by
      rw [beginsEmptyLine, Bool.or_eq_true] at h
      exact h.resolve_left other
    rw [solids_break lineEnd]
    rfl

/-- The tokens of a text that take space are those of its pieces, whatever the layout is, and what is
wrong with one of them is a problem of the text. -/
theorem lexFrom_solids (layout : Layout) (offset : ℕ) (cs : List Char) :
    (lexFrom layout offset cs).tokens.filter (·.kind.takesSpace) = (solids offset cs).map (·.1)
      ∧ ∀ x ∈ solids offset cs, ∀ p ∈ x.2, p ∈ (lexFrom layout offset cs).problems := by
  have none (layout : Layout) (offset : ℕ) :
      (closing layout offset).filter (·.kind.takesSpace) = [] :=
    List.filter_eq_nil_iff.2 fun t ht => by rw [closing_takes_none t ht]; exact Bool.false_ne_true
  have blank {c : Char} {cs : List Char} : ∀ b ∈ (Cut.spanning isBlank (c :: cs)).taken,
      isSkipped b = true := by
    intro b hb
    rw [isSkipped, List.mem_takeWhile_imp hb]
    rfl
  fun_induction lexFrom layout offset cs with
  | case1 layout offset =>
    rw [solids_nil]
    exact ⟨none _ _, List.forall_mem_nil _⟩
  | case2 layout offset c rest begins blanks first shape =>
    have parts : blanks.taken ++ blanks.rest = c :: rest := Cut.spanning_append _ _
    rw [← parts, solids_skips blank, shape, solids_nil]
    exact ⟨none _ _, List.forall_mem_nil _⟩
  | case3 layout offset c rest begins blanks first d ds shape empty line =>
    next ih =>
    have parts : blanks.taken ++ blanks.rest = c :: rest := Cut.spanning_append _ _
    rw [← parts, solids_skips blank, shape, solids_emptyLine empty]
    exact ih
  | case4 layout offset c rest begins blanks first d ds shape some step =>
    next ih =>
    have parts : blanks.taken ++ blanks.rest = c :: rest := Cut.spanning_append _ _
    have layouts : step.tokens.filter (·.kind.takesSpace) = [] := by
      refine List.filter_eq_nil_iff.2 fun t ht => ?_
      rw [TokenKind.takesSpace, relevel_isLayout _ _ _ t ht]
      exact Bool.false_ne_true
    rw [← parts, solids_skips blank, shape]
    refine ⟨?_, fun x hx p hp => List.mem_append_right _ (ih.2 x hx p hp)⟩
    show (step.tokens ++ _).filter _ = _
    rw [List.filter_append, layouts, ih.1]
    rfl
  | case5 layout offset c rest inside found stop step =>
    next ih =>
    obtain ⟨tokens, problems⟩ := contribution_filter layout found.1 found.2.taken ⟨offset, stop⟩
    rw [solids_cons]
    refine ⟨?_, ?_⟩
    · show (step.tokens ++ _).filter _ = _
      rw [List.filter_append, List.map_append, ih.1]
      exact congrArg (· ++ _) tokens
    · refine List.forall_mem_append.2 ⟨fun x hx p hp => ?_, fun x hx p hp => ?_⟩
      · exact List.mem_append_left _ (problems x hx ▸ hp)
      · exact List.mem_append_right _ (ih.2 x hx p hp)

end MethodLift.Syntax
