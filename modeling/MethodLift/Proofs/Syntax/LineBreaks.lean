import MethodLift.Proofs.Syntax.WholeLines

/-!
# Logical lines end in line breaks

A logical line ends at a line break of the text, so tokens of different logical lines have one
between them (`lex_break`).  It may be a lone carriage return, which ends no line for the rest of the
program.
-/

namespace MethodLift

open Text (width)

namespace Syntax

/-! ## Line breaks -/

lemma Piece.read_lineBreak {c : Char} {cs : List Char} (h : (Piece.read c cs).1 = .lineBreak) :
    isLineEnd c = true ∧ (Piece.read c cs).2 = (Piece.afterBreak c cs).push c := by
  unfold Piece.read at h ⊢
  split at h
  · nomatch h
  next notBlank =>
  rw [if_neg notBlank]
  split at h
  · nomatch h
  next notComment =>
  rw [if_neg notComment]
  split at h
  next lineEnd =>
    rw [if_pos lineEnd]
    exact ⟨lineEnd, rfl⟩
  split at h
  · split at h
    · split at h <;> nomatch h
    · nomatch h
  split at h
  · nomatch h
  split at h
  · nomatch h
  split at h
  · split at h
    next found is =>
      obtain ⟨f, closed, kind⟩ := Piece.prefixedString?_kind is
      rw [h] at kind
      nomatch kind
    · nomatch h
  split at h <;> nomatch h

/-- A line break of a text stands between two offsets. -/
def Break (source : List Char) (m n : ℕ) : Prop :=
  ∃ u c v, source = u ++ c :: v ∧ isLineEnd c = true ∧ m ≤ width u
    ∧ width (u ++ c :: (Piece.afterBreak c v).taken) ≤ n

lemma Break.mono {source : List Char} {m m' n : ℕ} (h : Break source m n) (le : m' ≤ m) :
    Break source m' n := by
  obtain ⟨u, c, v, whole, lineEnd, start, stop⟩ := h
  exact ⟨u, c, v, whole, lineEnd, le.trans start, stop⟩

/-! ## Between tokens -/

lemma TokenKind.not_isLayout_of_takesSpace {k : TokenKind} (h : k.takesSpace = true) :
    k.isLayout = false := by
  rw [TokenKind.takesSpace, Bool.and_eq_true, Bool.not_eq_true'] at h
  exact h.1

/-- A piece contributes nothing, the layout at the end of a line, or one token that takes space. -/
lemma contribution_cases (layout : Layout) (piece : Piece) (taken : List Char) (span : Span) :
    ((contribution layout piece taken span).tokens = []
        ∧ (contribution layout piece taken span).next = layout)
      ∨ (piece = .lineBreak
        ∧ ∀ t ∈ (contribution layout piece taken span).tokens, t.kind.isLayout = true)
      ∨ ∃ t, (contribution layout piece taken span).tokens = [t] ∧ t.kind.takesSpace = true
        ∧ t.span = span
        ∧ (contribution layout piece taken span).next.lineStart = layout.lineStart := by
  cases piece with
  | blank | comment | joint | strayBackslash => exact .inl ⟨rfl, rfl⟩
  | number | symbol | unknown => exact .inr (.inr ⟨_, rfl, rfl, rfl, rfl⟩)
  | word =>
    refine .inr (.inr ⟨_, rfl, ?_, rfl, rfl⟩)
    rw [wordKind]
    split <;> rfl
  | string formatted =>
    refine .inr (.inr ⟨_, rfl, ?_, rfl, rfl⟩)
    cases formatted <;> rfl
  | lineBreak =>
    refine .inr (.inl ⟨rfl, ?_⟩)
    rw [contribution]
    split
    · split
      · exact List.forall_mem_singleton.2 rfl
      · simp
    · simp

/-- The tokens at the end of a text take no space. -/
lemma closing_takes_none {layout : Layout} {offset : ℕ} :
    ∀ t ∈ closing layout offset, t.kind.takesSpace = false := by
  obtain ⟨front, is, layouts⟩ := closing_eq layout offset
  rw [is]
  refine List.forall_mem_append.2 ⟨fun t ht => ?_, List.forall_mem_singleton.2 rfl⟩
  rw [TokenKind.takesSpace, layouts t ht]
  rfl

/-- Behind some tokens, a seam is one of the tokens after them. -/
lemma Seam.drop {front a b : List Token} (h : Seam (front ++ a) b) (some : a ≠ []) :
    Seam a b := by
  rcases h with none | ⟨last, is, layout⟩ | none
  · exact absurd (List.append_eq_nil_iff.1 none).2 some
  · rw [List.getLast?_append_of_ne_nil _ some] at is
    exact .inr (.inl ⟨last, is, layout⟩)
  · exact .inr (.inr none)

/-- Where layout comes first, a token that takes space stands behind it. -/
lemma behind_layout {front later a b : List Token} {x : Token} (parts : front ++ later = a ++ b)
    (layout : ∀ t ∈ front, t.kind.isLayout = true) (hx : x ∈ a)
    (takes : x.kind.takesSpace = true) : ∃ a', a = front ++ a' ∧ later = a' ++ b ∧ x ∈ a' := by
  have other : x ∉ front := fun early => by
    rw [TokenKind.takesSpace, layout x early] at takes
    cases takes
  rcases List.append_eq_append_iff.1 parts with ⟨a', rfl, rest⟩ | ⟨c, early, -⟩
  · exact ⟨a', rfl, rest, (List.mem_append.1 hx).resolve_left other⟩
  · exact absurd (early ▸ List.mem_append_left c hx) other

/-- No seam is directly behind a token that takes space, if such tokens follow. -/
lemma Seam.of_singleton {t : Token} {b : List Token} (h : Seam [t] b)
    (takes : t.kind.takesSpace = true) : ∀ x ∈ b, x.kind.takesSpace = false := by
  rcases h with none | ⟨last, is, layout⟩ | none
  · nomatch none
  · have same : t = last := Option.some.inj is
    rw [← same, TokenKind.not_isLayout_of_takesSpace takes] at layout
    nomatch layout
  · exact none

variable {source : List Char}

/-- Tokens behind layout come after a line break, if layout was read on the way to them.  At the start
of a line they need not: there the layout may be the indentation of that very line. -/
lemma break_of_seam {layout : Layout} {offset : ℕ} {before cs : List Char}
    (whole : source = before ++ cs) (size : width before = offset)
    (inLine : layout.lineStart = false) {a b : List Token}
    (parts : (lexFrom layout offset cs).tokens = a ++ b) (some : a ≠ []) (seam : Seam a b) :
    ∀ t ∈ b, t.kind.takesSpace = true → Break source offset t.span.start := by
  intro t ht takes
  -- the induction goes to the first line break that is the end of a logical line
  fun_induction lexFrom layout offset cs generalizing before a b with
  | case1 layout offset =>
    have parts : closing layout offset = a ++ b := parts
    rw [closing_takes_none t (parts ▸ List.mem_append_right a ht)] at takes
    cases takes
  | case2 _ _ _ _ begins => rw [inLine] at begins; cases begins
  | case3 _ _ _ _ begins => rw [inLine] at begins; cases begins
  | case4 _ _ _ _ begins => rw [inLine] at begins; cases begins
  | case5 layout offset c rest inside found stop step =>
    next ih =>
    have taken : found.2.taken ++ found.2.rest = c :: rest := Piece.read_taken_append_rest c rest
    have whole' : source = before ++ found.2.taken ++ found.2.rest := by
      rw [whole, ← taken, List.append_assoc]
    have size' : width (before ++ found.2.taken) = stop := by rw [Text.width_append, size]
    have parts : step.tokens ++ (lexFrom step.next stop found.2.rest).tokens = a ++ b := parts
    rcases contribution_cases layout found.1 found.2.taken ⟨offset, stop⟩ with
      ⟨none, same⟩ | ⟨lineBreak, layouts⟩ | ⟨first, one, takes', -, same⟩
    · have none : step.tokens = [] := none
      have same : step.next = layout := same
      rw [none, List.nil_append, same] at parts
      rw [same] at ih
      exact (ih whole' size' inLine parts some seam ht).mono (Nat.le_add_right _ _)
    · obtain ⟨lineEnd, cut⟩ := Piece.read_lineBreak lineBreak
      have cut : found.2.taken = c :: (Piece.afterBreak c rest).taken := congrArg Cut.taken cut
      have mem : t ∈ (lexFrom step.next stop found.2.rest).tokens := by
        have all : t ∈ a ++ b := List.mem_append_right a ht
        rw [← parts] at all
        refine (List.mem_append.1 all).resolve_left fun early => ?_
        rw [TokenKind.takesSpace, layouts t early] at takes
        cases takes
      have placed : (lexFrom step.next stop found.2.rest).Placed source stop :=
        lexFrom_placed (whole'.trans (List.append_nil _).symm) size'
      exact ⟨before, c, rest, whole, lineEnd, size.ge,
        (cut ▸ size').trans_le (placed.ahead t mem)⟩
    · have one : step.tokens = [first] := one
      have same : step.next.lineStart = layout.lineStart := same
      rw [one] at parts
      cases a with
      | nil => exact absurd rfl some
      | cons x a =>
        obtain ⟨rfl, later⟩ := List.cons.inj parts
        by_cases none : a = []
        · subst none
          rw [seam.of_singleton takes' t ht] at takes
          cases takes
        · exact (ih whole' size' (same.trans inLine) later none (@Seam.drop [first] a b seam none) ht).mono
            (Nat.le_add_right _ _)

/-- Two tokens have a line break between them, if there is a seam of the tokens between them. -/
theorem lexFrom_break {layout : Layout} {offset : ℕ} {before cs : List Char}
    (whole : source = before ++ cs) (size : width before = offset) {a b : List Token}
    (parts : (lexFrom layout offset cs).tokens = a ++ b) (seam : Seam a b) {x y : Token}
    (hx : x ∈ a) (first : x.kind.takesSpace = true) (hy : y ∈ b)
    (second : y.kind.takesSpace = true) : Break source x.span.stop y.span.start := by
  -- the token `x` is what some step contributes, and the next step is in its line
  fun_induction lexFrom layout offset cs generalizing before a b with
  | case1 layout offset =>
    have parts : closing layout offset = a ++ b := parts
    rw [closing_takes_none x (parts ▸ List.mem_append_left b hx)] at first
    cases first
  | case2 layout offset c rest begins blanks next =>
    have parts : closing layout next = a ++ b := parts
    rw [closing_takes_none x (parts ▸ List.mem_append_left b hx)] at first
    cases first
  | case3 layout offset c rest begins blanks next d ds shape empty line =>
    next ih =>
    have blank : blanks.taken ++ blanks.rest = c :: rest := Cut.spanning_append _ _
    have inner : line.taken ++ line.rest = d :: ds := emptyLine_append d ds
    refine @ih (before ++ blanks.taken ++ line.taken) ?_ ?_ a b parts seam hx hy
    · rw [whole, ← blank, shape, ← inner]
      simp only [List.append_assoc]
    · rw [Text.width_append, Text.width_append, size]
  | case4 layout offset c rest begins blanks next d ds shape some step =>
    next ih =>
    have blank : blanks.taken ++ blanks.rest = c :: rest := Cut.spanning_append _ _
    have parts : step.tokens ++ (lexFrom step.next next (d :: ds)).tokens = a ++ b := parts
    obtain ⟨a, rfl, later, hx⟩ := behind_layout parts (relevel_isLayout _ _ _) hx first
    refine @ih (before ++ blanks.taken) ?_ ?_ a b later (seam.drop (List.ne_nil_of_mem hx)) hx hy
    · rw [whole, ← blank, shape, List.append_assoc]
    · rw [Text.width_append, size]
  | case5 layout offset c rest inside found stop step =>
    next ih =>
    have taken : found.2.taken ++ found.2.rest = c :: rest := Piece.read_taken_append_rest c rest
    have whole' : source = before ++ found.2.taken ++ found.2.rest := by
      rw [whole, ← taken, List.append_assoc]
    have size' : width (before ++ found.2.taken) = stop := by rw [Text.width_append, size]
    have parts : step.tokens ++ (lexFrom step.next stop found.2.rest).tokens = a ++ b := parts
    rcases contribution_cases layout found.1 found.2.taken ⟨offset, stop⟩ with
      ⟨none, same⟩ | ⟨-, layouts⟩ | ⟨t, one, takes, span, same⟩
    · have none : step.tokens = [] := none
      rw [none, List.nil_append] at parts
      exact ih whole' size' parts seam hx hy
    · obtain ⟨a, rfl, later, hx⟩ := behind_layout parts layouts hx first
      exact ih whole' size' later (seam.drop (List.ne_nil_of_mem hx)) hx hy
    · have one : step.tokens = [t] := one
      rw [one] at parts
      cases a with
      | nil => cases hx
      | cons u a =>
        obtain ⟨rfl, later⟩ := List.cons.inj parts
        by_cases none : a = []
        · subst none
          rw [seam.of_singleton takes y hy] at second
          cases second
        have inner := @Seam.drop [t] a b seam none
        rcases List.mem_cons.1 hx with rfl | hx
        · have inLine : step.next.lineStart = false := same.trans (by simpa using inside)
          rw [span]
          exact break_of_seam whole' size' inLine later none inner y hy second
        · exact ih whole' size' later inner hx hy

/-- The tokens of a text: between tokens of different lines stands a line break. -/
theorem lex_break {text : String} {a b : List Token} (parts : (lex text).tokens = a ++ b)
    (seam : Seam a b) {x y : Token} (hx : x ∈ a) (first : x.kind.takesSpace = true) (hy : y ∈ b)
    (second : y.kind.takesSpace = true) : Break text.toList x.span.stop y.span.start :=
  lexFrom_break (List.nil_append _).symm rfl parts seam hx first hy second

end Syntax

end MethodLift
