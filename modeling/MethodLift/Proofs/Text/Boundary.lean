import Mathlib
import MethodLift.Lift.Import
import MethodLift.Lift.Move

/-!
# Boundaries

An edit can only be applied where its text can be cut.  Offsets come from two sources: from tokens,
whose ends are cuts by construction, and from line arithmetic, which starts at such a cut and walks
to the beginning or the end of a line.  This module says that the walk ends at a cut again.

`Boundary` is the declarative form of `isBoundary`: the text is a front part of the given width and
something behind it.  A slice is the middle of three parts that two cuts divide the text into.

Going back over blank lines needs more than a boundary.  Before a line there is a line feed, which
takes one byte, and only so one byte less is a place to cut at.  `LineBeginning` keeps that fact.
-/

namespace MethodLift.Text

/-! ## Cuts -/

/-- The text can be cut at an offset: some front part of it has that width. -/
def Boundary (cs : List Char) (offset : ℕ) : Prop := ∃ a b, cs = a ++ b ∧ width a = offset

theorem isBoundary_iff {cs : List Char} {offset : ℕ} :
    isBoundary cs offset = true ↔ Boundary cs offset := by
  rw [isBoundary, Option.isSome_iff_exists]
  constructor
  · rintro ⟨⟨a, b⟩, cut⟩
    exact ⟨a, b, eq_append_of_splitAt? cut⟩
  · rintro ⟨a, b, rfl, rfl⟩
    exact ⟨(a, b), splitAt?_append a b⟩

lemma Boundary.zero (cs : List Char) : Boundary cs 0 := ⟨[], cs, rfl, rfl⟩

lemma Boundary.end (cs : List Char) : Boundary cs (width cs) := ⟨cs, [], by simp, rfl⟩

lemma Boundary.le_width {cs : List Char} {offset : ℕ} (h : Boundary cs offset) :
    offset ≤ width cs := by
  obtain ⟨a, b, rfl, rfl⟩ := h
  rw [width_append]
  exact Nat.le_add_right _ _

/-! ## Slices -/

/-- The middle of three parts is the slice between the two cuts. -/
theorem slice?_append (a b c : List Char) :
    slice? (a ++ b ++ c) ⟨width a, width (a ++ b)⟩ = some b := by
  have first : splitAt? (a ++ (b ++ c)) (width a) = some (a, b ++ c) := splitAt?_append a (b ++ c)
  have second : splitAt? (b ++ c) (width b) = some (b, c) := splitAt?_append b c
  have size : width (a ++ b) - width a = width b := by rw [width_append]; omega
  have forward : width a ≤ width (a ++ b) := by rw [width_append]; omega
  simp only [slice?, Span.length, List.append_assoc, first, second, size, guard, forward, if_true,
    Option.bind_eq_bind, Option.bind_some, Option.pure_def]

theorem slice_append (a b c : List Char) : slice (a ++ b ++ c) ⟨width a, width (a ++ b)⟩ = b := by
  rw [slice, slice?_append]
  rfl

/-- A slice that is there is the middle of three parts. -/
theorem slice?_eq_some {cs taken : List Char} {span : Span} (h : slice? cs span = some taken) :
    ∃ a c, cs = a ++ taken ++ c ∧ width a = span.start ∧ width (a ++ taken) = span.stop := by
  simp only [slice?, bind, Option.bind_eq_some_iff, guard] at h
  obtain ⟨⟨a, rest⟩, first, ⟨⟩, order, ⟨taken', c⟩, second, same⟩ := h
  obtain rfl : taken' = taken := Option.some.inj same
  obtain ⟨rfl, start⟩ := eq_append_of_splitAt? first
  obtain ⟨rfl, size⟩ := eq_append_of_splitAt? second
  refine ⟨a, c, (List.append_assoc _ _ _).symm, start, ?_⟩
  have forward : span.start ≤ span.stop := by
    by_contra backward
    simp [backward] at order
  rw [width_append, start, size, Span.length]
  omega

/-- A slice that is not empty is the middle of three parts. -/
theorem slice_ne_nil {cs : List Char} {span : Span} (h : slice cs span ≠ []) :
    ∃ a c, cs = a ++ slice cs span ++ c ∧ width a = span.start
      ∧ width (a ++ slice cs span) = span.stop := by
  rw [slice] at h ⊢
  cases taken : slice? cs span with
  | none => simp [taken] at h
  | some cs' => exact slice?_eq_some taken

theorem takeBytes_append (a b : List Char) : takeBytes (a ++ b) (width a) = a := by
  rw [takeBytes, splitAt?_append]
  rfl

theorem dropBytes_append (a b : List Char) : dropBytes (a ++ b) (width a) = b := by
  rw [dropBytes, splitAt?_append]
  rfl

/-! ## Placed spans -/

/-- A span that runs forwards between two cuts of the text. -/
structure Placed (cs : List Char) (span : Span) : Prop where
  start : Boundary cs span.start
  stop : Boundary cs span.stop
  forward : span.start ≤ span.stop

lemma Placed.point {cs : List Char} {offset : ℕ} (h : Boundary cs offset) :
    Placed cs (.point offset) := ⟨h, h, Nat.le_refl _⟩

lemma Boundary.max {cs : List Char} {m n : ℕ} (hm : Boundary cs m) (hn : Boundary cs n) :
    Boundary cs (max m n) := by
  rw [Nat.max_def]
  split
  · exact hn
  · exact hm

/-! ## Lines -/

/-- A place where a line begins: the front of the text, or just behind a line feed. -/
def LineBeginning (cs : List Char) (offset : ℕ) : Prop :=
  ∃ a b, cs = a ++ b ∧ width a = offset ∧ (a = [] ∨ a.getLast? = some '\n')

lemma LineBeginning.boundary {cs : List Char} {offset : ℕ} (h : LineBeginning cs offset) :
    Boundary cs offset := by
  obtain ⟨a, b, whole, size, -⟩ := h
  exact ⟨a, b, whole, size⟩

/-- One byte before the beginning of a line that is not the first there is a place to cut. -/
lemma LineBeginning.boundary_pred {cs : List Char} {offset : ℕ} (h : LineBeginning cs offset)
    (later : 0 < offset) : Boundary cs (offset - 1) := by
  obtain ⟨a, b, whole, size, empty | feed⟩ := h
  · rw [empty, width_nil] at size
    omega
  · obtain ⟨before, rfl⟩ := List.getLast?_eq_some_iff.1 feed
    refine ⟨before, ['\n'] ++ b, by rw [whole, List.append_assoc], ?_⟩
    have one : width ['\n'] = 1 := by decide
    rw [width_append, one] at size
    omega

/-- The text before a cut is what precedes the line and the part of the line before the cut. -/
lemma eq_append_lineBefore (a b : List Char) :
    ∃ before, a = before ++ lineBefore (a ++ b) (width a)
      ∧ (before = [] ∨ before.getLast? = some '\n') := by
  refine ⟨(a.reverse.dropWhile (· != '\n')).reverse, ?_, ?_⟩
  · rw [lineBefore, takeBytes_append, ← List.reverse_append, List.takeWhile_append_dropWhile,
      List.reverse_reverse]
  · cases rest : a.reverse.dropWhile (· != '\n') with
    | nil => exact .inl rfl
    | cons c cs =>
      refine .inr ?_
      have stopped := List.head?_dropWhile_not (· != '\n') a.reverse
      rw [rest] at stopped
      have feed : c = '\n' := by simpa using stopped
      rw [List.getLast?_reverse, feed]
      rfl

/-- The line around a cut begins at a line beginning. -/
theorem Boundary.lineBeginning {cs : List Char} {offset : ℕ} (h : Boundary cs offset) :
    LineBeginning cs (lineStart cs offset) := by
  obtain ⟨a, b, rfl, rfl⟩ := h
  obtain ⟨before, parts, beginning⟩ := eq_append_lineBefore a b
  refine ⟨before, lineBefore (a ++ b) (width a) ++ b, ?_, ?_, beginning⟩
  · rw [← List.append_assoc, ← parts]
  · have size := congrArg width parts
    rw [width_append] at size
    rw [lineStart]
    omega

/-- A place between lines: where a line begins, or the end of the text. -/
def BetweenLines (cs : List Char) (offset : ℕ) : Prop :=
  LineBeginning cs offset ∨ offset = width cs

lemma BetweenLines.boundary {cs : List Char} {offset : ℕ} (h : BetweenLines cs offset) :
    Boundary cs offset := by
  rcases h with begins | rfl
  · exact begins.boundary
  · exact Boundary.end cs

/-- The line around a cut ends where another one begins, or with the text. -/
theorem Boundary.lineEnd_between {cs : List Char} {offset : ℕ} (h : Boundary cs offset) :
    BetweenLines cs (lineEnd cs offset) := by
  obtain ⟨a, b, rfl, rfl⟩ := h
  rw [Text.lineEnd, dropBytes_append]
  set line := b.takeWhile (· != '\n') with line_eq
  have parts : line ++ b.dropWhile (· != '\n') = b := List.takeWhile_append_dropWhile
  cases rest : b.dropWhile (· != '\n') with
  | nil =>
    rw [rest, List.append_nil] at parts
    right
    rw [parts, if_neg (Nat.lt_irrefl _), width_append, Nat.add_zero]
  | cons c cs =>
    have stopped := List.head?_dropWhile_not (· != '\n') b
    rw [rest] at stopped
    obtain rfl : c = '\n' := by simpa using stopped
    rw [rest] at parts
    have shorter : line.length < b.length := by
      rw [← parts, List.length_append, List.length_cons]
      omega
    have one : width ['\n'] = 1 := by decide
    refine .inl ⟨a ++ line ++ ['\n'], cs, ?_, ?_, .inr List.getLast?_concat⟩
    · rw [← parts]
      simp
    · rw [if_pos shorter, width_append, width_append, one]

/-- The line around a cut ends at a cut. -/
theorem Boundary.lineEnd {cs : List Char} {offset : ℕ} (h : Boundary cs offset) :
    Boundary cs (lineEnd cs offset) := h.lineEnd_between.boundary

/-! ## Walks over lines -/

/-- The blank lines before a line begin where a line begins. -/
theorem LineBeginning.skipBlankBefore {cs : List Char} {start : ℕ} (h : LineBeginning cs start)
    (lines : ℕ) : LineBeginning cs (Lift.skipBlankBefore cs start lines) := by
  induction lines generalizing start with
  | zero => exact h
  | succ lines ih =>
    rw [Lift.skipBlankBefore]
    split
    · next blank =>
      rw [Bool.and_eq_true, decide_eq_true_eq] at blank
      exact ih (h.boundary_pred blank.1).lineBeginning
    · exact h

/-- The blank lines behind a line end at a cut. -/
theorem Boundary.skipBlankAfter {cs : List Char} {start : ℕ} (h : Boundary cs start)
    (lines : ℕ) : Boundary cs (Lift.skipBlankAfter cs start lines) := by
  induction lines generalizing start with
  | zero => exact h
  | succ lines ih =>
    rw [Lift.skipBlankAfter]
    split
    · exact ih h.lineEnd
    · exact h

/-- The comments at the head of a file end between lines. -/
theorem BetweenLines.skipComments {cs : List Char} {offset : ℕ} (h : BetweenLines cs offset)
    (lines : ℕ) : BetweenLines cs (Import.skipComments cs offset lines) := by
  induction lines generalizing offset with
  | zero => exact h
  | succ lines ih =>
    rw [Import.skipComments]
    split
    · exact ih h.boundary.lineEnd_between
    · exact h

end MethodLift.Text
