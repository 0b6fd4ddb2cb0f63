import MethodLift.Proofs.Text.Boundary

/-!
# Blank lines

Walking over blank lines never leaves the side of the line where it began, and what is walked over is
white space.  Backwards this rests on a line feed taking one byte: the line that ends directly before
a line beginning ends there (`LineBeginning.lineEnd_previous`).
-/

namespace MethodLift.Text

variable {cs : List Char} {m n k : ℕ}

lemma lineStart_le (cs : List Char) (offset : ℕ) : lineStart cs offset ≤ offset := Nat.sub_le _ _

lemma le_lineEnd (cs : List Char) (offset : ℕ) : offset ≤ lineEnd cs offset := by
  rw [lineEnd, Nat.add_assoc]
  exact Nat.le_add_right _ _

/-! ## Stretches of a text -/

lemma eq_of_width_eq {a b a' b' : List Char} (whole : a ++ b = a' ++ b')
    (same : width a = width a') : a = a' ∧ b = b' := by
  have cut := splitAt?_append a b
  rw [whole, same, splitAt?_append] at cut
  obtain ⟨rfl, rfl⟩ := Prod.mk.inj (Option.some.inj cut)
  exact ⟨rfl, rfl⟩

/-- Two cuts divide a text into three parts. -/
lemma Boundary.divide (hm : Boundary cs m) (hn : Boundary cs n) (order : m ≤ n) :
    ∃ a b c, cs = a ++ b ++ c ∧ width a = m ∧ width (a ++ b) = n := by
  obtain ⟨a, rest, rfl, rfl⟩ := hm
  obtain ⟨a', c, whole, rfl⟩ := hn
  obtain ⟨b, rfl, rfl⟩ | ⟨b, rfl, rfl⟩ := List.append_eq_append_iff.1 whole
  · exact ⟨a, b, c, (List.append_assoc _ _ _).symm, rfl, rfl⟩
  · -- the second cut is not in front of the first one
    rw [width_append] at order
    have none : b = [] := by
      cases b with
      | nil => rfl
      | cons x xs =>
        have positive := x.utf8Size_pos
        rw [width_cons] at order
        omega
    subst none
    exact ⟨a', [], rest, by simp, by simp, by simp⟩

/-- Neighbouring slices. -/
lemma slice_append_slice (hm : Boundary cs m) (hn : Boundary cs n) (hk : Boundary cs k)
    (first : m ≤ n) (second : n ≤ k) :
    slice cs ⟨m, n⟩ ++ slice cs ⟨n, k⟩ = slice cs ⟨m, k⟩ := by
  obtain ⟨a, b, rest, rfl, rfl, rfl⟩ := hm.divide hn first
  obtain ⟨a', c, d, whole, start, rfl⟩ := hn.divide hk second
  rw [List.append_assoc a' c d] at whole
  obtain ⟨rfl, rfl⟩ := eq_of_width_eq whole start.symm
  have joined := slice_append a (b ++ c) d
  rw [← List.append_assoc a b c, List.append_assoc (a ++ b) c d] at joined
  rw [slice_append, joined, ← List.append_assoc, slice_append]

/-- A cut inside a slice. -/
lemma Boundary.in_slice (hm : Boundary cs m) (hn : Boundary cs n) (hk : Boundary cs k)
    (first : m ≤ n) (second : n ≤ k) : Boundary (slice cs ⟨m, k⟩) (n - m) := by
  rw [← slice_append_slice hm hn hk first second]
  obtain ⟨a, b, c, rfl, rfl, rfl⟩ := hm.divide hn first
  rw [slice_append, width_append, Nat.add_sub_cancel_left]
  exact ⟨b, _, rfl, rfl⟩

/-- The part of a line in front of a cut is a slice. -/
lemma Boundary.lineBefore_eq (h : Boundary cs n) :
    lineBefore cs n = slice cs ⟨lineStart cs n, n⟩ := by
  obtain ⟨a, b, rfl, rfl⟩ := h
  obtain ⟨before, parts, -⟩ := eq_append_lineBefore a b
  set line := lineBefore (a ++ b) (width a) with line_eq
  have size := congrArg width parts
  rw [width_append] at size
  have start : lineStart (a ++ b) (width a) = width before := by
    rw [lineStart, ← line_eq]
    omega
  rw [start, parts, slice_append]

/-- If a line is blank in front of a cut, then what stands in front of the cut and ends in a character
that is not blank ends in front of the line. -/
theorem Boundary.stop_le_lineStart (h : Boundary cs n) (starts : startsLine cs n = true)
    {span : Span} {c : Char} (mark : (slice cs span).getLast? = some c) (solid : isIndent c = false)
    (front : span.stop ≤ n) : span.stop ≤ lineStart cs n := by
  by_contra after
  have nonempty : slice cs span ≠ [] := fun none => by simp [none] at mark
  obtain ⟨a, b, whole, start, stop⟩ := slice_ne_nil nonempty
  have right : Boundary cs span.stop := ⟨_, b, whole, stop⟩
  have begins := h.lineBeginning.boundary
  obtain ⟨x, y, z, parts, left, ends⟩ := begins.divide right (by omega)
  obtain ⟨same, -⟩ := eq_of_width_eq (whole.symm.trans parts) (stop.trans ends.symm)
  -- the last character in front of the end is in the line
  have inLine : y.getLast? = some c := by
    have last := congrArg List.getLast? same
    rw [List.getLast?_append_of_ne_nil _ nonempty, mark] at last
    rw [last, List.getLast?_append_of_ne_nil]
    rintro rfl
    rw [List.append_nil] at ends
    omega
  have mem : c ∈ lineBefore cs n := by
    rw [h.lineBefore_eq, ← slice_append_slice begins right h (by omega) front]
    refine List.mem_append_left _ ?_
    have here := slice_append x y z
    rw [← parts, left, ends] at here
    exact here ▸ List.mem_of_getLast? inLine
  rw [startsLine, List.all_eq_true] at starts
  rw [starts c mem] at solid
  nomatch solid

/-- The same of a single character. -/
lemma Boundary.le_lineStart (h : Boundary cs n) (starts : startsLine cs n = true) {c : Char}
    (mark : slice cs ⟨m, m + 1⟩ = [c]) (solid : isIndent c = false) (front : m + 1 ≤ n) :
    m + 1 ≤ lineStart cs n := by
  have last : (slice cs ⟨m, m + 1⟩).getLast? = some c := by
    rw [mark]
    rfl
  exact h.stop_le_lineStart starts last solid front

/-- A line that begins in front of a cut begins in front of the line around the cut, or there. -/
theorem LineBeginning.le_lineStart (h : LineBeginning cs m) (cut : Boundary cs n) (le : m ≤ n) :
    m ≤ lineStart cs n := by
  obtain ⟨a, b, c, rfl, rfl, rfl⟩ := h.boundary.divide cut le
  obtain ⟨front, rest, whole, size, begins⟩ := h
  rw [List.append_assoc] at whole
  obtain ⟨rfl, -⟩ := eq_of_width_eq whole size.symm
  have stopped : (b.reverse ++ a.reverse).takeWhile (· != '\n')
      = b.reverse.takeWhile (· != '\n') := by
    rcases begins with rfl | feed
    · rw [List.reverse_nil, List.append_nil]
    · obtain ⟨before, rfl⟩ := List.getLast?_eq_some_iff.1 feed
      rw [List.reverse_append, List.reverse_singleton, List.takeWhile_append]
      split
      next all =>
        rw [List.singleton_append, List.takeWhile_cons_of_neg (by decide), List.append_nil]
        exact ((List.takeWhile_prefix _).eq_of_length all).symm
      · rfl
  have line : lineBefore (a ++ b ++ c) (width (a ++ b))
      = (b.reverse.takeWhile (· != '\n')).reverse := by
    rw [lineBefore, takeBytes_append, List.reverse_append, stopped]
  have parts := congrArg width (congrArg List.reverse
    (List.takeWhile_append_dropWhile (p := (· != '\n')) (l := b.reverse)))
  rw [List.reverse_append, List.reverse_reverse, width_append] at parts
  rw [lineStart, line, width_append]
  omega

/-- A place between lines is not inside the part of a line in front of a cut. -/
lemma BetweenLines.beside (h : BetweenLines cs m) (cut : Boundary cs n) :
    m < lineStart cs n ∨ m = lineStart cs n ∨ n ≤ m := by
  rcases h with begins | rfl
  · by_cases le : m ≤ n
    · have := begins.le_lineStart cut le
      omega
    · omega
  · exact .inr (.inr cut.le_width)

/-! ## White space -/

/-- A stretch of a text, between two cuts, that holds white space only. -/
structure Blank (cs : List Char) (m n : ℕ) : Prop where
  start : Boundary cs m
  stop : Boundary cs n
  forward : m ≤ n
  blank : ∀ c ∈ slice cs ⟨m, n⟩, isWhitespace c = true

lemma Blank.refl (h : Boundary cs n) : Blank cs n n := by
  refine ⟨h, h, Nat.le_refl _, ?_⟩
  obtain ⟨a, b, rfl, rfl⟩ := h
  have none := slice_append a [] b
  rw [List.append_nil] at none
  rw [none]
  exact fun _ => nofun

lemma Blank.trans (h : Blank cs m n) (h' : Blank cs n k) : Blank cs m k := by
  refine ⟨h.start, h'.stop, h.forward.trans h'.forward, ?_⟩
  rw [← slice_append_slice h.start h.stop h'.stop h.forward h'.forward]
  exact List.forall_mem_append.2 ⟨h.blank, h'.blank⟩

/-- A blank line is blank. -/
lemma Boundary.blank_line (h : Boundary cs n) (line : Lift.isBlankLine cs n = true) :
    Blank cs n (Text.lineEnd cs n) := by
  rw [Lift.isBlankLine, Bool.and_eq_true, List.all_eq_true] at line
  exact ⟨h, h.lineEnd, le_lineEnd _ _, line.2⟩

/-! ## Walks -/

/-- The line before one that is not the first ends where that one begins. -/
lemma LineBeginning.lineEnd_previous (h : LineBeginning cs n) (later : 0 < n) :
    Text.lineEnd cs (lineStart cs (n - 1)) = n := by
  obtain ⟨a, rest, rfl, rfl, empty | feed⟩ := h
  · rw [empty, width_nil] at later
    exact absurd later (Nat.lt_irrefl _)
  obtain ⟨front, rfl⟩ := List.getLast?_eq_some_iff.1 feed
  have one : width ['\n'] = 1 := by decide
  have last : width (front ++ ['\n']) - 1 = width front := by
    rw [width_append, one, Nat.add_sub_cancel]
  rw [last, List.append_assoc]
  obtain ⟨before, parts, -⟩ := eq_append_lineBefore front (['\n'] ++ rest)
  set line := lineBefore (front ++ (['\n'] ++ rest)) (width front) with line_eq
  have noFeed : ∀ c ∈ line, (c != '\n') = true := by
    intro c hc
    rw [line_eq, lineBefore, List.mem_reverse] at hc
    exact List.mem_takeWhile_imp (p := (· != '\n')) hc
  have start : lineStart (front ++ (['\n'] ++ rest)) (width front) = width before := by
    have size := congrArg width parts
    rw [width_append] at size
    rw [lineStart, ← line_eq]
    omega
  rw [start, Text.lineEnd]
  have tail : dropBytes (front ++ (['\n'] ++ rest)) (width before) = line ++ '\n' :: rest := by
    rw [parts, List.append_assoc, dropBytes_append]
    rfl
  have taken : (line ++ '\n' :: rest).takeWhile (· != '\n') = line := by
    rw [List.takeWhile_append_of_pos noFeed, List.takeWhile_cons_of_neg (by decide),
      List.append_nil]
  rw [tail, taken, if_pos (by simp), width_append, one]
  have size := congrArg width parts
  rw [width_append] at size
  omega

/-- What is walked over before a line is blank. -/
theorem LineBeginning.blank_before (h : LineBeginning cs n) (lines : ℕ) :
    Blank cs (Lift.skipBlankBefore cs n lines) n := by
  induction lines generalizing n with
  | zero => exact .refl h.boundary
  | succ lines ih =>
    rw [Lift.skipBlankBefore]
    split
    next previous =>
      rw [Bool.and_eq_true, decide_eq_true_eq] at previous
      have beginning := (h.boundary_pred previous.1).lineBeginning
      have line := beginning.boundary.blank_line previous.2
      rw [h.lineEnd_previous previous.1] at line
      exact (ih beginning).trans line
    · exact .refl h.boundary

/-- What is walked over behind a line is blank. -/
theorem Boundary.blank_after (h : Boundary cs n) (lines : ℕ) :
    Blank cs n (Lift.skipBlankAfter cs n lines) := by
  induction lines generalizing n with
  | zero => exact .refl h
  | succ lines ih =>
    rw [Lift.skipBlankAfter]
    split
    next line => exact (h.blank_line line).trans (ih h.lineEnd)
    · exact .refl h

end MethodLift.Text
