import MethodLift.Proofs.Text.Boundary
import MethodLift.Proofs.Text.Spans
import MethodLift.Text.Whitespace

/-!
# Other characters at some places

Whether something in a result was copied from certain places of a text shows when other characters
stand there: if the result is the same whatever they are, nothing of it comes from there.  `SameBut`
says that two texts differ in this way, and only in characters that have no part in the layout, so
that lines, margins and widths are the same.

Main statements: stretches apart from the places are the same (`SameBut.slice`), and so is all that
is computed from the layout alone.
-/

namespace MethodLift.Text

/-- Whether a character takes part in the layout, or opens brackets or a comment. -/
def isMark (c : Char) : Bool := isWhitespace c || c == '(' || c == '#'

/-- Two characters of one width that are equal, or no marks. -/
def Alike (c d : Char) : Prop :=
  c = d ∨ c.utf8Size = d.utf8Size ∧ isMark c = false ∧ isMark d = false

instance (c d : Char) : Decidable (Alike c d) := inferInstanceAs (Decidable (_ ∨ _))

/-- Texts, `n` bytes behind some beginning, of which the second one may have other characters at
some places, but no other marks. -/
def SameBut (places : List Span) : ℕ → List Char → List Char → Prop
  | _, [], [] => True
  | n, c :: a, d :: b =>
    Alike c d ∧ (c = d ∨ ∃ place ∈ places, place.start ≤ n ∧ n + c.utf8Size ≤ place.stop)
      ∧ SameBut places (n + c.utf8Size) a b
  | _, _, _ => False

instance SameBut.decide (places : List Span) :
    (n : ℕ) → (a b : List Char) → Decidable (SameBut places n a b)
  | _, [], [] => .isTrue trivial
  | n, c :: a, d :: b =>
    have := SameBut.decide places (n + c.utf8Size) a b
    inferInstanceAs (Decidable (Alike c d ∧ (c = d ∨ ∃ place ∈ places,
      place.start ≤ n ∧ n + c.utf8Size ≤ place.stop) ∧ SameBut places (n + c.utf8Size) a b))
  | _, [], _ :: _ => .isFalse id
  | _, _ :: _, [] => .isFalse id

variable {places places' : List Span} {n : ℕ} {a b : List Char} {c d : Char}

/-! ## Characters -/

namespace Alike

lemma refl (c : Char) : Alike c c := .inl rfl

lemma symm (h : Alike c d) : Alike d c :=
  h.imp Eq.symm fun ⟨size, first, second⟩ => ⟨size.symm, second, first⟩

lemma utf8Size_eq (h : Alike c d) : c.utf8Size = d.utf8Size :=
  h.elim (congrArg _) (·.1)

/-- A mark is what it is. -/
lemma eq_of_isMark (h : Alike c d) (mark : isMark c = true) : c = d := by
  rcases h with same | ⟨-, plain, -⟩
  · exact same
  · rw [plain] at mark
    cases mark

/-- What is true of marks only is true of alike characters alike. -/
lemma congr {p : Char → Bool} (h : Alike c d) (marks : ∀ x, p x = true → isMark x = true) :
    p c = p d := by
  rw [Bool.eq_iff_iff]
  exact ⟨fun holds => h.eq_of_isMark (marks c holds) ▸ holds,
    fun holds => h.symm.eq_of_isMark (marks d holds) ▸ holds⟩

end Alike

lemma isMark_of_isWhitespace (c : Char) (h : isWhitespace c = true) : isMark c = true := by
  rw [isMark, h, Bool.true_or, Bool.true_or]

lemma isMark_of_isIndent (c : Char) (h : isIndent c = true) : isMark c = true := by
  rw [isIndent, Bool.or_eq_true, beq_iff_eq, beq_iff_eq] at h
  rcases h with rfl | rfl
  · decide
  · decide

/-- The characters that are looked for one by one are marks. -/
lemma isMark_of_beq {mark : Char} (is : isMark mark = true) (c : Char) (h : (c == mark) = true) :
    isMark c = true := by
  rw [eq_of_beq h]
  exact is

/-! ## The layout -/

section Layout

variable (same : List.Forall₂ Alike a b)
include same

lemma width_congr : width a = width b := by
  induction same with
  | nil => rfl
  | cons first _ ih => rw [width_cons, width_cons, first.utf8Size_eq, ih]

/-- Both texts can be cut at the same offsets. -/
lemma splitAt?_congr (n : ℕ) :
    splitAt? a n = none ∧ splitAt? b n = none
    ∨ ∃ x y x' y', splitAt? a n = some (x, y) ∧ splitAt? b n = some (x', y')
      ∧ List.Forall₂ Alike x x' ∧ List.Forall₂ Alike y y' := by
  induction same generalizing n with
  | nil =>
    cases n with
    | zero => exact .inr ⟨[], [], [], [], rfl, rfl, .nil, .nil⟩
    | succ n => exact .inl ⟨rfl, rfl⟩
  | @cons c d a b first rest ih =>
    cases n with
    | zero => exact .inr ⟨[], _, [], _, rfl, rfl, .nil, .cons first rest⟩
    | succ n =>
      rw [splitAt?, splitAt?, ← first.utf8Size_eq]
      split
      · rcases ih (n + 1 - c.utf8Size) with ⟨none, none'⟩ | ⟨x, y, x', y', cut, cut', front, back⟩
        · rw [none, none']
          exact .inl ⟨rfl, rfl⟩
        · rw [cut, cut']
          exact .inr ⟨c :: x, y, d :: x', y', rfl, rfl, .cons first front, back⟩
      · exact .inl ⟨rfl, rfl⟩

lemma isBoundary_congr (n : ℕ) : isBoundary a n = isBoundary b n := by
  rw [isBoundary, isBoundary]
  rcases splitAt?_congr same n with ⟨none, none'⟩ | ⟨_, _, _, _, cut, cut', -⟩
  · rw [none, none']
  · rw [cut, cut']
    rfl

lemma dropBytes_congr (n : ℕ) : List.Forall₂ Alike (dropBytes a n) (dropBytes b n) := by
  rw [dropBytes, dropBytes]
  rcases splitAt?_congr same n with ⟨none, none'⟩ | ⟨_, _, _, _, cut, cut', -, back⟩
  · rw [none, none']
    exact .nil
  · rw [cut, cut']
    exact back

lemma takeBytes_congr (n : ℕ) : List.Forall₂ Alike (takeBytes a n) (takeBytes b n) := by
  rw [takeBytes, takeBytes]
  rcases splitAt?_congr same n with ⟨none, none'⟩ | ⟨_, _, _, _, cut, cut', front, -⟩
  · rw [none, none']
    exact .nil
  · rw [cut, cut']
    exact front

lemma slice_congr (span : Span) : List.Forall₂ Alike (slice a span) (slice b span) := by
  rw [slice, slice, slice?, slice?]
  rcases splitAt?_congr same span.start with ⟨none, none'⟩ | ⟨_, y, _, y', cut, cut', -, back⟩
  · rw [none, none']
    exact .nil
  rw [cut, cut']
  by_cases forward : span.start ≤ span.stop
  · simp only [Option.bind_eq_bind, Option.bind_some, guard, forward, if_true, Option.pure_def]
    rcases splitAt?_congr back span.length with ⟨none, none'⟩ | ⟨_, _, _, _, cut, cut', front, -⟩
    · rw [none, none']
      exact .nil
    · rw [cut, cut']
      exact front
  · simp only [Option.bind_eq_bind, Option.bind_some, guard, forward, if_false]
    exact .nil

/-- The characters in front that are marks of a kind are the same. -/
lemma takeWhile_congr {p : Char → Bool} (marks : ∀ x, p x = true → isMark x = true) :
    a.takeWhile p = b.takeWhile p := by
  induction same with
  | nil => rfl
  | cons first _ ih =>
    rw [List.takeWhile_cons, List.takeWhile_cons, first.congr marks]
    split
    next holds =>
      rw [ih, first.symm.eq_of_isMark (marks _ holds)]
    · rfl

/-- What stands in front of the first line feed. -/
lemma takeWhile_line_congr :
    List.Forall₂ Alike (a.takeWhile (· != '\n')) (b.takeWhile (· != '\n')) := by
  induction same with
  | nil => exact .nil
  | cons first _ ih =>
    have feed := first.congr (p := (· == '\n')) (isMark_of_beq (by decide))
    rw [List.takeWhile_cons, List.takeWhile_cons, bne, bne, feed]
    split
    · exact .cons first ih
    · exact .nil

lemma all_congr {p : Char → Bool} (marks : ∀ x, p x = true → isMark x = true) :
    a.all p = b.all p := by
  induction same with
  | nil => rfl
  | cons first _ ih => rw [List.all_cons, List.all_cons, first.congr marks, ih]

lemma head?_congr {mark : Char} (is : isMark mark = true) :
    (a.head? == some mark) = (b.head? == some mark) := by
  cases same with
  | nil => rfl
  | cons first _ => exact first.congr (p := (· == mark)) (isMark_of_beq is)

lemma getLast?_congr {mark : Char} (is : isMark mark = true) :
    (a.getLast? == some mark) = (b.getLast? == some mark) := by
  rw [← List.head?_reverse, ← List.head?_reverse]
  exact head?_congr (List.forall₂_reverse_iff.2 same) is

lemma lineBefore_congr (n : ℕ) : List.Forall₂ Alike (lineBefore a n) (lineBefore b n) :=
  List.forall₂_reverse_iff.2
    (takeWhile_line_congr (List.forall₂_reverse_iff.2 (takeBytes_congr same n)))

lemma lineStart_congr (n : ℕ) : lineStart a n = lineStart b n := by
  rw [lineStart, lineStart, width_congr (lineBefore_congr same n)]

lemma lineEnd_congr (n : ℕ) : lineEnd a n = lineEnd b n := by
  have rest := dropBytes_congr same n
  have line := takeWhile_line_congr rest
  rw [lineEnd, lineEnd]
  simp only [width_congr line, line.length_eq, rest.length_eq]

lemma indentation_congr (n : ℕ) : indentation a n = indentation b n := by
  rw [indentation, indentation, lineStart_congr same]
  exact takeWhile_congr (dropBytes_congr same _) isMark_of_isIndent

lemma startsLine_congr (n : ℕ) : startsLine a n = startsLine b n :=
  all_congr (lineBefore_congr same n) isMark_of_isIndent

omit same in
lemma hasCarriageReturns_cons (c d : Char) (cs : List Char) :
    hasCarriageReturns (c :: d :: cs)
      = (c == '\r' && d == '\n' || hasCarriageReturns (d :: cs)) := by
  by_cases both : c = '\r' ∧ d = '\n'
  · obtain ⟨rfl, rfl⟩ := both
    rfl
  · have pair : (c == '\r' && d == '\n') = false := by
      rw [Bool.eq_false_iff, ne_eq, Bool.and_eq_true, beq_iff_eq, beq_iff_eq]
      exact both
    rw [pair, Bool.false_or, hasCarriageReturns]
    intro cs' first second
    exact both ⟨first, (List.cons.inj second).1⟩

lemma lineBreak_congr : lineBreak a = lineBreak b := by
  have known : hasCarriageReturns a = hasCarriageReturns b := by
    induction same with
    | nil => rfl
    | @cons c d a b first rest ih =>
      cases rest with
      | nil =>
        rw [hasCarriageReturns, hasCarriageReturns]
        · nofun
        · nofun
      | cons second rest =>
        rw [hasCarriageReturns_cons, hasCarriageReturns_cons, ih,
          first.congr (p := (· == '\r')) (isMark_of_beq (by decide)),
          second.congr (p := (· == '\n')) (isMark_of_beq (by decide))]
  rw [lineBreak, lineBreak, known]

end Layout

/-! ## Texts that differ at places -/

namespace SameBut

lemma refl (places : List Span) (n : ℕ) (a : List Char) : SameBut places n a a := by
  induction a generalizing n with
  | nil => trivial
  | cons c a ih => exact ⟨.refl c, .inl rfl, ih _⟩

lemma symm (h : SameBut places n a b) : SameBut places n b a := by
  induction a generalizing n b with
  | nil =>
    cases b with
    | nil => trivial
    | cons d b => exact h.elim
  | cons c a ih =>
    cases b with
    | nil => exact h.elim
    | cons d b =>
      obtain ⟨alike, at_, rest⟩ := h
      rw [alike.utf8Size_eq] at at_ rest
      exact ⟨alike.symm, at_.imp_left Eq.symm, ih rest⟩

lemma alike (h : SameBut places n a b) : List.Forall₂ Alike a b := by
  induction a generalizing n b with
  | nil =>
    cases b with
    | nil => exact .nil
    | cons d b => exact h.elim
  | cons c a ih =>
    cases b with
    | nil => exact h.elim
    | cons d b => exact .cons h.1 (ih h.2.2)

/-- Where nothing is exchanged, the texts are the same. -/
lemma eq_of_apart (h : SameBut places n a b)
    (apart : ∀ place ∈ places, Span.Apart ⟨n, n + width a⟩ place) : a = b := by
  induction a generalizing n b with
  | nil =>
    cases b with
    | nil => rfl
    | cons d b => exact h.elim
  | cons c a ih =>
    cases b with
    | nil => exact h.elim
    | cons d b =>
      obtain ⟨-, at_, rest⟩ := h
      have positive := c.utf8Size_pos
      rw [width_cons] at apart
      have tail : a = b := by
        refine ih rest fun place hp => ?_
        refine (apart place hp).imp (fun front => ?_) fun behind => ?_
        · change n + c.utf8Size + width a ≤ place.start
          rwa [Nat.add_assoc]
        · exact le_trans behind (Nat.le_add_right _ _)
      rcases at_ with rfl | ⟨place, hp, start, stop⟩
      · rw [tail]
      · rcases apart place hp with front | behind
        · change n + (c.utf8Size + width a) ≤ place.start at front
          omega
        · change place.stop ≤ n at behind
          omega

/-- A front part and what follows it. -/
lemma splitAt (h : SameBut places n a b) {k : ℕ} {x y : List Char}
    (cut : splitAt? a k = some (x, y)) :
    ∃ x' y', splitAt? b k = some (x', y') ∧ SameBut places n x x'
      ∧ SameBut places (n + k) y y' := by
  obtain ⟨rfl, rfl⟩ := eq_append_of_splitAt? cut
  clear cut
  induction x generalizing n b with
  | nil => exact ⟨[], b, by cases b <;> rfl, trivial, h⟩
  | cons c x ih =>
    cases b with
    | nil => exact h.elim
    | cons d b =>
      obtain ⟨alike, at_, rest⟩ := h
      obtain ⟨x', y', cut, front, back⟩ := ih rest
      obtain ⟨rfl, size⟩ := eq_append_of_splitAt? cut
      have whole := splitAt?_append (d :: x') y'
      rw [List.cons_append, width_cons, size, ← alike.utf8Size_eq] at whole
      refine ⟨d :: x', y', whole, ⟨alike, at_, front⟩, ?_⟩
      rwa [width_cons, ← Nat.add_assoc]

/-- A stretch apart from all places is the same in both texts. -/
theorem slice (h : SameBut places n a b) {span : Span}
    (apart : ∀ place ∈ places, Span.Apart ⟨n, n + width a⟩ place ∨ (span.shift n).Apart place) :
    slice a span = slice b span := by
  have taken {a b cs : List Char} (h : SameBut places n a b)
      (apart : ∀ place ∈ places, Span.Apart ⟨n, n + width a⟩ place ∨ (span.shift n).Apart place)
      (cut : slice? a span = some cs) : slice? b span = some cs := by
    obtain ⟨x, z, rfl, start, stop⟩ := slice?_eq_some cut
    rw [width_append] at stop
    rw [width_append, width_append] at apart
    rw [List.append_assoc] at h
    obtain ⟨x', rest, cut', -, back⟩ := h.splitAt (splitAt?_append x (cs ++ z))
    obtain ⟨y', z', cut'', middle, -⟩ := back.splitAt (splitAt?_append cs z)
    obtain ⟨rfl, size⟩ := eq_append_of_splitAt? cut'
    obtain ⟨rfl, size'⟩ := eq_append_of_splitAt? cut''
    obtain rfl : cs = y' := by
      refine middle.eq_of_apart fun place hp => ?_
      rcases apart place hp with (front | behind) | front | behind
      · change n + (width x + width cs + width z) ≤ place.start at front
        exact .inl (by change n + width x + width cs ≤ place.start; omega)
      · exact .inr (le_trans behind (Nat.le_add_right _ _))
      · change span.stop + n ≤ place.start at front
        exact .inl (by change n + width x + width cs ≤ place.start; omega)
      · change place.stop ≤ span.start + n at behind
        exact .inr (by change place.stop ≤ n + width x; omega)
    have whole := slice?_append x' cs z'
    rw [width_append, size, stop, start, List.append_assoc] at whole
    exact whole
  rw [Text.slice, Text.slice]
  cases cut : slice? a span with
  | some cs => rw [taken h apart cut]
  | none =>
    cases cut' : slice? b span with
    | none => rfl
    | some cs =>
      rw [taken h.symm (width_congr h.alike ▸ apart) cut'] at cut
      cases cut

/-- What follows a cut is the same behind all places. -/
lemma dropBytes (h : SameBut places n a b) {k : ℕ} (apart : ∀ place ∈ places,
      Span.Apart ⟨n, n + width a⟩ place ∨ place.stop ≤ n + k) :
    dropBytes a k = dropBytes b k := by
  rw [Text.dropBytes, Text.dropBytes]
  cases cut : splitAt? a k with
  | none =>
    rcases splitAt?_congr h.alike k with ⟨-, none⟩ | ⟨_, _, _, _, some, -⟩
    · rw [none]
    · rw [cut] at some
      cases some
  | some parts =>
    obtain ⟨x, y⟩ := parts
    obtain ⟨x', y', cut', -, back⟩ := h.splitAt cut
    obtain ⟨rfl, size⟩ := eq_append_of_splitAt? cut
    rw [cut']
    refine back.eq_of_apart fun place hp => ?_
    rcases apart place hp with (front | behind) | behind
    · rw [width_append, size, ← Nat.add_assoc] at front
      exact .inl front
    · exact .inr (le_trans behind (Nat.le_add_right _ _))
    · exact .inr behind

/-- An area of both texts. -/
lemma area (h : SameBut places 0 a b) (span : Span) :
    SameBut places span.start (Text.slice a span) (Text.slice b span) := by
  by_cases none : Text.slice a span = []
  · have length := (slice_congr h.alike span).length_eq
    rw [none, List.length_nil, eq_comm, List.length_eq_zero_iff] at length
    rw [none, length]
    exact .refl _ _ _
  · obtain ⟨x, z, whole, start, stop⟩ := slice_ne_nil none
    set taken := Text.slice a span
    rw [whole, List.append_assoc] at h
    obtain ⟨x', rest, cut, -, back⟩ := h.splitAt (splitAt?_append x (taken ++ z))
    obtain ⟨y', z', cut', middle, -⟩ := back.splitAt (splitAt?_append taken z)
    obtain ⟨rfl, size⟩ := eq_append_of_splitAt? cut
    obtain ⟨rfl, size'⟩ := eq_append_of_splitAt? cut'
    have same : Text.slice (x' ++ (y' ++ z')) span = y' := by
      rw [width_append, start] at stop
      have := slice_append x' y' z'
      rw [width_append, size, size', start, stop, List.append_assoc] at this
      exact this
    rw [same]
    rwa [Nat.zero_add, start] at middle

end SameBut

end MethodLift.Text
