import MethodLift.Text.Span

/-!
# Byte offsets into a text

Texts are lists of characters here, and positions in them are counted in bytes of the UTF-8 form.
An offset that falls inside a character is no position: cutting there fails.

The one primitive is `splitAt?`; slices and boundaries are defined by it.

Main statement: a cut gives back two parts of the text exactly if the parts together are the text
and the first one has the width that was asked for (`splitAt?_eq_some_iff`).
-/

namespace MethodLift.Text

/-- The number of bytes that the characters take in UTF-8. -/
def width : List Char → Nat
  | [] => 0
  | c :: cs => c.utf8Size + width cs

@[simp] theorem width_nil : width [] = 0 := rfl

@[simp] theorem width_cons (c : Char) (cs : List Char) :
    width (c :: cs) = c.utf8Size + width cs := rfl

@[simp] theorem width_append (a b : List Char) : width (a ++ b) = width a + width b := by
  induction a with
  | nil => simp
  | cons c cs ih => simp [ih, Nat.add_assoc]

/-- Cuts the text after exactly `offset` bytes; `none` if that is inside a character or beyond the
end. -/
def splitAt? : List Char → Nat → Option (List Char × List Char)
  | cs, 0 => some ([], cs)
  | [], _ + 1 => none
  | c :: cs, n + 1 =>
    if c.utf8Size ≤ n + 1 then
      (splitAt? cs (n + 1 - c.utf8Size)).map fun (taken, rest) => (c :: taken, rest)
    else none

/-- The text can be cut behind each of its front parts. -/
theorem splitAt?_append (a b : List Char) : splitAt? (a ++ b) (width a) = some (a, b) := by
  induction a with
  | nil => simp [splitAt?]
  | cons c cs ih =>
    have positive := c.utf8Size_pos
    have size : width (c :: cs) = (c.utf8Size + width cs - 1) + 1 := by
      rw [width_cons]
      omega
    rw [size, List.cons_append, splitAt?, if_pos (by omega)]
    have rest : c.utf8Size + width cs - 1 + 1 - c.utf8Size = width cs := by omega
    rw [rest, ih]
    rfl

/-- The two parts of a cut are the text, and the first one has the width that was asked for. -/
theorem eq_append_of_splitAt? {cs a b : List Char} {offset : Nat}
    (h : splitAt? cs offset = some (a, b)) : cs = a ++ b ∧ width a = offset := by
  induction cs generalizing a offset with
  | nil =>
    cases offset with
    | zero =>
      obtain ⟨rfl, rfl⟩ := Prod.mk.inj (Option.some.inj h)
      exact ⟨rfl, rfl⟩
    | succ n => simp [splitAt?] at h
  | cons c cs ih =>
    cases offset with
    | zero =>
      obtain ⟨rfl, rfl⟩ := Prod.mk.inj (Option.some.inj h)
      exact ⟨rfl, rfl⟩
    | succ n =>
      rw [splitAt?] at h
      split at h
      · obtain ⟨⟨taken, rest⟩, cut, same⟩ := Option.map_eq_some_iff.1 h
        obtain ⟨rfl, rfl⟩ := Prod.mk.inj same
        obtain ⟨whole, size⟩ := ih cut
        rw [List.cons_append, whole, width_cons, size]
        exact ⟨rfl, by omega⟩
      · simp at h

theorem splitAt?_eq_some_iff {cs a b : List Char} {offset : Nat} :
    splitAt? cs offset = some (a, b) ↔ cs = a ++ b ∧ width a = offset := by
  constructor
  · exact eq_append_of_splitAt?
  · rintro ⟨rfl, rfl⟩
    exact splitAt?_append a b

/-- Whether the text can be cut at `offset`. -/
def isBoundary (cs : List Char) (offset : Nat) : Bool := (splitAt? cs offset).isSome

/-- The characters at a span, if the span runs forwards and both its ends are boundaries. -/
def slice? (cs : List Char) (span : Span) : Option (List Char) := do
  let (_, rest) ← splitAt? cs span.start
  guard (span.start ≤ span.stop)
  let (taken, _) ← splitAt? rest span.length
  return taken

/-- The characters at a span; none for a span that does not fit the text. -/
def slice (cs : List Char) (span : Span) : List Char := (slice? cs span).getD []

/-- What follows a boundary; nothing if the offset is no boundary. -/
def dropBytes (cs : List Char) (offset : Nat) : List Char :=
  ((splitAt? cs offset).map Prod.snd).getD []

/-- What precedes a boundary; nothing if the offset is no boundary. -/
def takeBytes (cs : List Char) (offset : Nat) : List Char :=
  ((splitAt? cs offset).map Prod.fst).getD []

/-- The part of a string at a span; empty for a span that does not fit. -/
def sliceString (text : String) (span : Span) : String := String.ofList (slice text.toList span)

end MethodLift.Text
