import MethodLift.Text.WordRanges

/-!
# Word characters

Which characters may begin a word and which may continue it.  For ASCII the classes are written
out, so that they can be computed with; beyond it they are read off the tables.
-/

namespace MethodLift.Text

/-- Whether a code point lies in one of the inclusive ranges. -/
def inRanges (ranges : List (Nat × Nat)) (n : Nat) : Bool :=
  ranges.any fun (first, last) => first ≤ n && n ≤ last

/-- A letter, in the sense of the property `XID_Start`. -/
def isWordStart (c : Char) : Bool :=
  if c.toNat < 0x80 then c.isAlpha else inRanges wordStartRanges c.toNat

/-- A letter, a digit, a joiner such as `_` or a mark, in the sense of `XID_Continue`. -/
def isWordChar (c : Char) : Bool :=
  if c.toNat < 0x80 then c.isAlphanum || c == '_'
  else inRanges wordStartRanges c.toNat || inRanges wordTailRanges c.toNat

/-- A name begins with a letter or an underscore. -/
def isNameStart (c : Char) : Bool := c == '_' || isWordStart c

/-- What may begin a word may also continue one. -/
theorem isWordChar_of_isWordStart {c : Char} (h : isWordStart c = true) : isWordChar c = true := by
  unfold isWordStart at h
  unfold isWordChar
  split
  · next small => simp_all [Char.isAlphanum]
  · next large => simp_all

theorem isWordChar_underscore : isWordChar '_' = true := by decide

/-- What may begin a name may also continue one. -/
theorem isWordChar_of_isNameStart {c : Char} (h : isNameStart c = true) : isWordChar c = true := by
  unfold isNameStart at h
  rw [Bool.or_eq_true] at h
  rcases h with h | h
  · rw [beq_iff_eq.1 h]; exact isWordChar_underscore
  · exact isWordChar_of_isWordStart h

end MethodLift.Text
