import MethodLift.Proofs.Syntax.Tokens
import MethodLift.Syntax.Identifier

/-!
# Words in a line

An identifier that stands in a line is read as one name.  Nothing in it can begin anything else: its
characters are word characters, and the first one is no digit.  What comes behind it could still
take it over, since a few letters in front of a quote belong to a string.  So the text behind an
identifier has to stop it (`Stops`), which every blank, dot, line break and end of the text does.

`Writes` says which words the front of a text is read as, without regard to where the text stands.
Texts are put together of words with `Writes.trans`, and each kind of word has its own rule.
-/

namespace MethodLift.Syntax

open Text (isNameStart isWordChar)

variable {c : Char} {cs rest : List Char}

/-! ## Identifiers -/

lemma isIdentifier_iff {word : String} : isIdentifier word = true ↔
    ∃ c cs, word.toList = c :: cs ∧ isNameStart c = true ∧ (∀ d ∈ cs, isWordChar d = true)
      ∧ isKeyword word = false := by
  unfold isIdentifier
  split
  next empty => simp [empty]
  next c cs chars => simp [chars, and_assoc]

/-- An identifier is one word. -/
lemma isWordChar_of_isIdentifier {word : String} (h : isIdentifier word = true) :
    word ≠ "" ∧ ∀ d ∈ word.toList, isWordChar d = true := by
  obtain ⟨c, cs, chars, first, later, -⟩ := isIdentifier_iff.1 h
  constructor
  · rintro rfl
    simp at chars
  · rw [chars]
    exact List.forall_mem_cons.2 ⟨Text.isWordChar_of_isNameStart first, later⟩

lemma wordKind_of_not_isKeyword {word : String} (h : isKeyword word = false) :
    wordKind word = .name := by
  unfold isKeyword at h
  unfold wordKind
  split
  next k found => simp [found] at h
  · rfl

lemma wordKind_text (k : Keyword) : wordKind k.text = .keyword k := by cases k <;> decide

lemma Keyword.exists_spelling (k : Keyword) : ∃ c cs, k.text.toList = c :: cs
    ∧ isNameStart c = true ∧ ∀ d ∈ cs, isWordChar d = true := by
  have spelled : (k.text.toList.head?.any isNameStart && k.text.toList.all isWordChar) = true := by
    cases k <;> decide
  cases chars : k.text.toList with
  | nil => simp [chars] at spelled
  | cons c cs =>
    simp only [chars, List.head?_cons, Option.any_some, List.all_cons, Bool.and_eq_true,
      List.all_eq_true] at spelled
    exact ⟨c, cs, rfl, spelled.1, spelled.2.2⟩

/-! ## Reading an identifier -/

/-- Characters that begin something else begin no name. -/
lemma ne_of_isNameStart {d : Char} (h : isNameStart c = true) (other : isNameStart d = false) :
    c ≠ d := by
  rintro rfl
  simp [h] at other

lemma not_isDigit_of_isNameStart (h : isNameStart c = true) : c.isDigit = false := by
  by_contra digit
  simp only [Char.isDigit, Bool.not_eq_false, Bool.and_eq_true, decide_eq_true_eq, ge_iff_le,
    UInt32.le_iff_toNat_le] at digit
  have small : c.toNat < 0x80 := by
    have last : '9'.val.toNat = 57 := rfl
    change c.val.toNat < 0x80
    omega
  have letter : c.isAlpha = true := by
    have apart : c ≠ '_' := by
      rintro rfl
      simp at digit
    simpa [isNameStart, Text.isWordStart, small, apart] using h
  simp only [Char.isAlpha, Char.isUpper, Char.isLower, Bool.or_eq_true, Bool.and_eq_true,
    decide_eq_true_eq, ge_iff_le, UInt32.le_iff_toNat_le] at letter
  simp at digit letter
  omega

namespace Piece

lemma isQuote_of_isWordChar (h : isWordChar c = true) : isQuote c = false := by
  by_contra quote
  simp only [isQuote, Bool.not_eq_false, Bool.or_eq_true, beq_iff_eq] at quote
  rcases quote with rfl | rfl <;> simp [isWordChar] at h

lemma isWordChar_of_isStringPrefix (h : isStringPrefix c = true) : isWordChar c = true := by
  simp only [isStringPrefix, Bool.or_eq_true, beq_iff_eq] at h
  rcases h with ((((((rfl | rfl) | rfl) | rfl) | rfl) | rfl) | rfl) | rfl <;> decide

end Piece

/-- The rest of a text that keeps a word in front of it as it is. -/
def Stops (rest : List Char) : Prop :=
  ∀ d ∈ rest.head?, isWordChar d = false ∧ Piece.isQuote d = false

namespace Piece

/-- No string begins where neither of the next two characters is a quote. -/
lemma prefixedString?_eq_none (c : Char) (second : ∀ d ∈ cs.head?, isQuote d = false)
    (third : ∀ d e ds, cs = d :: e :: ds → isStringPrefix d = true → isQuote e = false) :
    prefixedString? c cs = none := by
  unfold prefixedString?
  split
  · rfl
  next d ds =>
    have plain : isQuote d = false := second d (by simp)
    simp only [plain, Bool.false_eq_true, if_false]
    split
    · rfl
    split
    next letter =>
      split
      · rfl
      next e es => simp [third d e es rfl letter]
    · rfl

lemma prefixedString?_of_stops (word : ∀ d ∈ cs, isWordChar d = true) (stops : Stops rest)
    (c : Char) : prefixedString? c (cs ++ rest) = none := by
  have plain : ∀ d ∈ (cs ++ rest).head?, isQuote d = false := by
    cases cs with
    | nil => exact fun d hd => (stops d hd).2
    | cons d ds => simpa using isQuote_of_isWordChar (word d (by simp))
  apply prefixedString?_eq_none c plain
  intro d e ds is letter
  cases cs with
  | nil =>
    have apart := (stops d (by simp_all)).1
    simp [isWordChar_of_isStringPrefix letter] at apart
  | cons d' cs =>
    obtain ⟨rfl, tail⟩ := List.cons.inj is
    cases cs with
    | nil => exact (stops e (by simp_all)).2
    | cons e' cs =>
      obtain ⟨rfl, -⟩ := List.cons.inj tail
      exact isQuote_of_isWordChar (word e' (by simp))

lemma spanning_of_stops (word : ∀ d ∈ cs, isWordChar d = true) (stops : Stops rest) :
    Cut.spanning isWordChar (cs ++ rest) = ⟨cs, rest⟩ := by
  have none : rest.takeWhile isWordChar = [] ∧ rest.dropWhile isWordChar = rest := by
    cases rest with
    | nil => simp
    | cons d ds => simp [(stops d (by simp)).1]
  rw [Cut.spanning, List.takeWhile_append_of_pos word, List.dropWhile_append_of_pos word]
  simp [none]

lemma read_identifier (first : isNameStart c = true) (word : ∀ d ∈ cs, isWordChar d = true)
    (stops : Stops rest) : read c (cs ++ rest) = (.word, ⟨c :: cs, rest⟩) := by
  have apart : c ≠ ' ' ∧ c ≠ '\t' ∧ c ≠ '\x0c' ∧ c ≠ '#' ∧ c ≠ '\n' ∧ c ≠ '\r' ∧ c ≠ '\\'
      ∧ c ≠ '.' := by
    refine ⟨?_, ?_, ?_, ?_, ?_, ?_, ?_, ?_⟩ <;> exact ne_of_isNameStart first (by decide)
  have noQuote := isQuote_of_isWordChar (Text.isWordChar_of_isNameStart first)
  have noDigit := not_isDigit_of_isNameStart first
  have noString := prefixedString?_of_stops word stops c
  simp [read, isBlank, isLineEnd, beginsNumber, apart, noQuote, noDigit, first, noString,
    spanning_of_stops word stops, Cut.push]

end Piece

/-! ## The words of a line -/

/-- What a token says, wherever it stands. -/
def Token.word (t : Token) : TokenKind × String := (t.kind, t.text)

/-- The front of a text is read as some words, and there is no problem with them. -/
def Writes (layout : Layout) (cs : List Char) (words : List (TokenKind × String)) (next : Layout)
    (rest : List Char) : Prop :=
  ∀ offset, ∃ ts offset', ts.map Token.word = words
    ∧ lexFrom layout offset cs = (lexFrom next offset' rest).cons ts []

section

variable {layout next last : Layout} {rest' : List Char} {words words' : List (TokenKind × String)}
  {word : String}

lemma Writes.trans (h : Writes layout cs words next rest)
    (h' : Writes next rest words' last rest') :
    Writes layout cs (words ++ words') last rest' := by
  intro offset
  obtain ⟨ts, offset', is, read⟩ := h offset
  obtain ⟨us, offset'', is', read'⟩ := h' offset'
  use ts ++ us, offset''
  constructor
  · rw [List.map_append, is, is']
  · rw [read, read']
    simp [Lexed.cons]

/-- One piece that is a token. -/
lemma Writes.token {taken : List Char} {piece : Piece} {kind : TokenKind}
    (inLine : layout.lineStart = false) (read : Piece.read c cs = (piece, ⟨taken, rest⟩))
    (one : ∀ span, contribution layout piece taken span
      = ⟨[⟨kind, String.ofList taken, span⟩], [], next⟩) :
    Writes layout (c :: cs) [(kind, String.ofList taken)] next rest := by
  intro offset
  use [⟨kind, String.ofList taken, ⟨offset, offset + Text.width taken⟩⟩],
    offset + Text.width taken
  constructor
  · rfl
  · rw [lexFrom_inLine offset (by simp [inLine]), read]
    simp only [one]

lemma Writes.blank (inLine : layout.lineStart = false) (cs : List Char) :
    Writes layout (' ' :: cs) [] layout cs := by
  intro offset
  use [], offset + 1
  constructor
  · rfl
  · rw [lexFrom_inLine offset (by simp [inLine])]
    rfl

/-- A word that is stopped, reserved or not. -/
lemma Writes.spelled (inLine : layout.lineStart = false) (spelled : word.toList = c :: cs)
    (first : isNameStart c = true) (later : ∀ d ∈ cs, isWordChar d = true) (stops : Stops rest) :
    Writes layout (word.toList ++ rest) [(wordKind word, word)] { layout with pending := true }
      rest := by
  have whole : String.ofList (c :: cs) = word := by rw [← spelled, String.ofList_toList]
  have read := Piece.read_identifier first later stops
  have one (span : Span) : contribution layout .word (c :: cs) span
      = ⟨[⟨wordKind word, String.ofList (c :: cs), span⟩], [], { layout with pending := true }⟩ := by
    rw [contribution, whole]
  have writes := Writes.token inLine read one
  rw [whole] at writes
  rwa [spelled]

lemma Writes.keyword (inLine : layout.lineStart = false) (k : Keyword) (stops : Stops rest) :
    Writes layout (k.text.toList ++ rest) [(.keyword k, k.text)] { layout with pending := true }
      rest := by
  obtain ⟨c, cs, chars, first, later⟩ := k.exists_spelling
  have writes := Writes.spelled inLine chars first later stops
  rwa [wordKind_text] at writes

lemma Writes.identifier (inLine : layout.lineStart = false) (h : isIdentifier word = true)
    (stops : Stops rest) :
    Writes layout (word.toList ++ rest) [(.name, word)] { layout with pending := true } rest := by
  obtain ⟨c, cs, chars, first, later, free⟩ := isIdentifier_iff.1 h
  have writes := Writes.spelled inLine chars first later stops
  rwa [wordKind_of_not_isKeyword free] at writes

/-- A dot in front of an identifier is one by itself. -/
lemma Writes.dot (inLine : layout.lineStart = false) (first : isNameStart c = true) (cs : List Char) :
    Writes layout ('.' :: c :: cs) [(.symbol .dot, ".")] { layout with pending := true }
      (c :: cs) := by
  have apart : c ≠ '.' := ne_of_isNameStart first (by decide)
  have noDigit := not_isDigit_of_isNameStart first
  have symbol : Piece.symbol? ('.' :: c :: cs) = some (.dot, ⟨['.'], c :: cs⟩) := by
    simp [Piece.symbol?, Symbol.all, Symbol.text, Piece.dropPrefix?, apart.symm]
  have read : Piece.read '.' (c :: cs) = (.symbol .dot, ⟨['.'], c :: cs⟩) := by
    simp [Piece.read, isBlank, isLineEnd, Piece.beginsNumber, noDigit, Piece.isQuote, isNameStart,
      Text.isWordStart, symbol]
  exact Writes.token inLine read fun span => rfl

end

end MethodLift.Syntax
