import MethodLift.Proofs.Syntax.Joining
import MethodLift.Proofs.Syntax.Ranges
import MethodLift.Proofs.Syntax.WordTokens

/-!
# Identifiers and names

Whether a word can be used as a name is decided in two ways: by looking at its characters, and by
reading it.  Reading knows nothing of identifiers.  It first rules out blanks, comments, numbers and
strings with letters before them, and tells reserved words from names at the end.  Both ways agree
(`isIdentifier_iff_lex`).

One direction is the reading of an identifier that nothing follows.  For the other one it is enough
that every name of a text is an identifier (`isIdentifier_of_mem_lex`), and that one token covers the
whole word.
-/

namespace MethodLift.Syntax

open Text (isNameStart isWordChar width width_toList)

/-! ## Names are identifiers -/

/-- As in `Piece.read_symbol`, one branch gives a word. -/
lemma Piece.read_word {c : Char} {cs : List Char} {cut : Cut}
    (h : Piece.read c cs = (.word, cut)) : isNameStart c = true
      ∧ ∃ word, cut.taken = c :: word ∧ ∀ d ∈ word, isWordChar d = true := by
  unfold Piece.read at h
  split at h
  · nomatch h
  split at h
  · nomatch h
  split at h
  · nomatch h
  split at h
  · split at h
    · split at h <;> nomatch h
    · nomatch h
  split at h
  · nomatch h
  split at h
  · nomatch h
  split at h
  next start =>
    split at h
    next found is =>
      subst h
      obtain ⟨f, closed, kind⟩ := Piece.prefixedString?_kind is
      nomatch kind
    · cases h
      exact ⟨start, _, rfl, fun d hd => List.mem_takeWhile_imp hd⟩
  split at h <;> nomatch h

/-- The kind of a word. -/
def TokenKind.isWord : TokenKind → Bool
  | .name | .keyword _ => true
  | _ => false

/-- A token is spelled as a word, and its kind is that of the word. -/
structure Token.IsWord (t : Token) : Prop where
  spelled : ∃ c word, t.text.toList = c :: word ∧ isNameStart c = true
    ∧ ∀ d ∈ word, isWordChar d = true
  kind : t.kind = wordKind t.text

/-- A word that is not reserved is an identifier. -/
lemma Token.IsWord.isIdentifier {t : Token} (h : t.IsWord) (name : t.kind = .name) :
    isIdentifier t.text = true := by
  obtain ⟨c, word, spelled, start, later⟩ := h.spelled
  have free : isKeyword t.text = false := by
    have kind := h.kind.symm.trans name
    unfold wordKind at kind
    split at kind
    · nomatch kind
    next none => simp [isKeyword, none]
  exact isIdentifier_iff.2 ⟨c, word, spelled, start, later, free⟩

lemma solids_isWord (offset : ℕ) (cs : List Char) :
    ∀ x ∈ solids offset cs, x.1.kind.isWord = true → x.1.IsWord := by
  fun_induction solids offset cs with
  | case1 => exact List.forall_mem_nil _
  | case2 offset c rest found stop ih =>
    refine List.forall_mem_append.2 ⟨fun x hx isWord => ?_, ih⟩
    obtain ⟨t, ht, rfl⟩ := List.mem_map.1 hx
    have mem := List.mem_of_mem_filter ht
    cases piece : found.1 with
    | word =>
      rw [piece] at mem
      obtain rfl := List.mem_singleton.1 mem
      obtain ⟨start, word, taken, later⟩ := Piece.read_word (Prod.ext piece rfl)
      exact ⟨⟨c, word, String.toList_ofList.trans taken, start, later⟩, rfl⟩
    | blank | comment | joint | strayBackslash | lineBreak =>
      rw [piece] at mem
      nomatch mem
    | number | symbol | unknown =>
      rw [piece] at mem
      obtain rfl := List.mem_singleton.1 mem
      nomatch isWord
    | string formatted =>
      rw [piece] at mem
      obtain rfl := List.mem_singleton.1 mem
      cases formatted <;> nomatch isWord

/-- The names and reserved words of a text are spelled as words. -/
lemma isWord_of_mem_lex {text : String} {t : Token} (ht : t ∈ (lex text).tokens)
    (isWord : t.kind.isWord = true) : t.IsWord := by
  have takes : t.kind.takesSpace = true := by
    cases kind : t.kind with
    | name | keyword => rfl
    | _ =>
      rw [kind] at isWord
      nomatch isWord
  have solid : t ∈ (lex text).tokens.filter (·.kind.takesSpace) := List.mem_filter.2 ⟨ht, takes⟩
  rw [lex, (lexFrom_solids .module 0 text.toList).1, List.mem_map] at solid
  obtain ⟨x, hx, rfl⟩ := solid
  exact solids_isWord 0 text.toList x hx isWord

/-- The names of a text are identifiers. -/
theorem isIdentifier_of_mem_lex {text : String} {t : Token} (ht : t ∈ (lex text).tokens)
    (name : t.kind = .name) : isIdentifier t.text = true :=
  (isWord_of_mem_lex ht (name ▸ rfl)).isIdentifier name

/-! ## Reading an identifier alone -/

/-- An identifier is read as one name in a line of its own. -/
lemma lex_identifier {word : String} (h : isIdentifier word = true) :
    lex word = ⟨[⟨.name, word, ⟨0, word.utf8ByteSize⟩⟩,
      ⟨.newline, "", .point word.utf8ByteSize⟩, ⟨.endOfFile, "", .point word.utf8ByteSize⟩], []⟩ := by
  obtain ⟨c, cs, chars, first, later, free⟩ := isIdentifier_iff.1 h
  have noBlank : isBlank c = false := by
    have apart : c ≠ ' ' ∧ c ≠ '\t' ∧ c ≠ '\x0c' := by
      refine ⟨?_, ?_, ?_⟩ <;> exact ne_of_isNameStart first (by decide)
    simp [isBlank, apart]
  have some : ¬beginsEmptyLine c = true := by
    have apart : c ≠ '#' ∧ c ≠ '\n' ∧ c ≠ '\r' := by
      refine ⟨?_, ?_, ?_⟩ <;> exact ne_of_isNameStart first (by decide)
    simp [beginsEmptyLine, isLineEnd, apart]
  have blanks : Cut.spanning isBlank (c :: cs) = ⟨[], c :: cs⟩ := by simp [Cut.spanning, noBlank]
  have level : lexFrom .module 0 (c :: cs) = lexFrom ⟨0, [], false, false⟩ 0 (c :: cs) := by
    rw [lexFrom_level 0 rfl (by rw [blanks]) some, blanks]
    rfl
  have read : Piece.read c cs = (.word, ⟨c :: cs, []⟩) := by
    have stops : Stops [] := fun d hd => by cases hd
    simpa using Piece.read_identifier first later stops
  have whole : String.ofList (c :: cs) = word := by rw [← chars, String.ofList_toList]
  have size : width (c :: cs) = word.utf8ByteSize := by rw [← chars, width_toList]
  rw [lex, chars, level, lexFrom_inLine 0 Bool.false_ne_true, read]
  dsimp only
  rw [size, Nat.zero_add, lexFrom, contribution, whole, wordKind_of_not_isKeyword free]
  rfl

/-- **Identifiers.**  A word is an identifier if and only if it is read, without a problem, as one
name that covers all of it, the end of its line and the end of the text. -/
theorem isIdentifier_iff_lex (word : String) : isIdentifier word = true ↔
    (lex word).problems = [] ∧ ∃ name lineEnd stop, (lex word).tokens = [name, lineEnd, stop]
      ∧ name.kind = .name ∧ name.span = ⟨0, word.utf8ByteSize⟩
      ∧ lineEnd.kind = .newline ∧ stop.kind = .endOfFile := by
  constructor
  · intro h
    rw [lex_identifier h]
    exact ⟨rfl, _, _, _, rfl, rfl, rfl, rfl, rfl⟩
  · rintro ⟨-, name, lineEnd, stop, tokens, isName, covers, -, -⟩
    have mem : name ∈ (lex word).tokens := by simp [tokens]
    have identifier := isIdentifier_of_mem_lex mem isName
    have all : Text.slice word.toList name.span = word.toList := by
      have whole := Text.slice_append [] word.toList []
      rw [List.append_nil, List.nil_append, width_toList] at whole
      rwa [covers]
    rcases ((lex_placed word).tokens.each name mem).text with none | slice
    · rw [none] at identifier
      nomatch identifier
    · rw [all, String.toList_inj] at slice
      rwa [slice]

end MethodLift.Syntax
