import MethodLift.Proofs.Syntax.WordTokens

/-!
# The words of a line that imports one name

The line `from a.b import f`, read as a text of its own, gives the words that one sees in it, one
name for each identifier, whatever the identifiers are (`lex_importLine`).  A line break may stand in
front of the line, and it may end with one or with the text.

The path is the one part of the line that has no fixed length.  Behind each of its dots an
identifier begins, so that the dot neither joins other dots nor begins a number (`writes_dots`).
-/

namespace MethodLift.Syntax

open Text (isNameStart isWordChar)

/-- What a token says. -/
abbrev Word := TokenKind × String

/-! ## The words of the line -/

/-- The parts of a path behind the first one, each after a dot. -/
def dotWords (parts : List String) : List Word :=
  parts.flatMap fun part => [(.symbol .dot, "."), (.name, part)]

/-- The words of a line that imports a name. -/
def importWords (first : String) (parts : List String) (symbol : String) : List Word :=
  (.keyword .kFrom, "from") :: (.name, first) :: dotWords parts
    ++ [(.keyword .kImport, "import"), (.name, symbol)]

/-- The line that imports a name of a module. -/
def importLine (path symbol : String) : String := "from " ++ path ++ " import " ++ symbol

lemma toList_intercalate_cons (first : String) (parts : List String) :
    (".".intercalate (first :: parts)).toList
      = first.toList ++ parts.flatMap fun part => '.' :: part.toList := by
  induction parts generalizing first with
  | nil => simp
  | cons part parts ih => 
    rw [String.intercalate_cons_cons]
    simp [ih]

section

variable {layout : Layout} {rest : List Char} {first symbol : String} {parts : List String}

lemma stops_cons {d : Char} (apart : isWordChar d = false ∧ Piece.isQuote d = false)
    (cs : List Char) : Stops (d :: cs) := by
  simpa [Stops] using apart

lemma writes_dots (inLine : layout.lineStart = false) (stops : Stops rest)
    (words : ∀ part ∈ parts, isIdentifier part = true) :
    Writes { layout with pending := true }
      (parts.flatMap (fun part => '.' :: part.toList) ++ rest) (dotWords parts)
      { layout with pending := true } rest := by
  set inside : Layout := { layout with pending := true }
  have line : inside.lineStart = false := inLine
  induction parts with
  | nil =>
    intro offset
    exact ⟨[], offset, rfl, rfl⟩
  | cons part parts ih =>
    obtain ⟨word, words'⟩ := List.forall_mem_cons.1 words
    obtain ⟨c, cs, chars, start, -, -⟩ := isIdentifier_iff.1 word
    have stops' : Stops (parts.flatMap (fun part => '.' :: part.toList) ++ rest) := by
      cases parts with
      | nil => exact stops
      | cons p ps => exact stops_cons (by decide) _
    have dot := Writes.dot line start
      (cs ++ (parts.flatMap (fun part => '.' :: part.toList) ++ rest))
    rw [← List.cons_append, ← chars] at dot
    have name := Writes.identifier line word stops'
    simpa [dotWords] using (dot.trans name).trans (ih words')

lemma writes_importLine (inLine : layout.lineStart = false) (stops : Stops rest)
    (words : ∀ part ∈ first :: parts, isIdentifier part = true)
    (word : isIdentifier symbol = true) :
    Writes layout ((importLine (".".intercalate (first :: parts)) symbol).toList ++ rest)
      (importWords first parts symbol) { layout with pending := true } rest := by
  obtain ⟨head, tail⟩ := List.forall_mem_cons.1 words
  set inside : Layout := { layout with pending := true }
  set dots := parts.flatMap fun part => '.' :: part.toList
  have blank (cs : List Char) : Stops (' ' :: cs) := stops_cons (by decide) cs
  have behind (cs : List Char) : Stops (dots ++ ' ' :: cs) := by
    cases parts with
    | nil => exact blank cs
    | cons part parts => exact stops_cons (by decide) _
  have line : inside.lineStart = false := inLine
  have fromWord := Writes.keyword inLine .kFrom
    (blank (first.toList ++ (dots ++ ' ' :: ("import".toList ++ ' ' :: (symbol.toList ++ rest)))))
  have firstName := Writes.identifier line head
    (behind ("import".toList ++ ' ' :: (symbol.toList ++ rest)))
  have others := writes_dots inLine
    (blank ("import".toList ++ ' ' :: (symbol.toList ++ rest))) tail
  have importWord := Writes.keyword line .kImport (blank (symbol.toList ++ rest))
  have name := Writes.identifier line word stops
  have path := ((fromWord.trans (.blank line _)).trans firstName).trans others
  have whole := (path.trans (.blank line _)).trans ((importWord.trans (.blank line _)).trans name)
  have spelled : (importLine (".".intercalate (first :: parts)) symbol).toList ++ rest
      = "from".toList ++ ' ' :: (first.toList ++ (dots ++ ' ' :: ("import".toList
        ++ ' ' :: (symbol.toList ++ rest)))) := by
    simp only [importLine, String.toList_append, toList_intercalate_cons, dots]
    simp
  have words' : importWords first parts symbol = [(.keyword .kFrom, "from")] ++ [] ++ [(.name, first)]
      ++ dotWords parts ++ [] ++ ([(.keyword .kImport, "import")] ++ [] ++ [(.name, symbol)]) := by
    simp [importWords]
  rw [spelled, words']
  exact whole

/-- A line break, or none where a text begins or ends. -/
def IsBreak (cs : List Char) : Prop := cs = [] ∨ cs = ['\n'] ∨ cs = ['\r', '\n']

/-- The start of a line that is not indented. -/
lemma lexFrom_start {lead cs : List Char} (isBreak : IsBreak lead) : ∃ offset,
    lexFrom .module 0 (lead ++ 'f' :: cs) = lexFrom ⟨0, [], false, false⟩ offset ('f' :: cs) := by
  have level (offset : ℕ) : lexFrom .module offset ('f' :: cs)
      = lexFrom ⟨0, [], false, false⟩ offset ('f' :: cs) := lexFrom_level offset rfl rfl (by decide)
  rcases isBreak with rfl | rfl | rfl
  · exact ⟨0, level 0⟩
  · have empty := @lexFrom_emptyLine .module '\n' '\n' ('f' :: cs) ('f' :: cs) 0 rfl rfl (by decide)
    exact ⟨_, empty.trans (level _)⟩
  · have empty := @lexFrom_emptyLine .module '\r' '\r' ('\n' :: 'f' :: cs) ('\n' :: 'f' :: cs) 0 rfl
      rfl (by decide)
    exact ⟨_, empty.trans (level _)⟩

/-- The end of a line, and of the text. -/
lemma lexFrom_end {tail : List Char} (isBreak : IsBreak tail) (offset : ℕ) : ∃ ts,
    lexFrom ⟨0, [], false, true⟩ offset tail = ⟨ts, []⟩
      ∧ ts.map Token.word = [(.newline, ""), (.endOfFile, "")] := by
  have closed (offset : ℕ) : lexFrom ⟨0, [], true, false⟩ offset []
      = ⟨[⟨.endOfFile, "", .point offset⟩], []⟩ := by rw [lexFrom]; rfl
  have broken (c : Char) (cs : List Char) (read : Piece.read c cs = (.lineBreak, ⟨c :: cs, []⟩)) :
      ∃ ts, lexFrom ⟨0, [], false, true⟩ offset (c :: cs) = ⟨ts, []⟩
        ∧ ts.map Token.word = [(.newline, ""), (.endOfFile, "")] := by
    rw [lexFrom_inLine offset Bool.false_ne_true, read]
    dsimp only
    rw [show (contribution ⟨0, [], false, true⟩ .lineBreak (c :: cs)
      ⟨offset, offset + Text.width (c :: cs)⟩).next = ⟨0, [], true, false⟩ from rfl, closed]
    exact ⟨_, rfl, rfl⟩
  rcases isBreak with rfl | rfl | rfl
  · rw [lexFrom]
    exact ⟨_, rfl, rfl⟩
  · exact broken '\n' [] rfl
  · exact broken '\r' ['\n'] rfl

lemma stops_of_isBreak {tail : List Char} (isBreak : IsBreak tail) : Stops tail := by
  rcases isBreak with rfl | rfl | rfl
  · simp [Stops]
  · exact stops_cons (by decide) _
  · exact stops_cons (by decide) _

/-- The line is read as its words, and there is no problem with it. -/
theorem lex_importLine {lead tail : List Char} (before : IsBreak lead) (behind : IsBreak tail)
    (words : ∀ part ∈ first :: parts, isIdentifier part = true)
    (word : isIdentifier symbol = true) {text : String}
    (is : text.toList
      = lead ++ (importLine (".".intercalate (first :: parts)) symbol).toList ++ tail) :
    (lex text).problems = [] ∧ (lex text).tokens.map Token.word
      = importWords first parts symbol ++ [(.newline, ""), (.endOfFile, "")] := by
  have starts : ∃ cs, (importLine (".".intercalate (first :: parts)) symbol).toList ++ tail
      = 'f' :: cs := by
    simp [importLine]
  obtain ⟨cs, starts⟩ := starts
  obtain ⟨offset, start⟩ := @lexFrom_start lead cs before
  have line := @writes_importLine ⟨0, [], false, false⟩ tail first symbol parts rfl
    (stops_of_isBreak behind) words word
  obtain ⟨ts, offset', same, inLine⟩ := line offset
  obtain ⟨us, closed, same'⟩ := lexFrom_end behind offset'
  have read : lex text = ⟨ts ++ us, []⟩ := by
    rw [lex, is, List.append_assoc, starts, start, ← starts, inLine, closed]
    simp [Lexed.cons]
  simp [read, same, same']

end

end MethodLift.Syntax
