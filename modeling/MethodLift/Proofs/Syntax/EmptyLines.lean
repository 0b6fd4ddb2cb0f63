import MethodLift.Proofs.Syntax.Gaps
import MethodLift.Proofs.Syntax.Layout
import MethodLift.Proofs.Syntax.Lookahead

/-!
# Lines without tokens

A line of blanks, with or without a comment, says nothing.  Put in between two logical lines of a text
it changes no token and no problem, and all that stands behind it moves by its length
(`lex_insert_emptyLine`).

Where such a line may be put in is said in terms of the text and its tokens: a line begins there, no
bracket is open, and the place is not in a string and not behind lines that are joined
(`BetweenLogicalLines`).  Reading comes to such a place in front of a logical line
(`BetweenLogicalLines.reads`).  For this the layout that is carried along is compared with the tokens
so far, and each backslash that is read with the comments in front of it.

What is read up to the place does not depend on what follows (`Piece.read_ahead`), and what is read
behind it not on where it stands (`lexFrom_shift`).  A carriage return and a line feed are one line
break, so a line feed that is put in behind a carriage return is taken into the line break in front.
This is why line breaks are passed character by character here (`lexFrom_lineEnd`), which amounts to
the same: the second one ends a line without tokens.
-/

namespace MethodLift

open Text (width width_toList)

/-! ## What stands behind a place -/

/-- A span that moves if it begins at a place or behind it. -/
def Span.shiftFrom (place distance : ℕ) (s : Span) : Span :=
  if place ≤ s.start then s.shift distance else s

namespace Syntax

/-- A token that moves if it begins at a place or behind it. -/
def Token.shiftFrom (place distance : ℕ) (t : Token) : Token :=
  { t with span := t.span.shiftFrom place distance }

/-- A problem that moves if it begins at a place or behind it. -/
def Problem.shiftFrom (place distance : ℕ) (p : Problem) : Problem :=
  { p with span := p.span.shiftFrom place distance }

/-- The tokens and problems of a text, of which those move that begin at a place or behind it. -/
def Lexed.shiftFrom (place distance : ℕ) (l : Lexed) : Lexed :=
  ⟨l.tokens.map (·.shiftFrom place distance), l.problems.map (·.shiftFrom place distance)⟩

/-- What a step of reading contributes, moved in the same way. -/
def Step.shiftFrom (place distance : ℕ) (s : Step) : Step :=
  ⟨s.tokens.map (·.shiftFrom place distance), s.problems.map (·.shiftFrom place distance), s.next⟩

variable {layout : Layout} {place offset distance : ℕ} {span : Span} {c d : Char}
  {cs ds line : List Char}

lemma shiftFrom_of_lt (h : span.start < place) : span.shiftFrom place distance = span :=
  if_neg (Nat.not_le.2 h)

lemma point_shiftFrom (n : ℕ) : (Span.point n).shiftFrom place distance
    = .point (if place ≤ n then n + distance else n) := by
  unfold Span.shiftFrom
  split
  next h => exact congrArg Span.point (if_pos h).symm
  next h => exact congrArg Span.point (if_neg h).symm

lemma shiftFrom_start (span : Span) : (span.shiftFrom place distance).start
    = if place ≤ span.start then span.start + distance else span.start := by
  unfold Span.shiftFrom
  split <;> rfl

lemma shiftFrom_stop (span : Span) : (span.shiftFrom place distance).stop
    = if place ≤ span.start then span.stop + distance else span.stop := by
  unfold Span.shiftFrom
  split <;> rfl

lemma Lexed.cons_shiftFrom (tokens : List Token) (problems : List Problem) (later : Lexed) :
    (later.cons tokens problems).shiftFrom place distance
      = (later.shiftFrom place distance).cons (tokens.map (·.shiftFrom place distance))
        (problems.map (·.shiftFrom place distance)) := by
  simp [Lexed.shiftFrom, Lexed.cons]

/-- A step that stands in front of the place stays. -/
lemma Lexed.cons_of_fixed {step : Step} (fixed : step.shiftFrom place distance = step)
    (later : Lexed) : (later.cons step.tokens step.problems).shiftFrom place distance
      = (later.shiftFrom place distance).cons step.tokens step.problems := by
  have tokens : step.tokens.map (·.shiftFrom place distance) = step.tokens :=
    congrArg Step.tokens fixed
  have problems : step.problems.map (·.shiftFrom place distance) = step.problems :=
    congrArg Step.problems fixed
  rw [Lexed.cons_shiftFrom, tokens, problems]

/-! ### Reading at another place -/

/-- Layout stands where the span begins, so a piece and what it contributes move together. -/
lemma contribution_shiftFrom (layout : Layout) (piece : Piece) (taken : List Char) (span : Span) :
    contribution layout piece taken (span.shiftFrom place distance)
      = (contribution layout piece taken span).shiftFrom place distance := by
  cases piece with
  | blank | comment | joint | strayBackslash | number | word | symbol | unknown => rfl
  | string f closed => cases closed <;> rfl
  | lineBreak =>
    have point : Span.point (span.shiftFrom place distance).start
        = (Span.point span.start).shiftFrom place distance := by
      rw [point_shiftFrom, shiftFrom_start]
    simp only [contribution, point]
    split
    · split <;> rfl
    · rfl

/-- The blanks at the front of a line lie on one side of the place. -/
lemma relevel_shiftFrom (layout : Layout) (columns : ℕ)
    (side : place ≤ span.start ↔ place ≤ span.stop) :
    relevel layout columns (span.shiftFrom place distance)
      = (relevel layout columns span).shiftFrom place distance := by
  have point : Span.point (span.shiftFrom place distance).stop
      = (Span.point span.stop).shiftFrom place distance := by
    simp only [point_shiftFrom, shiftFrom_stop, side]
  unfold relevel
  simp only [point]
  split
  · rfl
  split
  · split <;> simp [Step.shiftFrom, Token.shiftFrom, Problem.shiftFrom]
  · rfl

/-- What is contributed in front of the place stays. -/
lemma contribution_fixed (layout : Layout) (piece : Piece) (taken : List Char)
    (front : span.start < place) : (contribution layout piece taken span).shiftFrom place distance
      = contribution layout piece taken span := by
  rw [← contribution_shiftFrom, shiftFrom_of_lt front]

lemma relevel_fixed (layout : Layout) (columns : ℕ) (front : span.start < place)
    (inFront : span.stop < place) : (relevel layout columns span).shiftFrom place distance
      = relevel layout columns span := by
  rw [← relevel_shiftFrom layout columns (by omega), shiftFrom_of_lt front]

lemma closing_shift (behind : place ≤ offset) :
    closing layout (offset + distance)
      = (closing layout offset).map (·.shiftFrom place distance) := by
  have point : Span.point (offset + distance) = (Span.point offset).shiftFrom place distance :=
    (if_pos behind).symm
  simp only [closing, point, List.map_append]
  split <;> split <;> simp [Token.shiftFrom]

/-- What is read does not depend on where it stands. -/
theorem lexFrom_shift (behind : place ≤ offset) (layout : Layout) (cs : List Char) :
    lexFrom layout (offset + distance) cs
      = (lexFrom layout offset cs).shiftFrom place distance := by
  have shifted {start stop : ℕ} (h : place ≤ start) :
      (⟨start + distance, stop + distance⟩ : Span)
        = Span.shiftFrom place distance ⟨start, stop⟩ := (if_pos h).symm
  fun_induction lexFrom layout offset cs with
  | case1 layout offset =>
    rw [lexFrom, closing_shift behind]
    rfl
  | case2 layout offset c rest begins blanks first shape =>
    have later : place ≤ first := behind.trans (Nat.le_add_right _ _)
    rw [lexFrom_blank _ begins shape, Nat.add_right_comm, closing_shift later]
    rfl
  | case3 layout offset c rest begins blanks first d ds shape empty line ih =>
    have later := ih (by omega)
    rw [lexFrom_emptyLine _ begins shape empty, ← later]
    exact congrArg (lexFrom layout · _) (by dsimp only [first, line, blanks]; omega)
  | case4 layout offset c rest begins blanks first d ds shape some step ih =>
    have later := ih (by omega)
    rw [lexFrom_level _ begins shape some, Lexed.cons_shiftFrom, ← later]
    dsimp only
    rw [Nat.add_right_comm, shifted behind,
      relevel_shiftFrom _ _ (by dsimp only; omega)]
    rfl
  | case5 layout offset c rest inLine found stop step ih =>
    have later := ih (by omega)
    rw [lexFrom_inLine _ inLine, Lexed.cons_shiftFrom, ← later]
    dsimp only
    rw [Nat.add_right_comm, shifted behind, contribution_shiftFrom]
    rfl

/-! ## Line ends one by one -/

lemma isBlank_of_isLineEnd (ends : isLineEnd c = true) : isBlank c = false := by
  rcases eq_of_isLineEnd ends with rfl | rfl <;> rfl

/-- A line feed behind a carriage return ends a line without tokens. -/
lemma lexFrom_afterBreak (begins : layout.lineStart = true) (offset : ℕ) (c : Char)
    (cs : List Char) : lexFrom layout (offset + width (Piece.afterBreak c cs).taken)
      (Piece.afterBreak c cs).rest = lexFrom layout offset cs := by
  unfold Piece.afterBreak
  split
  next rest =>
    split
    · have blanks : Cut.spanning isBlank ('\n' :: rest) = ⟨[], '\n' :: rest⟩ := rfl
      have line : emptyLine '\n' rest = ⟨['\n'], rest⟩ :=
        congrArg (Cut.push '\n') (Piece.afterBreak_feed_eq rest)
      rw [lexFrom_emptyLine _ begins (by rw [blanks]) rfl, line, blanks]
      rfl
    · rfl
  · rfl

/-- Blanks, with or without a comment behind them: a line without tokens, up to its end. -/
def EmptyLine (line : List Char) : Prop :=
  ∃ blanks comment, line = blanks ++ comment ∧ (∀ b ∈ blanks, isBlank b = true)
    ∧ (comment = [] ∨ ∃ inside, comment = '#' :: inside ∧ ∀ b ∈ inside, isLineEnd b = false)

/-- Where the next line begins, a line without tokens is passed over. -/
lemma EmptyLine.lexFrom (h : EmptyLine line) (begins : layout.lineStart = true)
    (ends : isLineEnd c = true) (offset : ℕ) (cs : List Char) :
    lexFrom layout offset (line ++ c :: cs) = lexFrom layout (offset + width (line ++ [c])) cs := by
  obtain ⟨blanks, comment, rfl, blank, shape⟩ := h
  obtain ⟨d, ds, rest, empty, solid, passes⟩ : ∃ d ds, comment ++ c :: cs = d :: ds
      ∧ beginsEmptyLine d = true ∧ isBlank d = false ∧ emptyLine d ds
        = ⟨comment ++ c :: (Piece.afterBreak c cs).taken, (Piece.afterBreak c cs).rest⟩ := by
    rcases shape with rfl | ⟨inside, rfl, inLine⟩
    · have other : ¬(c == '#') = true := by
        rcases eq_of_isLineEnd ends with rfl | rfl <;> decide
      exact ⟨c, cs, rfl, by simp [beginsEmptyLine, ends], isBlank_of_isLineEnd ends, if_neg other⟩
    · have noEnd : ∀ b ∈ inside, (!isLineEnd b) = true := by simpa using inLine
      have stops : (!isLineEnd c) = false := by rw [ends]; rfl
      have spans := Cut.spanning_append_cons noEnd stops cs
      refine ⟨'#', inside ++ c :: cs, rfl, rfl, rfl, ?_⟩
      rw [emptyLine, if_pos (beq_self_eq_true _), spans]
  have spans := Cut.spanning_append_cons blank solid ds
  obtain ⟨e, es, whole⟩ := List.exists_cons_of_ne_nil (List.append_ne_nil_of_right_ne_nil blanks
    (List.cons_ne_nil d ds))
  rw [List.append_assoc, rest, whole, lexFrom_emptyLine _ begins (by rw [← whole, spans]) empty,
    ← whole, spans, passes, ← lexFrom_afterBreak begins _ c cs]
  exact congrArg (Syntax.lexFrom layout · _) (by simp; omega)

/-- Where the next line begins, its indentation is compared with that of the lines around it. -/
lemma lexFrom_blanks {blanks : List Char} (begins : layout.lineStart = true)
    (blank : ∀ b ∈ blanks, isBlank b = true) (solid : isBlank c = false)
    (some : ¬beginsEmptyLine c = true) (offset : ℕ) (cs : List Char) :
    let step := relevel layout (indentationWidth blanks) ⟨offset, offset + width blanks⟩
    lexFrom layout offset (blanks ++ c :: cs)
      = (lexFrom step.next (offset + width blanks) (c :: cs)).cons step.tokens step.problems := by
  have spans := Cut.spanning_append_cons blank solid cs
  obtain ⟨e, es, whole⟩ := List.exists_cons_of_ne_nil (List.append_ne_nil_of_right_ne_nil blanks
    (List.cons_ne_nil c cs))
  intro step
  rw [whole, lexFrom_level _ begins (by rw [← whole, spans]) some, ← whole, spans]

/-- In a line a carriage return may be taken for the whole line break. -/
lemma lexFrom_lineEnd (inLine : layout.lineStart = false) (ends : isLineEnd c = true) (offset : ℕ)
    (cs : List Char) :
    let step := contribution layout .lineBreak [c] ⟨offset, offset + width [c]⟩
    lexFrom layout offset (c :: cs)
      = (lexFrom step.next (offset + width [c]) cs).cons step.tokens step.problems := by
  have still : ¬layout.lineStart = true := by simp [inLine]
  intro step
  rw [lexFrom_inLine _ still, Piece.read_of_isLineEnd ends]
  dsimp only [Cut.push_taken, Cut.push_rest]
  have size (taken : List Char) : offset + width (c :: taken) = offset + width [c] + width taken := by
    simp [Nat.add_assoc]
  by_cases outside : layout.depth = 0
  · have begins : step.next.lineStart = true := by simp [step, contribution, outside]
    have later := lexFrom_afterBreak begins (offset + width [c]) c cs
    rw [← size] at later
    rw [← later]
    simp [step, contribution, outside]
  · have bracketed (taken : List Char) (span : Span) :
        contribution layout .lineBreak taken span = ⟨[], [], layout⟩ := by
      simp [contribution, outside]
    simp only [step, bracketed]
    unfold Piece.afterBreak
    split
    next rest =>
      split
      · rw [lexFrom_inLine _ still, Piece.read_of_isLineEnd (by decide),
          Piece.afterBreak_feed_eq]
        dsimp only [Cut.push]
        rw [bracketed, size]
        rfl
      · rfl
    · rfl

/-! ## Reading up to a place -/

/-- Reading comes from one layout to another one over the front of a text, which goes on with
`after`. -/
inductive ReadsTo (last : Layout) (after : List Char) : ℕ → Layout → List Char → Prop
  | here {offset : ℕ} : ReadsTo last after offset last []
  | emptyLine {offset : ℕ} {layout : Layout} {line front : List Char} {c : Char}
      (begins : layout.lineStart = true) (empty : EmptyLine line) (ends : isLineEnd c = true)
      (later : ReadsTo last after (offset + width (line ++ [c])) layout front) :
      ReadsTo last after offset layout (line ++ c :: front)
  | level {offset : ℕ} {layout : Layout} {blanks front : List Char} {c : Char}
      (begins : layout.lineStart = true) (blank : ∀ b ∈ blanks, isBlank b = true)
      (solid : isBlank c = false) (some : ¬beginsEmptyLine c = true)
      (later : ReadsTo last after (offset + width blanks)
        (relevel layout (indentationWidth blanks) ⟨offset, offset + width blanks⟩).next
        (c :: front)) : ReadsTo last after offset layout (blanks ++ c :: front)
  | lineEnd {offset : ℕ} {layout : Layout} {front : List Char} {c : Char}
      (inLine : layout.lineStart = false) (ends : isLineEnd c = true)
      (later : ReadsTo last after (offset + width [c])
        (contribution layout .lineBreak [c] ⟨offset, offset + width [c]⟩).next front) :
      ReadsTo last after offset layout (c :: front)
  | piece {offset : ℕ} {layout : Layout} {cs taken front : List Char} {c : Char} {piece : Piece}
      (inLine : layout.lineStart = false) (other : isLineEnd c = false)
      (found : Piece.read c (cs ++ after) = (piece, ⟨taken, front ++ after⟩))
      (later : ReadsTo last after (offset + width taken)
        (contribution layout piece taken ⟨offset, offset + width taken⟩).next front) :
      ReadsTo last after offset layout (c :: cs)

/-- A line begins behind the end of a line only. -/
lemma contribution_lineStart {piece : Piece} (other : piece ≠ .lineBreak) (layout : Layout)
    (taken : List Char) (span : Span) :
    (contribution layout piece taken span).next.lineStart = layout.lineStart := by
  cases piece with
  | lineBreak => exact absurd rfl other
  | blank | comment | joint | strayBackslash | number | word | symbol | unknown | string => rfl

lemma Piece.ne_lineBreak (other : isLineEnd c = false) (cs : List Char) :
    (Piece.read c cs).1 ≠ .lineBreak := by
  intro is
  rw [(Piece.read_lineBreak is).1] at other
  nomatch other

lemma Piece.append_of_read {after taken front : List Char} {piece : Piece}
    (found : Piece.read c (cs ++ after) = (piece, ⟨taken, front ++ after⟩)) :
    c :: cs = taken ++ front := by
  have whole := Piece.read_taken_append_rest c (cs ++ after)
  rw [found, ← List.append_assoc, ← List.cons_append] at whole
  exact (List.append_cancel_right whole).symm

namespace ReadsTo

variable {last : Layout} {after front : List Char}

/-- In a line, reading comes to the front of another line over a line end. -/
lemma exists_lineEnd (h : ReadsTo last after offset layout front) (begins : last.lineStart = true)
    (inLine : layout.lineStart = false) : ∃ e ∈ front, isLineEnd e = true := by
  induction h with
  | here => rw [begins] at inLine; nomatch inLine
  | emptyLine starts => rw [starts] at inLine; nomatch inLine
  | level starts => rw [starts] at inLine; nomatch inLine
  | @lineEnd _ _ _ c _ ends => exact ⟨c, List.mem_cons_self, ends⟩
  | @piece _ layout cs taken front c piece _ other found _ ih =>
    have noBreak : piece ≠ .lineBreak := by
      have := Piece.ne_lineBreak other (cs ++ after)
      rwa [found] at this
    obtain ⟨e, he, ends⟩ := ih (by rw [contribution_lineStart noBreak, inLine])
    exact ⟨e, by rw [Piece.append_of_read found]; exact List.mem_append_right _ he, ends⟩

/-- What is read of a piece in front of a line end does not depend on what follows that. -/
lemma piece_again {taken : List Char} {piece : Piece}
    (found : Piece.read c (cs ++ after) = (piece, ⟨taken, front ++ after⟩))
    (ahead : ∃ e ∈ front, isLineEnd e = true) (more : List Char) :
    Piece.read c (cs ++ more) = (piece, ⟨taken, front ++ more⟩) := by
  obtain ⟨e, he, ends⟩ := ahead
  obtain ⟨inner, rest, rfl⟩ := List.append_of_mem he
  have whole := Piece.append_of_read found
  cases taken with
  | nil => exact absurd (congrArg (·.2.taken) found) (Piece.read_taken_ne_nil c _)
  | cons d taken =>
    obtain ⟨rfl, rfl⟩ := List.cons.inj whole
    have ahead (more : List Char) :
        taken ++ (inner ++ e :: rest) ++ more = taken ++ inner ++ e :: (rest ++ more) := by simp
    rw [List.append_eq, ahead] at found
    rw [List.append_eq, ahead]
    have short : (Piece.read c (taken ++ inner ++ e :: (rest ++ after))).2.taken.length
        ≤ (c :: (taken ++ inner)).length := by rw [found]; simp
    obtain ⟨⟨piece', cut⟩, same⟩ := Piece.read_ahead ends short
    obtain ⟨rfl, cuts⟩ := Prod.mk.inj ((same _).symm.trans found)
    obtain ⟨taken', rest'⟩ := Cut.mk.inj cuts
    have rest' : cut.rest = inner := by
      rw [List.append_assoc, List.cons_append] at rest'
      exact List.append_cancel_right rest'
    rw [same, Cut.extend, taken', rest']
    simp

/-- A line without tokens that is put in where a line begins moves what stands behind. -/
theorem lexFrom_emptyLine (h : ReadsTo last after offset layout front)
    (begins : last.lineStart = true) (empty : EmptyLine line) :
    lexFrom layout offset (front ++ (line ++ '\n' :: after))
      = (lexFrom layout offset (front ++ after)).shiftFrom (offset + width front)
        (width (line ++ ['\n'])) := by
  have positive (c : Char) (front : List Char) : 0 < width (c :: front) :=
    Text.width_pos (List.cons_ne_nil c front)
  induction h with
  | here =>
    rw [List.nil_append, List.nil_append, empty.lexFrom begins (by decide), Text.width_nil]
    exact lexFrom_shift (Nat.le_refl _) last after
  | @emptyLine offset layout line' front c starts empty' ends _ ih =>
    rw [List.append_assoc, List.append_assoc, List.cons_append, List.cons_append,
      empty'.lexFrom starts ends, empty'.lexFrom starts ends, ih]
    have place : offset + width (line' ++ [c]) + width front
        = offset + width (line' ++ c :: front) := by simp; omega
    rw [place]
  | @level offset layout blanks front c starts blank solid some _ ih =>
    have place : offset + width blanks + width (c :: front)
        = offset + width (blanks ++ c :: front) := by rw [Text.width_append, Nat.add_assoc]
    have inFront := positive c front
    have first : offset < offset + width (blanks ++ c :: front) := by omega
    have behind : offset + width blanks < offset + width (blanks ++ c :: front) := by omega
    rw [List.append_assoc, List.append_assoc, List.cons_append, List.cons_append,
      lexFrom_blanks starts blank solid some, lexFrom_blanks starts blank solid some,
      Lexed.cons_of_fixed (relevel_fixed _ _ first behind), ← place]
    exact congrArg (Lexed.cons _ _) ih
  | @lineEnd offset layout front c inLine ends _ ih =>
    have place : offset + width [c] + width front = offset + width (c :: front) := by simp; omega
    have first : offset < offset + width (c :: front) :=
      Nat.lt_add_of_pos_right (positive c front)
    rw [List.cons_append, List.cons_append, lexFrom_lineEnd inLine ends,
      lexFrom_lineEnd inLine ends, Lexed.cons_of_fixed (contribution_fixed _ _ _ first), ← place, ih]
  | @piece offset layout cs taken front c piece inLine other found later ih =>
    have noBreak := Piece.ne_lineBreak other (cs ++ after)
    rw [found] at noBreak
    have ahead := later.exists_lineEnd begins (by rw [contribution_lineStart noBreak, inLine])
    have still : ¬layout.lineStart = true := by simp [inLine]
    have place : offset + width taken + width front = offset + width (c :: cs) := by
      rw [Piece.append_of_read found, Text.width_append, Nat.add_assoc]
    have first : offset < offset + width (c :: cs) := Nat.lt_add_of_pos_right (positive c cs)
    rw [List.cons_append, List.cons_append, lexFrom_inLine _ still, lexFrom_inLine _ still,
      piece_again found ahead, found]
    dsimp only
    rw [Lexed.cons_of_fixed (contribution_fixed _ _ _ first), ← place, ih]

end ReadsTo

/-! ## Between logical lines -/

/-- The line breaks there are. -/
def lineBreaks : List (List Char) := [['\n'], ['\r'], ['\r', '\n']]

/-- The last line of a text has a comment: it goes on behind a `#` that is in no token. -/
def EndsInComment (ts : List Token) (cs : List Char) : Prop :=
  ∃ v w, cs = v ++ '#' :: w ∧ (∀ c ∈ w, isLineEnd c = false)
    ∧ ∀ t ∈ ts, t.span.covers (width v) = false

/-- A place between the logical lines of a text with the tokens `ts`: behind `before`. -/
structure BetweenLogicalLines (before : List Char) (ts : List Token) : Prop where
  /-- A line begins there. -/
  start : ∀ c ∈ before.getLast?, isLineEnd c = true
  /-- No bracket is open. -/
  outside : bracketDepth (ts.filter (·.span.start < width before)) = 0
  /-- No string goes on, or is only ended by the end of its line or of the text. -/
  noString : ∀ t ∈ ts, t.kind = .string ∨ t.kind = .fstring → t.span.start < width before →
    t.span.stop < width before
  /-- A backslash in front of the line break is in a token or in a comment. -/
  unjoined : ∀ u brk, before = u ++ '\\' :: brk → brk ∈ lineBreaks →
    (∃ t ∈ ts, t.span.covers (width u) = true) ∨ EndsInComment ts u

/-! ### Comments -/

namespace EndsInComment

variable {ts us : List Token} {more : List Char}

lemma mono (h : EndsInComment (ts ++ us) cs) : EndsInComment ts cs := by
  obtain ⟨v, w, whole, inLine, free⟩ := h
  exact ⟨v, w, whole, inLine, fun t ht => free t (List.mem_append_left _ ht)⟩

/-- Nothing is a comment behind a line end. -/
lemma not_append_lineEnd (ends : isLineEnd c = true) : ¬EndsInComment ts (cs ++ [c]) := by
  rintro ⟨v, w, whole, inLine, -⟩
  cases w using List.reverseRecOn with
  | nil =>
    obtain ⟨-, same⟩ := List.append_inj' whole rfl
    obtain rfl : c = '#' := by simpa using same
    nomatch ends
  | append_singleton w d =>
    rw [← List.cons_append, ← List.append_assoc] at whole
    obtain ⟨-, same⟩ := List.append_inj' whole rfl
    obtain rfl : c = d := by simpa using same
    rw [inLine c (by simp)] at ends
    nomatch ends

/-- A comment in a longer text, unless it begins in what is added. -/
lemma of_append (h : EndsInComment ts (cs ++ more))
    (other : ∀ a b, more = a ++ '#' :: b → (∀ c ∈ b, isLineEnd c = false) →
      ∃ t ∈ ts, t.span.covers (width (cs ++ a)) = true) : EndsInComment ts cs := by
  obtain ⟨v, w, whole, inLine, free⟩ := h
  rcases List.append_eq_append_iff.1 whole with ⟨a, rfl, rest⟩ | ⟨a, is, rest⟩
  · obtain ⟨t, ht, covered⟩ := other a w rest inLine
    rw [free t ht] at covered
    nomatch covered
  · cases a with
    | nil =>
      rw [List.append_nil] at is
      obtain ⟨t, ht, covered⟩ := other [] w rest.symm inLine
      rw [List.append_nil, is, free t ht] at covered
      nomatch covered
    | cons d a =>
      obtain ⟨rfl, rfl⟩ := List.cons.inj rest
      exact ⟨v, a, is, fun c hc => inLine c (List.mem_append_left _ hc), free⟩

end EndsInComment

/-- Where something is passed over that has a comment on its last line, that line ends. -/
lemma Skipped.lineEnd_of_comment {problems : List Problem} {rest : List Char}
    (h : Skipped problems offset cs rest) {a b : List Char} (whole : cs = a ++ '#' :: b)
    (inLine : ∀ c ∈ b, isLineEnd c = false) : ∀ c ∈ rest.head?, isLineEnd c = true := by
  induction h generalizing a with
  | nothing => simp at whole
  | @blank _ c cs rest is _ ih =>
    cases a with
    | nil => rw [(List.cons.inj whole).1] at is; nomatch is
    | cons d a => exact ih (List.cons.inj whole).2
  | @lineBreak _ c cs rest is _ ih =>
    cases a with
    | nil => rw [(List.cons.inj whole).1] at is; nomatch is
    | cons d a => exact ih (List.cons.inj whole).2
  | @backslash _ cs rest _ _ ih =>
    cases a with
    | nil => nomatch (List.cons.inj whole).1
    | cons d a => exact ih (List.cons.inj whole).2
  | @comment _ inside cs rest _ ends _ ih =>
    rcases List.append_eq_append_iff.1 whole with ⟨a', -, later⟩ | ⟨inner, -, later⟩
    · exact ih later
    cases inner with
    | nil => exact ih (a := []) later.symm
    | cons d inner =>
      cases cs with
      | nil => exact ends
      | cons e es =>
        have there : e ∈ b := by rw [(List.cons.inj later).2]; simp
        have noEnd := inLine e there
        rw [ends e rfl] at noEnd
        nomatch noEnd

/-! ### What is read so far -/

/-- The tokens of a piece begin where it does and end in it. -/
lemma contribution_within (layout : Layout) (piece : Piece) (taken : List Char) (offset : ℕ) :
    ∀ t ∈ (contribution layout piece taken ⟨offset, offset + width taken⟩).tokens,
      t.span.start = offset ∧ t.span.stop ≤ offset + width taken := by
  intro t ht
  cases solid : piece.isToken with
  | true =>
    obtain ⟨u, tokens, span⟩ := contribution_token layout solid taken ⟨offset, offset + width taken⟩
    rw [tokens, List.mem_singleton] at ht
    rw [ht, span]
    exact ⟨rfl, Nat.le_refl _⟩
  | false =>
    rw [contribution_points solid taken _ t ht]
    exact ⟨rfl, Nat.le_add_right _ _⟩

lemma relevel_within (layout : Layout) (columns : ℕ) (offset : ℕ) (blanks : List Char) :
    ∀ t ∈ (relevel layout columns ⟨offset, offset + width blanks⟩).tokens,
      t.span.start ≤ offset + width blanks ∧ t.span.stop = offset + width blanks := by
  unfold relevel
  split
  · exact List.forall_mem_singleton.2 ⟨Nat.le_add_right _ _, rfl⟩
  split
  · exact List.forall_mem_map.2 fun _ _ => ⟨Nat.le_refl _, rfl⟩
  · exact List.forall_mem_nil _

lemma Piece.eq_of_joint (h : (Piece.read c cs).1 = .joint) : c = '\\' ∧ ∃ e es, cs = e :: es
    ∧ isLineEnd e = true ∧ (Piece.read c cs).2.taken = '\\' :: e :: (Piece.afterBreak e es).taken := by
  cases skipped : isSkipped c with
  | false =>
    have noComment : c ≠ '#' := by
      rintro rfl
      cases h
    have solid := Piece.read_isToken skipped noComment cs
    rw [h] at solid
    cases solid
  | true =>
    rw [isSkipped, Bool.or_eq_true, Bool.or_eq_true, beq_iff_eq] at skipped
    rcases skipped with (blank | ends) | rfl
    · rw [Piece.read_of_isBlank blank] at h
      cases h
    · rw [Piece.read_of_isLineEnd ends] at h
      cases h
    · refine ⟨rfl, ?_⟩
      cases cs with
      | nil => cases h
      | cons e es =>
        by_cases ends : isLineEnd e = true
        · exact ⟨e, es, rfl, ends, by rw [Piece.read_joint ends]; rfl⟩
        · rw [Piece.read_strayBackslash ends] at h
          cases h

/-- The front of joined lines, up to a line end. -/
lemma mem_lineBreaks {d e : Char} {a ds : List Char} (lineEnd : isLineEnd d = true)
    (last : ('\\' :: cs).getLast? = some e) (ends : isLineEnd e = true)
    (taken : cs ++ a = d :: (Piece.afterBreak d ds).taken) : cs ∈ lineBreaks := by
  cases cs with
  | nil =>
    obtain rfl : '\\' = e := Option.some.inj last
    nomatch ends
  | cons d' cs =>
    obtain ⟨rfl, rest⟩ := List.cons.inj taken
    have short : cs = [] ∨ (d' = '\r' ∧ cs = ['\n']) := by
      unfold Piece.afterBreak at rest
      split at rest
      · split at rest
        next returns =>
          rcases List.append_eq_singleton_iff.1 rest with ⟨rfl, -⟩ | ⟨rfl, -⟩
          · exact .inl rfl
          · exact .inr ⟨eq_of_beq returns, rfl⟩
        · exact .inl (List.append_eq_nil_iff.1 rest).1
      · exact .inl (List.append_eq_nil_iff.1 rest).1
    rcases short with rfl | ⟨rfl, rfl⟩
    · rcases eq_of_isLineEnd lineEnd with rfl | rfl <;> simp [lineBreaks]
    · simp [lineBreaks]

/-- A text up to the first character with a property. -/
lemma exists_first {p : Char → Bool} (mem : c ∈ cs) (has : p c = true) :
    ∃ front d rest, cs = front ++ d :: rest ∧ (∀ b ∈ front, p b = false) ∧ p d = true := by
  obtain ⟨d, found⟩ := Option.isSome_iff_exists.1 (List.find?_isSome.2 ⟨c, mem, has⟩)
  obtain ⟨is, front, rest, whole, others⟩ := List.find?_eq_some_iff_append.1 found
  exact ⟨front, d, rest, whole, by simpa using others, is⟩

/-- Up to the end of a line there is a line without tokens, or the front of another line. -/
lemma exists_line {front : List Char} {e : Char} (last : front.getLast? = some e)
    (ends : isLineEnd e = true) :
    (∃ line c rest, front = line ++ c :: rest ∧ EmptyLine line ∧ isLineEnd c = true)
      ∨ ∃ blanks c rest, front = blanks ++ c :: rest ∧ (∀ b ∈ blanks, isBlank b = true)
        ∧ isBlank c = false ∧ ¬beginsEmptyLine c = true := by
  obtain ⟨blanks, c, rest, rfl, blank, solid⟩ := exists_first (p := (!isBlank ·))
    (List.mem_of_getLast? last) (by simp [isBlank_of_isLineEnd ends])
  simp only [Bool.not_eq_false', Bool.not_eq_true'] at blank solid
  cases empty : beginsEmptyLine c with
  | false => exact .inr ⟨blanks, c, rest, rfl, blank, solid, by simp [empty]⟩
  | true =>
    refine .inl ?_
    rw [beginsEmptyLine, Bool.or_eq_true, beq_iff_eq] at empty
    rcases empty with rfl | lineEnd
    · have inComment : e ∈ '#' :: rest := by
        rw [List.getLast?_append, Option.or_eq_some_iff] at last
        exact List.mem_of_getLast? (last.resolve_right fun h => by simp at h)
      have inRest : e ∈ rest := (List.mem_cons.1 inComment).resolve_left fun is => by
        rw [is] at ends
        cases ends
      obtain ⟨inside, d, ds, rfl, inLine, lineEnd⟩ := exists_first inRest ends
      exact ⟨blanks ++ '#' :: inside, d, ds, by simp,
        ⟨blanks, _, rfl, blank, .inr ⟨inside, rfl, inLine⟩⟩, lineEnd⟩
    · exact ⟨blanks, c, rest, rfl, ⟨blanks, [], (List.append_nil _).symm, blank, .inl rfl⟩, lineEnd⟩

/-- Reading has come over the text `read`, with the tokens `earlier`, to a layout, and goes on over
`front` to a place where a line begins. -/
structure Reached (before after : List Char) (ts : List Token) (read front : List Char)
    (layout : Layout) (earlier : List Token) : Prop where
  whole : before = read ++ front
  tokens : ts = earlier ++ (lexFrom layout (width read) (front ++ after)).tokens
  follows : layout.Follows earlier
  starts : ∀ t ∈ earlier, t.span.start < width before
  stops : ∀ t ∈ earlier, t.span.stop ≤ width read
  /-- A comment goes on to the end of its line. -/
  uncommented : ∀ c ∈ (front ++ after).head?, isLineEnd c = false → ¬EndsInComment earlier read
  begins : front = [] → layout.lineStart = true

namespace Reached

variable {before after read front : List Char} {ts earlier : List Token}

/-- One step further. -/
lemma step {taken : List Char} (h : Reached before after ts read (taken ++ front) layout earlier)
    (next : Layout) (new : List Token)
    (lexed : (lexFrom layout (width read) (taken ++ front ++ after)).tokens
      = new ++ (lexFrom next (width read + width taken) (front ++ after)).tokens)
    (follows : next.Follows (earlier ++ new)) (starts : ∀ t ∈ new, t.span.start < width before)
    (stops : ∀ t ∈ new, t.span.stop ≤ width read + width taken)
    (uncommented : ∀ c ∈ (front ++ after).head?, isLineEnd c = false →
      ¬EndsInComment (earlier ++ new) (read ++ taken))
    (begins : front = [] → next.lineStart = true) :
    Reached before after ts (read ++ taken) front next (earlier ++ new) := by
  refine ⟨by rw [h.whole, List.append_assoc], ?_, follows,
    List.forall_mem_append.2 ⟨h.starts, starts⟩, ?_, uncommented, begins⟩
  · rw [h.tokens, lexed, Text.width_append, List.append_assoc]
  · rw [Text.width_append]
    exact List.forall_mem_append.2
      ⟨fun t ht => (h.stops t ht).trans (Nat.le_add_right _ _), stops⟩

/-- Over a line without tokens. -/
lemma emptyLine {line : List Char} (h : Reached before after ts read (line ++ c :: front) layout
    earlier) (begins : layout.lineStart = true) (empty : EmptyLine line)
    (ends : isLineEnd c = true) :
    Reached before after ts (read ++ (line ++ [c])) front layout earlier := by
  have parts : line ++ c :: front = line ++ [c] ++ front := by simp
  rw [parts] at h
  have lexed := empty.lexFrom begins ends (width read) (front ++ after)
  have same := h.step layout [] (by
      rw [List.append_assoc, List.append_assoc, List.singleton_append, lexed]
      rfl)
    (by rw [List.append_nil]; exact h.follows) (List.forall_mem_nil _) (List.forall_mem_nil _)
    (fun _ _ _ => by rw [← List.append_assoc]; exact EndsInComment.not_append_lineEnd ends)
    fun _ => begins
  rwa [List.append_nil] at same

/-- Over the indentation of a line. -/
lemma level {blanks : List Char} (h : Reached before after ts read (blanks ++ c :: front) layout
    earlier) (begins : layout.lineStart = true) (blank : ∀ b ∈ blanks, isBlank b = true)
    (solid : isBlank c = false) (some : ¬beginsEmptyLine c = true) :
    let step := relevel layout (indentationWidth blanks)
      ⟨width read, width read + width blanks⟩
    Reached before after ts (read ++ blanks) (c :: front) step.next (earlier ++ step.tokens) := by
  intro step
  have within := relevel_within layout (indentationWidth blanks) (width read) blanks
  have outside : layout.depth = 0 := h.follows.outside begins
  refine h.step step.next step.tokens ?_ (h.follows.relevel outside _ _) (fun t ht => ?_)
    (fun t ht => (within t ht).2.le) (fun d hd inLine comment => ?_) nofun
  · rw [List.append_assoc, List.cons_append, lexFrom_blanks begins blank solid some]
    rfl
  · have first := (within t ht).1
    have inFront := Text.width_pos (List.cons_ne_nil c front)
    rw [h.whole]
    simp only [Text.width_append]
    omega
  · have same : EndsInComment (earlier ++ step.tokens) read :=
      comment.of_append fun a b is _ => by
        have notBlank := blank '#' (by rw [is]; simp)
        nomatch notBlank
    obtain rfl : c = d := Option.some.inj hd
    cases blanks with
    | nil => exact h.uncommented c rfl inLine same.mono
    | cons e blanks =>
      refine h.uncommented e rfl ?_ same.mono
      by_contra ends
      have notBlank := isBlank_of_isLineEnd (Bool.not_eq_false _ ▸ ends)
      rw [blank e List.mem_cons_self] at notBlank
      nomatch notBlank

/-- The tokens begin with those of the piece that is read next. -/
lemma tokens_of_read (h : Reached before after ts read (c :: cs) layout earlier)
    (inLine : layout.lineStart = false) {taken rest : List Char} {piece : Piece}
    (found : Piece.read c (cs ++ after) = (piece, ⟨taken, rest⟩)) :
    let step := contribution layout piece taken ⟨width read, width read + width taken⟩
    ts = earlier ++ (step.tokens ++ (lexFrom step.next (width read + width taken) rest).tokens) := by
  have tokens := h.tokens
  rw [List.cons_append, lexFrom_inLine _ (by simp [inLine]), found] at tokens
  exact tokens

lemma width_read_lt (h : Reached before after ts read (c :: cs) layout earlier) :
    width read < width before := by
  rw [h.whole, Text.width_append]
  exact Nat.lt_add_of_pos_right (Text.width_pos (List.cons_ne_nil c cs))

/-- At the place the tokens so far are those that begin in front of it. -/
lemma filter_eq (tokens : ts = earlier ++ (lexFrom layout (width before) after).tokens)
    (starts : ∀ t ∈ earlier, t.span.start < width before) :
    ts.filter (·.span.start < width before) = earlier := by
  have ahead := (lexFrom_tiles layout (width before) after).ahead
  rw [tokens, List.filter_append, List.filter_eq_self.2, List.filter_eq_nil_iff.2, List.append_nil]
  · intro t ht
    simpa using ahead t ht
  · intro t ht
    simpa using starts t ht

variable (between : BetweenLogicalLines before ts)
include between

/-- Over the end of a line. -/
lemma lineEnd (h : Reached before after ts read (c :: front) layout earlier)
    (inLine : layout.lineStart = false) (ends : isLineEnd c = true) :
    let step := contribution layout .lineBreak [c] ⟨width read, width read + width [c]⟩
    Reached before after ts (read ++ [c]) front step.next (earlier ++ step.tokens) := by
  intro step
  have within := contribution_within layout .lineBreak [c] (width read)
  have follows := (h.follows.contribution (by simp [inLine]) .lineBreak [c]
    ⟨width read, width read + width [c]⟩).1
  have lexed : (lexFrom layout (width read) ([c] ++ front ++ after)).tokens
      = step.tokens ++ (lexFrom step.next (width read + width [c]) (front ++ after)).tokens :=
    congrArg Lexed.tokens (lexFrom_lineEnd inLine ends (width read) (front ++ after))
  have starts : ∀ t ∈ step.tokens, t.span.start < width before := fun t ht =>
    (within t ht).1.trans_lt h.width_read_lt
  have whole := h.whole
  have tokens := h.tokens.trans (congrArg (earlier ++ ·) lexed)
  rw [← List.singleton_append] at h
  refine h.step step.next step.tokens lexed follows starts (fun t ht => (within t ht).2)
    (fun _ _ _ => EndsInComment.not_append_lineEnd ends) ?_
  rintro rfl
  rw [← Text.width_append, ← whole, ← List.append_assoc] at tokens
  have outside := between.outside
  rw [filter_eq tokens (List.forall_mem_append.2 ⟨h.starts, starts⟩), follows.depth] at outside
  have depth : layout.depth = 0 := by
    by_contra inBrackets
    simp [contribution, inBrackets] at outside
  simp [step, contribution, depth]

/-- A line end is the last character in front of the place. -/
lemma exists_last (h : Reached before after ts read (c :: cs) layout earlier) :
    ∃ e, (c :: cs).getLast? = some e ∧ isLineEnd e = true := by
  obtain ⟨e, last⟩ := Option.ne_none_iff_exists'.1 (mt List.getLast?_eq_none_iff.1
    (List.cons_ne_nil c cs))
  refine ⟨e, last, between.start e ?_⟩
  rw [h.whole, List.getLast?_append, last]
  rfl

/-- No string is read over the place. -/
lemma not_string (h : Reached before after ts read (c :: cs) layout earlier)
    (inLine : layout.lineStart = false) {f closed : Bool} {a rest : List Char} :
    Piece.read c (cs ++ after) ≠ (.string f closed, ⟨c :: cs ++ a, rest⟩) := by
  intro found
  have string : (⟨if f then .fstring else .string, String.ofList (c :: cs ++ a),
      ⟨width read, width read + width (c :: cs ++ a)⟩⟩ : Token) ∈ ts := by
    rw [h.tokens_of_read inLine found]
    exact List.mem_append_right _ List.mem_cons_self
  have inside := between.noString _ string (by cases f <;> simp) h.width_read_lt
  rw [h.whole, Text.width_append, Text.width_append] at inside
  dsimp only at inside
  omega

/-- No lines are joined in front of the place. -/
lemma not_joint (h : Reached before after ts read (c :: cs) layout earlier)
    (inLine : layout.lineStart = false) {a rest : List Char} :
    Piece.read c (cs ++ after) ≠ (.joint, ⟨c :: cs ++ a, rest⟩) := by
  intro found
  have tokens := h.tokens_of_read inLine found
  have ahead := (lexFrom_tiles layout (width read + width (c :: cs ++ a)) rest).ahead
  obtain ⟨rfl, d, ds, -, lineEnd, taken⟩ := Piece.eq_of_joint (congrArg Prod.fst found)
  rw [found] at taken
  obtain ⟨e, last, ends⟩ := h.exists_last between
  have breaks : cs ∈ lineBreaks := mem_lineBreaks lineEnd last ends (List.cons.inj taken).2
  rcases between.unjoined read cs h.whole breaks with ⟨t, ht, covered⟩ | comment
  · -- the tokens so far end in front of the backslash, and the other ones begin behind it
    obtain ⟨first, behind⟩ := covers_iff.1 covered
    have inFront := Text.width_pos (List.cons_ne_nil '\\' (cs ++ a))
    rw [tokens] at ht
    rcases List.mem_append.1 ht with ht | ht
    · have := h.stops t ht
      omega
    · have := ahead t ht
      rw [List.cons_append] at this
      omega
  · rw [tokens] at comment
    exact h.uncommented '\\' rfl rfl comment.mono

/-- A piece in a line ends in front of the place. -/
lemma exists_rest (h : Reached before after ts read (c :: cs) layout earlier)
    (inLine : layout.lineStart = false) (other : isLineEnd c = false) {taken rest : List Char}
    {piece : Piece} (found : Piece.read c (cs ++ after) = (piece, ⟨taken, rest⟩)) :
    ∃ d front, rest = d :: front ++ after ∧ c :: cs = taken ++ d :: front := by
  have whole := Piece.read_taken_append_rest c (cs ++ after)
  rw [found] at whole
  suffices short : ∀ a, taken ≠ c :: cs ++ a by
    rcases List.append_eq_append_iff.1 (whole.trans (List.cons_append).symm) with
      ⟨front, is, later⟩ | ⟨a, is, -⟩
    · cases front with
      | nil => exact absurd (by rw [is]; simp) (short [])
      | cons d front => exact ⟨d, front, later, is⟩
    · exact absurd is (short a)
  rintro a rfl
  obtain ⟨e, last, ends⟩ := h.exists_last between
  have mem : e ∈ (Piece.read c (cs ++ after)).2.taken := by
    rw [found]
    exact List.mem_append_left _ (List.mem_of_getLast? last)
  rcases Piece.lineEnd_mem_taken ends mem with is | is | ⟨f, closed, is⟩
  · rw [(Piece.read_lineBreak is).1] at other
    nomatch other
  · rw [found] at is
    obtain rfl : piece = .joint := is
    exact h.not_joint between inLine found
  · rw [found] at is
    obtain rfl : piece = .string f closed := is
    exact h.not_string between inLine found

/-- Over a piece in a line. -/
lemma piece (h : Reached before after ts read (c :: cs) layout earlier)
    (inLine : layout.lineStart = false) (other : isLineEnd c = false) :
    ∃ piece taken front, Piece.read c (cs ++ after) = (piece, ⟨taken, front ++ after⟩)
      ∧ let step := contribution layout piece taken ⟨width read, width read + width taken⟩
        Reached before after ts (read ++ taken) front step.next (earlier ++ step.tokens) := by
  obtain ⟨⟨piece, taken, rest⟩, found⟩ : ∃ p, Piece.read c (cs ++ after) = p := ⟨_, rfl⟩
  obtain ⟨d, front, rfl, whole⟩ := h.exists_rest between inLine other found
  refine ⟨piece, taken, d :: front, found, ?_⟩
  intro step
  have still : ¬layout.lineStart = true := by simp [inLine]
  have within := contribution_within layout piece taken (width read)
  have lexed : (lexFrom layout (width read) (taken ++ d :: front ++ after)).tokens
      = step.tokens
        ++ (lexFrom step.next (width read + width taken) (d :: front ++ after)).tokens := by
    rw [← whole, List.cons_append, lexFrom_inLine _ still, found]
    rfl
  have inFront := h.width_read_lt
  have begun := h.uncommented c rfl other
  rw [whole] at h
  refine h.step step.next step.tokens lexed (h.follows.contribution still _ _ _).1
    (fun t ht => (within t ht).1.trans_lt inFront) (fun t ht => (within t ht).2)
    (fun e he noEnd comment => begun (comment.of_append fun a b is commented => ?_).mono) nofun
  -- a comment in the piece is in its token, or it goes on to the end of the line
  cases solid : piece.isToken with
  | true =>
    obtain ⟨t, tokens, span⟩ := contribution_token layout solid taken
      ⟨width read, width read + width taken⟩
    have long := Text.width_pos (List.cons_ne_nil '#' b)
    refine ⟨t, List.mem_append_right _ (by rw [tokens]; exact List.mem_cons_self), ?_⟩
    rw [covers_iff, span, is, Text.width_append, Text.width_append]
    exact ⟨Nat.le_add_right _ _, by dsimp only; omega⟩
  | false =>
    have skipped := @Piece.read_skipped layout _ (width read) c (cs ++ after)
      (by rw [found]; exact solid) (List.Subset.refl _)
    rw [found] at skipped
    rw [skipped.lineEnd_of_comment is commented e he] at noEnd
    cases noEnd

/-- Reading comes to the place, and a line begins there. -/
theorem reads (h : Reached before after ts read front layout earlier) :
    ∃ last, ReadsTo last after (width read) layout front ∧ last.lineStart = true := by
  induction size : 2 * front.length + layout.lineStart.toNat using Nat.strong_induction_on
    generalizing read front layout earlier with
  | _ n ih =>
    subst size
    cases front with
    | nil => exact ⟨layout, .here, h.begins rfl⟩
    | cons c cs =>
      have less {front : List Char} (next : Layout) (shorter : front.length < (c :: cs).length) :
          2 * front.length + next.lineStart.toNat
            < 2 * (c :: cs).length + layout.lineStart.toNat := by
        have := Bool.toNat_le next.lineStart
        omega
      cases begins : layout.lineStart with
      | true =>
        obtain ⟨e, last, ends⟩ := h.exists_last between
        rcases exists_line last ends with ⟨line, d, front, is, empty, lineEnd⟩
          | ⟨blanks, d, front, is, blank, solid, some⟩
        · rw [is] at h ⊢
          obtain ⟨last, reads, starts⟩ := ih _ (less layout (by rw [is]; simp; omega))
            (h.emptyLine begins empty lineEnd) rfl
          rw [Text.width_append] at reads
          exact ⟨last, .emptyLine begins empty lineEnd reads, starts⟩
        · rw [is] at h ⊢
          have inLine := relevel_lineStart layout (indentationWidth blanks)
            ⟨width read, width read + width blanks⟩
          obtain ⟨last, reads, starts⟩ := ih _ (by rw [inLine, begins, is]; simp)
            (h.level begins blank solid some) rfl
          rw [Text.width_append] at reads
          exact ⟨last, .level begins blank solid some reads, starts⟩
      | false =>
        cases ends : isLineEnd c with
        | true =>
          obtain ⟨last, reads, starts⟩ := ih _ (less _ (by simp)) (h.lineEnd between begins ends) rfl
          rw [Text.width_append] at reads
          exact ⟨last, .lineEnd begins ends reads, starts⟩
        | false =>
          obtain ⟨piece, taken, front, found, later⟩ := h.piece between begins ends
          have shorter : front.length < (c :: cs).length := by
            have some := List.length_pos_iff.2 (Piece.read_taken_ne_nil c (cs ++ after))
            rw [found] at some
            rw [Piece.append_of_read found, List.length_append]
            exact Nat.lt_add_of_pos_left some
          obtain ⟨last, reads, starts⟩ := ih _ (less _ shorter) later rfl
          rw [Text.width_append] at reads
          exact ⟨last, .piece begins ends found reads, starts⟩

end Reached

/-- Between logical lines, reading is where a line begins. -/
theorem BetweenLogicalLines.reads {before after : List Char}
    (between : BetweenLogicalLines before (lexFrom .module 0 (before ++ after)).tokens) :
    ∃ last, ReadsTo last after 0 .module before ∧ last.lineStart = true := by
  have start : Reached before after (lexFrom .module 0 (before ++ after)).tokens [] before
      .module [] := by
    refine ⟨rfl, rfl, ⟨rfl, fun _ => rfl, nofun⟩, nofun, nofun, fun _ _ _ comment => ?_,
      fun _ => rfl⟩
    obtain ⟨v, w, whole, -⟩ := comment
    simp at whole
  exact start.reads between

/-- **Lines without tokens.**  A line of blanks, with or without a comment, that is put in between
two logical lines of a text changes no kind and no text of a token and no problem.  What begins there
or behind moves by the length of the line. -/
theorem lex_insert_emptyLine {before after line : String}
    (between : BetweenLogicalLines before.toList (lex (before ++ after)).tokens)
    (empty : EmptyLine line.toList) :
    lex (before ++ line ++ "\n" ++ after)
      = (lex (before ++ after)).shiftFrom before.utf8ByteSize (line.utf8ByteSize + 1) := by
  rw [lex, String.toList_append] at between
  obtain ⟨last, reads, begins⟩ := between.reads
  have size : width (line.toList ++ ['\n']) = line.utf8ByteSize + 1 := by
    rw [Text.width_append, width_toList]
    rfl
  have inserted := reads.lexFrom_emptyLine begins empty
  rw [size, width_toList, Nat.zero_add] at inserted
  have text : (before ++ line ++ "\n" ++ after).toList
      = before.toList ++ (line.toList ++ '\n' :: after.toList) := by
    simp [String.toList_append]
  rw [lex, lex, text, String.toList_append, inserted]

set_option maxRecDepth 100000 in
/-- A comment in front of an indented block. -/
theorem comment_above_block : let before := "if x:\n"; let after := "    y\n"; let line := "  # z"
    BetweenLogicalLines before.toList (lex (before ++ after)).tokens
      ∧ EmptyLine line.toList
      ∧ lex (before ++ line ++ "\n" ++ after) = (lex (before ++ after)).shiftFrom 6 6 := by
  intro before after line
  have tokens : (lex (before ++ after)).tokens = [⟨.keyword .kIf, "if", ⟨0, 2⟩⟩,
      ⟨.name, "x", ⟨3, 4⟩⟩, ⟨.symbol .colon, ":", ⟨4, 5⟩⟩, ⟨.newline, "", ⟨5, 5⟩⟩,
      ⟨.indent, "", ⟨6, 10⟩⟩, ⟨.name, "y", ⟨10, 11⟩⟩, ⟨.newline, "", ⟨11, 11⟩⟩,
      ⟨.dedent, "", ⟨12, 12⟩⟩, ⟨.endOfFile, "", ⟨12, 12⟩⟩] := by
    unfold before after
    cbv
  have between : BetweenLogicalLines before.toList (lex (before ++ after)).tokens := by
    rw [tokens]
    refine ⟨?_, by decide, by decide, fun u brk whole => ?_⟩
    · have last : before.toList.getLast? = some '\n' := by decide
      simp [last, isLineEnd]
    · have backslash : '\\' ∈ before.toList := by rw [whole]; simp
      exact absurd backslash (by decide)
  have empty : EmptyLine line.toList :=
    ⟨[' ', ' '], ['#', ' ', 'z'], by decide, by simp [isBlank],
      .inr ⟨[' ', 'z'], rfl, by simp [isLineEnd]⟩⟩
  exact ⟨between, empty, lex_insert_emptyLine between empty⟩

end Syntax

end MethodLift
