import MethodLift.Method.Dedent
import MethodLift.Proofs.Syntax.Gaps
import MethodLift.Proofs.Syntax.Lookahead
import MethodLift.Proofs.Syntax.WordTokens

/-!
# Moving a block keeps its tokens

A block that moves to the left loses blanks at the front of its lines.  Blanks there are layout, or
nothing at all in brackets and behind joined lines, unless the line begins in a string.  So the
tokens of the block are the same as before, layout apart (`tokens_dedent`), and strings over several
lines keep every character.

Lines end at line feeds here, and the text is read piece by piece.  The two are compared in what is
left of the text behind a piece: the line has begun there, and what follows its line feed is changed
(`dedentRest`).  What is read next is the same piece, because reading does not look behind the line
feed (`Piece.read_ahead`), or it is a string that goes on behind it.  Its lines are left as they are,
which is what the spans of the strings of the whole block are computed for (`dedentRest_inside`).
-/

namespace MethodLift

open Syntax

namespace Text

/-! ## The lines of a block -/

/-- What is left of a text behind the beginning of a line, with the indentation of the lines after
this one taken away. -/
def dedentRest (strings : List Span) (columns offset : ℕ) : List Char → List Char
  | [] => []
  | c :: cs =>
    if c = '\n' then c :: dedentLines strings columns (offset + 1) (linesWithFeed cs)
    else c :: dedentRest strings columns (offset + c.utf8Size) cs

variable {strings : List Span} {columns offset : ℕ} {c : Char} {cs front rest : List Char}

lemma dedentRest_feed (strings : List Span) (columns offset : ℕ) (cs : List Char) :
    dedentRest strings columns offset ('\n' :: cs)
      = '\n' :: dedentLines strings columns (offset + 1) (linesWithFeed cs) := if_pos rfl

lemma dedentRest_cons (h : c ≠ '\n') (strings : List Span) (columns offset : ℕ) (cs : List Char) :
    dedentRest strings columns offset (c :: cs)
      = c :: dedentRest strings columns (offset + c.utf8Size) cs := if_neg h

/-- A stretch without line feeds stays. -/
lemma dedentRest_append (unfed : '\n' ∉ front) (offset : ℕ) (rest : List Char) :
    dedentRest strings columns offset (front ++ rest)
      = front ++ dedentRest strings columns (offset + width front) rest := by
  induction front generalizing offset with
  | nil => rfl
  | cons c front ih =>
    rw [List.mem_cons, not_or] at unfed
    rw [List.cons_append, dedentRest_cons (Ne.symm unfed.1), ih unfed.2, width_cons, Nat.add_assoc,
      List.cons_append]

lemma dedentRest_of_unfed (unfed : '\n' ∉ cs) (offset : ℕ) :
    dedentRest strings columns offset cs = cs := by
  have whole := @dedentRest_append strings columns cs unfed offset []
  rwa [List.append_nil, dedentRest, List.append_nil] at whole

/-- Behind the beginning of its first line, a text goes on with that line and the lines after it. -/
lemma dedentRest_line {line : List Char} {lines : List (List Char)} (offset : ℕ)
    (is : linesWithFeed cs = line :: lines) : dedentRest strings columns offset cs
      = line ++ dedentLines strings columns (offset + width line) lines := by
  induction cs generalizing offset line lines with
  | nil => nomatch is
  | cons c cs ih =>
    rw [linesWithFeed] at is
    split at is
    next none =>
      obtain ⟨rfl, rfl⟩ := List.cons.inj is
      have empty : cs = [] := by rw [← flatten_linesWithFeed cs, none]; rfl
      subst empty
      rw [dedentRest]
      split <;> rfl
    next line' lines' first =>
      split at is
      next feed =>
        obtain ⟨rfl, rfl⟩ := List.cons.inj is
        obtain rfl := eq_of_beq feed
        rw [dedentRest_feed, first]
        rfl
      next other =>
        obtain ⟨rfl, rfl⟩ := List.cons.inj is
        rw [dedentRest_cons (by simpa using other), ih _ first, width_cons, Nat.add_assoc,
          List.cons_append]

lemma exists_dropIndent (columns : ℕ) (line : List Char) :
    ∃ blanks, line = blanks ++ dropIndent columns line ∧ ∀ c ∈ blanks, isIndent c = true := by
  induction columns generalizing line with
  | zero => exact ⟨[], by simp [dropIndent]⟩
  | succ columns ih =>
    cases line with
    | nil => exact ⟨[], by simp [dropIndent]⟩
    | cons c cs =>
      rw [dropIndent]
      split
      next indent =>
        obtain ⟨blanks, whole, all⟩ := ih cs
        exact ⟨c :: blanks, by rw [List.cons_append, ← whole],
          List.forall_mem_cons.2 ⟨indent, all⟩⟩
      · exact ⟨[], rfl, List.forall_mem_nil _⟩

/-- Where a line begins, some blanks are taken away, and none in a string. -/
lemma dedentLines_eq (strings : List Span) (columns offset : ℕ) (cs : List Char) :
    ∃ blanks rest, cs = blanks ++ rest ∧ (∀ c ∈ blanks, isIndent c = true)
      ∧ (beginsInString strings offset = true → blanks = [])
      ∧ dedentLines strings columns offset (linesWithFeed cs)
        = dedentRest strings columns (offset + width blanks) rest := by
  cases shape : linesWithFeed cs with
  | nil =>
    have empty : cs = [] := by rw [← flatten_linesWithFeed cs, shape]; rfl
    exact ⟨[], [], by rw [empty]; rfl, List.forall_mem_nil _, fun _ => rfl, rfl⟩
  | cons line lines =>
    have begun := @dedentRest_line strings columns cs line lines offset shape
    by_cases inString : beginsInString strings offset = true
    · refine ⟨[], cs, rfl, List.forall_mem_nil _, fun _ => rfl, ?_⟩
      rw [dedentLines, if_pos inString, width_nil, Nat.add_zero, begun]
    · obtain ⟨blanks, parts, all⟩ := exists_dropIndent columns line
      have whole : cs = blanks ++ (dropIndent columns line ++ lines.flatten) := by
        conv_lhs => rw [← flatten_linesWithFeed cs, shape, List.flatten_cons, parts]
        rw [List.append_assoc]
      refine ⟨blanks, _, whole, all, fun is => absurd is inString, ?_⟩
      have unfed : '\n' ∉ blanks := fun mem => absurd (all _ mem) (by decide)
      rw [whole, dedentRest_append unfed] at begun
      conv_rhs at begun => rw [parts, List.append_assoc]
      rw [dedentLines, if_neg inString, List.append_cancel_left begun, ← parts]

/-! ## Lines in a string -/

/-- In a string all lines are left as they are.  A string that is still open behind its last line feed
does not have blanks behind it. -/
lemma dedentRest_inside {start : ℕ} (after : start < offset + 1)
    (mem : ⟨start, offset + width front⟩ ∈ strings)
    (stops : front.getLast? = some '\n' → ∀ d ∈ rest.head?, isIndent d = false) :
    dedentRest strings columns offset (front ++ rest)
      = front ++ dedentRest strings columns (offset + width front) rest := by
  induction front generalizing offset with
  | nil => rfl
  | cons c front ih =>
    rw [width_cons, ← Nat.add_assoc] at mem ⊢
    have positive := c.utf8Size_pos
    have later := @ih (offset + c.utf8Size) (by omega) mem fun last =>
      stops (by rw [List.getLast?_cons, last]; rfl)
    by_cases feed : c = '\n'
    · subst feed
      obtain ⟨blanks, rest', whole, all, kept, same⟩ :=
        dedentLines_eq strings columns (offset + 1) (front ++ rest)
      have none : blanks = [] := by
        cases front with
        | nil =>
          cases blanks with
          | nil => rfl
          | cons d blanks =>
            have other := stops rfl d (by rw [show rest = _ from whole]; rfl)
            rw [all d List.mem_cons_self] at other
            nomatch other
        | cons d front =>
          refine kept (List.any_eq_true.2 ⟨_, mem, ?_⟩)
          have positive := d.utf8Size_pos
          have one : '\n'.utf8Size = 1 := rfl
          rw [Bool.and_eq_true, decide_eq_true_eq, decide_eq_true_eq, one, width_cons]
          exact ⟨after, by dsimp only; omega⟩
      subst none
      rw [List.nil_append] at whole
      rw [List.cons_append, dedentRest_feed, same, ← whole]
      exact congrArg _ later
    · rw [List.cons_append, dedentRest_cons feed, later]
      rfl

end Text

namespace Syntax

open Text (dedentRest dedentLines linesWithFeed width)

/-! ## Pieces of a block -/

/-- A string that is open ends where the text or a line does. -/
lemma Piece.rest_of_open {c : Char} {cs : List Char} {f : Bool}
    (isOpen : (read c cs).1 = .string f false) :
    ∀ d ∈ (read c cs).2.rest.head?, isLineEnd d = true := by
  have tail {quote : Char} {triple : Bool} {cs : List Char}
      (isOpen : (stringTail quote triple cs).closed = false) :
      ∀ d ∈ (stringTail quote triple cs).rest.head?, isLineEnd d = true := by
    fun_induction stringTail quote triple cs with
    | case1 | case2 => simp
    | case3 c escape hidden after ih => exact ih isOpen
    | case4 c cs noEscape ends =>
      intro d hd
      obtain rfl := Option.some.inj hd
      exact (Bool.and_eq_true_iff.1 ends).1
    | case5 | case6 => cases isOpen
    | case7 c noEscape inLine inside isQuote second third after three ih => exact ih isOpen
    | case8 c noEscape inLine inside isQuote cs few ih => exact ih isOpen
    | case9 c cs noEscape inLine inside other ih => exact ih isOpen
  obtain ⟨opening, quote, body, whole, opens⟩ := opens_of_read isOpen
  have reads := opens.reads body c cs whole
  rw [reads] at isOpen ⊢
  have isOpen : (stringBody quote body).closed = false := (Piece.string.inj isOpen).2
  cases begins : beginsTriple quote body with
  | true =>
    obtain ⟨after, rfl⟩ := eq_of_beginsTriple begins
    rw [stringBody_triple] at isOpen ⊢
    exact tail isOpen
  | false =>
    rw [stringBody_of_not begins] at isOpen ⊢
    exact tail isOpen

/-- A closed string ends in a quote. -/
lemma Piece.getLast?_of_read {c : Char} {cs : List Char} {f : Bool}
    (closed : (read c cs).1 = .string f true) :
    ∃ quote, isQuote quote = true ∧ (read c cs).2.taken.getLast? = some quote := by
  obtain ⟨opening, quote, body, whole, opens⟩ := opens_of_read closed
  have reads := opens.reads body c cs whole
  rw [reads] at closed ⊢
  have closed : (stringBody quote body).closed = true := (Piece.string.inj closed).2
  refine ⟨quote, opens.isQuote, ?_⟩
  have last : (stringBody quote body).taken.getLast? = some quote := by
    cases begins : beginsTriple quote body with
    | true =>
      obtain ⟨after, rfl⟩ := eq_of_beginsTriple begins
      rw [stringBody_triple] at closed ⊢
      simp [List.getLast?_cons, getLast?_of_closed closed]
    | false =>
      rw [stringBody_of_not begins] at closed ⊢
      exact getLast?_of_closed closed
  simp [List.getLast?_append, List.getLast?_cons, last]

/-- What follows the first line feed behind a piece may change. -/
lemma Piece.read_dedentRest (strings : List Span) (columns offset : ℕ) {c : Char}
    {cs taken rest : List Char} {piece : Piece} (found : read c cs = (piece, ⟨c :: taken, rest⟩)) :
    read c (taken ++ dedentRest strings columns offset rest)
      = (piece, ⟨c :: taken, dedentRest strings columns offset rest⟩) := by
  have whole := read_taken_append_rest c cs
  rw [found, List.cons_append, List.cons_inj_right] at whole
  subst whole
  by_cases feed : '\n' ∈ rest
  · obtain ⟨line, more, rfl, unfed⟩ := List.eq_append_cons_of_mem feed
    rw [Text.dedentRest_append unfed, Text.dedentRest_feed]
    rw [← List.append_assoc] at found ⊢
    have short : (read c (taken ++ line ++ '\n' :: more)).2.taken.length
        ≤ (c :: (taken ++ line)).length := by rw [found]; simp
    obtain ⟨⟨piece', cut⟩, same⟩ := read_ahead (by decide) short
    obtain ⟨rfl, cuts⟩ := Prod.mk.inj ((same more).symm.trans found)
    obtain ⟨taken', rest'⟩ := Cut.mk.inj cuts
    obtain rfl := List.append_cancel_right rest'
    rw [same, Cut.extend, taken']
  · rwa [Text.dedentRest_of_unfed feed]

/-- A piece that is no blank and no line break stays in the block, if the span of a string is known. -/
lemma Piece.dedentRest_found (strings : List Span) (columns offset : ℕ) {c : Char} {cs : List Char}
    (solid : isSkipped c = false)
    (known : ∀ f closed, (read c cs).1 = .string f closed →
      ⟨offset, offset + width (read c cs).2.taken⟩ ∈ strings) :
    dedentRest strings columns offset (c :: cs) = (read c cs).2.taken
      ++ dedentRest strings columns (offset + width (read c cs).2.taken) (read c cs).2.rest := by
  conv_lhs => rw [← read_taken_append_rest c cs]
  by_cases isString : ∃ f closed, (read c cs).1 = .string f closed
  · obtain ⟨f, closed, isString⟩ := isString
    refine Text.dedentRest_inside (Nat.lt_succ_self _) (known f closed isString) fun last d hd => ?_
    cases closed with
    | true =>
      obtain ⟨quote, quotes, ends⟩ := getLast?_of_read isString
      exact absurd (Option.some.inj (ends.symm.trans last)) (quote_ne_feed quotes)
    | false =>
      rcases eq_of_isLineEnd (rest_of_open isString d hd) with rfl | rfl <;> rfl
  · push Not at isString
    have unfed : '\n' ∉ (read c cs).2.taken := fun mem =>
      absurd (not_isLineEnd_of_solid solid isString '\n' mem) (by decide)
    exact Text.dedentRest_append unfed _ _

/-! ## The tokens of a block -/

lemma contributed_words (piece : Piece) (taken : List Char) (span span' : Span) :
    (contributed piece taken span).map (·.1.word)
      = (contributed piece taken span').map (·.1.word) := by
  cases piece with
  | blank | comment | lineBreak | joint | strayBackslash => rfl
  | number | symbol | unknown => rfl
  | word =>
    simp only [contributed, contribution, List.filter_cons]
    split <;> rfl
  | string f => cases f <;> rfl

/-- The token of a string has its span. -/
lemma mem_contributed_string (f closed : Bool) (taken : List Char) (span : Span) :
    ∃ x ∈ contributed (.string f closed) taken span,
      (x.1.kind = .string ∨ x.1.kind = .fstring) ∧ x.1.span = span := by
  cases f with
  | false => exact ⟨_, List.mem_singleton.2 rfl, .inl rfl, rfl⟩
  | true => exact ⟨_, List.mem_singleton.2 rfl, .inr rfl, rfl⟩

lemma isSkipped_of_isIndent {c : Char} (h : Text.isIndent c = true) : isSkipped c = true := by
  rw [Text.isIndent, Bool.or_eq_true, beq_iff_eq, beq_iff_eq] at h
  rcases h with rfl | rfl <;> rfl

/-- What is left of a block has the same tokens that take space, wherever it stands then, if the
spans of its strings are known. -/
theorem solids_dedentRest {strings : List Span} (columns : ℕ) {offset : ℕ} {cs : List Char}
    (known : ∀ x ∈ solids offset cs, x.1.kind = .string ∨ x.1.kind = .fstring →
      x.1.span ∈ strings) (place : ℕ) :
    (solids place (dedentRest strings columns offset cs)).map (·.1.word)
      = (solids offset cs).map (·.1.word) := by
  induction size : cs.length using Nat.strong_induction_on generalizing offset cs place with
  | _ n ih =>
    subst size
    cases cs with
    | nil => rw [dedentRest, solids_nil, solids_nil]
    | cons c cs =>
      cases skipped : isSkipped c with
      | true =>
        rw [solids_skip skipped] at known ⊢
        by_cases feed : c = '\n'
        · subst feed
          obtain ⟨blanks, rest, rfl, all, -, same⟩ :=
            Text.dedentLines_eq strings columns (offset + 1) cs
          have blank : ∀ c ∈ blanks, isSkipped c = true :=
            fun c hc => isSkipped_of_isIndent (all c hc)
          have one : '\n'.utf8Size = 1 := rfl
          rw [one, solids_skips blank] at known ⊢
          rw [Text.dedentRest_feed, same, solids_skip (by decide)]
          exact ih rest.length (by simp) known _ rfl
        · rw [Text.dedentRest_cons feed, solids_skip skipped]
          exact ih cs.length (Nat.lt_succ_self _) known _ rfl
      | false =>
        rw [solids_cons] at known ⊢
        obtain ⟨here, later⟩ := List.forall_mem_append.1 known
        have spans (f closed : Bool) (is : (Piece.read c cs).1 = .string f closed) :
            ⟨offset, offset + width (Piece.read c cs).2.taken⟩ ∈ strings := by
          obtain ⟨x, mem, kind, span⟩ := mem_contributed_string f closed
            (Piece.read c cs).2.taken ⟨offset, offset + width (Piece.read c cs).2.taken⟩
          rw [← span]
          exact here x (is ▸ mem) kind
        have shorter := Piece.read_rest_length c cs
        rw [Piece.dedentRest_found strings columns offset skipped spans]
        generalize found : Piece.read c cs = p at later shorter ⊢
        obtain ⟨piece, cut, rest⟩ := p
        have whole := Piece.read_taken_append_rest c cs
        rw [found] at whole
        cases cut with
        | nil => exact absurd (congrArg (·.2.taken) found) (Piece.read_taken_ne_nil c cs)
        | cons d taken =>
          obtain rfl : d = c := (List.cons.inj whole).1
          rw [List.cons_append, solids_cons, Piece.read_dedentRest strings columns _ found,
            List.map_append, List.map_append, ih _ shorter later _ rfl,
            contributed_words _ _ _ ⟨offset, offset + width (d :: taken)⟩]

/-- The tokens of a text apart from layout are those that take space and the end. -/
lemma lex_words (text : String) :
    ((lex text).tokens.filter (!·.kind.isLayout)).map Token.word
      = (solids 0 text.toList).map (·.1.word) ++ [(.endOfFile, "")] := by
  obtain ⟨front, last, whole, ends, span, others⟩ := (lex_lossless text).ends
  have empty : last.text = "" := by
    rcases ((lex_placed text).tokens.each last (by simp [whole])).text with none | slice
    · exact none
    · have size : width text.toList = text.utf8ByteSize := Text.width_toList text
      have nothing := Text.slice_append text.toList [] []
      rw [List.append_nil, List.append_nil, size] at nothing
      rw [span, Span.point, nothing] at slice
      exact String.toList_inj.1 slice.symm
  have solid : front.filter (!·.kind.isLayout) = front.filter (·.kind.takesSpace) := by
    refine List.filter_congr fun t ht => ?_
    simp [TokenKind.takesSpace, others t ht]
  have takes : last.kind.takesSpace = false := by rw [ends]; rfl
  have laid : last.kind.isLayout = false := by rw [ends]; rfl
  have all := (lexFrom_solids .module 0 text.toList).1
  change (lex text).tokens.filter _ = _ at all
  rw [whole, List.filter_append, List.filter_singleton, takes] at all
  rw [whole, List.filter_append, List.filter_singleton, laid, solid]
  simp only [cond_false, List.append_nil] at all
  simp [all, Token.word, ends, empty, Function.comp_def]

/-- **Moving a block.**  The tokens of a block that was moved to the left by any number of columns are
those of the block, with the same kinds and texts, layout apart. -/
theorem tokens_dedent (block : String) (columns : ℕ) :
    ((lex (Text.dedent block columns)).tokens.filter (!·.kind.isLayout)).map Token.word
      = ((lex block).tokens.filter (!·.kind.isLayout)).map Token.word := by
  rw [lex_words, lex_words, Text.dedent]
  split
  · rfl
  obtain ⟨blanks, rest, whole, all, -, same⟩ :=
    Text.dedentLines_eq (Text.stringSpans block) columns 0 block.toList
  have known : ∀ x ∈ solids 0 block.toList, x.1.kind = .string ∨ x.1.kind = .fstring →
      x.1.span ∈ Text.stringSpans block := by
    intro x hx kind
    have among : x.1 ∈ (lex block).tokens.filter (·.kind.takesSpace) := by
      rw [lex, (lexFrom_solids .module 0 block.toList).1]
      exact List.mem_map_of_mem hx
    refine List.mem_map_of_mem (List.mem_filter.2 ⟨List.mem_of_mem_filter among, ?_⟩)
    rcases kind with kind | kind <;> rw [kind] <;> rfl
  have blank : ∀ c ∈ blanks, isSkipped c = true := fun c hc => isSkipped_of_isIndent (all c hc)
  rw [String.toList_ofList, same]
  conv_rhs => rw [whole]
  rw [whole, solids_skips blank] at known
  rw [solids_skips blank, solids_dedentRest columns known]

end Syntax

end MethodLift
