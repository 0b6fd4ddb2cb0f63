import MethodLift.Proofs.Text.Lines
import MethodLift.Syntax.Lexing

/-!
# Pieces and what follows them

A piece of a text is found by its characters alone, and most pieces end at a line end at the latest.
So what follows that line end does not matter (`Piece.read_extend`), unless the piece is a string
that is still open there (`Piece.read_open`).

Pieces that become tokens, and are right, neither begin nor end in white space (`Piece.read_trimmed`).
-/

namespace MethodLift.Syntax

/-- A character that is passed over by itself, wherever it stands. -/
def isSkipped (c : Char) : Bool := isBlank c || isLineEnd c || c == '\\'

/-! ## Pieces in front of a line end -/

/-- A front part of a text that is followed by more text. -/
def Cut.extend (cut : Cut) (more : List Char) : Cut := ⟨cut.taken, cut.rest ++ more⟩

/-- The line ends are not among the characters of words, numbers, quotes and prefixes. -/
lemma eq_of_isLineEnd {d : Char} (h : isLineEnd d = true) : d = '\n' ∨ d = '\r' := by
  rw [isLineEnd, Bool.or_eq_true, beq_iff_eq, beq_iff_eq] at h
  exact h

lemma Cut.spanning_extend {p : Char → Bool} {d : Char} (stops : p d = false) (cs ds : List Char) :
    Cut.spanning p (cs ++ d :: ds) = (Cut.spanning p cs).extend (d :: ds) := by
  induction cs with
  | nil => simp [Cut.spanning, Cut.extend, stops]
  | cons c cs ih =>
    simp only [Cut.spanning, Cut.extend, Cut.mk.injEq] at ih
    by_cases taken : p c = true
    · simp [Cut.spanning, Cut.extend, taken, ih.1, ih.2]
    · simp [Cut.spanning, Cut.extend, taken]

/-- A front part of characters with a property, in front of one without it. -/
lemma Cut.spanning_append_cons {p : Char → Bool} {d : Char} {cs : List Char}
    (all : ∀ c ∈ cs, p c = true) (stops : p d = false) (ds : List Char) :
    Cut.spanning p (cs ++ d :: ds) = ⟨cs, d :: ds⟩ := by
  rw [Cut.spanning_extend stops, Cut.spanning, List.takeWhile_eq_self_iff.2 all,
    List.dropWhile_eq_nil_iff.2 all]
  rfl

namespace Piece

variable {d : Char} (lineEnd : isLineEnd d = true) (ds : List Char)
include lineEnd

omit lineEnd in
lemma numberCut_of_not {hex : Bool} {c : Char} {cs : List Char} (h : isNumberChar c = false) :
    numberCut hex (c :: cs) = ⟨[], c :: cs⟩ := by
  unfold numberCut
  rw [if_neg (by rw [h]; exact Bool.false_ne_true)]

lemma numberCut_extend (hex : Bool) (cs : List Char) :
    numberCut hex (cs ++ d :: ds) = (numberCut hex cs).extend (d :: ds) := by
  have stops : isNumberChar d = false := by
    rcases eq_of_isLineEnd lineEnd with rfl | rfl <;> decide
  have noSign : (d == '+' || d == '-') = false := by
    rcases eq_of_isLineEnd lineEnd with rfl | rfl <;> decide
  fun_induction numberCut hex cs with
  | case1 => exact numberCut_of_not stops
  | case2 c number sign after exponent ih =>
    rw [List.cons_append, List.cons_append, numberCut, if_pos number, if_pos exponent, ih]
    rfl
  | case3 c number sign after exponent ih =>
    rw [List.cons_append, List.cons_append, numberCut, if_pos number, if_neg exponent]
    exact congrArg (Cut.push c) ih
  | case4 c number =>
    rw [List.cons_append, List.nil_append, numberCut, if_pos number, if_neg (by simp [noSign]),
      numberCut_of_not stops]
    rfl
  | case5 c cs number => exact numberCut_of_not (by simpa using number)

lemma dropPrefix?_extend {ps : List Char} (inLine : ∀ p ∈ ps, isLineEnd p = false)
    (cs : List Char) :
    dropPrefix? ps (cs ++ d :: ds) = (dropPrefix? ps cs).map (· ++ d :: ds) := by
  fun_induction dropPrefix? ps cs with
  | case1 => rfl
  | case2 p ps =>
    have other : ¬ (p == d) = true := fun same => by
      rw [eq_of_beq same, List.forall_mem_cons, lineEnd] at inLine
      cases inLine.1
    rw [List.nil_append, dropPrefix?, if_neg other]
    rfl
  | case3 p ps c cs same ih =>
    rw [List.cons_append, dropPrefix?, if_pos same, ih (List.forall_mem_cons.1 inLine).2]
  | case4 p ps c cs other =>
    rw [List.cons_append, dropPrefix?, if_neg other]
    rfl

lemma symbol?_extend (cs : List Char) :
    symbol? (cs ++ d :: ds) = (symbol? cs).map fun found => (found.1, found.2.extend (d :: ds)) := by
  have inLine (s : Symbol) : ∀ p ∈ s.text.toList, isLineEnd p = false := by
    have all : s.text.toList.all (!isLineEnd ·) = true := by cases s <;> rfl
    simpa using all
  have each (s : Symbol) : ((dropPrefix? s.text.toList (cs ++ d :: ds)).map fun rest =>
        (s, (⟨s.text.toList, rest⟩ : Cut)))
      = ((dropPrefix? s.text.toList cs).map fun rest => (s, (⟨s.text.toList, rest⟩ : Cut))).map
        fun found => (found.1, found.2.extend (d :: ds)) := by
    rw [dropPrefix?_extend lineEnd ds (inLine s), Option.map_map, Option.map_map]
    rfl
  unfold symbol?
  simp only [each]
  rw [List.map_findSome?]
  rfl

/-! ### Strings -/

omit lineEnd

/-- A string with more text behind it. -/
def StringCut.extend (s : StringCut) (more : List Char) : StringCut :=
  ⟨s.toCut.extend more, s.closed⟩

/-- Three quotes close a string in triple quotes. -/
lemma three_le_of_closed {quote : Char} {triple : Bool} {cs : List Char} (is : triple = true)
    (closed : (stringTail quote triple cs).closed = true) : 3 ≤ cs.length := by
  fun_induction stringTail quote triple cs with
  | case1 | case2 => cases closed
  | case3 c escape hidden after ih =>
    have more := ih closed
    simp only [List.length_cons]
    omega
  | case4 c cs noEscape ends => simp [is] at ends
  | case5 c cs noEscape inLine ends => simp [is] at ends
  | case6 => simp
  | case7 c noEscape inLine inside isQuote second third after quotes ih =>
    have more := ih closed
    simp only [List.length_cons] at more ⊢
    omega
  | case8 c noEscape inLine inside isQuote cs short ih => exact (ih closed).trans (Nat.le_succ _)
  | case9 c cs noEscape inLine inside other ih => exact (ih closed).trans (Nat.le_succ _)

/-- A string that is closed is the same, whatever follows. -/
lemma stringTail_extend {quote : Char} {triple : Bool} {cs : List Char}
    (closed : (stringTail quote triple cs).closed = true) (more : List Char) :
    stringTail quote triple (cs ++ more) = (stringTail quote triple cs).extend more := by
  fun_induction stringTail quote triple cs with
  | case1 | case2 => cases closed
  | case3 c escape hidden after ih =>
    rw [List.cons_append, List.cons_append, stringTail.eq_def]
    dsimp only
    rw [if_pos escape, ih closed]
    rfl
  | case4 => cases closed
  | case5 c cs noEscape inLine ends =>
    rw [List.cons_append, stringTail.eq_def]
    dsimp only
    rw [if_neg noEscape, if_neg inLine, if_pos ends]
    rfl
  | case6 c noEscape inLine inside isQuote second third after quotes =>
    rw [List.cons_append, stringTail.eq_def]
    dsimp only [List.cons_append]
    rw [if_neg noEscape, if_neg inLine, if_neg inside, if_pos isQuote, if_pos quotes]
    rfl
  | case7 c noEscape inLine inside isQuote second third after quotes ih =>
    rw [List.cons_append, stringTail.eq_def]
    dsimp only [List.cons_append]
    rw [if_neg noEscape, if_neg inLine, if_neg inside, if_pos isQuote, if_neg quotes]
    exact congrArg (StringCut.push c) (ih closed)
  | case8 c noEscape inLine inside isQuote cs short ih =>
    -- two characters cannot close a string in triple quotes
    have triple : triple = true := by
      rw [isQuote, Bool.true_and, Bool.not_eq_true', Bool.not_eq_false] at inside
      exact inside
    obtain ⟨second, third, after, rfl⟩ : ∃ second third after, cs = second :: third :: after := by
      have long := three_le_of_closed triple closed
      rcases cs with _ | ⟨second, _ | ⟨third, after⟩⟩
      · simp at long
      · simp at long
      · exact ⟨second, third, after, rfl⟩
    exact absurd rfl (short second third after)
  | case9 c cs noEscape inLine inside other ih =>
    rw [List.cons_append, stringTail.eq_def]
    dsimp only
    rw [if_neg noEscape, if_neg inLine, if_neg inside, if_neg other, ih closed]
    rfl

/-- A closed string ends in its quote. -/
lemma getLast?_of_closed {quote : Char} {triple : Bool} {cs : List Char}
    (closed : (stringTail quote triple cs).closed = true) :
    (stringTail quote triple cs).taken.getLast? = some quote := by
  fun_induction stringTail quote triple cs with
  | case1 | case2 => cases closed
  | case3 c escape hidden after ih =>
    simp [List.getLast?_cons, ih closed]
  | case4 => cases closed
  | case5 c cs noEscape inLine ends =>
    rw [Bool.and_eq_true] at ends
    simp [eq_of_beq ends.1]
  | case6 c noEscape inLine inside isQuote second third after quotes =>
    rw [Bool.and_eq_true] at quotes
    simp [eq_of_beq quotes.2]
  | case7 c noEscape inLine inside isQuote second third after quotes ih =>
    simp [List.getLast?_cons, ih closed]
  | case8 c noEscape inLine inside isQuote cs short ih => simp [List.getLast?_cons, ih closed]
  | case9 c cs noEscape inLine inside other ih => simp [List.getLast?_cons, ih closed]

/-- A string that is closed by what follows is longer than what it is in front of. -/
lemma lt_length_of_closed {quote : Char} {triple : Bool} {cs more : List Char}
    (isOpen : (stringTail quote triple cs).closed = false)
    (closed : (stringTail quote triple (cs ++ more)).closed = true) :
    cs.length < (stringTail quote triple (cs ++ more)).taken.length := by
  fun_induction stringTail quote triple cs with
  | case1 =>
    exact List.length_pos_iff.2 fun none => by
      have last := getLast?_of_closed closed
      rw [none] at last
      cases last
  | case2 c escape =>
    rw [List.cons_append, List.nil_append, stringTail.eq_def] at closed ⊢
    dsimp only at closed ⊢
    rw [if_pos escape] at closed ⊢
    cases more with
    | nil => cases closed
    | cons hidden after => simp
  | case3 c escape hidden after ih =>
    rw [List.cons_append, List.cons_append, stringTail.eq_def] at closed ⊢
    dsimp only at closed ⊢
    rw [if_pos escape] at closed ⊢
    have longer := ih isOpen closed
    simp only [StringCut.push_taken, List.length_cons]
    omega
  | case4 c cs noEscape ends =>
    rw [List.cons_append, stringTail.eq_def] at closed
    dsimp only at closed
    rw [if_neg noEscape, if_pos ends] at closed
    cases closed
  | case5 | case6 => cases isOpen
  | case7 c noEscape inLine inside isQuote second third after quotes ih =>
    rw [List.cons_append, stringTail.eq_def] at closed ⊢
    dsimp only [List.cons_append] at closed ⊢
    rw [if_neg noEscape, if_neg inLine, if_neg inside, if_pos isQuote, if_neg quotes] at closed ⊢
    exact Nat.succ_lt_succ (ih isOpen closed)
  | case8 c noEscape inLine inside isQuote cs short ih =>
    rw [List.cons_append, stringTail.eq_def] at closed ⊢
    dsimp only at closed ⊢
    rw [if_neg noEscape, if_neg inLine, if_neg inside, if_pos isQuote] at closed ⊢
    have two : cs.length < 2 := by
      rcases cs with _ | ⟨second, _ | ⟨third, after⟩⟩
      · simp
      · simp
      · exact absurd rfl (short second third after)
    generalize cs ++ more = text at closed ih ⊢
    rcases text with _ | ⟨second, _ | ⟨third, after⟩⟩
    · exact Nat.succ_lt_succ (ih isOpen closed)
    · exact Nat.succ_lt_succ (ih isOpen closed)
    · dsimp only at closed ⊢
      by_cases quotes : (second == quote && third == quote) = true
      · rw [if_pos quotes]
        simp only [List.length_cons, List.length_nil]
        omega
      · rw [if_neg quotes] at closed ⊢
        exact Nat.succ_lt_succ (ih isOpen closed)
  | case9 c cs noEscape inLine inside other ih =>
    rw [List.cons_append, stringTail.eq_def] at closed ⊢
    dsimp only at closed ⊢
    rw [if_neg noEscape, if_neg inLine, if_neg inside, if_neg other] at closed ⊢
    exact Nat.succ_lt_succ (ih isOpen closed)

include lineEnd in
lemma ne_quote {quote : Char} (isQuote : isQuote quote = true) : (d == quote) = false := by
  rw [Piece.isQuote, Bool.or_eq_true, beq_iff_eq, beq_iff_eq] at isQuote
  rcases eq_of_isLineEnd lineEnd with rfl | rfl <;> rcases isQuote with rfl | rfl <;> decide

include lineEnd in
lemma stringBody_extend {quote : Char} {cs : List Char} (quotes : isQuote quote = true)
    (closed : (stringBody quote cs).closed = true) :
    stringBody quote (cs ++ d :: ds) = (stringBody quote cs).extend (d :: ds) := by
  match cs with
  | [] => simp [stringBody, stringTail] at closed
  | [x] =>
    have noTriple : ¬ (x == quote && d == quote) = true := by simp [ne_quote lineEnd quotes]
    exact (if_neg noTriple).trans (stringTail_extend closed (d :: ds))
  | x :: y :: after =>
    unfold stringBody at closed ⊢
    dsimp only [List.cons_append] at closed ⊢
    by_cases triple : (x == quote && y == quote) = true
    · rw [if_pos triple] at closed ⊢
      rw [if_pos triple, stringTail_extend closed]
      rfl
    · rw [if_neg triple] at closed ⊢
      rw [if_neg triple]
      exact stringTail_extend closed (d :: ds)

include lineEnd in
lemma lt_length_stringBody {quote : Char} {cs : List Char} (quotes : isQuote quote = true)
    (isOpen : (stringBody quote cs).closed = false)
    (closed : (stringBody quote (cs ++ d :: ds)).closed = true) :
    cs.length < (stringBody quote (cs ++ d :: ds)).taken.length := by
  rcases cs with _ | ⟨x, _ | ⟨y, after⟩⟩
  · -- a line end does not begin the end of a string
    have body : stringBody quote (d :: ds) = stringTail quote false (d :: ds) := by
      unfold stringBody
      split
      next second third after shape =>
        obtain ⟨rfl, rfl⟩ := List.cons.inj shape
        exact if_neg (by simp [ne_quote lineEnd quotes])
      · rfl
    have noEscape : ¬ (d == '\\') = true := by
      rcases eq_of_isLineEnd lineEnd with rfl | rfl <;> decide
    rw [List.nil_append, body, stringTail.eq_def] at closed
    dsimp only at closed
    rw [if_neg noEscape, if_pos (by rw [lineEnd]; rfl)] at closed
    cases closed
  · have noTriple : ¬ (x == quote && d == quote) = true := by simp [ne_quote lineEnd quotes]
    have tail : stringBody quote ([x] ++ d :: ds) = stringTail quote false ([x] ++ d :: ds) :=
      if_neg noTriple
    rw [tail] at closed ⊢
    exact lt_length_of_closed isOpen closed
  · unfold stringBody at isOpen closed ⊢
    dsimp only [List.cons_append] at isOpen closed ⊢
    by_cases triple : (x == quote && y == quote) = true
    · rw [if_pos triple] at isOpen closed ⊢
      exact Nat.succ_lt_succ (Nat.succ_lt_succ (lt_length_of_closed isOpen closed))
    · rw [if_neg triple] at isOpen closed ⊢
      exact lt_length_of_closed isOpen closed

/-- What begins a string, or the letters before one, does not depend on a line end behind it. -/
lemma ends_prefix (lineEnd : isLineEnd d = true) : isQuote d = false ∧ isStringPrefix d = false := by
  rcases eq_of_isLineEnd lineEnd with rfl | rfl <;> decide

/-- A string with letters before it, if it is closed. -/
lemma prefixedString?_extend (lineEnd : isLineEnd d = true) (ds : List Char) {c : Char}
    {cs : List Char}
    (closed : ∀ found, prefixedString? c cs = some found → ∀ f, found.1 ≠ .string f false) :
    prefixedString? c (cs ++ d :: ds)
      = (prefixedString? c cs).map fun found => (found.1, found.2.extend (d :: ds)) := by
  obtain ⟨noQuote, noPrefix⟩ := ends_prefix lineEnd
  unfold prefixedString? at closed ⊢
  by_cases letter : (!isStringPrefix c) = true
  · cases cs <;> simp [letter]
  cases cs with
  | nil => simp [noQuote, noPrefix]
  | cons second after =>
    dsimp only [List.cons_append] at closed ⊢
    rw [if_neg letter] at closed
    rw [if_neg letter, if_neg letter]
    by_cases quote : isQuote second = true
    · rw [if_pos quote] at closed
      rw [if_pos quote, if_pos quote]
      have body : (stringBody second after).closed = true := by
        by_contra isOpen
        rw [Bool.not_eq_true] at isOpen
        exact closed _ rfl _ (by rw [isOpen])
      rw [stringBody_extend lineEnd ds quote body]
      rfl
    rw [if_neg quote] at closed
    rw [if_neg quote, if_neg quote]
    by_cases letter : isStringPrefix second = true
    · rw [if_pos letter] at closed
      rw [if_pos letter, if_pos letter]
      cases after with
      | nil => simp [noQuote]
      | cons third inside =>
        dsimp only [List.cons_append] at closed ⊢
        by_cases quote : isQuote third = true
        · rw [if_pos quote] at closed
          rw [if_pos quote, if_pos quote]
          have body : (stringBody third inside).closed = true := by
            by_contra isOpen
            rw [Bool.not_eq_true] at isOpen
            exact closed _ rfl _ (by rw [isOpen])
          rw [stringBody_extend lineEnd ds quote body]
          rfl
        · rw [if_neg quote, if_neg quote]
          rfl
    · rw [if_neg letter, if_neg letter]
      rfl

/-- A string with letters before it, if it is open, is a string in front of more text as well. -/
lemma prefixedString?_open (lineEnd : isLineEnd d = true) (ds : List Char) {c : Char}
    {cs : List Char} {f : Bool} {found : Piece × Cut} (is : prefixedString? c cs = some found)
    (isOpen : found.1 = .string f false) :
    ∃ closed cut, prefixedString? c (cs ++ d :: ds) = some (.string f closed, cut)
      ∧ (closed = true → (c :: cs).length < cut.taken.length) := by
  unfold prefixedString? at is ⊢
  cases cs with
  | nil => nomatch is
  | cons second after =>
    dsimp only [List.cons_append] at is ⊢
    by_cases letter : (!isStringPrefix c) = true
    · rw [if_pos letter] at is
      nomatch is
    rw [if_neg letter] at is ⊢
    by_cases quote : isQuote second = true
    · rw [if_pos quote] at is ⊢
      obtain rfl := Option.some.inj is
      obtain ⟨rfl, body⟩ := Piece.string.inj isOpen
      refine ⟨_, _, rfl, fun closed => ?_⟩
      exact Nat.succ_lt_succ (Nat.succ_lt_succ (lt_length_stringBody lineEnd ds quote body closed))
    rw [if_neg quote] at is ⊢
    by_cases letter : isStringPrefix second = true
    · rw [if_pos letter] at is ⊢
      cases after with
      | nil => nomatch is
      | cons third inside =>
        dsimp only [List.cons_append] at is ⊢
        by_cases quote : isQuote third = true
        · rw [if_pos quote] at is ⊢
          obtain rfl := Option.some.inj is
          obtain ⟨rfl, body⟩ := Piece.string.inj isOpen
          refine ⟨_, _, rfl, fun closed => ?_⟩
          exact Nat.succ_lt_succ (Nat.succ_lt_succ (Nat.succ_lt_succ
            (lt_length_stringBody lineEnd ds quote body closed)))
        · rw [if_neg quote] at is
          nomatch is
    · rw [if_neg letter] at is
      nomatch is

/-! ### All pieces -/

lemma read_of_isBlank {c : Char} (h : isBlank c = true) (cs : List Char) :
    read c cs = (.blank, ⟨[c], cs⟩) := if_pos h

lemma read_of_isLineEnd {c : Char} (h : isLineEnd c = true) (cs : List Char) :
    read c cs = (.lineBreak, (afterBreak c cs).push c) := by
  rcases eq_of_isLineEnd h with rfl | rfl <;> rfl

lemma read_joint (ends : isLineEnd d = true) (cs : List Char) :
    read '\\' (d :: cs) = (.joint, ((afterBreak d cs).push d).push '\\') := if_pos ends

lemma read_strayBackslash (other : ¬isLineEnd d = true) (cs : List Char) :
    read '\\' (d :: cs) = (.strayBackslash, ⟨['\\'], d :: cs⟩) := if_neg other

/-- A line feed is a line break of its own. -/
lemma afterBreak_feed_eq (cs : List Char) : afterBreak '\n' cs = ⟨[], cs⟩ := by
  unfold afterBreak
  split <;> rfl

lemma isSkipped_eq_false {c : Char} (h : isSkipped c = false) :
    ¬ isBlank c = true ∧ ¬ isLineEnd c = true ∧ ¬ (c == '\\') = true := by
  rw [isSkipped, Bool.or_eq_false_iff, Bool.or_eq_false_iff] at h
  simp [h.1.1, h.1.2, h.2]

lemma beginsNumber_extend (lineEnd : isLineEnd d = true) (ds : List Char) (c : Char)
    (cs : List Char) : beginsNumber c (cs ++ d :: ds) = beginsNumber c cs := by
  have noDigit : d.isDigit = false := by
    rcases eq_of_isLineEnd lineEnd with rfl | rfl <;> decide
  cases cs <;> simp [beginsNumber, noDigit]

lemma isHex_extend (lineEnd : isLineEnd d = true) (ds : List Char) (c : Char) (cs : List Char) :
    isHex (c :: (cs ++ d :: ds)) = isHex (c :: cs) := by
  have letter : (d == 'x' || d == 'X') = false := by
    rcases eq_of_isLineEnd lineEnd with rfl | rfl <;> decide
  by_cases zero : c = '0'
  · subst zero
    cases cs with
    | nil => exact letter
    | cons => rfl
  · simp [isHex, zero]

/-- A piece ends at a line end at the latest, but for line ends themselves and open strings. -/
theorem read_extend (lineEnd : isLineEnd d = true) (ds : List Char) {c : Char} {cs : List Char}
    (solid : isSkipped c = false) (closed : ∀ f, (read c cs).1 ≠ .string f false) :
    read c (cs ++ d :: ds) = ((read c cs).1, (read c cs).2.extend (d :: ds)) := by
  obtain ⟨noBlank, noEnd, noEscape⟩ := isSkipped_eq_false solid
  unfold read at closed ⊢
  rw [if_neg noBlank] at closed ⊢
  rw [if_neg noBlank]
  by_cases comment : (c == '#') = true
  · rw [if_pos comment, if_pos comment, Cut.spanning_extend (by rw [lineEnd]; rfl)]
    rfl
  rw [if_neg comment, if_neg noEnd, if_neg noEscape] at closed
  rw [if_neg comment, if_neg comment, if_neg noEnd, if_neg noEnd, if_neg noEscape, if_neg noEscape,
    beginsNumber_extend lineEnd, isHex_extend lineEnd]
  by_cases number : beginsNumber c cs = true
  · rw [if_pos number, if_pos number]
    exact congrArg (Prod.mk Piece.number) (numberCut_extend lineEnd ds _ (c :: cs))
  rw [if_neg number] at closed
  rw [if_neg number, if_neg number]
  by_cases quote : isQuote c = true
  · rw [if_pos quote] at closed
    rw [if_pos quote, if_pos quote]
    have body : (stringBody c cs).closed = true := by
      by_contra isOpen
      rw [Bool.not_eq_true] at isOpen
      exact closed false (congrArg (string false) isOpen)
    dsimp only
    rw [stringBody_extend lineEnd ds quote body]
    rfl
  rw [if_neg quote] at closed
  rw [if_neg quote, if_neg quote]
  by_cases word : Text.isNameStart c = true
  · rw [if_pos word] at closed
    rw [if_pos word, if_pos word, prefixedString?_extend lineEnd ds fun found is f isOpen => by
      rw [is] at closed
      exact closed f isOpen]
    have stops : Text.isWordChar d = false := by
      rcases eq_of_isLineEnd lineEnd with rfl | rfl <;> decide
    cases prefixedString? c cs with
    | some found => rfl
    | none =>
      dsimp only [Option.map_none]
      rw [Cut.spanning_extend stops]
      rfl
  · rw [if_neg word, if_neg word]
    have symbols : symbol? (c :: (cs ++ d :: ds)) = _ := symbol?_extend lineEnd ds (c :: cs)
    rw [symbols]
    cases symbol? (c :: cs) <;> rfl

/-- An open string is a string in front of more text as well, and if it is closed there, then behind
the line end. -/
theorem read_open (lineEnd : isLineEnd d = true) (ds : List Char) {c : Char} {cs : List Char}
    {f : Bool} (isOpen : (read c cs).1 = .string f false) :
    ∃ closed, (read c (cs ++ d :: ds)).1 = .string f closed
      ∧ (closed = true → (c :: cs).length < (read c (cs ++ d :: ds)).2.taken.length) := by
  unfold read at isOpen ⊢
  by_cases blank : isBlank c = true
  · rw [if_pos blank] at isOpen
    nomatch isOpen
  rw [if_neg blank] at isOpen ⊢
  by_cases comment : (c == '#') = true
  · rw [if_pos comment] at isOpen
    nomatch isOpen
  rw [if_neg comment] at isOpen ⊢
  by_cases ends : isLineEnd c = true
  · rw [if_pos ends] at isOpen
    nomatch isOpen
  rw [if_neg ends] at isOpen ⊢
  by_cases escape : (c == '\\') = true
  · rw [if_pos escape] at isOpen
    split at isOpen
    · split at isOpen <;> nomatch isOpen
    · nomatch isOpen
  rw [if_neg escape] at isOpen
  rw [if_neg escape, beginsNumber_extend lineEnd]
  by_cases number : beginsNumber c cs = true
  · rw [if_pos number] at isOpen
    nomatch isOpen
  rw [if_neg number] at isOpen ⊢
  by_cases quote : isQuote c = true
  · rw [if_pos quote] at isOpen ⊢
    obtain ⟨rfl, body⟩ := Piece.string.inj isOpen
    exact ⟨_, rfl, fun closed =>
      Nat.succ_lt_succ (lt_length_stringBody lineEnd ds quote body closed)⟩
  rw [if_neg quote] at isOpen ⊢
  by_cases word : Text.isNameStart c = true
  · rw [if_pos word] at isOpen ⊢
    split at isOpen
    next found is =>
      obtain ⟨closed, cut, is', longer⟩ := prefixedString?_open lineEnd ds is isOpen
      rw [is']
      exact ⟨closed, rfl, longer⟩
    · nomatch isOpen
  · rw [if_neg word] at isOpen
    split at isOpen <;> nomatch isOpen

end Piece

end MethodLift.Syntax
