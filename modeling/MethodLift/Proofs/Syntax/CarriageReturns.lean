import MethodLift.Proofs.Syntax.Pieces
import MethodLift.Proofs.Syntax.Tokens

/-!
# Carriage returns in front of line feeds

A text ends its lines with line feeds alone or with a carriage return in front of each of them.
`Text.withReturns` puts the carriage returns in. `Lexed.Returned` says that the tokens of the new
text are those of the old one, with the same kinds and with the same texts up to carriage returns,
and that the messages are the same. Only the places move.

This is so exactly for the texts in which no string in single quotes goes on behind a line feed
(`lex_returned_iff`). Such a string goes on because a backslash hides the line feed. Of a carriage
return and a line feed the backslash hides the carriage return alone, and the string ends in front
of the line feed, unterminated. Everywhere else a line break is passed over as a whole:
`Piece.read_withReturns` says so of one piece and `lexFrom_withReturns` of what is left of a text.
-/

namespace MethodLift

/-! ## Texts with carriage returns -/

namespace Text

/-- A text with a carriage return in front of every line feed. -/
def withReturns (cs : List Char) : List Char :=
  cs.flatMap fun c => if c = '\n' then ['\r', c] else [c]

/-- The same of a string. -/
def returned (s : String) : String := .ofList (withReturns s.toList)

variable {c : Char} {cs ds : List Char}

@[simp] lemma withReturns_nil : withReturns [] = [] := rfl

@[simp] lemma withReturns_feed (cs : List Char) :
    withReturns ('\n' :: cs) = '\r' :: '\n' :: withReturns cs := rfl

lemma withReturns_cons (h : c ≠ '\n') (cs : List Char) :
    withReturns (c :: cs) = c :: withReturns cs := by
  simp [withReturns, h]

lemma withReturns_append (cs ds : List Char) :
    withReturns (cs ++ ds) = withReturns cs ++ withReturns ds := List.flatMap_append

lemma withReturns_eq_self (h : '\n' ∉ cs) : withReturns cs = cs := by
  induction cs with
  | nil => rfl
  | cons c cs ih =>
    rw [List.mem_cons, not_or] at h
    rw [withReturns_cons (Ne.symm h.1), ih h.2]

lemma feed_mem_withReturns : '\n' ∈ withReturns cs ↔ '\n' ∈ cs := by
  refine ⟨fun h => ?_, fun h => List.mem_flatMap.2 ⟨_, h, by simp⟩⟩
  by_contra none
  rw [withReturns_eq_self none] at h
  exact none h

/-- Line feeds stand behind carriage returns, but for one at the front of the text. -/
def FeedsPaired (cs : List Char) : Prop :=
  ∀ a b, cs = a ++ '\n' :: b → a = [] ∨ a.getLast? = some '\r'

lemma FeedsPaired.suffix (h : FeedsPaired (cs ++ ds)) : FeedsPaired ds := by
  rintro a b rfl
  rcases h (cs ++ a) b (by simp) with none | last
  · exact .inl (List.append_eq_nil_iff.1 none).2
  · by_cases none : a = []
    · exact .inl none
    · exact .inr (by rwa [List.getLast?_append_of_ne_nil _ none] at last)

lemma getLast?_of_withReturns {a b : List Char} (is : withReturns cs = a ++ '\n' :: b) :
    a.getLast? = some '\r' := by
  have later {c : Char} {a : List Char} (h : a.getLast? = some '\r') :
      (c :: a).getLast? = some '\r' := by
    rw [List.getLast?_cons, h]
    rfl
  induction cs generalizing a with
  | nil => nomatch (List.append_eq_nil_iff.1 is.symm).2
  | cons c cs ih =>
    rcases eq_or_ne c '\n' with rfl | other
    · rw [withReturns_feed] at is
      match a with
      | [] => nomatch (List.cons.inj is).1
      | [d] =>
        obtain ⟨rfl, -⟩ := List.cons.inj is
        rfl
      | _ :: _ :: a => exact later (later (ih (List.cons.inj (List.cons.inj is).2).2))
    · rw [withReturns_cons other] at is
      match a with
      | [] => exact absurd (List.cons.inj is).1 other
      | _ :: a => exact later (ih (List.cons.inj is).2)

lemma feedsPaired_withReturns (cs : List Char) : FeedsPaired (withReturns cs) :=
  fun _ _ is => .inr (getLast?_of_withReturns is)

end Text

open Text (withReturns withReturns_cons withReturns_append withReturns_eq_self
  feed_mem_withReturns FeedsPaired feedsPaired_withReturns)

namespace Syntax

/-! ## Strings -/

/-- A front part of a text and what follows it, both with carriage returns. -/
def Cut.withReturns (cut : Cut) : Cut := ⟨Text.withReturns cut.taken, Text.withReturns cut.rest⟩

namespace Piece

/-- A front part of a text that is a string, with carriage returns. -/
def StringCut.withReturns (s : StringCut) : StringCut := ⟨s.toCut.withReturns, s.closed⟩

lemma StringCut.push_withReturns {c : Char} (h : c ≠ '\n') (s : StringCut) :
    s.withReturns.push c = (s.push c).withReturns := by
  simp [StringCut.withReturns, StringCut.push, Cut.withReturns, Cut.push, withReturns_cons h]

lemma StringCut.push_feed (s : StringCut) :
    (s.withReturns.push '\n').push '\r' = (s.push '\n').withReturns := rfl

/-- Whether two more quotes follow a quote. -/
def beginsTriple (quote : Char) : List Char → Bool
  | second :: third :: _ => second == quote && third == quote
  | _ => false

variable {quote : Char} (quotes : isQuote quote = true)
include quotes

lemma quote_ne_feed : quote ≠ '\n' := by
  rintro rfl
  exact absurd quotes (by decide)

lemma quote_ne_return : quote ≠ '\r' := by
  rintro rfl
  exact absurd quotes (by decide)

lemma quote_ne_backslash : quote ≠ '\\' := by
  rintro rfl
  exact absurd quotes (by decide)

lemma beginsTriple_withReturns (cs : List Char) :
    beginsTriple quote (withReturns cs) = beginsTriple quote cs := by
  have noFeed : ('\n' == quote) = false := beq_false_of_ne (quote_ne_feed quotes).symm
  have noReturn : ('\r' == quote) = false := beq_false_of_ne (quote_ne_return quotes).symm
  match cs with
  | [] => rfl
  | [x] =>
    rcases eq_or_ne x '\n' with rfl | other
    · simp [beginsTriple, noReturn]
    · rw [withReturns_cons other]
      rfl
  | x :: y :: after =>
    rcases eq_or_ne x '\n' with rfl | other
    · simp [beginsTriple, noReturn, noFeed]
    rw [withReturns_cons other]
    rcases eq_or_ne y '\n' with rfl | other
    · simp [beginsTriple, noReturn, noFeed]
    · rw [withReturns_cons other]
      rfl

omit quotes in
lemma stringTail_plain {triple : Bool} {c : Char} (noEscape : ¬(c == '\\') = true)
    (inLine : ¬(isLineEnd c && !triple) = true) (other : ¬(c == quote) = true) (cs : List Char) :
    stringTail quote triple (c :: cs) = (stringTail quote triple cs).push c := by
  rw [stringTail.eq_def]
  dsimp only
  rw [if_neg noEscape, if_neg inLine, if_neg (by simp [other]), if_neg other]

omit quotes in
lemma stringTail_escape (triple : Bool) (hidden : Char) (cs : List Char) :
    stringTail quote triple ('\\' :: hidden :: cs)
      = ((stringTail quote triple cs).push hidden).push '\\' := by
  rw [stringTail.eq_def]
  rfl

/-- A quote inside a string in triple quotes. -/
lemma stringTail_quote {cs : List Char} (h : beginsTriple quote cs = false) :
    stringTail quote true (quote :: cs) = (stringTail quote true cs).push quote := by
  have noEscape : ¬(quote == '\\') = true := by simpa using quote_ne_backslash quotes
  rw [stringTail.eq_def]
  dsimp only
  rw [if_neg noEscape, if_neg (by simp), if_neg (by simp), if_pos (beq_self_eq_true quote)]
  split
  · exact if_neg (Bool.eq_false_iff.1 h)
  · rfl

/-- A string has the same end with carriage returns, unless it is in single quotes and goes on
behind a line feed. -/
theorem stringTail_withReturns {triple : Bool} {cs : List Char}
    (single : triple = true ∨ '\n' ∉ (stringTail quote triple cs).taken) :
    stringTail quote triple (withReturns cs) = (stringTail quote triple cs).withReturns := by
  have feed {triple : Bool} (is : triple = true) (cs : List Char) :
      stringTail quote triple ('\n' :: cs) = (stringTail quote triple cs).push '\n' :=
    stringTail_plain (by decide) (by simp [is]) (by simpa using (quote_ne_feed quotes).symm) cs
  have back {triple : Bool} (is : triple = true) (cs : List Char) :
      stringTail quote triple ('\r' :: cs) = (stringTail quote triple cs).push '\r' :=
    stringTail_plain (by decide) (by simp [is]) (by simpa using (quote_ne_return quotes).symm) cs
  fun_induction stringTail quote triple cs with
  | case1 => rfl
  | case2 c escape =>
    obtain rfl := eq_of_beq escape
    rfl
  | case3 c escape hidden after ih =>
    obtain rfl := eq_of_beq escape
    have later : triple = true ∨ '\n' ∉ (stringTail quote triple after).taken :=
      single.imp_right fun none mem => none (by simp [mem])
    rw [withReturns_cons (by decide)]
    rcases eq_or_ne hidden '\n' with rfl | other
    · have triples : triple = true := single.resolve_right fun none => none (by simp)
      rw [Text.withReturns_feed, stringTail_escape, feed triples, ih later,
        StringCut.push_feed, StringCut.push_withReturns (by decide)]
    · rw [withReturns_cons other, stringTail_escape, ih later, StringCut.push_withReturns other,
        StringCut.push_withReturns (by decide)]
  | case4 c cs noEscape ends =>
    have lineEnd : isLineEnd c = true := (Bool.and_eq_true_iff.1 ends).1
    have stops (d : Char) (ds : List Char) (h : isLineEnd d = true) (other : ¬(d == '\\') = true) :
        stringTail quote triple (d :: ds) = ⟨⟨[], d :: ds⟩, false⟩ := by
      rw [stringTail.eq_def]
      dsimp only
      rw [if_neg other, if_pos (by rw [h]; exact (Bool.and_eq_true_iff.1 ends).2)]
    rcases eq_of_isLineEnd lineEnd with rfl | rfl
    · rw [Text.withReturns_feed, stops _ _ (by decide) (by decide)]
      rfl
    · rw [withReturns_cons (by decide), stops _ _ (by decide) (by decide)]
      rfl
  | case5 c cs noEscape inLine ends =>
    obtain rfl := eq_of_beq (Bool.and_eq_true_iff.1 ends).1
    have other := quote_ne_feed quotes
    rw [withReturns_cons other, stringTail.eq_def]
    dsimp only
    rw [if_neg noEscape, if_neg inLine, if_pos ends]
    simp [StringCut.withReturns, Cut.withReturns, withReturns_cons other]
  | case6 c noEscape inLine inside isQuote second third after three =>
    obtain rfl := eq_of_beq isQuote
    obtain ⟨second, third⟩ := Bool.and_eq_true_iff.1 three
    obtain rfl := eq_of_beq second
    obtain rfl := eq_of_beq third
    have other := quote_ne_feed quotes
    rw [withReturns_cons other, withReturns_cons other, withReturns_cons other, stringTail.eq_def]
    dsimp only
    rw [if_neg noEscape, if_neg inLine, if_neg inside, if_pos isQuote, if_pos three]
    simp [StringCut.withReturns, Cut.withReturns, withReturns_cons other]
  | case7 c noEscape inLine inside isQuote second third after three ih =>
    obtain rfl := eq_of_beq isQuote
    have triples : triple = true := by simpa using inside
    subst triples
    have begins : beginsTriple c (second :: third :: after) = false := Bool.eq_false_iff.2 three
    rw [withReturns_cons (quote_ne_feed quotes),
      stringTail_quote quotes ((beginsTriple_withReturns quotes _).trans begins), ih (.inl rfl),
      StringCut.push_withReturns (quote_ne_feed quotes)]
  | case8 c noEscape inLine inside isQuote cs short ih =>
    obtain rfl := eq_of_beq isQuote
    have triples : triple = true := by simpa using inside
    subst triples
    have begins : beginsTriple c cs = false := by
      rcases cs with _ | ⟨second, _ | ⟨third, after⟩⟩
      · rfl
      · rfl
      · exact (short second third after rfl).elim
    rw [withReturns_cons (quote_ne_feed quotes),
      stringTail_quote quotes ((beginsTriple_withReturns quotes _).trans begins), ih (.inl rfl),
      StringCut.push_withReturns (quote_ne_feed quotes)]
  | case9 c cs noEscape inLine inside other ih =>
    have later : triple = true ∨ '\n' ∉ (stringTail quote triple cs).taken :=
      single.imp_right fun none mem => none (by simp [mem])
    rcases eq_or_ne c '\n' with rfl | plain
    · have triples : triple = true := by simpa [isLineEnd] using inLine
      rw [Text.withReturns_feed, back triples, feed triples, ih later, StringCut.push_feed]
    · rw [withReturns_cons plain, stringTail_plain noEscape inLine other, ih later,
        StringCut.push_withReturns plain]

omit quotes in
lemma stringBody_of_not {cs : List Char} (h : beginsTriple quote cs = false) :
    stringBody quote cs = stringTail quote false cs := by
  unfold stringBody
  split
  · exact if_neg (Bool.eq_false_iff.1 h)
  · rfl

omit quotes in
lemma stringBody_triple (cs : List Char) : stringBody quote (quote :: quote :: cs)
    = ((stringTail quote true cs).push quote).push quote :=
  if_pos (by simp)

omit quotes in
lemma eq_of_beginsTriple {cs : List Char} (h : beginsTriple quote cs = true) :
    ∃ after, cs = quote :: quote :: after := by
  unfold beginsTriple at h
  split at h
  next second third after =>
    obtain ⟨second, third⟩ := Bool.and_eq_true_iff.1 h
    exact ⟨after, by rw [eq_of_beq second, eq_of_beq third]⟩
  · nomatch h

/-- The end of a string in single quotes does not begin with two of them. -/
lemma beginsTriple_stringTail (cs : List Char) :
    beginsTriple quote (stringTail quote false cs).taken = false := by
  have other {c : Char} (h : c ≠ quote) (taken : List Char) :
      beginsTriple quote (c :: taken) = false := by
    cases taken with
    | nil => rfl
    | cons => simp [beginsTriple, h]
  unfold stringTail
  split
  · rfl
  split
  next c cs escape =>
    obtain rfl := eq_of_beq escape
    split <;> exact other (quote_ne_backslash quotes).symm _
  split
  · rfl
  split
  · rfl
  next _ _ _ _ notQuote =>
  split
  next isQuote => exact absurd (by simpa using isQuote) notQuote
  next notQuote => exact other (by simpa using notQuote) _

/-- A string has the same body with carriage returns, unless it is in single quotes and goes on
behind a line feed. -/
lemma stringBody_withReturns {cs : List Char}
    (single : beginsTriple quote cs = true ∨ '\n' ∉ (stringBody quote cs).taken) :
    stringBody quote (withReturns cs) = (stringBody quote cs).withReturns := by
  have other := quote_ne_feed quotes
  cases begins : beginsTriple quote cs with
  | true =>
    obtain ⟨after, rfl⟩ := eq_of_beginsTriple begins
    rw [withReturns_cons other, withReturns_cons other, stringBody_triple, stringBody_triple,
      stringTail_withReturns quotes (.inl rfl), StringCut.push_withReturns other,
      StringCut.push_withReturns other]
  | false =>
    rw [stringBody_of_not begins] at single ⊢
    rw [stringBody_of_not ((beginsTriple_withReturns quotes cs).trans begins)]
    exact stringTail_withReturns quotes (single.imp_left fun is => absurd is (by simp [begins]))

/-- Where line feeds stand behind carriage returns, no string in single quotes goes on behind one:
the carriage return is all that a backslash hides. -/
lemma feed_notMem_stringTail {cs : List Char} (paired : FeedsPaired cs) :
    '\n' ∉ (stringTail quote false cs).taken := by
  fun_induction stringTail quote false cs with
  | case1 => simp
  | case2 c escape =>
    obtain rfl := eq_of_beq escape
    decide
  | case3 c escape hidden after ih =>
    obtain rfl := eq_of_beq escape
    have later : '\n' ∉ (stringTail quote false after).taken :=
      ih (@FeedsPaired.suffix ['\\', hidden] after paired)
    have other : hidden ≠ '\n' := by
      rintro rfl
      rcases paired ['\\'] after rfl with none | last
      · cases none
      · cases Option.some.inj last
    simp [later, other.symm]
  | case4 => simp
  | case5 c cs noEscape inLine ends =>
    obtain rfl := eq_of_beq (Bool.and_eq_true_iff.1 ends).1
    simpa using (quote_ne_feed quotes).symm
  | case6 c noEscape inLine inside isQuote => exact absurd (by simpa using isQuote) inside
  | case7 c noEscape inLine inside isQuote => exact absurd (by simpa using isQuote) inside
  | case8 c noEscape inLine inside isQuote => exact absurd (by simpa using isQuote) inside
  | case9 c cs noEscape inLine inside other ih =>
    have later := ih (@FeedsPaired.suffix [c] cs paired)
    have plain : c ≠ '\n' := by
      rintro rfl
      exact inLine (by decide)
    simp [later, plain.symm]

omit quotes

/-! ## Where strings begin -/

lemma read_of_isQuote {c : Char} (h : isQuote c = true) (cs : List Char) :
    read c cs = (.string false (stringBody c cs).closed, (stringBody c cs).toCut.push c) := by
  rw [isQuote, Bool.or_eq_true, beq_iff_eq, beq_iff_eq] at h
  rcases h with rfl | rfl <;> rfl

lemma read_of_isStringPrefix {c : Char} (h : isStringPrefix c = true) (cs : List Char) :
    read c cs = match prefixedString? c cs with
      | some found => found
      | none => (.word, (Cut.spanning Text.isWordChar cs).push c) := by
  simp only [isStringPrefix, Bool.or_eq_true, beq_iff_eq, or_assoc] at h
  rcases h with rfl | rfl | rfl | rfl | rfl | rfl | rfl | rfl <;> rfl

lemma isQuote_of_isStringPrefix {c : Char} (h : isStringPrefix c = true) : isQuote c = false := by
  simp only [isStringPrefix, Bool.or_eq_true, beq_iff_eq, or_assoc] at h
  rcases h with rfl | rfl | rfl | rfl | rfl | rfl | rfl | rfl <;> rfl

/-- A string at the front of a text: the letters before its first quote, the quote, and what is read
as its body, which alone depends on what follows. -/
structure Opens (opening : List Char) (quote : Char) (formatted : Bool) : Prop where
  isQuote : isQuote quote = true
  letters : ∀ c ∈ opening, isStringPrefix c = true
  reads : ∀ body c cs, c :: cs = opening ++ quote :: body →
    read c cs = (.string formatted (stringBody quote body).closed,
      ⟨opening ++ quote :: (stringBody quote body).taken, (stringBody quote body).rest⟩)

variable {c second quote : Char}

lemma Opens.plain (quotes : Piece.isQuote quote = true) : Opens [] quote false := by
  refine ⟨quotes, nofun, fun body c cs is => ?_⟩
  obtain ⟨rfl, rfl⟩ := List.cons.inj is
  exact read_of_isQuote quotes _

lemma Opens.letter (letter : isStringPrefix c = true) (quotes : Piece.isQuote quote = true) :
    Opens [c] quote (isFormatPrefix c) := by
  refine ⟨quotes, List.forall_mem_singleton.2 letter, fun body c' cs is => ?_⟩
  obtain ⟨rfl, tail⟩ := List.cons.inj is
  obtain rfl : cs = quote :: body := tail
  rw [read_of_isStringPrefix letter]
  simp only [prefixedString?, letter, quotes]
  rfl

lemma Opens.letters₂ (letter : isStringPrefix c = true) (letter' : isStringPrefix second = true)
    (quotes : Piece.isQuote quote = true) :
    Opens [c, second] quote (isFormatPrefix c || isFormatPrefix second) := by
  refine ⟨quotes, by simp [letter, letter'], fun body c' cs is => ?_⟩
  obtain ⟨rfl, tail⟩ := List.cons.inj is
  obtain rfl : cs = second :: quote :: body := tail
  rw [read_of_isStringPrefix letter]
  simp only [prefixedString?, letter, letter', quotes, isQuote_of_isStringPrefix letter']
  rfl

/-- What is read as a string opens as one. -/
theorem opens_of_read {cs : List Char} {formatted closed : Bool}
    (is : (read c cs).1 = .string formatted closed) :
    ∃ opening quote body, c :: cs = opening ++ quote :: body ∧ Opens opening quote formatted := by
  by_cases quotes : Piece.isQuote c = true
  · rw [read_of_isQuote quotes] at is
    obtain ⟨rfl, -⟩ := Piece.string.inj is
    exact ⟨[], c, cs, rfl, .plain quotes⟩
  by_cases letter : isStringPrefix c = true
  · rw [read_of_isStringPrefix letter] at is
    unfold prefixedString? at is
    cases cs with
    | nil => cases is
    | cons second after =>
      dsimp only at is
      rw [if_neg (by simp [letter])] at is
      by_cases quotes : Piece.isQuote second = true
      · rw [if_pos quotes] at is
        obtain ⟨rfl, -⟩ := Piece.string.inj is
        exact ⟨[c], second, after, rfl, .letter letter quotes⟩
      rw [if_neg quotes] at is
      by_cases letter' : isStringPrefix second = true
      · rw [if_pos letter'] at is
        cases after with
        | nil => cases is
        | cons third inside =>
          dsimp only at is
          by_cases quotes : Piece.isQuote third = true
          · rw [if_pos quotes] at is
            obtain ⟨rfl, -⟩ := Piece.string.inj is
            exact ⟨[c, second], third, inside, rfl, .letters₂ letter letter' quotes⟩
          · rw [if_neg quotes] at is
            cases is
      · rw [if_neg letter'] at is
        cases is
  · -- nothing else begins a string
    have none : prefixedString? c cs = none := by
      unfold prefixedString?
      split
      · rfl
      · exact if_pos (by simpa using letter)
    unfold read at is
    split at is
    · cases is
    split at is
    · cases is
    split at is
    · cases is
    split at is
    · split at is
      · split at is <;> cases is
      · cases is
    split at is
    · cases is
    split at is
    · rw [none] at is
      cases is
    · split at is <;> cases is

end Piece

/-! ## Tokens in single quotes -/

/-- Whether the text of a token is a string in triple quotes. -/
def isTripleQuoted (cs : List Char) : Bool :=
  match cs.dropWhile Piece.isStringPrefix with
  | quote :: body => Piece.isQuote quote && Piece.beginsTriple quote body
  | [] => false

/-- A string in single quotes that goes on behind a line feed, which a backslash has hidden. -/
def GoesOn (cs : List Char) : Prop := '\n' ∈ cs ∧ isTripleQuoted cs = false

instance (cs : List Char) : Decidable (GoesOn cs) := inferInstanceAs (Decidable (_ ∧ _))

namespace Piece

variable {opening body : List Char} {quote : Char} {formatted : Bool}

lemma Opens.isTripleQuoted (h : Opens opening quote formatted) (body : List Char) :
    isTripleQuoted (opening ++ quote :: body) = beginsTriple quote body := by
  have stops : isStringPrefix quote = false := by
    by_contra letter
    have other := isQuote_of_isStringPrefix (by simpa using letter)
    rw [h.isQuote] at other
    nomatch other
  have rest : (opening ++ quote :: body).dropWhile isStringPrefix = quote :: body := by
    rw [List.dropWhile_append_of_pos h.letters, List.dropWhile_cons_of_neg (by simp [stops])]
  rw [Syntax.isTripleQuoted, rest]
  simp [h.isQuote]

lemma Opens.feed_notMem (h : Opens opening quote formatted) : '\n' ∉ opening := fun mem =>
  absurd (h.letters _ mem) (by decide)

/-- The body of a string that does not go on behind a line feed. -/
lemma Opens.single (h : Opens opening quote formatted)
    (stays : ¬GoesOn (opening ++ quote :: (stringBody quote body).taken)) :
    beginsTriple quote body = true ∨ '\n' ∉ (stringBody quote body).taken := by
  cases begins : beginsTriple quote body with
  | true => exact .inl rfl
  | false =>
    refine .inr fun mem => stays ⟨by simp [mem], ?_⟩
    rw [h.isTripleQuoted, stringBody_of_not begins]
    exact beginsTriple_stringTail h.isQuote body

/-- A string is read in the same way with carriage returns. -/
lemma Opens.read_withReturns (h : Opens opening quote formatted)
    (stays : ¬GoesOn (opening ++ quote :: (stringBody quote body).taken)) {c : Char}
    {cs : List Char} (is : c :: cs = withReturns (opening ++ quote :: body)) :
    read c cs = (.string formatted (stringBody quote body).closed,
      (⟨opening ++ quote :: (stringBody quote body).taken, (stringBody quote body).rest⟩ :
        Cut).withReturns) := by
  have other := quote_ne_feed h.isQuote
  have plain (body : List Char) :
      withReturns (opening ++ quote :: body) = opening ++ quote :: withReturns body := by
    rw [withReturns_append, withReturns_eq_self h.feed_notMem, withReturns_cons other]
  rw [h.reads (withReturns body) c cs (is.trans (plain body)),
    stringBody_withReturns h.isQuote (h.single stays), Cut.withReturns, plain]
  rfl

/-- Pieces other than strings, and not what is passed over, end in front of a line end. -/
lemma not_isLineEnd_of_solid {c : Char} {cs : List Char} (solid : isSkipped c = false)
    (other : ∀ f closed, (read c cs).1 ≠ .string f closed) :
    ∀ d ∈ (read c cs).2.taken, isLineEnd d = false := by
  have inLine {front : List Char} (all : ∀ d ∈ front, isLineEnd d = false) :
      ∀ d ∈ (read c front).2.taken, isLineEnd d = false := by
    intro d hd
    have among : d ∈ c :: front := by
      rw [← read_taken_append_rest c front]
      exact List.mem_append_left _ hd
    rcases List.mem_cons.1 among with rfl | among
    · exact Bool.eq_false_iff.2 (isSkipped_eq_false solid).2.1
    · exact all d among
  have front : ∀ d ∈ cs.takeWhile (!isLineEnd ·), isLineEnd d = false :=
    fun d hd => by simpa using List.mem_takeWhile_imp hd
  have whole := List.takeWhile_append_dropWhile (p := (!isLineEnd ·)) (l := cs)
  cases shape : cs.dropWhile (!isLineEnd ·) with
  | nil =>
    rw [shape, List.append_nil] at whole
    rw [whole] at front
    exact inLine front
  | cons e more =>
    have ends : isLineEnd e = true := by
      simpa [shape] using List.head?_dropWhile_not (!isLineEnd ·) cs
    rw [shape] at whole
    have notOpen : ∀ f, (read c (cs.takeWhile (!isLineEnd ·))).1 ≠ .string f false :=
      fun f isOpen => by
        obtain ⟨closed, is, -⟩ := read_open ends more isOpen
        exact other f closed (whole ▸ is)
    rw [← whole, read_extend ends more solid notOpen]
    exact inLine front

/-- Pieces other than strings, and not what is passed over, are the same with carriage returns. -/
lemma read_withReturns_of_solid {c : Char} {cs : List Char} (solid : isSkipped c = false)
    (other : ∀ f closed, (read c cs).1 ≠ .string f closed) :
    read c (withReturns cs) = ((read c cs).1, (read c cs).2.withReturns) := by
  have first : c ≠ '\n' := by
    rintro rfl
    nomatch solid
  have unfed {front : List Char} (noFeed : '\n' ∉ front) :
      '\n' ∉ (read c front).2.taken ∧ '\n' ∉ (read c front).2.rest := by
    have whole := read_taken_append_rest c front
    rw [← not_or, ← List.mem_append, whole]
    simp [first.symm, noFeed]
  by_cases feed : '\n' ∈ cs
  · obtain ⟨front, more, rfl, noFeed⟩ := List.eq_append_cons_of_mem feed
    obtain ⟨taken, rest⟩ := unfed noFeed
    have notOpen : ∀ f, (read c front).1 ≠ .string f false := fun f isOpen => by
      obtain ⟨closed, is, -⟩ := read_open (d := '\n') (by decide) more isOpen
      exact other f closed is
    have here := read_extend (d := '\n') (by decide) more solid notOpen
    have there := read_extend (d := '\r') (by decide) ('\n' :: withReturns more) solid notOpen
    rw [here, withReturns_append, withReturns_eq_self noFeed, Text.withReturns_feed, there]
    simp [Cut.withReturns, Cut.extend, withReturns_append, withReturns_eq_self taken,
      withReturns_eq_self rest]
  · obtain ⟨taken, rest⟩ := unfed feed
    rw [withReturns_eq_self feed, Cut.withReturns, withReturns_eq_self taken,
      withReturns_eq_self rest]

/-- A line end is in a piece only where a line ends or a string goes on. -/
lemma lineEnd_mem_taken {c d : Char} {cs : List Char} (ends : isLineEnd d = true)
    (mem : d ∈ (read c cs).2.taken) :
    (read c cs).1 = .lineBreak ∨ (read c cs).1 = .joint
      ∨ ∃ f closed, (read c cs).1 = .string f closed := by
  cases skipped : isSkipped c with
  | false =>
    refine .inr (.inr ?_)
    by_contra other
    push Not at other
    rw [not_isLineEnd_of_solid skipped other d mem] at ends
    cases ends
  | true =>
    rw [isSkipped, Bool.or_eq_true, Bool.or_eq_true, beq_iff_eq] at skipped
    rcases skipped with (blank | lineEnd) | rfl
    · rw [read_of_isBlank blank] at mem
      obtain rfl := List.mem_singleton.1 mem
      rcases eq_of_isLineEnd ends with rfl | rfl <;> cases blank
    · rcases eq_of_isLineEnd lineEnd with rfl | rfl <;> exact .inl rfl
    · cases cs with
      | nil =>
        obtain rfl := List.mem_singleton.1 mem
        cases ends
      | cons e es =>
        by_cases lineEnd : isLineEnd e = true
        · exact .inr (.inl (congrArg Prod.fst (read_joint lineEnd es)))
        · rw [read_strayBackslash lineEnd] at mem
          obtain rfl := List.mem_singleton.1 mem
          cases ends

/-- What is passed over is passed over with carriage returns as well. -/
lemma read_withReturns_of_skipped {c : Char} {cs : List Char} (noReturn : '\r' ∉ c :: cs)
    (skipped : isSkipped c = true) {d : Char} {ds : List Char}
    (is : d :: ds = withReturns (c :: cs)) :
    read d ds = ((read c cs).1, (read c cs).2.withReturns) := by
  rw [List.mem_cons, not_or] at noReturn
  rw [isSkipped, Bool.or_eq_true, Bool.or_eq_true, beq_iff_eq] at skipped
  rcases skipped with (blank | lineEnd) | rfl
  · have other : c ≠ '\n' := by
      rintro rfl
      cases blank
    rw [withReturns_cons other] at is
    obtain ⟨rfl, rfl⟩ := List.cons.inj is
    rw [read_of_isBlank blank, read_of_isBlank blank]
    simp [Cut.withReturns, withReturns_cons other]
  · obtain rfl := (eq_of_isLineEnd lineEnd).resolve_right (Ne.symm noReturn.1)
    obtain ⟨rfl, rfl⟩ := List.cons.inj is
    rw [read_of_isLineEnd lineEnd, afterBreak_feed_eq]
    rfl
  · rw [withReturns_cons (by decide)] at is
    obtain ⟨rfl, rfl⟩ := List.cons.inj is
    cases cs with
    | nil => rfl
    | cons d ds =>
      by_cases lineEnd : isLineEnd d = true
      · have notReturn : d ≠ '\r' := fun is => noReturn.2 (is ▸ List.mem_cons_self)
        obtain rfl := (eq_of_isLineEnd lineEnd).resolve_right notReturn
        rw [read_joint lineEnd, afterBreak_feed_eq]
        rfl
      · have other : d ≠ '\n' := by
          rintro rfl
          exact lineEnd (by decide)
        rw [withReturns_cons other, read_strayBackslash lineEnd, read_strayBackslash lineEnd]
        exact congrArg (fun rest => (strayBackslash, (⟨['\\'], rest⟩ : Cut)))
          (withReturns_cons other ds).symm

/-- A piece is read in the same way with carriage returns, unless it is a string in single quotes
that goes on behind a line feed. -/
theorem read_withReturns {c : Char} {cs : List Char} (noReturn : '\r' ∉ c :: cs)
    (stays : ∀ f closed, (read c cs).1 = .string f closed → ¬GoesOn (read c cs).2.taken) {d : Char}
    {ds : List Char} (is : d :: ds = withReturns (c :: cs)) :
    read d ds = ((read c cs).1, (read c cs).2.withReturns) := by
  cases skipped : isSkipped c with
  | true => exact read_withReturns_of_skipped noReturn skipped is
  | false =>
    by_cases string : ∃ f closed, (read c cs).1 = .string f closed
    · obtain ⟨f, closed, known⟩ := string
      have inline := stays f closed known
      obtain ⟨opening, quote, body, whole, opens⟩ := opens_of_read known
      have here := opens.reads body c cs whole
      rw [here] at inline ⊢
      exact opens.read_withReturns inline (whole ▸ is)
    · have first : c ≠ '\n' := by
        rintro rfl
        nomatch skipped
      rw [withReturns_cons first] at is
      obtain ⟨rfl, rfl⟩ := List.cons.inj is
      exact read_withReturns_of_solid skipped fun f closed known => string ⟨f, closed, known⟩

end Piece

/-! ## Results with carriage returns -/

/-- What a second result tells of a text with carriage returns is what a first one tells of the text
without them: the kinds of the tokens, their texts, which may have carriage returns in them, and
what is wrong. -/
structure Lexed.Returned (a b : Lexed) : Prop where
  tokens : b.tokens.map (fun t => (t.kind, t.text))
    = a.tokens.map fun t => (t.kind, Text.returned t.text)
  messages : b.problems.map (·.message) = a.problems.map (·.message)

/-- The same of one step, with the same layout after it. -/
structure Step.Returned (a b : Step) : Prop where
  lexed : Lexed.Returned ⟨a.tokens, a.problems⟩ ⟨b.tokens, b.problems⟩
  next : b.next = a.next

/-- Texts that are read on from two such steps. -/
lemma Step.Returned.cons {a b : Step} {stop stop' : ℕ} {cs cs' : List Char} (h : a.Returned b)
    (rest : (lexFrom a.next stop cs).Returned (lexFrom a.next stop' cs')) :
    ((lexFrom a.next stop cs).cons a.tokens a.problems).Returned
      ((lexFrom b.next stop' cs').cons b.tokens b.problems) := by
  have tokens := h.lexed.tokens
  have messages := h.lexed.messages
  dsimp only at tokens messages
  rw [h.next]
  refine ⟨?_, ?_⟩
  · rw [Lexed.cons, Lexed.cons, List.map_append, List.map_append, tokens, rest.tokens]
  · rw [Lexed.cons, Lexed.cons, List.map_append, List.map_append, messages, rest.messages]

lemma returned_ofList (cs : List Char) :
    Text.returned (String.ofList cs) = String.ofList (withReturns cs) := by
  rw [Text.returned, String.toList_ofList]

lemma closing_returned (layout : Layout) (offset offset' : ℕ) :
    Lexed.Returned ⟨closing layout offset, []⟩ ⟨closing layout offset', []⟩ := by
  refine ⟨?_, rfl⟩
  unfold closing
  simp only [List.map_append, List.map_cons, List.map_nil]
  congr 2
  · split <;> rfl
  · split
    · simp only [List.map_map]
      rfl
    · rfl

lemma relevel_returned (layout : Layout) (columns : ℕ) (blanks blanks' : Span) :
    (relevel layout columns blanks).Returned (relevel layout columns blanks') := by
  unfold relevel
  split
  · exact ⟨⟨rfl, rfl⟩, rfl⟩
  split
  · refine ⟨⟨?_, ?_⟩, rfl⟩
    · simp only [List.map_map]
      rfl
    · dsimp only
      split <;> rfl
  · exact ⟨⟨rfl, rfl⟩, rfl⟩

/-- A piece with carriage returns in it contributes the same. -/
lemma contribution_returned (layout : Layout) {piece : Piece} {taken : List Char}
    (feeds : '\n' ∈ taken → piece = .lineBreak ∨ piece = .joint
      ∨ ∃ f closed, piece = .string f closed) (span span' : Span) :
    (contribution layout piece taken span).Returned
      (contribution layout piece (withReturns taken) span') := by
  have plain (other : ¬(piece = .lineBreak ∨ piece = .joint
      ∨ ∃ f closed, piece = .string f closed)) : withReturns taken = taken :=
    withReturns_eq_self fun mem => other (feeds mem)
  cases piece with
  | blank | comment | joint | strayBackslash => exact ⟨⟨rfl, rfl⟩, rfl⟩
  | lineBreak =>
    unfold contribution
    dsimp only
    split
    · split <;> exact ⟨⟨rfl, rfl⟩, rfl⟩
    · exact ⟨⟨rfl, rfl⟩, rfl⟩
  | number | symbol =>
    refine ⟨⟨?_, rfl⟩, rfl⟩
    simp [contribution, returned_ofList]
  | string formatted closed =>
    refine ⟨⟨?_, ?_⟩, rfl⟩
    · simp [contribution, returned_ofList]
    · dsimp only [contribution]
      split <;> rfl
  | word | unknown =>
    have same := plain (by simp)
    refine ⟨⟨?_, ?_⟩, rfl⟩
    · simp [contribution, returned_ofList, same]
    · simp [contribution, Problem.message, same]

/-! ## Reading with carriage returns -/

lemma Cut.spanning_withReturns {p : Char → Bool} (feed : p '\n' = false) (back : p '\r' = false)
    (cs : List Char) : Cut.spanning p (Text.withReturns cs) = (Cut.spanning p cs).withReturns := by
  induction cs with
  | nil => rfl
  | cons c cs ih =>
    rcases eq_or_ne c '\n' with rfl | other
    · simp [Cut.spanning, Cut.withReturns, feed, back]
    rw [withReturns_cons other]
    simp only [Cut.spanning, Cut.withReturns, Cut.mk.injEq] at ih ⊢
    by_cases taken : p c = true
    · simp [taken, withReturns_cons other, ih]
    · simp [taken, withReturns_cons other]

/-- A line without tokens ends in the same way. -/
lemma emptyLine_withReturns {c : Char} {cs : List Char} (noReturn : '\r' ∉ c :: cs)
    (begins : beginsEmptyLine c = true) {d : Char} {ds : List Char}
    (is : d :: ds = withReturns (c :: cs)) : emptyLine d ds = (emptyLine c cs).withReturns := by
  rw [List.mem_cons, not_or] at noReturn
  rw [beginsEmptyLine, Bool.or_eq_true, beq_iff_eq] at begins
  rcases begins with rfl | lineEnd
  · rw [withReturns_cons (by decide)] at is
    obtain ⟨rfl, rfl⟩ := List.cons.inj is
    have comment := Cut.spanning_withReturns (p := (!isLineEnd ·)) (by decide) (by decide) cs
    have whole := Cut.spanning_append (!isLineEnd ·) cs
    have unfed : '\n' ∉ (Cut.spanning (!isLineEnd ·) cs).taken := fun mem => by
      have inLine := List.mem_takeWhile_imp mem
      nomatch inLine
    unfold emptyLine
    rw [if_pos (by decide), if_pos (by decide), comment]
    cases shape : (Cut.spanning (!isLineEnd ·) cs).rest with
    | nil => simp [Cut.withReturns, shape, withReturns_cons]
    | cons e es =>
      have stops : isLineEnd e = true := by
        have first := List.head?_dropWhile_not (!isLineEnd ·) cs
        have head : (cs.dropWhile (!isLineEnd ·)).head? = some e :=
          congrArg List.head? shape
        rw [head] at first
        simpa using first
      have other : e ≠ '\r' := by
        rintro rfl
        refine noReturn.2 ?_
        rw [← whole, shape]
        simp
      obtain rfl := (eq_of_isLineEnd stops).resolve_right other
      simp only [Cut.withReturns, shape, Text.withReturns_feed, Piece.afterBreak_feed_eq]
      simp [Piece.afterBreak, withReturns_cons, withReturns_append, withReturns_eq_self unfed]
  · obtain rfl := (eq_of_isLineEnd lineEnd).resolve_right (Ne.symm noReturn.1)
    obtain ⟨rfl, rfl⟩ := List.cons.inj is
    have here : emptyLine '\n' cs = (Piece.afterBreak '\n' cs).push '\n' := rfl
    rw [here, Piece.afterBreak_feed_eq]
    rfl

/-! ### Reading both texts -/

lemma exists_withReturns_cons (c : Char) (cs : List Char) :
    ∃ d ds, d :: ds = withReturns (c :: cs) := by
  rcases eq_or_ne c '\n' with rfl | other
  · exact ⟨_, _, rfl⟩
  · exact ⟨c, withReturns cs, (withReturns_cons other cs).symm⟩

lemma beginsEmptyLine_withReturns {c d : Char} {cs ds : List Char}
    (is : d :: ds = withReturns (c :: cs)) : beginsEmptyLine d = beginsEmptyLine c := by
  rcases eq_or_ne c '\n' with rfl | other
  · obtain ⟨rfl, -⟩ := List.cons.inj is
    rfl
  · rw [withReturns_cons other] at is
    obtain ⟨rfl, -⟩ := List.cons.inj is
    rfl

/-- The tokens and the messages of a text do not depend on carriage returns in front of its line
feeds, if no string in single quotes goes on behind a line feed. -/
theorem lexFrom_withReturns {layout : Layout} {offset : ℕ} {cs : List Char} (noReturn : '\r' ∉ cs)
    (stays : ∀ t ∈ (lexFrom layout offset cs).tokens, ¬GoesOn t.text.toList) (offset' : ℕ) :
    (lexFrom layout offset cs).Returned (lexFrom layout offset' (withReturns cs)) := by
  fun_induction lexFrom layout offset cs generalizing offset' with
  | case1 layout offset =>
    rw [Text.withReturns_nil, lexFrom]
    exact closing_returned _ _ _
  | case2 layout offset c rest begins blanks first shape =>
    obtain ⟨d, ds, is⟩ := exists_withReturns_cons c rest
    have spans := Cut.spanning_withReturns (p := isBlank) (by decide) (by decide) (c :: rest)
    rw [← is] at spans ⊢
    rw [lexFrom_blank offset' begins (by rw [spans, Cut.withReturns, shape]; rfl)]
    exact closing_returned _ _ _
  | case3 layout offset c rest begins blanks first e es shape empty line =>
    next ih =>
    obtain ⟨d, ds, is⟩ := exists_withReturns_cons c rest
    obtain ⟨d', ds', is'⟩ := exists_withReturns_cons e es
    have spans := Cut.spanning_withReturns (p := isBlank) (by decide) (by decide) (c :: rest)
    have whole : blanks.taken ++ (line.taken ++ line.rest) = c :: rest := by
      rw [emptyLine_append, ← shape]
      exact Cut.spanning_append isBlank (c :: rest)
    rw [← whole, List.mem_append, List.mem_append] at noReturn
    rw [← is] at spans ⊢
    have shape' : (Cut.spanning isBlank (d :: ds)).rest = d' :: ds' := by
      rw [spans, Cut.withReturns, shape, is']
    have ends : '\r' ∉ e :: es := by
      rw [← emptyLine_append, List.mem_append]
      exact fun mem => noReturn (.inr mem)
    rw [lexFrom_emptyLine offset' begins shape' ((beginsEmptyLine_withReturns is').trans empty),
      emptyLine_withReturns ends empty is']
    exact ih (fun mem => noReturn (.inr (.inr mem))) stays _
  | case4 layout offset c rest begins blanks first e es shape some step =>
    next ih =>
    obtain ⟨d, ds, is⟩ := exists_withReturns_cons c rest
    obtain ⟨d', ds', is'⟩ := exists_withReturns_cons e es
    have spans := Cut.spanning_withReturns (p := isBlank) (by decide) (by decide) (c :: rest)
    have whole : blanks.taken ++ e :: es = c :: rest := by
      rw [← shape]
      exact Cut.spanning_append isBlank (c :: rest)
    have unfed : '\n' ∉ blanks.taken := fun mem => by cases List.mem_takeWhile_imp mem
    rw [← whole, List.mem_append] at noReturn
    rw [← is] at spans ⊢
    have shape' : (Cut.spanning isBlank (d :: ds)).rest = d' :: ds' := by
      rw [spans, Cut.withReturns, shape, is']
    rw [lexFrom_level offset' begins shape' (by rw [beginsEmptyLine_withReturns is']; exact some),
      spans, Cut.withReturns, withReturns_eq_self unfed, is']
    have layouts := relevel_returned layout (indentationWidth blanks.taken) ⟨offset, first⟩
      ⟨offset', offset' + Text.width blanks.taken⟩
    exact layouts.cons (ih (fun mem => noReturn (.inr mem))
      (fun t ht => stays t (List.mem_append_right _ ht)) _)
  | case5 layout offset c rest inside found stop step =>
    next ih =>
    obtain ⟨d, ds, is⟩ := exists_withReturns_cons c rest
    have whole : found.2.taken ++ found.2.rest = c :: rest := Piece.read_taken_append_rest c rest
    have string : ∀ f closed, found.1 = .string f closed → ¬GoesOn found.2.taken := by
      intro f closed is
      have token : (⟨if f then .fstring else .string, String.ofList found.2.taken,
          ⟨offset, stop⟩⟩ : Token) ∈ step.tokens := by
        dsimp only [step]
        rw [is]
        exact List.mem_cons_self
      have inLine := stays _ (List.mem_append_left _ token)
      rwa [String.toList_ofList] at inLine
    have piece := Piece.read_withReturns noReturn string is
    rw [← whole, List.mem_append] at noReturn
    rw [← is, lexFrom_inLine offset' inside, piece]
    have feeds : '\n' ∈ found.2.taken → found.1 = .lineBreak ∨ found.1 = .joint
        ∨ ∃ f closed, found.1 = .string f closed := Piece.lineEnd_mem_taken (by decide)
    have contributes := contribution_returned layout feeds ⟨offset, stop⟩
      ⟨offset', offset' + Text.width (withReturns found.2.taken)⟩
    exact contributes.cons (ih (fun mem => noReturn (.inr mem))
      (fun t ht => stays t (List.mem_append_right _ ht)) _)

/-! ## Strings that go on -/

/-- A token without text, or with the text of a piece in which a line feed is in a string. -/
def Token.ReadIn (cs : List Char) (t : Token) : Prop :=
  t.text = "" ∨ ∃ before c after, cs = before ++ c :: after
    ∧ t.text = String.ofList (Piece.read c after).2.taken
    ∧ (Piece.read c after).1 ≠ .lineBreak ∧ (Piece.read c after).1 ≠ .joint

lemma Token.ReadIn.append {cs : List Char} {t : Token} (h : t.ReadIn cs) (front : List Char) :
    t.ReadIn (front ++ cs) := by
  refine h.imp_right ?_
  rintro ⟨before, c, after, rfl, read⟩
  exact ⟨front ++ before, c, after, (List.append_assoc _ _ _).symm, read⟩

lemma contribution_text {layout : Layout} {piece : Piece} {taken : List Char} {span : Span}
    {t : Token} (ht : t ∈ (contribution layout piece taken span).tokens) :
    t.text = "" ∨ (t.text = String.ofList taken ∧ piece ≠ .lineBreak ∧ piece ≠ .joint) := by
  cases piece with
  | blank | comment | joint | strayBackslash => nomatch ht
  | lineBreak =>
    unfold contribution at ht
    dsimp only at ht
    split at ht
    · split at ht
      · obtain rfl := List.mem_singleton.1 ht
        exact .inl rfl
      · nomatch ht
    · nomatch ht
  | number | string | word | symbol | unknown =>
    obtain rfl := List.mem_singleton.1 ht
    exact .inr ⟨rfl, nofun, nofun⟩

lemma relevel_text {layout : Layout} {columns : ℕ} {blanks : Span} {t : Token}
    (ht : t ∈ (relevel layout columns blanks).tokens) : t.text = "" := by
  unfold relevel at ht
  split at ht
  · obtain rfl := List.mem_singleton.1 ht
    rfl
  split at ht
  · obtain ⟨_, -, rfl⟩ := List.mem_map.1 ht
    rfl
  · nomatch ht

/-- Every token of a text is read somewhere in it. -/
lemma lexFrom_readIn {layout : Layout} {offset : ℕ} {cs : List Char} :
    ∀ t ∈ (lexFrom layout offset cs).tokens, t.ReadIn cs := by
  fun_induction lexFrom layout offset cs with
  | case1 => exact fun t ht => .inl (closing_points ht).2.1
  | case2 => exact fun t ht => .inl (closing_points ht).2.1
  | case3 layout offset c rest begins blanks first d ds shape empty line =>
    next ih =>
    have whole : (blanks.taken ++ line.taken) ++ line.rest = c :: rest := by
      rw [List.append_assoc, emptyLine_append, ← shape]
      exact Cut.spanning_append isBlank (c :: rest)
    exact fun t ht => whole ▸ (ih t ht).append _
  | case4 layout offset c rest begins blanks first d ds shape some step =>
    next ih =>
    have whole : blanks.taken ++ d :: ds = c :: rest := by
      rw [← shape]
      exact Cut.spanning_append isBlank (c :: rest)
    intro t ht
    rcases List.mem_append.1 ht with level | later
    · exact .inl (relevel_text level)
    · exact whole ▸ (ih t later).append _
  | case5 layout offset c rest inside found stop step =>
    next ih =>
    have whole : found.2.taken ++ found.2.rest = c :: rest := Piece.read_taken_append_rest c rest
    intro t ht
    rcases List.mem_append.1 ht with here | later
    · exact (contribution_text here).imp_right fun is => ⟨[], c, rest, rfl, is⟩
    · exact whole ▸ (ih t later).append _

/-- Where line feeds stand behind carriage returns, no string in single quotes goes on behind a line
feed. -/
lemma not_goesOn_of_paired {cs : List Char} (paired : FeedsPaired cs) {t : Token}
    (read : t.ReadIn cs) : ¬GoesOn t.text.toList := by
  rcases read with none | ⟨before, c, after, rfl, text, notBreak, notJoint⟩
  · rw [none]
    exact fun on => nomatch on.1
  rw [text, String.toList_ofList]
  rintro ⟨feed, single⟩
  obtain ⟨f, closed, string⟩ :=
    ((Piece.lineEnd_mem_taken (by decide) feed).resolve_left notBreak).resolve_left notJoint
  obtain ⟨opening, quote, body, whole, opens⟩ := Piece.opens_of_read string
  have bodyPaired : FeedsPaired body := by
    refine @FeedsPaired.suffix (before ++ (opening ++ [quote])) body ?_
    rw [whole] at paired
    simpa using paired
  rw [opens.reads body c after whole] at feed single
  have front := opens.feed_notMem
  have other := Piece.quote_ne_feed opens.isQuote
  cases begins : Piece.beginsTriple quote body with
  | true =>
    obtain ⟨inside, rfl⟩ := Piece.eq_of_beginsTriple begins
    rw [opens.isTripleQuoted, Piece.stringBody_triple] at single
    simp [Piece.beginsTriple] at single
  | false =>
    rw [Piece.stringBody_of_not begins] at feed
    have inBody := Piece.feed_notMem_stringTail opens.isQuote bodyPaired
    simp [front, other.symm, inBody] at feed

lemma isTripleQuoted_withReturns (cs : List Char) :
    isTripleQuoted (withReturns cs) = isTripleQuoted cs := by
  induction cs with
  | nil => rfl
  | cons c cs ih =>
    rcases eq_or_ne c '\n' with rfl | other
    · rfl
    rw [withReturns_cons other]
    by_cases letter : Piece.isStringPrefix c = true
    · have skip (cs : List Char) : isTripleQuoted (c :: cs) = isTripleQuoted cs := by
        rw [isTripleQuoted, List.dropWhile_cons_of_pos letter, isTripleQuoted]
      rw [skip, skip, ih]
    · have stop (cs : List Char) :
          isTripleQuoted (c :: cs) = (Piece.isQuote c && Piece.beginsTriple c cs) := by
        rw [isTripleQuoted, List.dropWhile_cons_of_neg letter]
      rw [stop, stop]
      cases quotes : Piece.isQuote c with
      | true => rw [Piece.beginsTriple_withReturns quotes]
      | false => rfl

lemma GoesOn.withReturns {cs : List Char} (h : GoesOn cs) : GoesOn (withReturns cs) :=
  ⟨feed_mem_withReturns.2 h.1, (isTripleQuoted_withReturns cs).trans h.2⟩

/-- **Line endings.** A text without carriage returns has the same tokens, with the same texts up to
carriage returns, and the same messages when a carriage return is put in front of each of its line
feeds, if and only if none of its strings in single quotes goes on behind a line feed. -/
theorem lex_returned_iff {text : String} (noReturn : '\r' ∉ text.toList) :
    (lex text).Returned (lex (Text.returned text))
      ↔ ∀ t ∈ (lex text).tokens, ¬GoesOn t.text.toList := by
  have is : lex (Text.returned text) = lexFrom .module 0 (withReturns text.toList) := by
    rw [lex, Text.returned, String.toList_ofList]
  rw [is]
  refine ⟨fun same t ht on => ?_, fun stays => lexFrom_withReturns noReturn stays 0⟩
  have told : (t.kind, Text.returned t.text)
      ∈ (lexFrom .module 0 (withReturns text.toList)).tokens.map fun t => (t.kind, t.text) := by
    rw [same.tokens]
    exact List.mem_map_of_mem ht
  obtain ⟨u, hu, pair⟩ := List.mem_map.1 told
  have texts : u.text = Text.returned t.text := (Prod.mk.inj pair).2
  refine not_goesOn_of_paired (feedsPaired_withReturns _) (lexFrom_readIn u hu) ?_
  rw [texts, Text.returned, String.toList_ofList]
  exact on.withReturns

set_option maxRecDepth 100000 in
/-- A string in triple quotes, on two lines. -/
theorem lines_in_triple_quotes :
    let text := "x = '''\n'''\n"
    '\r' ∉ text.toList ∧ (lex text).Returned (lex (Text.returned text)) := by
  intro text
  have noReturn : '\r' ∉ text.toList := by decide
  have texts : (lex text).tokens.map (·.text) = ["x", "=", "'''\n'''", "", ""] := by
    unfold text
    cbv
  have stay : ∀ t ∈ ["x", "=", "'''\n'''", "", ""], ¬GoesOn t.toList := by decide
  refine ⟨noReturn, (lex_returned_iff noReturn).2 fun t ht => stay t.text ?_⟩
  rw [← texts]
  exact List.mem_map_of_mem ht

set_option maxRecDepth 100000 in
/-- A backslash hides a line feed from a string in single quotes. With a carriage return in front of
the line feed it hides the carriage return, and the string ends in front of the line feed. -/
theorem hidden_feed_unterminated :
    let text := "'\\\n'\n"
    '\r' ∉ text.toList ∧ (lex text).problems.isEmpty = true
      ∧ (lex (Text.returned text)).problems.map (·.cause)
        = [.unterminatedString, .unterminatedString]
      ∧ ¬(lex text).Returned (lex (Text.returned text)) := by
  intro text
  have without : (lex text).problems.isEmpty = true := by
    unfold text
    cbv
  have returned : (lex (Text.returned text)).problems.map (·.cause)
      = [.unterminatedString, .unterminatedString] := by
    unfold text
    cbv
  refine ⟨by decide, without, returned, fun same => ?_⟩
  have count := congrArg List.length same.messages
  have two := congrArg List.length returned
  rw [List.isEmpty_iff.1 without, List.length_map] at count
  rw [List.length_map, count] at two
  cases two

end Syntax

end MethodLift
