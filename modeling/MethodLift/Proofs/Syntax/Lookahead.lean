import MethodLift.Proofs.Syntax.CarriageReturns
import MethodLift.Proofs.Syntax.Joining

/-!
# What a piece does not depend on

To find a piece, reading looks at characters behind it: a word in front of a quote may belong to a
string, and two quotes are a string unless a third one follows.  It never looks beyond the end of the
line.  So a piece that ends in front of a line end is the same whatever stands behind that line end
(`Piece.read_ahead`).

A string that is still open at the line end is the one kind of piece for which this does not follow
from the text in front of the line end alone.  It either goes on, and then it does not end there, or
it is in single quotes and the line end stops it.
-/

namespace MethodLift.Syntax

namespace Piece

variable {quote d : Char}

/-! ## Strings -/

/-- A line end is not one of three quotes. -/
lemma beginsTriple_ahead (other : (d == quote) = false) (cs ds : List Char) :
    beginsTriple quote (cs ++ d :: ds) = beginsTriple quote cs := by
  rcases cs with _ | ⟨x, _ | ⟨y, cs⟩⟩
  · cases ds <;> simp [beginsTriple, other]
  · simp [beginsTriple, other]
  · rfl

variable (quotes : isQuote quote = true) (lineEnd : isLineEnd d = true)
include quotes lineEnd

/-- The end of a string in front of a line end is the same whatever follows the line end. -/
lemma stringTail_ahead {triple : Bool} {cs ds : List Char}
    (short : (stringTail quote triple (cs ++ d :: ds)).taken.length ≤ cs.length) :
    ∃ cut : StringCut, ∀ more,
      stringTail quote triple (cs ++ d :: more) = cut.extend (d :: more) := by
  have other : (d == quote) = false := ne_quote lineEnd quotes
  have noEscape : ¬(d == '\\') = true := by
    rcases eq_of_isLineEnd lineEnd with rfl | rfl <;> decide
  fun_induction stringTail quote triple cs with
  | case1 =>
    cases triple with
    | true =>
      rw [List.nil_append, stringTail_plain noEscape (by simp) (by simp [other])] at short
      cases short
    | false =>
      refine ⟨⟨⟨[], []⟩, false⟩, fun more => ?_⟩
      rw [List.nil_append, stringTail.eq_def]
      dsimp only
      rw [if_neg noEscape, if_pos (by simp [lineEnd])]
      rfl
  | case2 c escape =>
    obtain rfl := eq_of_beq escape
    rw [List.cons_append, List.nil_append, stringTail_escape] at short
    simp at short
  | case3 c escape hidden after ih =>
    obtain rfl := eq_of_beq escape
    rw [List.cons_append, List.cons_append, stringTail_escape] at short
    obtain ⟨cut, same⟩ := ih (by simpa using short)
    refine ⟨(cut.push hidden).push '\\', fun more => ?_⟩
    rw [List.cons_append, List.cons_append, stringTail_escape, same]
    rfl
  | case4 c cs noEscape ends =>
    refine ⟨⟨⟨[], c :: cs⟩, false⟩, fun more => ?_⟩
    rw [List.cons_append, stringTail.eq_def]
    dsimp only
    rw [if_neg noEscape, if_pos ends]
    rfl
  | case5 c cs noEscape inLine ends =>
    refine ⟨⟨⟨[c], cs⟩, true⟩, fun more => ?_⟩
    rw [List.cons_append, stringTail.eq_def]
    dsimp only
    rw [if_neg noEscape, if_neg inLine, if_pos ends]
    rfl
  | case6 c noEscape inLine inside isQuote second third after three =>
    refine ⟨⟨⟨[c, second, third], after⟩, true⟩, fun more => ?_⟩
    rw [List.cons_append, stringTail.eq_def]
    dsimp only [List.cons_append]
    rw [if_neg noEscape, if_neg inLine, if_neg inside, if_pos isQuote, if_pos three]
    rfl
  | case7 c noEscape inLine inside isQuote second third after three ih =>
    obtain rfl := eq_of_beq isQuote
    obtain rfl : triple = true := by simpa using inside
    have begins (more : List Char) :
        beginsTriple c (second :: third :: after ++ d :: more) = false :=
      Bool.eq_false_iff.2 three
    rw [List.cons_append, stringTail_quote quotes (begins ds)] at short
    obtain ⟨cut, same⟩ := ih (by simpa using short)
    refine ⟨cut.push c, fun more => ?_⟩
    rw [List.cons_append, stringTail_quote quotes (begins more), same]
    rfl
  | case8 c noEscape inLine inside isQuote cs few ih =>
    obtain rfl := eq_of_beq isQuote
    obtain rfl : triple = true := by simpa using inside
    have begins (more : List Char) : beginsTriple c (cs ++ d :: more) = false := by
      rw [beginsTriple_ahead other]
      rcases cs with _ | ⟨x, _ | ⟨y, cs⟩⟩
      · rfl
      · rfl
      · exact (few x y cs rfl).elim
    rw [List.cons_append, stringTail_quote quotes (begins ds)] at short
    obtain ⟨cut, same⟩ := ih (by simpa using short)
    refine ⟨cut.push c, fun more => ?_⟩
    rw [List.cons_append, stringTail_quote quotes (begins more), same]
    rfl
  | case9 c cs noEscape inLine inside other ih =>
    rw [List.cons_append, stringTail_plain noEscape inLine other] at short
    obtain ⟨cut, same⟩ := ih (by simpa using short)
    refine ⟨cut.push c, fun more => ?_⟩
    rw [List.cons_append, stringTail_plain noEscape inLine other, same]
    rfl

/-- The body of a string in front of a line end is the same whatever follows the line end. -/
lemma stringBody_ahead {cs ds : List Char}
    (short : (stringBody quote (cs ++ d :: ds)).taken.length ≤ cs.length) :
    ∃ cut : StringCut, ∀ more, stringBody quote (cs ++ d :: more) = cut.extend (d :: more) := by
  have other : (d == quote) = false := ne_quote lineEnd quotes
  cases begins : beginsTriple quote cs with
  | true =>
    obtain ⟨after, rfl⟩ := eq_of_beginsTriple begins
    simp only [List.cons_append, stringBody_triple] at short ⊢
    obtain ⟨cut, same⟩ := stringTail_ahead quotes lineEnd (by simpa using short)
    exact ⟨(cut.push quote).push quote, fun more => by rw [same]; rfl⟩
  | false =>
    have single (more : List Char) := (beginsTriple_ahead other cs more).trans begins
    rw [stringBody_of_not (single ds)] at short
    obtain ⟨cut, same⟩ := stringTail_ahead quotes lineEnd short
    exact ⟨cut, fun more => by rw [stringBody_of_not (single more), same]⟩

omit quotes

/-! ## Line breaks -/

omit lineEnd in
lemma afterBreak_cons (c e : Char) (cs more : List Char) :
    afterBreak c (e :: (cs ++ more)) = (afterBreak c (e :: cs)).extend more := by
  unfold afterBreak
  split
  next is =>
    obtain ⟨rfl, rfl⟩ := List.cons.inj is
    split <;> rfl
  next other =>
    split
    next is => exact (other _ (by rw [(List.cons.inj is).1])).elim
    · rfl

lemma afterBreak_ahead {c : Char} {cs ds : List Char}
    (short : (afterBreak c (cs ++ d :: ds)).taken.length ≤ cs.length) :
    ∃ cut : Cut, ∀ more, afterBreak c (cs ++ d :: more) = cut.extend (d :: more) := by
  cases cs with
  | cons e cs => exact ⟨_, fun more => afterBreak_cons c e cs (d :: more)⟩
  | nil =>
    refine ⟨⟨[], []⟩, fun more => ?_⟩
    unfold afterBreak at short ⊢
    rw [List.nil_append] at short ⊢
    split at short
    next is =>
      obtain ⟨rfl, rfl⟩ := List.cons.inj is
      split at short
      · nomatch short
      next other => exact if_neg other
    next other =>
      split
      next is => exact (other ds (by rw [(List.cons.inj is).1])).elim
      · rfl

/-! ## All pieces -/

/-- A piece that ends in front of a line end is the same whatever follows the line end. -/
theorem read_ahead {c : Char} {cs ds : List Char}
    (short : (read c (cs ++ d :: ds)).2.taken.length ≤ (c :: cs).length) :
    ∃ found : Piece × Cut, ∀ more,
      read c (cs ++ d :: more) = (found.1, found.2.extend (d :: more)) := by
  cases skipped : isSkipped c with
  | false =>
    by_cases isOpen : ∃ f, (read c cs).1 = .string f false
    · obtain ⟨f, isOpen⟩ := isOpen
      obtain ⟨opening, quote, body, whole, opens⟩ := opens_of_read isOpen
      have reads (more : List Char) := opens.reads (body ++ d :: more) c (cs ++ d :: more) (by
        rw [← List.cons_append, whole, List.append_assoc, List.cons_append])
      have inBody : (stringBody quote (body ++ d :: ds)).taken.length ≤ body.length := by
        rw [reads, whole] at short
        simpa using short
      obtain ⟨cut, same⟩ := stringBody_ahead opens.isQuote lineEnd inBody
      refine ⟨(.string f cut.closed, ⟨opening ++ quote :: cut.taken, cut.rest⟩), fun more => ?_⟩
      rw [reads, same]
      rfl
    · push Not at isOpen
      exact ⟨read c cs, fun more => read_extend lineEnd more skipped isOpen⟩
  | true =>
    rw [isSkipped, Bool.or_eq_true, Bool.or_eq_true, beq_iff_eq] at skipped
    rcases skipped with (blank | ends) | rfl
    · exact ⟨(.blank, ⟨[c], cs⟩), fun more => read_of_isBlank blank _⟩
    · rw [read_of_isLineEnd ends] at short
      obtain ⟨cut, same⟩ := afterBreak_ahead lineEnd (by simpa using short)
      refine ⟨(.lineBreak, cut.push c), fun more => ?_⟩
      rw [read_of_isLineEnd ends, same]
      rfl
    · cases cs with
      | nil =>
        rw [List.nil_append, read_joint lineEnd] at short
        simp at short
      | cons e es =>
        by_cases ends : isLineEnd e = true
        · rw [List.cons_append, read_joint ends] at short
          obtain ⟨cut, same⟩ := afterBreak_ahead lineEnd (by simpa using short)
          refine ⟨(.joint, (cut.push e).push '\\'), fun more => ?_⟩
          rw [List.cons_append, read_joint ends, same]
          rfl
        · exact ⟨(.strayBackslash, ⟨['\\'], e :: es⟩), fun more => read_strayBackslash ends _⟩

end Piece

end MethodLift.Syntax
