import MethodLift.Proofs.Method.Dedent
import MethodLift.Proofs.Syntax.EmptyLines

/-!
# The lines of a block that was moved

When a block is moved, its lines lose blanks at their fronts and nothing else.  What is read at the
front of a line or within one is the same before and after: a line that is indented enough has so
much less indentation (`dedentLines_deep`), a line without tokens has none either way
(`emptyLine_dedentRest`), and a piece has the same characters (`Piece.dedentRest_unbroken`).

Lines are cut at line feeds when a block is moved, and at any line break when it is read.  The two
are the same where each carriage return is followed by a line feed (`ReturnsPaired`).  Then whatever
ends a line also ends in a line feed (`Piece.read_broken`), and behind it the next line loses its
blanks (`dedentRest_break`).
-/

namespace MethodLift

open Syntax

namespace Text

/-- Every carriage return of a text is followed by a line feed. -/
def ReturnsPaired (cs : List Char) : Prop :=
  ∀ a b, cs = a ++ '\r' :: b → b.head? = some '\n'

/-- Blanks directly behind a line feed are all the same. -/
def IndentedBy (u : Char) (cs : List Char) : Prop :=
  ∀ a blanks b, cs = a ++ '\n' :: (blanks ++ b) → (∀ c ∈ blanks, isBlank c = true) →
    ∀ c ∈ blanks, c = u

variable {strings : List Span} {columns offset : ℕ} {u : Char}
  {cs front rest blanks line : List Char} {lines : List (List Char)}

lemma isBlank_of_isIndent {c : Char} (h : isIndent c = true) : isBlank c = true := by
  rw [isIndent, Bool.or_eq_true, beq_iff_eq, beq_iff_eq] at h
  rcases h with rfl | rfl <;> rfl

lemma IndentedBy.behind (h : IndentedBy u (front ++ rest)) : IndentedBy u rest :=
  fun a blanks b whole => h (front ++ a) blanks b (by rw [whole, List.append_assoc])

lemma ReturnsPaired.behind (h : ReturnsPaired (front ++ rest)) : ReturnsPaired rest :=
  fun a b whole => h (front ++ a) b (by rw [whole, List.append_assoc])

/-! ## The front of a line -/

lemma linesWithFeed_append (unfed : '\n' ∉ front) (is : linesWithFeed rest = line :: lines) :
    linesWithFeed (front ++ rest) = (front ++ line) :: lines := by
  induction front with
  | nil => exact is
  | cons c front ih =>
    rw [List.mem_cons, not_or] at unfed
    rw [List.cons_append, linesWithFeed, ih unfed.2]
    exact if_neg (by simpa using Ne.symm unfed.1)

lemma dropIndent_append (indents : ∀ c ∈ blanks, isIndent c = true)
    (deep : columns ≤ blanks.length) (line : List Char) :
    dropIndent columns (blanks ++ line) = blanks.drop columns ++ line := by
  induction columns generalizing blanks with
  | zero => simp [dropIndent]
  | succ columns ih =>
    cases blanks with
    | nil => cases deep
    | cons c blanks =>
      obtain ⟨first, others⟩ := List.forall_mem_cons.1 indents
      rw [List.cons_append, dropIndent, if_pos first, ih others (Nat.le_of_succ_le_succ deep)]
      rfl

/-- A line with blanks enough at its front loses as many as there are columns. -/
lemma dedentLines_deep (outside : beginsInString strings offset = false)
    (indents : ∀ c ∈ blanks, isIndent c = true) (deep : columns ≤ blanks.length)
    (some : rest ≠ []) : dedentLines strings columns offset (linesWithFeed (blanks ++ rest))
      = blanks.drop columns ++ dedentRest strings columns (offset + width blanks) rest := by
  have unfed : '\n' ∉ blanks := fun mem => absurd (indents _ mem) (by decide)
  cases shape : linesWithFeed rest with
  | nil =>
    refine absurd ?_ some
    rw [← flatten_linesWithFeed rest, shape]
    rfl
  | cons line lines =>
    rw [linesWithFeed_append unfed shape, dedentLines, if_neg (by simp [outside]),
      dropIndent_append indents deep, dedentRest_line _ shape, width_append, List.append_assoc,
      Nat.add_assoc]

/-- Whatever blanks there are at the front of a line, some may be left. -/
lemma dedentLines_blanks (blank : ∀ c ∈ blanks, isBlank c = true)
    (solid : ∀ d ∈ rest.head?, isBlank d = false) :
    ∃ kept, (∀ c ∈ kept, isBlank c = true)
      ∧ dedentLines strings columns offset (linesWithFeed (blanks ++ rest))
        = kept ++ dedentRest strings columns (offset + width blanks) rest := by
  obtain ⟨dropped, left, whole, indents, -, same⟩ :=
    dedentLines_eq strings columns offset (blanks ++ rest)
  obtain ⟨kept, rfl, rfl⟩ : ∃ kept, blanks = dropped ++ kept ∧ left = kept ++ rest := by
    rcases List.append_eq_append_iff.1 whole with ⟨more, rfl, is⟩ | ⟨kept, is, is'⟩
    · cases more with
      | nil => exact ⟨[], by simp, by simpa using is.symm⟩
      | cons d more =>
        have other := solid d (by rw [is]; rfl)
        rw [isBlank_of_isIndent (indents d (by simp))] at other
        cases other
    · exact ⟨kept, is, is'⟩
  have blank : ∀ c ∈ kept, isBlank c = true := fun c hc => blank c (List.mem_append_right _ hc)
  have unfed : '\n' ∉ kept := fun mem => absurd (blank _ mem) (by decide)
  exact ⟨kept, blank, by rw [same, dedentRest_append unfed, width_append, Nat.add_assoc]⟩

/-- Behind a line feed the indentation of the next line is taken away. -/
lemma dedentRest_break (unfed : '\n' ∉ front) (offset : ℕ) (rest : List Char) :
    dedentRest strings columns offset (front ++ ['\n'] ++ rest) = front ++ ['\n']
      ++ dedentLines strings columns (offset + width (front ++ ['\n'])) (linesWithFeed rest) := by
  have one : width ['\n'] = 1 := by decide
  rw [List.append_assoc, List.append_assoc, dedentRest_append unfed, List.singleton_append,
    dedentRest_feed, width_append, one, Nat.add_assoc]
  rfl

/-- Lines behind a line feed are lines of the whole text. -/
lemma mem_linesWithFeed_behind (front : List Char) (mem : line ∈ linesWithFeed rest) :
    ∃ first lines, linesWithFeed (front ++ '\n' :: rest) = first :: lines ∧ line ∈ lines := by
  induction front with
  | nil =>
    cases shape : linesWithFeed rest with
    | nil =>
      rw [shape] at mem
      cases mem
    | cons first lines =>
      rw [shape] at mem
      refine ⟨['\n'], first :: lines, ?_, mem⟩
      rw [List.nil_append, linesWithFeed, shape]
      rfl
  | cons c front ih =>
    obtain ⟨first, lines, is, later⟩ := ih
    rw [List.cons_append, linesWithFeed, is]
    dsimp only
    split
    · exact ⟨_, _, rfl, List.mem_cons_of_mem first later⟩
    · exact ⟨_, _, rfl, later⟩

/-- The blanks at the front of a text are at the front of its first line. -/
lemma exists_first_line (blank : ∀ c ∈ blanks, isBlank c = true) {c : Char} (mem : c ∈ blanks)
    (rest : List Char) : ∃ line ∈ linesWithFeed (blanks ++ rest), c ∈ line.takeWhile isBlank := by
  have unfed : '\n' ∉ blanks := fun feed => absurd (blank _ feed) (by decide)
  have prefix' (more : List Char) : c ∈ (blanks ++ more).takeWhile isBlank := by
    rw [List.takeWhile_append_of_pos blank]
    exact List.mem_append_left _ mem
  cases shape : linesWithFeed rest with
  | nil =>
    obtain rfl : rest = [] := by rw [← flatten_linesWithFeed rest, shape]; rfl
    obtain ⟨front, last, rfl⟩ :=
      (List.eq_nil_or_concat' blanks).resolve_left (List.ne_nil_of_mem mem)
    have unfed : '\n' ∉ front := fun feed => unfed (List.mem_append_left _ feed)
    have one : linesWithFeed [last] = [[last]] := rfl
    rw [List.append_nil, linesWithFeed_append unfed one]
    exact ⟨_, List.mem_cons_self, by simpa using prefix' []⟩
  | cons line lines =>
    rw [linesWithFeed_append unfed shape]
    exact ⟨_, List.mem_cons_self, prefix' line⟩

lemma IndentedBy.of_lines
    (uniform : ∀ line ∈ linesWithFeed cs, ∀ c ∈ line.takeWhile isBlank, c = u) :
    IndentedBy u ('\n' :: cs) := by
  intro a blanks b whole blank c hc
  obtain ⟨line, mem, first⟩ := exists_first_line blank hc b
  cases a with
  | nil => exact uniform line ((List.cons.inj whole).2 ▸ mem) c first
  | cons d a =>
    have whole : cs = a ++ '\n' :: (blanks ++ b) := (List.cons.inj whole).2
    obtain ⟨_, lines, is, later⟩ := mem_linesWithFeed_behind a mem
    rw [← whole] at is
    exact uniform line (is ▸ List.mem_cons_of_mem _ later) c first

lemma IndentedBy.of_nil (u : Char) : IndentedBy u ['\n'] := by
  intro a blanks b whole
  have none : blanks = [] := by
    cases a with
    | nil => exact (List.append_eq_nil_iff.1 (List.cons.inj whole).2.symm).1
    | cons c a => simpa using congrArg List.length whole
  subst none
  exact fun _ => List.forall_mem_nil _

end Text

namespace Syntax

open Text (IndentedBy ReturnsPaired dedentLines dedentRest isIndent linesWithFeed width)

variable {strings : List Span} {columns offset : ℕ} {u c d : Char} {cs ds rest : List Char}

/-! ## Line breaks -/

/-- A line break ends in a line feed, and is the same whatever follows. -/
lemma Piece.afterBreak_paired (ends : isLineEnd c = true) (paired : ReturnsPaired (c :: cs)) :
    ∃ front, '\n' ∉ front ∧ c :: (afterBreak c cs).taken = front ++ ['\n'] ∧ ∀ more,
      afterBreak c ((afterBreak c cs).taken ++ more) = ⟨(afterBreak c cs).taken, more⟩ := by
  rcases eq_of_isLineEnd ends with rfl | rfl
  · refine ⟨[], by simp, ?_, fun more => ?_⟩
    · rw [afterBreak_feed_eq]
      rfl
    · simp only [afterBreak_feed_eq, List.nil_append]
  · obtain ⟨rest, rfl⟩ := List.head?_eq_some_iff.1 (paired [] cs rfl)
    exact ⟨['\r'], by decide, rfl, fun more => rfl⟩

/-- A line without tokens ends in a line feed, unless it ends the text. -/
lemma emptyLine_paired (empty : beginsEmptyLine d = true) (paired : ReturnsPaired (d :: ds)) :
    ∃ own, (emptyLine d ds).taken = d :: own
      ∧ ((emptyLine d ds).rest = [] ∧ '\n' ∉ d :: own
        ∨ ∃ front, '\n' ∉ front ∧ d :: own = front ++ ['\n']
          ∧ ∀ more, emptyLine d (own ++ more) = ⟨d :: own, more⟩) := by
  by_cases sharp : d = '#'
  · subst sharp
    have inLine : ∀ b ∈ (Cut.spanning (!isLineEnd ·) ds).taken, (!isLineEnd b) = true :=
      fun b => List.mem_takeWhile_imp
    have unfed : '\n' ∉ '#' :: (Cut.spanning (!isLineEnd ·) ds).taken := by
      rw [List.mem_cons, not_or]
      exact ⟨by decide, fun mem => absurd (inLine _ mem) (by decide)⟩
    have parts := Cut.spanning_append (!isLineEnd ·) ds
    have stops := Cut.head?_rest_spanning (!isLineEnd ·) ds
    unfold emptyLine
    rw [if_pos (beq_self_eq_true _)]
    generalize Cut.spanning (!isLineEnd ·) ds = comment at inLine unfed parts stops
    obtain ⟨taken, rest⟩ := comment
    cases rest with
    | nil => exact ⟨ds, rfl, .inl ⟨rfl, by simpa [← parts] using unfed⟩⟩
    | cons e es =>
      have ends : isLineEnd e = true := by simpa using stops e rfl
      have whole : ReturnsPaired ('#' :: taken ++ e :: es) := by rwa [← parts] at paired
      obtain ⟨front, other, is, again⟩ := Piece.afterBreak_paired ends whole.behind
      refine ⟨taken ++ e :: (Piece.afterBreak e es).taken, rfl,
        .inr ⟨'#' :: taken ++ front, ?_, ?_, fun more => ?_⟩⟩
      · rw [List.mem_append]
        exact fun mem => mem.elim unfed other
      · rw [List.append_assoc, ← is]
        rfl
      · have stop : (!isLineEnd e) = false := by rw [ends]; rfl
        have spans := Cut.spanning_append_cons inLine stop
          ((Piece.afterBreak e es).taken ++ more)
        rw [if_pos (beq_self_eq_true _), List.append_assoc, List.cons_append, spans]
        simp only [again]
        rfl
  · have ends : isLineEnd d = true := by simpa [beginsEmptyLine, sharp] using empty
    obtain ⟨front, other, is, again⟩ := Piece.afterBreak_paired ends paired
    have noComment : ¬(d == '#') = true := by simpa using sharp
    refine ⟨(Piece.afterBreak d ds).taken, ?_, .inr ⟨front, other, is, fun more => ?_⟩⟩
    · rw [emptyLine, if_neg noComment]
      rfl
    · rw [emptyLine, if_neg noComment, again]
      rfl

/-- The line is the same in the block that was moved. -/
lemma emptyLine_dedentRest (empty : beginsEmptyLine d = true) (paired : ReturnsPaired (d :: ds))
    (offset : ℕ) : ∃ ds', dedentRest strings columns offset (d :: ds) = d :: ds'
      ∧ emptyLine d ds' = ⟨(emptyLine d ds).taken, dedentLines strings columns
        (offset + width (emptyLine d ds).taken) (linesWithFeed (emptyLine d ds).rest)⟩ := by
  have parts := emptyLine_append d ds
  obtain ⟨own, taken, ⟨ends, unfed⟩ | ⟨front, unfed, is, again⟩⟩ := emptyLine_paired empty paired
  · rw [taken, ends, List.append_nil] at parts
    obtain rfl := (List.cons.inj parts).2
    refine ⟨own, Text.dedentRest_of_unfed unfed _, ?_⟩
    generalize emptyLine d own = line at ends
    obtain ⟨taken, rest⟩ := line
    obtain rfl : rest = [] := ends
    rfl
  · refine ⟨own ++ dedentLines strings columns (offset + width (d :: own))
      (linesWithFeed (emptyLine d ds).rest), ?_, ?_⟩
    · rw [← parts, taken, is, Text.dedentRest_break unfed, ← is]
      rfl
    · rw [again, taken]

/-- Behind it a line begins. -/
lemma indentedBy_emptyLine (empty : beginsEmptyLine d = true) (paired : ReturnsPaired (d :: ds))
    (uniform : IndentedBy u (d :: ds)) : IndentedBy u ('\n' :: (emptyLine d ds).rest) := by
  have parts := emptyLine_append d ds
  obtain ⟨own, taken, ⟨ends, -⟩ | ⟨front, -, is, -⟩⟩ := emptyLine_paired empty paired
  · rw [ends]
    exact .of_nil u
  · rw [← parts, taken, is, List.append_assoc] at uniform
    exact uniform.behind

/-! ## Pieces -/

/-- A line break in a line, or one that joins two lines, ends in a line feed. -/
lemma Piece.read_broken {taken : List Char} {piece : Piece}
    (found : read c cs = (piece, ⟨taken, rest⟩)) (breaks : piece = .lineBreak ∨ piece = .joint)
    (paired : ReturnsPaired (c :: cs)) : ∃ own front, taken = c :: own ∧ '\n' ∉ front
      ∧ c :: own = front ++ ['\n'] ∧ ∀ more, read c (own ++ more) = (piece, ⟨c :: own, more⟩) := by
  rcases breaks with rfl | rfl
  · obtain ⟨ends, cut⟩ := read_lineBreak (congrArg Prod.fst found)
    rw [found] at cut
    obtain ⟨front, unfed, is, again⟩ := afterBreak_paired ends paired
    refine ⟨_, front, congrArg Cut.taken cut, unfed, is, fun more => ?_⟩
    rw [read_of_isLineEnd ends, again]
    rfl
  · obtain ⟨rfl, e, es, rfl, ends, own⟩ := eq_of_joint (congrArg Prod.fst found)
    rw [found] at own
    obtain ⟨front, unfed, is, again⟩ := afterBreak_paired ends
      (show ReturnsPaired (['\\'] ++ e :: es) from paired).behind
    refine ⟨_, '\\' :: front, own, ?_, by rw [is]; rfl, fun more => ?_⟩
    · rw [List.mem_cons, not_or]
      exact ⟨by decide, unfed⟩
    · rw [List.cons_append, read_joint ends, again]
      rfl

/-- Other pieces are the same in the block that was moved, if the span of a string is known. -/
lemma Piece.dedentRest_unbroken {taken : List Char} {piece : Piece}
    (found : read c cs = (piece, ⟨taken, rest⟩)) (unbroken : ¬(piece = .lineBreak ∨ piece = .joint))
    (known : ∀ f closed, piece = .string f closed → ⟨offset, offset + width taken⟩ ∈ strings) :
    dedentRest strings columns offset (c :: cs)
      = taken ++ dedentRest strings columns (offset + width taken) rest := by
  cases skipped : isSkipped c with
  | false =>
    have known : ∀ f closed, (read c cs).1 = .string f closed →
        ⟨offset, offset + width (read c cs).2.taken⟩ ∈ strings := by rwa [found]
    have same := dedentRest_found strings columns offset skipped known
    rwa [found] at same
  | true =>
    have plain (one : read c cs = (piece, ⟨[c], cs⟩)) (feed : c ≠ '\n') :
        dedentRest strings columns offset (c :: cs)
          = taken ++ dedentRest strings columns (offset + width taken) rest := by
      obtain ⟨rfl, rfl⟩ := Cut.mk.inj (Prod.mk.inj (found.symm.trans one)).2
      rw [Text.dedentRest_cons feed]
      simp
    rw [isSkipped, Bool.or_eq_true, Bool.or_eq_true, beq_iff_eq] at skipped
    rcases skipped with (blank | ends) | rfl
    · have is := read_of_isBlank blank cs
      refine plain (by rw [is, ← (Prod.mk.inj (found.symm.trans is)).1]) ?_
      rintro rfl
      cases blank
    · have is := read_of_isLineEnd ends cs
      exact absurd (.inl (Prod.mk.inj (found.symm.trans is)).1) unbroken
    · cases cs with
      | nil => exact plain (by rw [← (Prod.mk.inj found).1]; rfl) (by decide)
      | cons e es =>
        by_cases ends : isLineEnd e = true
        · have is := read_joint ends es
          exact absurd (.inr (Prod.mk.inj (found.symm.trans is)).1) unbroken
        · have is := read_strayBackslash ends es
          exact plain (by rw [is, ← (Prod.mk.inj (found.symm.trans is)).1]) (by decide)

end Syntax

end MethodLift
