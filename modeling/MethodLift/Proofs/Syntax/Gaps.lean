import MethodLift.Proofs.Syntax.Joining
import MethodLift.Proofs.Syntax.Ranges

/-!
# What stands between tokens

Nothing of a text is lost on the way to its tokens: what no token covers is blank, a line break, a
comment up to the end of its line, or a backslash, and a backslash that is not at the end of its line
is a problem of the text (`lex_lossless`).

The induction follows the reading.  A text that begins at an offset is tiled by what is passed over
and by what its tokens cover, one behind the other (`Tiles`).  What a step passes over is put in front
of the next token (`Tiles.skip`); a token that covers nothing, as layout does, does not interrupt it.
So what is passed over between two tokens that cover something is one stretch, and these stretches are
the uncovered ones (`Tiles.skipped`).
-/

namespace MethodLift

namespace Text

variable {a b c d cs : List Char}

lemma width_pos (h : cs ≠ []) : 0 < width cs := by
  cases cs with
  | nil => exact absurd rfl h
  | cons c cs =>
    have := c.utf8Size_pos
    rw [width_cons]
    omega

/-- Of two front parts of a text the longer one goes on where the shorter one ends. -/
lemma exists_append_of_width_le (whole : a ++ b = c ++ d) (le : width a ≤ width c) :
    ∃ e, c = a ++ e ∧ b = e ++ d := by
  rcases List.append_eq_append_iff.1 whole with ⟨e, is, rest⟩ | ⟨e, is, rest⟩
  · exact ⟨e, is, rest⟩
  · have none : e = [] := by
      by_contra some
      have := width_pos some
      rw [is, width_append] at le
      omega
    subst none
    exact ⟨[], by simpa using is.symm, by simpa using rest.symm⟩

end Text

namespace Syntax

open Text (width)

/-! ## What is passed over -/

/-- Characters from an offset on that become no token, in front of the rest of the text: blanks, line
breaks, comments, and backslashes. -/
inductive Skipped (problems : List Problem) : ℕ → List Char → List Char → Prop
  | nothing {offset : ℕ} {rest : List Char} : Skipped problems offset [] rest
  | blank {offset : ℕ} {c : Char} {cs rest : List Char} (is : isBlank c = true)
      (later : Skipped problems (offset + c.utf8Size) cs rest) :
      Skipped problems offset (c :: cs) rest
  | lineBreak {offset : ℕ} {c : Char} {cs rest : List Char} (is : isLineEnd c = true)
      (later : Skipped problems (offset + c.utf8Size) cs rest) :
      Skipped problems offset (c :: cs) rest
  /-- A comment goes on to the end of its line, or to that of the text. -/
  | comment {offset : ℕ} {inside cs rest : List Char} (inLine : ∀ c ∈ inside, isLineEnd c = false)
      (ends : ∀ c ∈ (cs ++ rest).head?, isLineEnd c = true)
      (later : Skipped problems (offset + width ('#' :: inside)) cs rest) :
      Skipped problems offset ('#' :: inside ++ cs) rest
  /-- A backslash has a line break behind it, or is reported. -/
  | backslash {offset : ℕ} {cs rest : List Char}
      (reported : (∃ c ∈ (cs ++ rest).head?, isLineEnd c = true)
        ∨ ⟨.strayBackslash, ⟨offset, offset + 1⟩⟩ ∈ problems)
      (later : Skipped problems (offset + 1) cs rest) :
      Skipped problems offset ('\\' :: cs) rest

namespace Skipped

variable {problems problems' : List Problem} {offset : ℕ} {a b cs rest : List Char}

lemma mono (h : Skipped problems offset cs rest) (le : problems ⊆ problems') :
    Skipped problems' offset cs rest := by
  induction h with
  | nothing => exact .nothing
  | blank is _ ih => exact .blank is ih
  | lineBreak is _ ih => exact .lineBreak is ih
  | comment inLine ends _ ih => exact .comment inLine ends ih
  | backslash reported _ ih => exact .backslash (reported.imp_right fun mem => le mem) ih

/-- One thing behind the other. -/
lemma append (h : Skipped problems offset a (b ++ rest))
    (h' : Skipped problems (offset + width a) b rest) : Skipped problems offset (a ++ b) rest := by
  generalize whole : b ++ rest = later at h
  induction h with
  | nothing => exact h'
  | @blank _ c cs _ is _ ih =>
    refine .blank is (ih ?_ whole)
    rwa [Text.width_cons, ← Nat.add_assoc] at h'
  | @lineBreak _ c cs _ is _ ih =>
    refine .lineBreak is (ih ?_ whole)
    rwa [Text.width_cons, ← Nat.add_assoc] at h'
  | @comment _ inside cs _ inLine ends _ ih =>
    rw [List.append_assoc]
    refine .comment inLine ?_ (ih ?_ whole)
    · rw [List.append_assoc, whole]
      exact ends
    · rwa [Text.width_append, ← Nat.add_assoc] at h'
  | @backslash _ cs _ reported _ ih =>
    have same : cs ++ b ++ rest = cs ++ (b ++ rest) := List.append_assoc _ _ _
    refine .backslash ?_ (ih ?_ whole)
    · rw [← whole, ← same] at reported
      exact reported
    · rwa [Text.width_cons, ← Nat.add_assoc] at h'

lemma blanks (all : ∀ c ∈ cs, isBlank c = true) : Skipped problems offset cs rest := by
  induction cs generalizing offset with
  | nil => exact .nothing
  | cons c cs ih =>
    obtain ⟨first, others⟩ := List.forall_mem_cons.1 all
    exact .blank first (ih others)

/-- A line break may be two characters. -/
lemma ofBreak {c : Char} (is : isLineEnd c = true) :
    Skipped problems offset (c :: (Piece.afterBreak c cs).taken) rest := by
  refine .lineBreak is ?_
  unfold Piece.afterBreak
  split
  · split
    · exact .lineBreak (by decide) .nothing
    · exact .nothing
  · exact .nothing

/-- A comment as it is read. -/
lemma ofComment : Skipped problems offset ('#' :: (Cut.spanning (!isLineEnd ·) cs).taken)
    (Cut.spanning (!isLineEnd ·) cs).rest := by
  have inLine : ∀ c ∈ (Cut.spanning (!isLineEnd ·) cs).taken, isLineEnd c = false :=
    fun c hc => by simpa using List.mem_takeWhile_imp hc
  have ends : ∀ c ∈ (Cut.spanning (!isLineEnd ·) cs).rest.head?, isLineEnd c = true :=
    fun c hc => by simpa using Cut.head?_rest_spanning (!isLineEnd ·) cs c hc
  have whole : Skipped problems offset ('#' :: (Cut.spanning (!isLineEnd ·) cs).taken ++ [])
      (Cut.spanning (!isLineEnd ·) cs).rest := .comment inLine ends .nothing
  rwa [List.append_nil] at whole

/-- A line without tokens. -/
lemma ofEmptyLine {c : Char} (empty : beginsEmptyLine c = true) :
    Skipped problems offset (emptyLine c cs).taken (emptyLine c cs).rest := by
  unfold emptyLine
  split
  next is =>
    obtain rfl := beq_iff_eq.1 is
    have comment := @ofComment problems offset cs
    have parts := Cut.spanning_append (!isLineEnd ·) cs
    split
    next none =>
      rw [none] at comment parts
      rwa [← parts, List.append_nil]
    next d ds rest =>
      have lineEnd : isLineEnd d = true := by
        simpa using Cut.head?_rest_spanning (!isLineEnd ·) cs d (by rw [rest]; rfl)
      rw [rest, ← Piece.afterBreak_append d ds] at comment
      exact comment.append (.ofBreak lineEnd)
  next other =>
    have lineEnd : isLineEnd c = true := by
      rw [beginsEmptyLine, Bool.or_eq_true] at empty
      exact empty.resolve_left other
    exact .ofBreak lineEnd

end Skipped

/-! ## Pieces -/

/-- Whether a piece becomes a token. -/
def Piece.isToken : Piece → Bool
  | blank | comment | lineBreak | joint | strayBackslash => false
  | _ => true

/-- A piece that begins like none of those that are passed over becomes a token. -/
lemma Piece.read_isToken {c : Char} (solid : isSkipped c = false) (noComment : c ≠ '#')
    (cs : List Char) : (read c cs).1.isToken = true := by
  obtain ⟨noBlank, noEnd, noEscape⟩ := isSkipped_eq_false solid
  unfold read
  rw [if_neg noBlank, if_neg (by simpa using noComment), if_neg noEnd, if_neg noEscape]
  split
  · rfl
  split
  · rfl
  split
  · split
    next found is =>
      obtain ⟨f, closed, kind⟩ := prefixedString?_kind is
      rw [kind]
      rfl
    · rfl
  · split <;> rfl

/-- The token of a piece covers it. -/
lemma contribution_token (layout : Layout) {piece : Piece} (solid : piece.isToken = true)
    (taken : List Char) (span : Span) :
    ∃ t, (contribution layout piece taken span).tokens = [t] ∧ t.span = span := by
  cases piece with
  | blank | comment | lineBreak | joint | strayBackslash => nomatch solid
  | number | string | word | symbol | unknown => exact ⟨_, rfl, rfl⟩

/-- A piece that is passed over adds nothing but the end of a line, in front of itself. -/
lemma contribution_points {layout : Layout} {piece : Piece} (skips : piece.isToken = false)
    (taken : List Char) (span : Span) :
    ∀ t ∈ (contribution layout piece taken span).tokens, t.span = .point span.start := by
  cases piece with
  | number | string | word | symbol | unknown => nomatch skips
  | blank | comment | joint | strayBackslash => exact List.forall_mem_nil _
  | lineBreak =>
    rw [contribution]
    split
    · split
      · exact List.forall_mem_singleton.2 rfl
      · exact List.forall_mem_nil _
    · exact List.forall_mem_nil _

/-- What is passed over in a line. -/
lemma Piece.read_skipped {layout : Layout} {problems : List Problem} {offset : ℕ} {c : Char}
    {cs : List Char} (skips : (read c cs).1.isToken = false)
    (reported : (contribution layout (read c cs).1 (read c cs).2.taken
      ⟨offset, offset + width (read c cs).2.taken⟩).problems ⊆ problems) :
    Skipped problems offset (read c cs).2.taken (read c cs).2.rest := by
  cases skipped : isSkipped c with
  | false =>
    obtain rfl : c = '#' := by
      by_contra noComment
      rw [read_isToken skipped noComment] at skips
      nomatch skips
    exact .ofComment
  | true =>
    rw [isSkipped, Bool.or_eq_true, Bool.or_eq_true, beq_iff_eq] at skipped
    rcases skipped with (blank | lineEnd) | rfl
    · rw [read_of_isBlank blank]
      exact .blank blank .nothing
    · rw [read_of_isLineEnd lineEnd]
      exact .ofBreak lineEnd
    · cases cs with
      | nil => exact .backslash (.inr (reported List.mem_cons_self)) .nothing
      | cons d ds =>
        by_cases lineEnd : isLineEnd d = true
        · rw [read_joint lineEnd]
          exact .backslash (.inl ⟨d, rfl, lineEnd⟩) (.ofBreak lineEnd)
        · rw [read_strayBackslash lineEnd] at reported ⊢
          exact .backslash (.inr (reported List.mem_cons_self)) .nothing

/-! ## Tiles -/

/-- Tokens, and what is passed over in front of each of them, make up a text from an offset on.  The
last token stands at the end. -/
inductive Tiles (problems : List Problem) : ℕ → List Char → List Token → Prop
  | last {offset : ℕ} {gap : List Char} {t : Token} (skipped : Skipped problems offset gap [])
      (here : t.span = .point (offset + width gap)) : Tiles problems offset gap [t]
  | token {offset : ℕ} {gap own rest : List Char} {t : Token} {ts : List Token}
      (skipped : Skipped problems offset gap (own ++ rest))
      (here : t.span = ⟨offset + width gap, offset + width gap + width own⟩)
      (later : Tiles problems (offset + width gap + width own) rest ts) :
      Tiles problems offset (gap ++ (own ++ rest)) (t :: ts)

namespace Tiles

variable {problems problems' : List Problem} {offset : ℕ} {gap own cs rest : List Char}
  {t : Token} {ts ts' : List Token}

lemma mono (h : Tiles problems offset cs ts) (le : problems ⊆ problems') :
    Tiles problems' offset cs ts := by
  induction h with
  | last skipped here => exact .last (skipped.mono le) here
  | token skipped here _ ih => exact .token (skipped.mono le) here ih

/-- What is passed over in front of a text is in front of its first token. -/
lemma skip (h : Tiles problems (offset + width gap) rest ts)
    (skipped : Skipped problems offset gap rest) : Tiles problems offset (gap ++ rest) ts := by
  cases h with
  | last skipped' here =>
    have front : Skipped problems offset gap (rest ++ []) := by rwa [List.append_nil]
    refine .last (front.append skipped') ?_
    rw [here, Text.width_append, Nat.add_assoc]
  | @token _ gap' own rest _ _ skipped' here later =>
    have front : Skipped problems offset (gap ++ gap') (own ++ rest) := skipped.append skipped'
    rw [← List.append_assoc]
    refine .token front ?_ ?_
    · rw [here, Text.width_append, ← Nat.add_assoc]
    · rwa [Text.width_append, ← Nat.add_assoc]

/-- A token that begins where the text does. -/
lemma cons (h : Tiles problems (offset + width own) rest ts)
    (here : t.span = ⟨offset, offset + width own⟩) :
    Tiles problems offset (own ++ rest) (t :: ts) :=
  @token problems offset [] own rest t ts .nothing here h

/-- Tokens that cover nothing, in front of a text. -/
lemma points_append (h : Tiles problems offset cs ts)
    (points : ∀ t ∈ ts', t.span = .point offset) : Tiles problems offset cs (ts' ++ ts) := by
  induction ts' with
  | nil => exact h
  | cons t ts' ih =>
    obtain ⟨first, others⟩ := List.forall_mem_cons.1 points
    exact @cons problems offset [] cs t (ts' ++ ts) (ih others) first

/-- The tokens at the end of a text. -/
lemma ofClosing (layout : Layout) : Tiles problems offset [] (closing layout offset) := by
  obtain ⟨front, is, -⟩ := closing_eq layout offset
  have points : ∀ t ∈ front, t.span = .point offset := by
    intro t ht
    have among : t ∈ closing layout offset := by
      rw [is]
      exact List.mem_append_left _ ht
    exact (closing_points among).1
  rw [is]
  exact points_append (.last .nothing rfl) points

/-- The indentation of a line is covered by a token or passed over. -/
lemma relevel {layout : Layout} {columns : ℕ} {blanks : List Char}
    (all : ∀ c ∈ blanks, isBlank c = true) (h : Tiles problems (offset + width blanks) rest ts) :
    Tiles problems offset (blanks ++ rest)
      ((relevel layout columns ⟨offset, offset + width blanks⟩).tokens ++ ts) := by
  unfold Syntax.relevel
  split
  · exact h.cons rfl
  split
  · refine skip (points_append h fun t ht => ?_) (.blanks all)
    obtain ⟨_, -, rfl⟩ := List.mem_map.1 ht
    rfl
  · exact h.skip (.blanks all)

/-- A piece is covered by its token, or passed over behind the end of its line. -/
lemma contribution {layout : Layout} {c : Char}
    (reported : (contribution layout (Piece.read c cs).1 (Piece.read c cs).2.taken
      ⟨offset, offset + width (Piece.read c cs).2.taken⟩).problems ⊆ problems)
    (h : Tiles problems (offset + width (Piece.read c cs).2.taken) (Piece.read c cs).2.rest ts) :
    Tiles problems offset (c :: cs) ((contribution layout (Piece.read c cs).1
      (Piece.read c cs).2.taken ⟨offset, offset + width (Piece.read c cs).2.taken⟩).tokens
        ++ ts) := by
  rw [← Piece.read_taken_append_rest c cs]
  cases solid : (Piece.read c cs).1.isToken with
  | true =>
    obtain ⟨t, one, here⟩ := contribution_token layout solid
      (Piece.read c cs).2.taken ⟨offset, offset + width (Piece.read c cs).2.taken⟩
    rw [one]
    exact h.cons here
  | false =>
    have skipped := Piece.read_skipped solid reported
    exact (h.skip skipped).points_append (contribution_points solid _ _)

end Tiles

/-- A text is tiled by its tokens and what is passed over between them, whatever the layout is. -/
theorem lexFrom_tiles (layout : Layout) (offset : ℕ) (cs : List Char) :
    Tiles (lexFrom layout offset cs).problems offset cs (lexFrom layout offset cs).tokens := by
  have blank {c : Char} {cs : List Char} : ∀ b ∈ (Cut.spanning isBlank (c :: cs)).taken,
      isBlank b = true := fun b hb => List.mem_takeWhile_imp hb
  fun_induction lexFrom layout offset cs with
  | case1 layout offset => exact .ofClosing layout
  | case2 layout offset c rest begins blanks first shape =>
    have parts : blanks.taken ++ blanks.rest = c :: rest := Cut.spanning_append _ _
    rw [← parts, shape]
    exact (Tiles.ofClosing layout).skip (.blanks blank)
  | case3 layout offset c rest begins blanks first d ds shape empty line =>
    next ih =>
    have parts : blanks.taken ++ blanks.rest = c :: rest := Cut.spanning_append _ _
    have inner : line.taken ++ line.rest = d :: ds := emptyLine_append d ds
    rw [← parts, shape, ← inner]
    exact (ih.skip (.ofEmptyLine empty)).skip (.blanks blank)
  | case4 layout offset c rest begins blanks first d ds shape some step =>
    next ih =>
    have parts : blanks.taken ++ blanks.rest = c :: rest := Cut.spanning_append _ _
    rw [← parts, shape]
    exact (ih.mono (List.subset_append_right _ _)).relevel blank
  | case5 layout offset c rest inside found stop step =>
    next ih =>
    exact (ih.mono (List.subset_append_right _ _)).contribution (List.subset_append_left _ _)

/-! ## Uncovered stretches -/

/-- A stretch of an area that no token reaches into, and that is as long as it can be: on either side
of it the area ends or a token stands. -/
structure Uncovered (ts : List Token) (area span : Span) : Prop where
  free : ∀ i, span.covers i = true → ∀ t ∈ ts, t.span.covers i = false
  left : span.start = area.start ∨ ∃ t ∈ ts, t.span.covers (span.start - 1) = true
  right : span.stop = area.stop ∨ ∃ t ∈ ts, t.span.covers span.stop = true

lemma covers_iff {s : Span} {i : ℕ} : s.covers i = true ↔ s.start ≤ i ∧ i < s.stop := by
  simp [Span.covers]

namespace Uncovered

variable {t : Token} {ts : List Token} {area span : Span}

/-- A token that covers nothing makes no difference. -/
lemma drop_point (h : Uncovered (t :: ts) area span) (point : t.span.stop ≤ t.span.start) :
    Uncovered ts area span := by
  have other {i : ℕ} (covered : ∃ x ∈ t :: ts, x.span.covers i = true) :
      ∃ x ∈ ts, x.span.covers i = true := by
    obtain ⟨x, hx, covers⟩ := covered
    rcases List.mem_cons.1 hx with rfl | hx
    · have inside := covers_iff.1 covers
      omega
    · exact ⟨x, hx, covers⟩
  exact ⟨fun i inside x hx => h.free i inside x (List.mem_cons_of_mem _ hx),
    h.left.imp_right other, h.right.imp_right other⟩

/-- Behind the first token, the area begins where that token ends. -/
lemma drop_front (h : Uncovered (t :: ts) area span) (starts : area.start ≤ t.span.stop)
    (behind : t.span.stop ≤ span.start) (forward : span.start ≤ span.stop) :
    Uncovered ts ⟨t.span.stop, area.stop⟩ span := by
  refine ⟨fun i inside x hx => h.free i inside x (List.mem_cons_of_mem _ hx), ?_, ?_⟩
  · rcases h.left with start | ⟨x, hx, covers⟩
    · left
      simp only
      omega
    rcases List.mem_cons.1 hx with rfl | hx
    · have inside := covers_iff.1 covers
      left
      simp only
      omega
    · exact .inr ⟨x, hx, covers⟩
  · rcases h.right with stop | ⟨x, hx, covers⟩
    · exact .inl stop
    rcases List.mem_cons.1 hx with rfl | hx
    · have inside := covers_iff.1 covers
      omega
    · exact .inr ⟨x, hx, covers⟩

/-- A stretch that begins before the first token ends is what is in front of that token. -/
lemma eq_front (h : Uncovered (t :: ts) area span) (some : span.start < span.stop)
    (takes : t.span.start < t.span.stop) (ends : t.span.stop ≤ area.stop)
    (ahead : ∀ x ∈ ts, t.span.start ≤ x.span.start) (front : span.start < t.span.stop) :
    span.start = area.start ∧ span.stop = t.span.start := by
  have starts {i : ℕ} (covered : ∃ x ∈ t :: ts, x.span.covers i = true) : t.span.start ≤ i := by
    obtain ⟨x, hx, covers⟩ := covered
    have inside := covers_iff.1 covers
    rcases List.mem_cons.1 hx with rfl | hx
    · exact inside.1
    · exact (ahead x hx).trans inside.1
  have away {i : ℕ} (start : span.start ≤ i) (stop : i < span.stop) :
      ¬ (t.span.start ≤ i ∧ i < t.span.stop) := by
    intro inside
    have uncovered := h.free i (covers_iff.2 ⟨start, stop⟩) t List.mem_cons_self
    rw [covers_iff.2 inside] at uncovered
    nomatch uncovered
  have stops : span.stop ≤ t.span.start := by
    by_contra late
    by_cases before : span.start ≤ t.span.start
    · exact away before (by omega) ⟨Nat.le_refl _, takes⟩
    · exact away (Nat.le_refl _) some ⟨by omega, front⟩
  constructor
  · rcases h.left with start | covered
    · exact start
    · have := starts covered
      omega
  · rcases h.right with stop | covered
    · omega
    · exact Nat.le_antisymm stops (starts covered)

end Uncovered

namespace Tiles

variable {problems : List Problem} {offset : ℕ} {cs before stretch after : List Char}
  {ts : List Token}

lemma ahead (h : Tiles problems offset cs ts) : ∀ t ∈ ts, offset ≤ t.span.start := by
  induction h with
  | last _ here =>
    intro t ht
    rw [List.mem_singleton.1 ht, here]
    exact Nat.le_add_right _ _
  | token _ here _ ih =>
    intro t ht
    rcases List.mem_cons.1 ht with rfl | ht
    · rw [here]
      exact Nat.le_add_right _ _
    · have later := ih t ht
      omega

lemma last_span (h : Tiles problems offset cs ts) :
    ∃ front last, ts = front ++ [last] ∧ last.span = .point (offset + width cs) := by
  induction h with
  | @last _ _ t _ here => exact ⟨[], t, rfl, here⟩
  | @token _ gap own rest t ts _ _ _ ih =>
    obtain ⟨front, last, rfl, here⟩ := ih
    refine ⟨t :: front, last, rfl, ?_⟩
    rw [here]
    simp only [Text.width_append, Nat.add_assoc]

/-- A stretch that no token reaches into is what is passed over in front of one token that covers
something, or at the end. -/
theorem skipped (h : Tiles problems offset cs ts) (whole : cs = before ++ stretch ++ after)
    (free : Uncovered ts ⟨offset, offset + width cs⟩
      ⟨offset + width before, offset + width before + width stretch⟩) :
    Skipped problems (offset + width before) stretch after := by
  by_cases some : stretch = []
  · subst some
    exact .nothing
  have long : 0 < width stretch := Text.width_pos some
  induction ts generalizing offset cs before with
  | nil => nomatch h
  | cons t ts ih =>
    cases h with
    | last skipped here =>
      have point : t.span.stop ≤ t.span.start := by simp [here, Span.point]
      obtain ⟨-, left, right⟩ := free.drop_point point
      have size := congrArg width whole
      simp only [Text.width_append, List.not_mem_nil, false_and, exists_false, or_false]
        at size left right
      have first : before = [] := by
        by_contra some
        have := Text.width_pos some
        omega
      have last : after = [] := by
        by_contra some
        have := Text.width_pos some
        omega
      subst first last
      rw [List.nil_append, List.append_nil] at whole
      rw [← whole]
      exact skipped
    | @token _ gap own rest _ _ skipped here later =>
      by_cases empty : own = []
      · -- the token covers nothing, and what is around it is one stretch
        subst empty
        have point : t.span.stop ≤ t.span.start := by simp [here]
        have later : Tiles problems (offset + width gap) rest ts := later
        have joined : Tiles problems offset (gap ++ rest) ts := later.skip skipped
        exact ih joined whole (by simpa using free.drop_point point)
      have takes := Text.width_pos empty
      have starts : t.span.start = offset + width gap := by rw [here]
      have stops : t.span.stop = offset + width gap + width own := by rw [here]
      by_cases front : offset + width before < t.span.stop
      · have behind (x : Token) (hx : x ∈ ts) : t.span.start ≤ x.span.start := by
          have := later.ahead x hx
          omega
        obtain ⟨start, stop⟩ := free.eq_front (by simp only; omega) (by omega)
          (by simp only [Text.width_append]; omega) behind front
        simp only at start stop
        have first : before = [] := by
          by_contra some
          have := Text.width_pos some
          omega
        subst first
        have parts : gap ++ (own ++ rest) = stretch ++ after := by simpa using whole
        obtain ⟨rfl, rfl⟩ := Text.eq_of_width_eq parts (by rw [Text.width_nil] at stop; omega)
        exact skipped
      · rw [← List.append_assoc, List.append_assoc before] at whole
        obtain ⟨inner, rfl, parts⟩ := Text.exists_append_of_width_le whole
          (by rw [Text.width_append]; omega)
        have place : offset + width (gap ++ own ++ inner) = t.span.stop + width inner := by
          simp only [Text.width_append, stops]
          omega
        have area : offset + width (gap ++ (own ++ rest)) = t.span.stop + width rest := by
          simp only [Text.width_append, stops]
          omega
        rw [place, area] at free
        rw [place]
        rw [← stops] at later
        exact ih later (by rw [parts, List.append_assoc])
          (free.drop_front (by simp only; omega) (by simp only; omega) (by simp only; omega))

end Tiles

/-! ## Reading loses nothing -/

/-- Nothing of a text is lost in tokens and problems. -/
structure Lexed.Lossless (text : String) (l : Lexed) : Prop where
  forward : ∀ t ∈ l.tokens, t.span.start ≤ t.span.stop
  inOrder : l.tokens.Pairwise fun a b => a.span.stop ≤ b.span.start
  /-- The end of the text is the last token and no other one. -/
  ends : ∃ front last, l.tokens = front ++ [last] ∧ last.kind = .endOfFile
    ∧ last.span = .point text.utf8ByteSize ∧ ∀ t ∈ front, t.kind ≠ .endOfFile
  /-- What no token covers is made of what may be passed over. -/
  skipped : ∀ before stretch after, text.toList = before ++ stretch ++ after →
    Uncovered l.tokens ⟨0, text.utf8ByteSize⟩ ⟨width before, width before + width stretch⟩ →
    Skipped l.problems (width before) stretch after

/-- Reading a text loses nothing of it: its tokens stand in order up to the end of the text, and each
stretch that none of them covers consists of blanks, line breaks, comments up to the end of their
line, and backslashes, which are reported where no line break follows. -/
theorem lex_lossless (text : String) : (lex text).Lossless text := by
  have tiles : Tiles (lex text).problems 0 text.toList (lex text).tokens := lexFrom_tiles ..
  have placed := (lex_placed text).tokens
  have size : width text.toList = text.utf8ByteSize := by
    rw [Text.width_eq_utf8ByteSize, String.ofList_toList]
  refine ⟨fun t ht => (placed.each t ht).span.forward, placed.apart, ?_, ?_⟩
  · obtain ⟨front, last, parts, kind, others⟩ := lexFrom_complete .module 0 text.toList
    obtain ⟨front', last', parts', here⟩ := tiles.last_span
    obtain ⟨rfl, same⟩ := List.append_inj' (parts.symm.trans parts') rfl
    obtain rfl : last = last' := by simpa using same
    rw [Nat.zero_add, size] at here
    exact ⟨front, last, parts, kind, here, others⟩
  · intro before stretch after whole free
    have skipped := tiles.skipped whole (by simpa [size] using free)
    simpa using skipped

end Syntax

end MethodLift
