import MethodLift.Proofs.Edit.Files
import MethodLift.Proofs.Lists
import MethodLift.Proofs.Text.Lines

/-!
# What edits make of a stretch of a text

Edits that are carried out make something of each stretch of the text between two cuts
(`Edit.Becomes`), and what they make of the whole text is put together from that: a stretch can be
cut at an edit (`Becomes.split`), and at any other cut that lies in none of them (`Becomes.divide`).

What stands at one place of a normal list is told by the edits that were given for the place, in
their order: their texts are put together (`normalize_joined`).  So an edit that is the only one there
is kept (`normalize_alone`), two different insertions become one (`normalize_joins`), and of several
ones the last one comes last (`normalize_last`).
-/

namespace MethodLift

/-! ## Insertions at one place -/

namespace Edit

/-- Whether an edit is one of a file and a span. -/
def isAt (file : String) (span : Span) (e : Edit) : Bool := e.file == file && e.span == span

variable {file : String} {span : Span} {offset : ℕ} {e x : Edit} {es out : List Edit}

lemma isAt_iff : isAt file span e = true ↔ e.file = file ∧ e.span = span := by
  rw [isAt, Bool.and_eq_true, beq_iff_eq, beq_iff_eq]

@[simp] lemma isAt_insert (text : String) (offset' : ℕ) :
    (insert file offset text).isAt file (.point offset') = decide (offset = offset') := by
  rw [Bool.eq_iff_iff, isAt_iff, decide_eq_true_eq]
  exact ⟨fun place => congrArg Span.start place.2, fun same => ⟨rfl, same ▸ rfl⟩⟩

lemma SamePlace.isAt {a b : Edit} (same : SamePlace a b) (here : a.isAt file span = true) :
    b.isAt file span = true := by
  rw [isAt_iff, ← same.1, ← same.2, ← isAt_iff]
  exact here

/-- Edits of one place keep their order when edits are sorted. -/
lemma filter_sort (file : String) (span : Span) :
    (sort es).filter (isAt file span) = es.filter (isAt file span) := by
  have trans (a b c : Edit) : a.notAfter b = true → b.notAfter c = true → a.notAfter c = true :=
    notAfter_trans
  refine filter_mergeSort trans notAfter_total ?_ es
  intro a b ha hb
  obtain ⟨rfl, rfl⟩ := isAt_iff.1 ha
  obtain ⟨file, span⟩ := isAt_iff.1 hb
  simp [notAfter_iff, Span.notAfter_iff, file, span]

/-- What stands between two edits of one place in sorted edits is an edit of that place. -/
lemma SamePlace.between {a b : Edit} (same : SamePlace a b) (before : a.notAfter x = true)
    (behind : x.notAfter b = true) : SamePlace a x := by
  obtain ⟨file, span⟩ := same
  rw [notAfter_iff] at before behind
  rw [← file, ← span] at behind
  rcases before with less | ⟨file', before⟩
  · rcases behind with less' | ⟨file'', -⟩
    · exact absurd less' less.asymm
    · exact absurd file'' less.ne'
  · rcases behind with less' | ⟨-, behind⟩
    · exact absurd file' less'.ne'
    · rw [Span.notAfter_iff] at before behind
      have ends : a.span.start = x.span.start ∧ a.span.stop = x.span.stop := by omega
      exact ⟨file', congrArg₂ Span.mk ends.1 ends.2⟩

/-- Edits of one place follow one another when edits are sorted. -/
lemma filter_isAt_eq_nil (sorted : (e :: x :: es).Pairwise fun a b => a.notAfter b = true)
    (here : isAt file span e = true) (other : ¬SamePlace e x) :
    (x :: es).filter (isAt file span) = [] := by
  obtain ⟨first, later⟩ := List.pairwise_cons.1 sorted
  refine List.filter_eq_nil_iff.2 fun y hy here' => other ?_
  have same : SamePlace e y := by
    obtain ⟨rfl, rfl⟩ := isAt_iff.1 here
    obtain ⟨file, span⟩ := isAt_iff.1 here'
    exact ⟨file.symm, span.symm⟩
  rcases List.mem_cons.1 hy with rfl | hy
  · exact same
  · exact same.between (first x List.mem_cons_self) ((List.pairwise_cons.1 later).1 y hy)

/-- Texts that are put together: each one behind those before it, but not behind a text that it
equals. -/
def joined (text : String) (others : List String) : String :=
  others.foldl (fun text other => if text = other then text else text ++ other) text

/-- An edit is left out behind itself. -/
lemma mergeAfter_again (h : mergeAfter e (e :: es) = .ok out) : mergeAfter e es = .ok out := by
  rw [mergeAfter] at h
  split at h
  · cases h
  · rwa [if_neg (by simp), if_pos (beq_self_eq_true e)] at h

/-- The edits of one place become one edit when sorted edits are merged. -/
lemma mergeAfter_joined {previous : Edit} {rest : List Edit} (h : mergeAfter previous es = .ok out)
    (sorted : (previous :: es).Pairwise fun a b => a.notAfter b = true)
    (place : (previous :: es).filter (isAt file span) = e :: rest) :
    { e with text := joined e.text (rest.map (·.text)) } ∈ out := by
  induction es generalizing previous out e rest with
  | nil =>
    obtain rfl := Except.ok.inj h
    have mem : e ∈ [previous] := (List.mem_filter.1 (place ▸ List.mem_cons_self)).1
    have size := List.length_filter_le (isAt file span) [previous]
    rw [place] at size
    obtain rfl : rest = [] := List.length_eq_zero_iff.1 (by simpa using size)
    exact mem
  | cons x es ih =>
    have skipped : (previous :: es).Pairwise fun a b => a.notAfter b = true :=
      sorted.sublist ((List.sublist_cons_self x es).cons_cons previous)
    have later := (List.pairwise_cons.1 sorted).2
    by_cases again : previous = x
    · subst again
      by_cases here : isAt file span previous = true
      · rw [List.filter_cons_of_pos here, List.filter_cons_of_pos here] at place
        obtain ⟨rfl, rfl⟩ := List.cons.inj place
        have known := ih (mergeAfter_again h) skipped (List.filter_cons_of_pos here)
        rwa [List.map_cons, joined, List.foldl_cons, if_pos rfl]
      · rw [List.filter_cons_of_neg here] at place
        exact ih (mergeAfter_again h) skipped place
    obtain ⟨-, ⟨tail, merged, rfl, other, -⟩ | ⟨same, -⟩ | ⟨same, -, merged⟩⟩ :=
      mergeAfter_cases h
    · by_cases here : isAt file span previous = true
      · rw [List.filter_cons_of_pos here, filter_isAt_eq_nil sorted here other] at place
        obtain ⟨rfl, rfl⟩ := List.cons.inj place
        exact List.mem_cons_self
      · rw [List.filter_cons_of_neg here] at place
        exact List.mem_cons_of_mem _ (ih merged later place)
    · exact absurd same again
    · set both : Edit := { previous with text := previous.text ++ x.text }
      have sorted' : (both :: es).Pairwise fun a b => a.notAfter b = true :=
        List.pairwise_cons.2 (List.pairwise_cons.1 skipped)
      by_cases here : isAt file span previous = true
      · rw [List.filter_cons_of_pos here, List.filter_cons_of_pos (same.isAt here)] at place
        obtain ⟨rfl, rfl⟩ := List.cons.inj place
        have here' : isAt file span both = true := here
        have different : previous.text ≠ x.text := fun equal => again <| by
          obtain ⟨_, _, _⟩ := previous
          obtain ⟨file, span⟩ := same
          exact congr (congrArg₂ Edit.mk file span) equal
        have known := ih merged sorted' (List.filter_cons_of_pos here')
        rwa [List.map_cons, joined, List.foldl_cons, if_neg different]
      · have here' : ¬isAt file span both = true := here
        have notX : ¬isAt file span x = true := fun at_ => here (same.symm.isAt at_)
        refine ih merged sorted' ?_
        rw [List.filter_cons_of_neg here']
        rwa [List.filter_cons_of_neg here, List.filter_cons_of_neg notX] at place

/-- The edits of one place stand in the normal form as one. -/
theorem normalize_joined {rest : List Edit} (h : normalize es = .ok out)
    (place : es.filter (isAt file span) = e :: rest) :
    { e with text := joined e.text (rest.map (·.text)) } ∈ out := by
  rw [← filter_sort] at place
  rcases normalize_cases h with ⟨none, -⟩ | ⟨first, others, shape, -, merged⟩
  · rw [none] at place
    nomatch place
  · exact mergeAfter_joined merged (shape ▸ sort_sorted es) (shape ▸ place)

lemma joined_concat (text last : String) (others : List String) :
    joined text (others ++ [last]) = if joined text others = last then joined text others
      else joined text others ++ last := by
  rw [joined, List.foldl_append, List.foldl_cons, List.foldl_nil]
  rfl

/-- The last one of texts that are put together stands at the end. -/
lemma joined_ends (text last : String) (others : List String) :
    ∃ lines, joined text (others ++ [last]) = lines ++ last := by
  rw [joined_concat]
  split
  next same => exact ⟨"", by rw [same, String.empty_append]⟩
  · exact ⟨_, rfl⟩

/-- Texts that do not begin with the first one are put together as they are. -/
lemma joined_eq_append {text : String} {others : List String}
    (apart : ∀ other ∈ others, ¬ text.toList <+: other.toList) :
    joined text others = text ++ String.join others := by
  induction others generalizing text with
  | nil => rw [joined, List.foldl_nil, String.join_nil, String.append_empty]
  | cons other others ih =>
    obtain ⟨first, rest⟩ := List.forall_mem_cons.1 apart
    have different : text ≠ other := fun same => first (same ▸ List.prefix_refl _)
    have longer : ∀ x ∈ others, ¬ (text ++ other).toList <+: x.toList := fun x hx inFront => by
      rw [String.toList_append] at inFront
      exact rest x hx ((List.prefix_append _ _).trans inFront)
    rw [joined, List.foldl_cons, if_neg different, String.join_cons, ← String.append_assoc]
    exact ih longer

/-- The texts that are inserted at one place stand in the normal form as one. -/
lemma normalize_inserted {text : String} {others : List String} (h : normalize es = .ok out)
    (place : (es.filter (isAt file (.point offset))).map (·.text) = text :: others) :
    insert file offset (joined text others) ∈ out := by
  cases here : es.filter (isAt file (.point offset)) with
  | nil =>
    rw [here] at place
    nomatch place
  | cons e rest =>
    rw [here, List.map_cons] at place
    obtain ⟨rfl, rfl⟩ := List.cons.inj place
    obtain ⟨rfl, span⟩ := isAt_iff.1 (List.mem_filter.1 (here ▸ List.mem_cons_self)).2
    have mem := normalize_joined h here
    rwa [span] at mem

/-- Of what is inserted at one place, the text of the last edit that is listed stands at the end. -/
theorem normalize_last {before behind : List Edit} {text : String}
    (h : normalize (before ++ insert file offset text :: behind) = .ok out)
    (others : ∀ e ∈ behind, isAt file (.point offset) e = false) :
    ∃ lines, insert file offset (lines ++ text) ∈ out := by
  have here : isAt file (.point offset) (insert file offset text) = true := isAt_iff.2 ⟨rfl, rfl⟩
  have none : behind.filter (isAt file (.point offset)) = [] :=
    List.filter_eq_nil_iff.2 fun e he => Bool.eq_false_iff.1 (others e he)
  have texts : ((before ++ insert file offset text :: behind).filter
      (isAt file (.point offset))).map (·.text)
        = (before.filter (isAt file (.point offset))).map (·.text) ++ [text] := by
    rw [List.filter_append, List.filter_cons_of_pos here, none, List.map_append]
    rfl
  cases first : (before.filter (isAt file (.point offset))).map (·.text) with
  | nil =>
    rw [first] at texts
    exact ⟨"", String.empty_append ▸ normalize_inserted h texts⟩
  | cons front rest =>
    rw [first, List.cons_append] at texts
    obtain ⟨lines, is⟩ := joined_ends front text rest
    exact ⟨lines, is ▸ normalize_inserted h texts⟩

/-- The only edit at its place stands in the normal form as it is. -/
theorem normalize_alone (h : normalize es = .ok out)
    (alone : es.filter (isAt file span) = [e]) : e ∈ out := normalize_joined h alone

/-- Two different edits at one place stand in the normal form as one. -/
theorem normalize_joins {a b : Edit} (h : normalize es = .ok out)
    (two : es.filter (isAt file span) = [a, b]) (other : a ≠ b) :
    { a with text := a.text ++ b.text } ∈ out := by
  have place {e : Edit} (he : e ∈ [a, b]) : e.file = file ∧ e.span = span :=
    isAt_iff.1 (List.mem_filter.1 (two ▸ he)).2
  have different : a.text ≠ b.text := fun equal => other <| by
    obtain ⟨rfl, rfl⟩ := place List.mem_cons_self
    obtain ⟨file, span⟩ := place (List.mem_cons_of_mem _ (List.mem_singleton_self b))
    exact congr (congrArg₂ Edit.mk file.symm span.symm) equal
  have mem := normalize_joined h two
  rwa [List.map_singleton, joined, List.foldl_cons, if_neg different, List.foldl_nil] at mem

/-! ## Stretches -/

/-- What edits, carried out from the front to the back, make of the stretch of a text between two
cuts. -/
inductive Becomes (text : List Char) : ℕ → ℕ → List Edit → List Char → Prop
  /-- What is not edited is copied. -/
  | copied {start stop : ℕ} (first : Text.Boundary text start) (last : Text.Boundary text stop)
    (forward : start ≤ stop) : Becomes text start stop [] (Text.slice text ⟨start, stop⟩)
  /-- The text of an edit stands behind what was copied in front of it. -/
  | edited {start stop : ℕ} {e : Edit} {es : List Edit} {out : List Char}
    (first : Text.Boundary text start) (ahead : start ≤ e.span.start)
    (cut : Text.Boundary text e.span.start) (forward : e.span.start ≤ e.span.stop)
    (later : Becomes text e.span.stop stop es out) : Becomes text start stop (e :: es)
      (Text.slice text ⟨start, e.span.start⟩ ++ e.text.toList ++ out)

namespace Becomes

variable {text out : List Char} {start stop : ℕ} {before behind : List Edit}

lemma first (h : Becomes text start stop es out) : Text.Boundary text start := by
  cases h with
  | copied first => exact first
  | edited first => exact first

/-- The edits stand in the stretch. -/
lemma bounds (h : Becomes text start stop es out) :
    start ≤ stop ∧ ∀ x ∈ es, start ≤ x.span.start ∧ x.span.stop ≤ stop := by
  induction h with
  | copied _ _ forward => exact ⟨forward, nofun⟩
  | edited _ ahead _ forward _ ih =>
    obtain ⟨order, rest⟩ := ih
    refine ⟨by omega, List.forall_mem_cons.2 ⟨⟨ahead, order⟩, fun x hx => ?_⟩⟩
    obtain ⟨left, right⟩ := rest x hx
    omega

/-- What stands in front of the first edit is copied. -/
lemma uncons (h : Becomes text start stop (e :: es) out) :
    ∃ back, Becomes text e.span.stop stop es back
      ∧ out = Text.slice text ⟨start, e.span.start⟩ ++ e.text.toList ++ back := by
  cases h with
  | edited first ahead cut forward later => exact ⟨_, later, rfl⟩

/-- What stands in front of all edits is copied. -/
lemma skip {n : ℕ} (h : Becomes text start stop es out) (cut : Text.Boundary text n)
    (left : start ≤ n) (right : n ≤ stop) (beyond : ∀ x ∈ es, n ≤ x.span.start) :
    ∃ back, Becomes text n stop es back ∧ out = Text.slice text ⟨start, n⟩ ++ back := by
  cases h with
  | copied first last =>
    refine ⟨_, .copied cut last right, ?_⟩
    rw [Text.slice_append_slice first cut last left right]
  | @edited _ _ x _ _ first _ cut' forward later =>
    have behind := beyond x List.mem_cons_self
    refine ⟨_, .edited cut behind cut' forward later, ?_⟩
    rw [← Text.slice_append_slice first cut cut' left behind]
    simp only [List.append_assoc]

/-- Cutting at an edit. -/
theorem split (h : Becomes text start stop (before ++ e :: behind) out) :
    ∃ front back, Becomes text start e.span.start before front
      ∧ Becomes text e.span.stop stop behind back ∧ out = front ++ e.text.toList ++ back := by
  induction before generalizing start out with
  | nil =>
    cases h with
    | edited first ahead cut forward later => exact ⟨_, _, .copied first cut ahead, later, rfl⟩
  | cons x before ih =>
    cases h with
    | edited first ahead cut forward later =>
      obtain ⟨front, back, made, last, rfl⟩ := ih later
      exact ⟨_, back, .edited first ahead cut forward made, last, by simp only [List.append_assoc]⟩

/-- Cutting where no edit is cut. -/
theorem divide {n : ℕ} (h : Becomes text start stop (before ++ behind) out)
    (cut : Text.Boundary text n) (left : start ≤ n) (right : n ≤ stop)
    (ahead : ∀ x ∈ before, x.span.stop ≤ n) (beyond : ∀ x ∈ behind, n ≤ x.span.start) :
    ∃ front back, Becomes text start n before front ∧ Becomes text n stop behind back
      ∧ out = front ++ back := by
  induction before generalizing start out with
  | nil =>
    obtain ⟨back, rest, rfl⟩ := h.skip cut left right beyond
    exact ⟨_, back, .copied h.first cut left, rest, rfl⟩
  | cons x before ih =>
    cases h with
    | edited first ahead' cut' forward later =>
      obtain ⟨inFront, others⟩ := List.forall_mem_cons.1 ahead
      obtain ⟨front, back, made, rest, rfl⟩ := ih later inFront others
      exact ⟨_, back, .edited first ahead' cut' forward made, rest,
        by simp only [List.append_assoc]⟩

end Becomes

/-- Carrying out edits behind a cursor. -/
theorem becomes_of_applyFrom {text out : List Char} {cursor : ℕ}
    (h : applyFrom text (Text.width text) cursor es = .ok out) (first : Text.Boundary text cursor) :
    Becomes text cursor (Text.width text) es out := by
  induction es generalizing cursor out with
  | nil =>
    obtain rfl := Except.ok.inj h
    rw [Text.dropBytes_eq_slice]
    exact .copied first (Text.Boundary.end text) first.le_width
  | cons e es ih =>
    obtain ⟨cut, cut'⟩ := applyFrom_bounds h
    obtain ⟨forward, ahead, rest, later, rfl⟩ := applyFrom_cons h
    exact .edited first ahead cut forward (ih later cut')

/-- Carrying out a normal list of edits of one file. -/
theorem IsNormal.becomes {text out : String} (h : IsNormal es) (one : ∀ e ∈ es, e.file = file)
    (done : apply text es = .ok out) :
    Becomes text.toList 0 (Text.width text.toList) es out.toList := by
  obtain ⟨chars, ran, rfl⟩ := map_eq_ok.1 done
  rw [h.sortBySpan_eq one] at ran
  rw [String.toList_ofList]
  exact becomes_of_applyFrom ran (Text.Boundary.zero _)

/-! ## What is put in front of something -/

/-- What edits make of a text when nothing is changed from one of them up to an offset: the text of
that edit stands directly in front of what is copied from there. -/
def PutBefore (text : List Char) (es : List Edit) (e : Edit) (offset : ℕ) (out : List Char) :
    Prop :=
  ∃ before behind front back, es = before ++ e :: behind
    ∧ Becomes text 0 e.span.start before front
    ∧ Becomes text offset (Text.width text) behind back
    ∧ out = front ++ e.text.toList ++ Text.slice text ⟨e.span.stop, offset⟩ ++ back

/-- An insertion in front of an offset, if no other edit begins between. -/
theorem IsNormal.putBefore {text out put : String} {line : ℕ} (h : IsNormal es)
    (one : ∀ e ∈ es, e.file = file) (done : apply text es = .ok out)
    (he : insert file line put ∈ es) (cut : Text.Boundary text.toList offset) (le : line ≤ offset)
    (none : ∀ x ∈ es, x.span.start < line ∨ x.span = .point line ∨ offset ≤ x.span.start) :
    PutBefore text.toList es (insert file line put) offset out.toList := by
  have becomes := h.becomes one done
  obtain ⟨before, behind, rfl⟩ := List.append_of_mem he
  obtain ⟨front, back, made, later, whole⟩ := becomes.split
  have inOrder := (List.pairwise_append.1 (h.inOrder one)).2.1
  have beyond : ∀ x ∈ behind, offset ≤ x.span.start := by
    intro x hx
    obtain ⟨follows, other⟩ := (List.pairwise_cons.1 inOrder).1 x hx
    rcases none x (List.mem_append_right _ (List.mem_cons_of_mem _ hx)) with earlier | same | beyond
    · exact absurd earlier follows.not_gt
    · exact absurd same.symm other
    · exact beyond
  obtain ⟨rest, made', rfl⟩ := later.skip cut le cut.le_width beyond
  exact ⟨before, behind, front, rest, rfl, made, made', by
    rw [whole]
    simp only [List.append_assoc]⟩

/-! ## What stands around a span -/

/-- What edits make of a text, seen from a span: in front of it stands what `before` makes of the text
up to it, behind it what `behind` makes of the rest, and in its place stands `put`. -/
inductive Around (text : List Char) (span : Span) (before behind : List Edit) :
    List Edit → List Char → List Char → Prop
  /-- An edit puts a text in the place of the span. -/
  | edited {e : Edit} {front back : List Char} (place : e.span = span)
    (inFront : Becomes text 0 span.start before front)
    (after : Becomes text span.stop (Text.width text) behind back) :
    Around text span before behind (before ++ e :: behind) e.text.toList
      (front ++ e.text.toList ++ back)
  /-- What is in the span stays. -/
  | kept {front back : List Char} (inFront : Becomes text 0 span.start before front)
    (after : Becomes text span.stop (Text.width text) behind back) :
    Around text span before behind (before ++ behind) (Text.slice text span)
      (front ++ Text.slice text span ++ back)

/-- What is put at a place is put in front of the span, behind it, or there. -/
lemma Around.cases_of_puts {text put out : List Char} {before behind : List Edit}
    (h : Around text span before behind es put out) (puts : Puts es e) :
    Puts before e ∧ e.span.stop ≤ span.start ∨ Puts behind e ∧ span.stop ≤ e.span.start
      ∨ e.span = span ∧ ∃ x ∈ es, x.span = span ∧ x.file = e.file ∧ x.text.toList = put := by
  obtain ⟨x, hx, same, contained⟩ := puts
  have inFront (mem : x ∈ before) {front : List Char}
      (made : Becomes text 0 span.start before front) : Puts before e ∧ e.span.stop ≤ span.start :=
    ⟨⟨x, mem, same, contained⟩, same.2 ▸ (made.bounds.2 x mem).2⟩
  have after (mem : x ∈ behind) {stop : ℕ} {back : List Char}
      (made : Becomes text span.stop stop behind back) : Puts behind e ∧ span.stop ≤ e.span.start :=
    ⟨⟨x, mem, same, contained⟩, same.2 ▸ (made.bounds.2 x mem).1⟩
  cases h with
  | @edited y _ _ place made made' =>
    rcases List.mem_append.1 hx with mem | mem
    · exact .inl (inFront mem made)
    rcases List.mem_cons.1 mem with rfl | mem
    · exact .inr (.inr ⟨same.2.symm.trans place, x, hx, place, same.1, rfl⟩)
    · exact .inr (.inl (after mem made'))
  | kept made made' =>
    rcases List.mem_append.1 hx with mem | mem
    · exact .inl (inFront mem made)
    · exact .inr (.inl (after mem made'))

/-- Around the span of an edit. -/
theorem IsNormal.around_edited {text out : String} (h : IsNormal es) (one : ∀ e ∈ es, e.file = file)
    (done : apply text es = .ok out) (he : e ∈ es) : ∃ before behind,
      Around text.toList e.span before behind es e.text.toList out.toList := by
  have becomes := h.becomes one done
  obtain ⟨before, behind, rfl⟩ := List.append_of_mem he
  obtain ⟨front, back, made, later, whole⟩ := becomes.split
  exact ⟨before, behind, whole ▸ .edited rfl made later⟩

/-- Around a span that no edit touches. -/
theorem IsNormal.around_kept {text out : String} (h : IsNormal es) (one : ∀ e ∈ es, e.file = file)
    (done : apply text es = .ok out) (placed : Text.Placed text.toList span)
    (nonempty : span.start < span.stop)
    (apart : ∀ e ∈ es, e.span.stop ≤ span.start ∨ span.stop ≤ e.span.start) : ∃ before behind,
      Around text.toList span before behind es (Text.slice text.toList span) out.toList := by
  have becomes := h.becomes one done
  have parts : es = es.filter (fun e => e.span.stop ≤ span.start)
      ++ es.filter (fun e => !decide (e.span.stop ≤ span.start)) := by
    refine eq_filter_append (h.oneBehindTheOther one) fun x hx y hy order first => ?_
    rw [decide_eq_true_eq] at first ⊢
    have forward := h.forward y hy
    omega
  have beyond : ∀ e ∈ es.filter (fun e => !decide (e.span.stop ≤ span.start)),
      span.stop ≤ e.span.start := by
    intro e he
    obtain ⟨mem, notAhead⟩ := List.mem_filter.1 he
    refine (apart e mem).resolve_left fun ahead => ?_
    rw [decide_eq_true ahead] at notAhead
    nomatch notAhead
  have ahead : ∀ e ∈ es.filter (fun e => e.span.stop ≤ span.start), e.span.stop ≤ span.start :=
    fun e he => of_decide_eq_true (List.mem_filter.1 he).2
  generalize es.filter (fun e => e.span.stop ≤ span.start) = before at parts ahead
  generalize es.filter (fun e => !decide (e.span.stop ≤ span.start)) = behind at parts beyond
  subst parts
  obtain ⟨front, rest, made, later, whole⟩ := becomes.divide placed.start (Nat.zero_le _)
    placed.start.le_width ahead fun e he => nonempty.le.trans (beyond e he)
  obtain ⟨back, made', rfl⟩ := later.skip placed.stop nonempty.le placed.stop.le_width beyond
  refine ⟨before, behind, ?_⟩
  rw [whole, ← List.append_assoc]
  exact .kept made made'

end Edit

end MethodLift
