import MethodLift.Edit.Normal
import MethodLift.Proofs.Except
import MethodLift.Proofs.Text.Spans

/-!
# What normal edits look like

`normalize` sorts edits and merges neighbours, looking only at two neighbours at a time.  That is
enough: of three edits in a row, of which each comes before the next one, the first comes before the
last.  So a list that `normalize` lets through is normal as a whole (`normalize_isNormal`): every
span runs forwards, and of two edits of one file the first one ends before the second one starts.

Nothing new comes in on the way, as far as places are concerned: a normal edit stands where one of
the given edits stood (`normalize_place`).  Edits that run forwards and lie apart are let through
(`normalize_ok`).  And a normal list is its own normal form (`IsNormal.normalize`), which is why
edits that are normalized when a plan is made can be normalized again when it is carried out.
-/

namespace MethodLift

/-! ## The order of edits -/

lemma Span.notAfter_iff {a b : Span} :
    a.notAfter b = true ↔ a.start < b.start ∨ (a.start = b.start ∧ a.stop ≤ b.stop) := by
  simp only [Span.notAfter, Span.before, Bool.not_eq_true', Bool.or_eq_false_iff,
    Bool.and_eq_false_iff, decide_eq_false_iff_not, beq_eq_false_iff_ne]
  omega

namespace Edit

variable {a b c e : Edit} {es out : List Edit}

lemma notAfter_iff :
    a.notAfter b = true ↔ a.file < b.file ∨ (a.file = b.file ∧ a.span.notAfter b.span = true) := by
  simp [notAfter]

lemma notAfter_trans (hab : a.notAfter b = true) (hbc : b.notAfter c = true) :
    a.notAfter c = true := by
  rw [notAfter_iff] at *
  rcases hab with hab | ⟨hab, sab⟩
  · rcases hbc with hbc | ⟨hbc, -⟩
    · exact .inl (lt_trans hab hbc)
    · exact .inl (hbc ▸ hab)
  · rcases hbc with hbc | ⟨hbc, sbc⟩
    · exact .inl (hab ▸ hbc)
    · refine .inr ⟨hab.trans hbc, ?_⟩
      rw [Span.notAfter_iff] at *
      omega

lemma notAfter_total (a b : Edit) : (a.notAfter b || b.notAfter a) = true := by
  rw [Bool.or_eq_true, notAfter_iff, notAfter_iff]
  rcases lt_trichotomy a.file b.file with less | same | more
  · exact .inl (.inl less)
  · have total : a.span.notAfter b.span = true ∨ b.span.notAfter a.span = true := by
      rw [Span.notAfter_iff, Span.notAfter_iff]
      omega
    rcases total with first | second
    · exact .inl (.inr ⟨same, first⟩)
    · exact .inr (.inr ⟨same.symm, second⟩)
  · exact .inr (.inl more)

theorem sort_sorted (es : List Edit) : (sort es).Pairwise fun a b => a.notAfter b = true := by
  unfold sort
  refine List.pairwise_mergeSort ?_ notAfter_total es
  intro a b c hab hbc
  exact notAfter_trans hab hbc

lemma mem_sort : e ∈ sort es ↔ e ∈ es := List.mem_mergeSort

/-! ## Normal lists -/

/-- An edit leaves off before another one begins, or is one of an earlier file.  Of two insertions
at one offset none comes before the other. -/
def Precedes (a b : Edit) : Prop :=
  a.file < b.file ∨ (a.file = b.file ∧ a.span.stop ≤ b.span.start ∧ a.span ≠ b.span)

/-- A list of edits that can be carried out in its order. -/
structure IsNormal (es : List Edit) : Prop where
  forward : ∀ e ∈ es, e.span.start ≤ e.span.stop
  apart : es.Pairwise Precedes

/-- Two edits of one place. -/
def SamePlace (a b : Edit) : Prop := a.file = b.file ∧ a.span = b.span

lemma SamePlace.refl (e : Edit) : SamePlace e e := ⟨rfl, rfl⟩

lemma SamePlace.symm (h : SamePlace a b) : SamePlace b a := ⟨h.1.symm, h.2.symm⟩

/-- The first two have to run forwards, or the last could stand before the first. -/
lemma Precedes.trans (hab : Precedes a b) (hbc : Precedes b c)
    (forward : a.span.start ≤ a.span.stop) (forward' : b.span.start ≤ b.span.stop) :
    Precedes a c := by
  rcases hab with hab | ⟨hab, sab, dab⟩
  · rcases hbc with hbc | ⟨hbc, -⟩
    · exact .inl (lt_trans hab hbc)
    · exact .inl (hbc ▸ hab)
  · rcases hbc with hbc | ⟨hbc, sbc, -⟩
    · exact .inl (hab ▸ hbc)
    · refine .inr ⟨hab.trans hbc, by omega, ?_⟩
      intro same
      have start := congrArg Span.start same
      have stop := congrArg Span.stop same
      have equal : a.span.start = b.span.start ∧ a.span.stop = b.span.stop := by omega
      exact dab (congrArg₂ Span.mk equal.1 equal.2)

lemma Precedes.notAfter (h : Precedes a b) (forward : a.span.start ≤ a.span.stop)
    (forward' : b.span.start ≤ b.span.stop) : a.notAfter b = true := by
  rw [notAfter_iff]
  rcases h with h | ⟨same, stop, -⟩
  · exact .inl h
  · refine .inr ⟨same, ?_⟩
    rw [Span.notAfter_iff]
    omega

/-- An edit in front of a normal list whose edits it precedes. -/
lemma IsNormal.cons (h : IsNormal es) (before : ∀ x ∈ es, Precedes a x)
    (forward : a.span.start ≤ a.span.stop) : IsNormal (a :: es) := by
  refine ⟨?_, List.pairwise_cons.2 ⟨before, h.apart⟩⟩
  intro e he
  rcases List.mem_cons.1 he with rfl | he
  · exact forward
  · exact h.forward e he

/-- It is enough that the first edit of the list is preceded. -/
lemma IsNormal.precedes_all {rest : List Edit} (h : IsNormal (b :: rest)) (hab : Precedes a b)
    (forward : a.span.start ≤ a.span.stop) : ∀ x ∈ b :: rest, Precedes a x := by
  intro x hx
  rcases List.mem_cons.1 hx with rfl | hx
  · exact hab
  · have between : Precedes b x := (List.pairwise_cons.1 h.apart).1 x hx
    exact hab.trans between forward (h.forward b List.mem_cons_self)

lemma IsNormal.tail (h : IsNormal (e :: es)) : IsNormal es :=
  ⟨fun x hx => h.forward x (List.mem_cons_of_mem _ hx), (List.pairwise_cons.1 h.apart).2⟩

/-- The edits of one file among normal ones. -/
lemma IsNormal.ofFile (h : IsNormal es) (file : String) : IsNormal (es.filter (·.file == file)) :=
  ⟨fun e he => h.forward e (List.mem_filter.1 he).1, h.apart.filter _⟩

/-! ## Merging gives a normal list -/

/-- One step of merging: the next edit stands behind the previous one, is the same edit again, or is
another insertion at the same offset. -/
lemma mergeAfter_cases {previous : Edit} (h : mergeAfter previous (e :: es) = .ok out) :
    e.span.start ≤ e.span.stop
    ∧ ((∃ tail, mergeAfter e es = .ok tail ∧ out = previous :: tail ∧ ¬SamePlace previous e
        ∧ (previous.file = e.file → previous.span.stop ≤ e.span.start))
      ∨ (previous = e ∧ mergeAfter previous es = .ok out)
      ∨ (SamePlace previous e ∧ e.span.isEmpty = true
        ∧ mergeAfter { previous with text := previous.text ++ e.text } es = .ok out)) := by
  rw [mergeAfter] at h
  split at h
  · nomatch h
  next runs =>
  refine ⟨Nat.le_of_not_lt runs, ?_⟩
  split at h
  next other =>
    have different : previous.file ≠ e.file := by simpa using other
    obtain ⟨tail, merged, rfl⟩ := map_eq_ok.1 h
    exact .inl ⟨tail, merged, rfl, fun same => different same.1, fun same => absurd same different⟩
  next same =>
  have file : previous.file = e.file := by simpa using same
  split at h
  next again => exact .inr (.inl ⟨eq_of_beq again, h⟩)
  split at h
  next joined =>
    rw [Bool.and_eq_true, beq_iff_eq] at joined
    exact .inr (.inr ⟨⟨file, joined.1⟩, joined.2, h⟩)
  split at h
  · nomatch h
  next disjoint =>
    obtain ⟨tail, merged, rfl⟩ := map_eq_ok.1 h
    simp only [Bool.or_eq_true, decide_eq_true_eq, beq_iff_eq, not_or, not_lt] at disjoint
    exact .inl ⟨tail, merged, rfl, fun same => disjoint.2 same.2, fun _ => disjoint.1⟩

/-- What merging makes of a sorted list whose first edit is `previous`: a normal list that begins
where `previous` stands, with each edit at a place of the sorted list. -/
structure Merged (previous : Edit) (es out : List Edit) : Prop where
  starts : ∃ head rest, out = head :: rest ∧ SamePlace head previous
  normal : IsNormal out
  place : ∀ e ∈ out, ∃ e' ∈ previous :: es, SamePlace e e'

/-- What was merged from a later edit on, with the edit before it put in front. -/
lemma Merged.cons {previous : Edit} (h : Merged e es out) (before : Precedes previous e)
    (forward : previous.span.start ≤ previous.span.stop) :
    Merged previous (e :: es) (previous :: out) := by
  obtain ⟨head, rest, rfl, file, span⟩ := h.starts
  have before' : Precedes previous head := by
    unfold Precedes at before ⊢
    rw [file, span]
    exact before
  have all := h.normal.precedes_all before' forward
  refine ⟨⟨previous, head :: rest, rfl, .refl _⟩, h.normal.cons all forward, ?_⟩
  intro x hx
  rcases List.mem_cons.1 hx with rfl | hx
  · exact ⟨x, List.mem_cons_self, .refl _⟩
  · obtain ⟨e', he', place⟩ := h.place x hx
    exact ⟨e', List.mem_cons_of_mem _ he', place⟩

/-- What was merged with the first edit in another form, or with an edit left out. -/
lemma Merged.of_samePlace {previous previous' : Edit} (h : Merged previous' es out)
    (same : SamePlace previous' previous) : Merged previous (e :: es) out := by
  obtain ⟨head, rest, starts, file, span⟩ := h.starts
  refine ⟨⟨head, rest, starts, file.trans same.1, span.trans same.2⟩, h.normal, ?_⟩
  intro x hx
  obtain ⟨e', he', place⟩ := h.place x hx
  rcases List.mem_cons.1 he' with rfl | he'
  · exact ⟨previous, List.mem_cons_self, place.1.trans same.1, place.2.trans same.2⟩
  · exact ⟨e', List.mem_cons_of_mem _ (List.mem_cons_of_mem _ he'), place⟩

/-- Merging looks at two neighbours at a time, and keeps the order between them. -/
theorem mergeAfter_merged {previous : Edit}
    (sorted : (previous :: es).Pairwise fun a b => a.notAfter b = true)
    (forward : previous.span.start ≤ previous.span.stop)
    (h : mergeAfter previous es = .ok out) : Merged previous es out := by
  induction es generalizing previous out with
  | nil =>
    obtain rfl := Except.ok.inj h
    refine ⟨⟨previous, [], rfl, .refl _⟩, ⟨?_, List.pairwise_singleton _ _⟩, ?_⟩
    · simpa using forward
    · exact fun e he => ⟨e, he, .refl _⟩
  | cons e es ih =>
    have order : previous.notAfter e = true := (List.pairwise_cons.1 sorted).1 e List.mem_cons_self
    have later := (List.pairwise_cons.1 sorted).2
    have skipped : (previous :: es).Pairwise fun a b => a.notAfter b = true :=
      sorted.sublist ((List.sublist_cons_self e es).cons_cons previous)
    obtain ⟨forward', ⟨tail, merged, rfl, other, behind⟩ | ⟨rfl, merged⟩ | ⟨same, -, merged⟩⟩ :=
      mergeAfter_cases h
    · have before : Precedes previous e := (notAfter_iff.1 order).imp id fun ⟨file, _⟩ =>
        ⟨file, behind file, fun span => other ⟨file, span⟩⟩
      exact (ih later forward' merged).cons before forward
    · exact (ih skipped forward merged).of_samePlace (.refl _)
    · -- two insertions at one offset become one, which stands where they stood
      set both : Edit := { previous with text := previous.text ++ e.text }
      have sorted' : (both :: es).Pairwise fun a b => a.notAfter b = true :=
        List.pairwise_cons.2 (List.pairwise_cons.1 skipped)
      exact (ih sorted' forward merged).of_samePlace ⟨rfl, rfl⟩

/-- Normalizing is merging a sorted list that begins with some edit, if there is any. -/
lemma normalize_cases (h : normalize es = .ok out) : (sort es = [] ∧ out = [])
    ∨ ∃ first rest, sort es = first :: rest ∧ first.span.start ≤ first.span.stop
      ∧ mergeAfter first rest = .ok out := by
  rw [normalize] at h
  cases shape : sort es with
  | nil =>
    rw [shape] at h
    exact .inl ⟨rfl, (Except.ok.inj h).symm⟩
  | cons first rest =>
    rw [shape, mergeSorted] at h
    split at h
    · nomatch h
    next runs => exact .inr ⟨first, rest, rfl, Nat.le_of_not_lt runs, h⟩

/-- A list that `normalize` lets through is normal. -/
theorem normalize_isNormal (h : normalize es = .ok out) : IsNormal out := by
  rcases normalize_cases h with ⟨-, rfl⟩ | ⟨first, rest, shape, forward, merged⟩
  · exact ⟨nofun, .nil⟩
  · exact (mergeAfter_merged (shape ▸ sort_sorted es) forward merged).normal

/-- A normal edit stands where one of the given edits stood. -/
theorem normalize_place (h : normalize es = .ok out) (he : e ∈ out) :
    ∃ e' ∈ es, SamePlace e e' := by
  rcases normalize_cases h with ⟨-, rfl⟩ | ⟨first, rest, shape, forward, merged⟩
  · nomatch he
  · obtain ⟨given, hg, place⟩ :=
      (mergeAfter_merged (shape ▸ sort_sorted es) forward merged).place e he
    rw [← shape, mem_sort] at hg
    exact ⟨given, hg, place⟩

/-- Edits put the text of an edit at its place, if not there alone. -/
def Puts (es : List Edit) (e : Edit) : Prop :=
  ∃ e' ∈ es, SamePlace e' e ∧ e.text.toList <:+: e'.text.toList

/-- No given edit is lost. -/
lemma mergeAfter_puts {previous : Edit} (h : mergeAfter previous es = .ok out) :
    ∀ e ∈ previous :: es, Puts out e := by
  induction es generalizing previous out with
  | nil =>
    obtain rfl := Except.ok.inj h
    exact fun e he => ⟨e, he, .refl e, List.infix_rfl⟩
  | cons x es ih =>
    -- what is put at the place of the joined edit is put at the place of both
    have joined {previous' : Edit} (merged : mergeAfter previous' es = .ok out) {e : Edit}
        (same : SamePlace previous' e) (text : e.text.toList <:+: previous'.text.toList) :
        Puts out e := by
      obtain ⟨e', he', place, inside⟩ := ih merged previous' List.mem_cons_self
      exact ⟨e', he', ⟨place.1.trans same.1, place.2.trans same.2⟩, text.trans inside⟩
    have later {previous' : Edit} (merged : mergeAfter previous' es = .ok out) :
        ∀ e ∈ es, Puts out e := fun e he => ih merged e (List.mem_cons_of_mem _ he)
    obtain ⟨-, ⟨tail, merged, rfl, -⟩ | ⟨rfl, merged⟩ | ⟨same, -, merged⟩⟩ := mergeAfter_cases h
    · refine List.forall_mem_cons.2 ⟨⟨previous, List.mem_cons_self, .refl _, List.infix_rfl⟩, ?_⟩
      intro e he
      obtain ⟨e', he', puts⟩ := ih merged e he
      exact ⟨e', List.mem_cons_of_mem _ he', puts⟩
    · have first := joined merged (.refl _) List.infix_rfl
      exact List.forall_mem_cons.2 ⟨first, List.forall_mem_cons.2 ⟨first, later merged⟩⟩
    · have whole : (previous.text ++ x.text).toList = previous.text.toList ++ x.text.toList :=
        String.toList_append
      refine List.forall_mem_cons.2 ⟨joined merged ⟨rfl, rfl⟩ ?_,
        List.forall_mem_cons.2 ⟨joined merged same ?_, later merged⟩⟩
      · exact whole ▸ (List.prefix_append _ _).isInfix
      · exact whole ▸ (List.suffix_append _ _).isInfix

theorem normalize_puts (h : normalize es = .ok out) (he : e ∈ es) : Puts out e := by
  rw [← mem_sort] at he
  rcases normalize_cases h with ⟨none, -⟩ | ⟨first, rest, shape, -, merged⟩
  · rw [none] at he
    nomatch he
  · exact mergeAfter_puts merged e (shape ▸ he)

/-! ## Edits that have a normal form -/

/-- Two edits that can be carried out together: they are of different files or the same edit, both
insert at one offset, or they are of different spans of which one ends before the other begins. -/
def Compatible (a b : Edit) : Prop :=
  a.file = b.file → a = b ∨ (∃ offset, a.span = .point offset ∧ b.span = .point offset)
    ∨ (a.span ≠ b.span ∧ a.span.Apart b.span)

lemma Compatible.refl (e : Edit) : Compatible e e := fun _ => .inl rfl

lemma Compatible.symm (h : Compatible a b) : Compatible b a := by
  intro same
  rcases h same.symm with rfl | ⟨offset, first, second⟩ | ⟨other, apart⟩
  · exact .inl rfl
  · exact .inr (.inl ⟨offset, second, first⟩)
  · exact .inr (.inr ⟨other.symm, apart.symm⟩)

instance : Std.Symm Compatible := ⟨fun _ _ => Compatible.symm⟩

/-- Of insertions only the place matters. -/
lemma Compatible.of_samePlace {offset : ℕ} (h : Compatible a c) (place : SamePlace b a)
    (inserts : a.span = .point offset) : Compatible b c := by
  intro same
  have inserts' : b.span = .point offset := place.2.trans inserts
  rcases h (place.1.symm.trans same) with rfl | ⟨offset', first, second⟩ | ⟨other, apart⟩
  · exact .inr (.inl ⟨offset, inserts', inserts⟩)
  · exact .inr (.inl ⟨offset', place.2.trans first, second⟩)
  · exact .inr (.inr ⟨place.2 ▸ other, place.2 ▸ apart⟩)

lemma span_eq_point {s : Span} (forward : s.start ≤ s.stop) (empty : s.isEmpty = true) :
    s = .point s.start :=
  congrArg (Span.mk s.start) (Nat.le_antisymm (of_decide_eq_true empty) forward)

/-- Of two different places of a file in order, that are compatible, the first one ends before the
second one begins. -/
lemma Compatible.stop_le (h : Compatible a b) (same : a.file = b.file) (other : a.span ≠ b.span)
    (order : a.notAfter b = true) (forward : b.span.start ≤ b.span.stop) :
    a.span.stop ≤ b.span.start := by
  have starts := Span.notAfter_iff.1 ((notAfter_iff.1 order).resolve_left fun less => less.ne same).2
  rcases h same with rfl | ⟨offset, first, second⟩ | ⟨-, apart⟩
  · exact absurd rfl other
  · exact absurd (first.trans second.symm) other
  · unfold Span.Apart at apart
    omega

/-- Sorted edits that are compatible can be merged. -/
lemma mergeAfter_ok {previous : Edit}
    (sorted : (previous :: es).Pairwise fun a b => a.notAfter b = true)
    (compatible : (previous :: es).Pairwise Compatible)
    (forward : ∀ e ∈ previous :: es, e.span.start ≤ e.span.stop) :
    ∃ out, mergeAfter previous es = .ok out := by
  induction es generalizing previous with
  | nil => exact ⟨_, rfl⟩
  | cons e es ih =>
    obtain ⟨order, sorted'⟩ := List.pairwise_cons.1 sorted
    obtain ⟨fits, compatible'⟩ := List.pairwise_cons.1 compatible
    obtain ⟨runs, forward'⟩ := List.forall_mem_cons.1 forward
    have runs' := forward' e List.mem_cons_self
    -- the next edit is left out where it is the previous one again, or is put together with it
    have skipped (text : String)
        (fits' : ∀ x ∈ es, Compatible { previous with text := text } x) :
        ∃ out, mergeAfter { previous with text := text } es = .ok out :=
      ih (List.pairwise_cons.2 ⟨fun x hx => order x (List.mem_cons_of_mem _ hx),
          (List.pairwise_cons.1 sorted').2⟩)
        (List.pairwise_cons.2 ⟨fits', (List.pairwise_cons.1 compatible').2⟩)
        (List.forall_mem_cons.2 ⟨runs, fun x hx => forward' x (List.mem_cons_of_mem _ hx)⟩)
    obtain ⟨tail, merged⟩ := ih sorted' compatible' forward'
    have kept : ∃ out, (previous :: ·) <$> mergeAfter e es = .ok out :=
      ⟨previous :: tail, by rw [merged]; rfl⟩
    rw [mergeAfter, if_neg (Nat.not_lt.2 runs')]
    split
    · exact kept
    next same =>
    have file : previous.file = e.file := by simpa using same
    split
    · exact skipped previous.text fun x hx => fits x (List.mem_cons_of_mem _ hx)
    next notAgain =>
    split
    next joined =>
      rw [Bool.and_eq_true, beq_iff_eq] at joined
      have inserts := joined.1.trans (span_eq_point runs' joined.2)
      refine skipped _ fun x hx => ?_
      exact (fits x (List.mem_cons_of_mem _ hx)).of_samePlace ⟨rfl, rfl⟩ inserts
    next notJoined =>
    split
    next overlapping =>
      exfalso
      have fit := fits e List.mem_cons_self
      have other : previous.span ≠ e.span := by
        intro twice
        rcases fit file with rfl | ⟨offset, first, second⟩ | ⟨other, -⟩
        · exact notAgain (beq_self_eq_true _)
        · refine notJoined ?_
          rw [twice, second, Span.isEmpty_point, beq_self_eq_true, Bool.and_self]
        · exact other twice
      have behind := fit.stop_le file other (order e List.mem_cons_self) runs'
      simp only [Bool.or_eq_true, decide_eq_true_eq, beq_iff_eq] at overlapping
      exact overlapping.elim (Nat.not_lt.2 behind) other
    · exact kept

/-- Edits that run forwards and are compatible have a normal form. -/
theorem normalize_ok_of_compatible (compatible : ∀ a ∈ es, ∀ b ∈ es, Compatible a b)
    (forward : ∀ e ∈ es, e.span.start ≤ e.span.stop) : ∃ out, normalize es = .ok out := by
  have compatible' : (sort es).Pairwise Compatible :=
    List.pairwise_of_forall_mem_list fun a ha b hb => compatible a (mem_sort.1 ha) b (mem_sort.1 hb)
  have forward' : ∀ e ∈ sort es, e.span.start ≤ e.span.stop := fun e he => forward e (mem_sort.1 he)
  have sorted := sort_sorted es
  rw [normalize]
  cases shape : sort es with
  | nil => exact ⟨_, rfl⟩
  | cons first rest =>
    rw [shape] at compatible' forward' sorted
    rw [mergeSorted, if_neg (Nat.not_lt.2 (forward' first List.mem_cons_self))]
    exact mergeAfter_ok sorted compatible' forward'

/-- Edits that run forwards and lie apart have a normal form. -/
theorem normalize_ok (apart : es.Pairwise fun a b => a.span.Apart b.span)
    (forward : ∀ e ∈ es, e.span.start ≤ e.span.stop) : ∃ out, normalize es = .ok out := by
  have pairs : es.Pairwise Compatible := by
    refine apart.imp_of_mem ?_
    intro a b ha hb apart _
    by_cases same : a.span = b.span
    · rw [Span.Apart, same] at apart
      have empty : b.span.isEmpty = true := decide_eq_true (apart.elim id id)
      have inserts := span_eq_point (forward b hb) empty
      exact .inr (.inl ⟨_, same.trans inserts, inserts⟩)
    · exact .inr (.inr ⟨same, apart⟩)
  refine normalize_ok_of_compatible ?_ forward
  intro a ha b hb
  exact pairs.forall_of_forall (fun e _ => Compatible.refl e) ha hb

/-! ## Edits whose normal form is known -/

/-- An edit that merging leaves behind is compatible with everything after it. -/
lemma compatible_of_precedes {previous : Edit} (other : ¬SamePlace previous e)
    (behind : previous.file = e.file → previous.span.stop ≤ e.span.start)
    (order : previous.notAfter e = true) (later : ∀ x ∈ es, e.notAfter x = true)
    (forward : previous.span.start ≤ previous.span.stop) (forward' : e.span.start ≤ e.span.stop) :
    ∀ x ∈ e :: es, Compatible previous x := by
  have first : Compatible previous e :=
    fun same => .inr (.inr ⟨fun span => other ⟨same, span⟩, .inl (behind same)⟩)
  refine List.forall_mem_cons.2 ⟨first, fun x hx same => .inr (.inr ?_)⟩
  -- an edit of the same file from behind: the one between is of this file too
  have fileBetween : previous.file = e.file := by
    have upper : e.file ≤ x.file := (notAfter_iff.1 (later x hx)).elim le_of_lt fun h => h.1.le
    have lower : previous.file ≤ e.file := (notAfter_iff.1 order).elim le_of_lt fun h => h.1.le
    exact le_antisymm lower (same ▸ upper)
  have stop := behind fileBetween
  have start := Span.notAfter_iff.1
    ((notAfter_iff.1 (later x hx)).resolve_left fun less =>
      less.ne (fileBetween.symm.trans same)).2
  refine ⟨fun span => other ⟨fileBetween, ?_⟩, .inl (by omega)⟩
  have starts := congrArg Span.start span
  have stops := congrArg Span.stop span
  have equal : previous.span.start = e.span.start ∧ previous.span.stop = e.span.stop := by omega
  exact congrArg₂ Span.mk equal.1 equal.2

/-- Sorted edits that were merged run forwards and are compatible. -/
lemma compatible_of_mergeAfter {previous : Edit}
    (sorted : (previous :: es).Pairwise fun a b => a.notAfter b = true)
    (forward : previous.span.start ≤ previous.span.stop)
    (h : mergeAfter previous es = .ok out) :
    (∀ e ∈ es, e.span.start ≤ e.span.stop) ∧ (previous :: es).Pairwise Compatible := by
  induction es generalizing previous out with
  | nil => exact ⟨nofun, List.pairwise_singleton _ _⟩
  | cons e es ih =>
    obtain ⟨orders, later⟩ := List.pairwise_cons.1 sorted
    have skipped : (previous :: es).Pairwise fun a b => a.notAfter b = true :=
      sorted.sublist ((List.sublist_cons_self e es).cons_cons previous)
    obtain ⟨forward', ⟨tail, merged, rfl, other, behind⟩ | ⟨rfl, merged⟩ | ⟨same, empty, merged⟩⟩ :=
      mergeAfter_cases h
    · obtain ⟨runs, compatible⟩ := ih later forward' merged
      have before := compatible_of_precedes other behind (orders e List.mem_cons_self)
        (List.pairwise_cons.1 later).1 forward forward'
      exact ⟨List.forall_mem_cons.2 ⟨forward', runs⟩, List.pairwise_cons.2 ⟨before, compatible⟩⟩
    · obtain ⟨runs, compatible⟩ := ih skipped forward merged
      have again := List.forall_mem_cons.2 ⟨.refl previous, (List.pairwise_cons.1 compatible).1⟩
      exact ⟨List.forall_mem_cons.2 ⟨forward', runs⟩, List.pairwise_cons.2 ⟨again, compatible⟩⟩
    · set both : Edit := { previous with text := previous.text ++ e.text }
      have sorted' : (both :: es).Pairwise fun a b => a.notAfter b = true :=
        List.pairwise_cons.2 (List.pairwise_cons.1 skipped)
      obtain ⟨runs, compatible⟩ := ih sorted' forward merged
      have inserts : e.span = .point e.span.start := span_eq_point forward' empty
      have joined : both.span = .point e.span.start := same.2.trans inserts
      obtain ⟨ofBoth, rest⟩ := List.pairwise_cons.1 compatible
      have ofPrevious : ∀ x ∈ e :: es, Compatible previous x := List.forall_mem_cons.2
        ⟨fun _ => .inr (.inl ⟨_, same.2.trans inserts, inserts⟩),
          fun x hx => (ofBoth x hx).of_samePlace ⟨rfl, rfl⟩ joined⟩
      have ofNext : ∀ x ∈ es, Compatible e x :=
        fun x hx => (ofBoth x hx).of_samePlace same.symm joined
      exact ⟨List.forall_mem_cons.2 ⟨forward', runs⟩,
        List.pairwise_cons.2 ⟨ofPrevious, List.pairwise_cons.2 ⟨ofNext, rest⟩⟩⟩

/-- Edits that have a normal form run forwards and are compatible. -/
theorem compatible_of_normalize (h : normalize es = .ok out) :
    (∀ e ∈ es, e.span.start ≤ e.span.stop) ∧ ∀ a ∈ es, ∀ b ∈ es, Compatible a b := by
  have ofSorted : (∀ e ∈ sort es, e.span.start ≤ e.span.stop) ∧ (sort es).Pairwise Compatible := by
    rcases normalize_cases h with ⟨none, -⟩ | ⟨first, rest, shape, forward, merged⟩
    · rw [none]
      exact ⟨nofun, .nil⟩
    · obtain ⟨runs, compatible⟩ := compatible_of_mergeAfter (shape ▸ sort_sorted es) forward merged
      rw [shape]
      exact ⟨List.forall_mem_cons.2 ⟨forward, runs⟩, compatible⟩
  refine ⟨fun e he => ofSorted.1 e (mem_sort.2 he), fun a ha b hb => ?_⟩
  exact ofSorted.2.forall_of_forall (fun e _ => Compatible.refl e) (mem_sort.2 ha) (mem_sort.2 hb)

/-! ## Normal lists are their own normal form -/

theorem IsNormal.sorted (h : IsNormal es) : es.Pairwise fun a b => a.notAfter b = true := by
  induction es with
  | nil => exact .nil
  | cons e es ih =>
    refine List.pairwise_cons.2 ⟨?_, ih h.tail⟩
    intro x hx
    have before : Precedes e x := (List.pairwise_cons.1 h.apart).1 x hx
    exact before.notAfter (h.forward e List.mem_cons_self)
      (h.forward x (List.mem_cons_of_mem _ hx))

theorem IsNormal.sort_eq (h : IsNormal es) : sort es = es := List.mergeSort_of_pairwise h.sorted

lemma IsNormal.mergeAfter (h : IsNormal (e :: es)) : mergeAfter e es = .ok (e :: es) := by
  induction es generalizing e with
  | nil => rfl
  | cons x es ih =>
    have before : Precedes e x := (List.pairwise_cons.1 h.apart).1 x List.mem_cons_self
    have forward : ¬x.span.stop < x.span.start :=
      Nat.not_lt.2 (h.tail.forward x List.mem_cons_self)
    rw [Edit.mergeAfter, if_neg forward, ih h.tail]
    split
    · rfl
    next same =>
    have file : e.file = x.file := by simpa using same
    obtain ⟨-, stop, spans⟩ := before.resolve_left fun less => absurd file less.ne
    have notSame : ¬(e == x) = true := by
      rw [beq_iff_eq]
      rintro rfl
      exact spans rfl
    have apart : ¬(x.span.start < e.span.stop || e.span == x.span) = true := by
      simp [spans, stop]
    rw [if_neg notSame, if_neg (by simp [spans]), if_neg apart]
    rfl

/-- A normal list is its own normal form. -/
theorem IsNormal.normalize (h : IsNormal es) : normalize es = .ok es := by
  rw [Edit.normalize, h.sort_eq]
  cases es with
  | nil => rfl
  | cons e rest =>
    have forward : ¬e.span.stop < e.span.start := Nat.not_lt.2 (h.forward e List.mem_cons_self)
    rw [mergeSorted, if_neg forward, h.mergeAfter]

end Edit

end MethodLift
