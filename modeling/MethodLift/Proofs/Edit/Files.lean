import MethodLift.Proofs.Edit.Pieces

/-!
# Files after edits

A normal list of edits can be read file by file: each file of a snapshot becomes what the edits of
that file make of its text, and a file that has none keeps its text (`Snapshot.text?_apply`).
-/

namespace MethodLift

/-! ## Edits before and behind another one -/

namespace Edit

lemma applyFrom_bounds {text out : List Char} {size cursor : ℕ} {e : Edit} {es : List Edit}
    (h : applyFrom text size cursor (e :: es) = .ok out) :
    Text.Boundary text e.span.start ∧ Text.Boundary text e.span.stop := by
  rw [applyFrom] at h
  split at h
  · cases h
  split at h
  · cases h
  next valid =>
    simp only [Bool.or_eq_true, not_or, Bool.not_eq_true', Bool.not_eq_false] at valid
    exact ⟨Text.isBoundary_iff.1 valid.1.2, Text.isBoundary_iff.1 valid.2⟩

/-- An edit that replaces text is not changed when edits are merged. -/
lemma mergeAfter_keeps {previous : Edit} {es out : List Edit}
    (h : mergeAfter previous es = .ok out) :
    ∀ e ∈ previous :: es, e.span.isEmpty = false → e ∈ out := by
  induction es generalizing previous out with
  | nil =>
    obtain rfl := Except.ok.inj h
    exact fun e he _ => he
  | cons x es ih =>
    obtain ⟨-, ⟨tail, merged, rfl, -⟩ | ⟨rfl, merged⟩ | ⟨⟨-, span⟩, empty, merged⟩⟩ :=
      mergeAfter_cases h
    · refine List.forall_mem_cons.2 ⟨fun _ => List.mem_cons_self, fun e he replaces => ?_⟩
      exact List.mem_cons_of_mem _ (ih merged e he replaces)
    · exact List.forall_mem_cons.2 ⟨ih merged previous List.mem_cons_self, ih merged⟩
    · -- only insertions are put together
      have inserts {e : Edit} (at_ : e.span = x.span) : ¬e.span.isEmpty = false := by
        rw [at_, empty]
        exact Bool.noConfusion
      refine List.forall_mem_cons.2 ⟨fun replaces => absurd replaces (inserts span),
        List.forall_mem_cons.2 ⟨fun replaces => absurd replaces (inserts rfl), fun e he => ?_⟩⟩
      exact ih merged e (List.mem_cons_of_mem _ he)

theorem mem_of_normalize {es out : List Edit} {e : Edit} (h : normalize es = .ok out) (he : e ∈ es)
    (replaces : e.span.isEmpty = false) : e ∈ out := by
  rw [← mem_sort] at he
  rcases normalize_cases h with ⟨none, -⟩ | ⟨first, rest, shape, -, merged⟩
  · rw [none] at he
    nomatch he
  · exact mergeAfter_keeps merged e (shape ▸ he) replaces

/-- What a normal list of edits makes of a text has nothing of the places that lie inside one of the
edits. -/
theorem IsNormal.woven {text out : String} {es : List Edit} {places : List Span}
    {Word : String → Prop} (normal : IsNormal es) (done : apply text es = .ok out)
    (texts : ∀ e ∈ es, Text.Woven text.toList places Word e.text.toList)
    (covered : ∀ place ∈ places, ∃ e ∈ es, e.span.contains place = true) :
    Text.Woven text.toList places Word out.toList := by
  set whole : Span := ⟨0, Text.width text.toList⟩ with whole_eq
  have all : Text.sliceString text whole = text := by
    rw [Text.sliceString, whole_eq, ← Text.dropBytes_eq_slice]
    exact (congrArg String.ofList (Text.dropBytes_append [] text.toList)).trans
      String.ofList_toList
  have applied : apply (Text.sliceString text whole) es = .ok out := all.symm ▸ done
  refine woven_of_apply normal.normalize applied texts fun place hp => .inr ?_
  obtain ⟨e, he, inside⟩ := covered place hp
  exact ⟨e, he, inside⟩

end Edit

/-! ## The edits of one file -/

namespace Edit

variable {e : Edit} {es : List Edit}

/-- No edit is lost when edits are grouped. -/
lemma mem_group (he : e ∈ es) : ∃ g ∈ group es, g.1 = e.file := by
  induction es with
  | nil => cases he
  | cons x es ih =>
    rw [group]
    split
    next file others groups shape =>
      rw [shape] at ih
      split
      next same =>
        obtain rfl := eq_of_beq same
        rcases List.mem_cons.1 he with rfl | he
        · exact ⟨_, List.mem_cons_self, rfl⟩
        · obtain ⟨g, hg, is⟩ := ih he
          rcases List.mem_cons.1 hg with rfl | hg
          · exact ⟨_, List.mem_cons_self, is⟩
          · exact ⟨g, List.mem_cons_of_mem _ hg, is⟩
      · rcases List.mem_cons.1 he with rfl | he
        · exact ⟨_, List.mem_cons_self, rfl⟩
        · obtain ⟨g, hg, is⟩ := ih he
          exact ⟨g, List.mem_cons_of_mem _ hg, is⟩
    next shape =>
      rw [shape] at ih
      rcases List.mem_cons.1 he with rfl | he
      · exact ⟨_, List.mem_cons_self, rfl⟩
      · obtain ⟨g, hg, -⟩ := ih he
        cases hg

/-- The group of a file are the edits of that file. -/
theorem IsNormal.group_eq_filter (normal : IsNormal es) :
    ∀ g ∈ group es, g.2 = es.filter (·.file == g.1) := by
  induction es with
  | nil => exact List.forall_mem_nil _
  | cons e es ih =>
    have known := ih normal.tail
    have later := normal.tail.grouped
    have own : (e :: es).filter (·.file == e.file) = e :: es.filter (·.file == e.file) :=
      List.filter_cons_of_pos (beq_self_eq_true e.file)
    have other {g : String × List Edit} (hg : g ∈ group es) (different : e.file ≠ g.1) :
        g.2 = (e :: es).filter (·.file == g.1) := by
      rw [List.filter_cons_of_neg (by simpa using different), known g hg]
    rw [group]
    split
    next file others groups shape =>
      rw [shape] at known later other
      split
      next same =>
        obtain rfl := eq_of_beq same
        refine List.forall_mem_cons.2 ⟨?_, fun g hg => ?_⟩
        · exact (congrArg _ (known _ List.mem_cons_self)).trans own.symm
        · exact other (List.mem_cons_of_mem _ hg) ((List.pairwise_cons.1 later.files).1 g hg).ne
      next different =>
        have different : file ≠ e.file := by simpa using different
        have away : ∀ g ∈ (file, others) :: groups, e.file ≠ g.1 := by
          have first := (normal.file_le later List.mem_cons_self).lt_of_ne different.symm
          refine List.forall_mem_cons.2 ⟨first.ne, fun g hg => ?_⟩
          exact (first.trans ((List.pairwise_cons.1 later.files).1 g hg)).ne
        refine List.forall_mem_cons.2 ⟨?_, fun g hg => other hg (away g hg)⟩
        have none : es.filter (·.file == e.file) = [] := by
          refine List.filter_eq_nil_iff.2 fun x hx same => ?_
          obtain ⟨g, hg, file⟩ := mem_group hx
          rw [shape] at hg
          exact away g hg ((eq_of_beq same).symm.trans file.symm)
        exact (own.trans (congrArg _ none)).symm
    next shape =>
      have none : es = [] := by
        refine List.eq_nil_iff_forall_not_mem.2 fun x hx => ?_
        obtain ⟨g, hg, -⟩ := mem_group hx
        rw [shape] at hg
        cases hg
      subst none
      exact List.forall_mem_singleton.2 own.symm

end Edit

/-! ## The texts after edits -/

namespace Snapshot

lemma text?_set_self (s : Snapshot) (path text : String) :
    (s.set path text).text? path = some text := by
  have known (files : List (String × String)) :
      (insertFile path text files).lookup path = some text := by
    induction files with
    | nil => simp [insertFile]
    | cons file rest ih =>
      obtain ⟨p, t⟩ := file
      rw [insertFile]
      split
      · simp [List.lookup]
      split
      · simp [List.lookup]
      next other => rw [List.lookup_cons, Bool.eq_false_iff.2 other, ih]
  exact known s.files

/-- A group changes its file as its edits say, and no other. -/
lemma text?_applyGroups {s after : Snapshot} {groups : List (String × List Edit)}
    (files : groups.Pairwise fun g h => g.1 < h.1) (done : s.applyGroups groups = .ok after) :
    (∀ g ∈ groups, ∃ text out, s.text? g.1 = some text ∧ Edit.apply text g.2 = .ok out
        ∧ after.text? g.1 = some out)
      ∧ ∀ path, (∀ g ∈ groups, g.1 ≠ path) → after.text? path = s.text? path := by
  induction groups generalizing s with
  | nil =>
    obtain rfl := Except.ok.inj done
    exact ⟨by simp, fun _ _ => rfl⟩
  | cons g groups ih =>
    obtain ⟨path, edits⟩ := g
    rw [applyGroups] at done
    split at done
    next text known =>
      obtain ⟨updated, applied, done⟩ := bind_eq_ok.1 done
      obtain ⟨less, files⟩ := List.pairwise_cons.1 files
      obtain ⟨changed, kept⟩ := ih files done
      refine ⟨List.forall_mem_cons.2 ⟨⟨text, updated, known, applied, ?_⟩, fun g hg => ?_⟩,
        fun other away => ?_⟩
      · rw [kept path fun g hg => (less g hg).ne', text?_set_self]
      · obtain ⟨text', out, known', rest⟩ := changed g hg
        rw [text?_set (less g hg).ne'] at known'
        exact ⟨text', out, known', rest⟩
      · obtain ⟨first, rest⟩ := List.forall_mem_cons.1 away
        rw [kept other rest, text?_set (Ne.symm first)]
    · cases done

/-- Each file becomes what its own edits make of it. -/
theorem text?_apply {s after : Snapshot} {es : List Edit} (normal : Edit.IsNormal es)
    (done : s.apply es = .ok after) (path : String) :
    (∀ text, s.text? path = some text →
      ∃ out, Edit.apply text (es.filter (·.file == path)) = .ok out
        ∧ after.text? path = some out)
      ∧ ((∀ e ∈ es, e.file ≠ path) → after.text? path = s.text? path) := by
  rw [apply, normal.normalize] at done
  change s.applyGroups (Edit.byFile es) = _ at done
  rw [Edit.byFile, normal.sort_eq] at done
  obtain ⟨changed, kept⟩ := text?_applyGroups normal.grouped.files done
  have unchanged (away : ∀ e ∈ es, e.file ≠ path) : after.text? path = s.text? path := by
    refine kept path fun g hg same => ?_
    obtain ⟨e, he, file⟩ := normal.grouped.occurs g hg
    exact away e he (file.trans same)
  refine ⟨fun text known => ?_, unchanged⟩
  by_cases some : ∃ e ∈ es, e.file = path
  · obtain ⟨e, he, rfl⟩ := some
    obtain ⟨g, hg, file⟩ := Edit.mem_group he
    obtain ⟨text', out, known', applied, is⟩ := changed g hg
    rw [file] at known' is
    obtain rfl : text = text' := Option.some.inj (known.symm.trans known')
    rw [normal.group_eq_filter g hg, file] at applied
    exact ⟨out, applied, is⟩
  · have away : ∀ e ∈ es, e.file ≠ path := fun e he same => some ⟨e, he, same⟩
    have none : es.filter (·.file == path) = [] :=
      List.filter_eq_nil_iff.2 fun e he same => away e he (eq_of_beq same)
    refine ⟨text, ?_, (unchanged away).trans known⟩
    rw [none, Edit.apply, Edit.sortBySpan, List.mergeSort_nil]
    have all : Text.dropBytes text.toList 0 = text.toList := Text.dropBytes_append [] _
    exact congrArg Except.ok ((congrArg String.ofList all).trans String.ofList_toList)

end Snapshot

end MethodLift
