import MethodLift.Proofs.Edit.Normal
import MethodLift.Proofs.Text.Boundary
import MethodLift.Snapshot

/-!
# Normal edits apply

An edit can fail to apply in four ways: it runs backwards or overlaps another one, it cuts a
character, it reaches beyond the end of its text, or its file is not there.  The first way is closed
in a normal list.  `Fits` says of a single edit that the other three are closed.  Together they
suffice (`Snapshot.apply_of_isNormal`): the edits of one file are carried out in one pass that never
goes back, and what is done to one file leaves the others alone.
-/

namespace MethodLift

/-! ## One text -/

namespace Edit

/-- An edit whose span begins and ends at cuts of the text. -/
structure OnBoundaries (text : List Char) (e : Edit) : Prop where
  start : Text.Boundary text e.span.start
  stop : Text.Boundary text e.span.stop

/-- Edits in order, none of which starts before the cursor, can be carried out from there. -/
theorem applyFrom_ok {text : List Char} {cursor : ℕ} {es : List Edit}
    (forward : ∀ e ∈ es, e.span.start ≤ e.span.stop)
    (apart : es.Pairwise fun a b => a.span.stop ≤ b.span.start)
    (ahead : ∀ e ∈ es, cursor ≤ e.span.start) (fits : ∀ e ∈ es, OnBoundaries text e) :
    ∃ out, applyFrom text (Text.width text) cursor es = .ok out := by
  induction es generalizing cursor with
  | nil => exact ⟨_, rfl⟩
  | cons e es ih =>
    obtain ⟨start, stop⟩ := fits e List.mem_cons_self
    have forward' := forward e List.mem_cons_self
    have ahead' := ahead e List.mem_cons_self
    have inside := stop.le_width
    have inBounds : ¬((decide (Text.width text < e.span.stop)
        || decide (e.span.stop < e.span.start)) = true) := by
      simp only [Bool.or_eq_true, decide_eq_true_eq]
      omega
    have valid : ¬((decide (e.span.start < cursor) || !Text.isBoundary text e.span.start
        || !Text.isBoundary text e.span.stop) = true) := by
      simp only [Text.isBoundary_iff.2 start, Text.isBoundary_iff.2 stop, Bool.not_true,
        Bool.or_false, decide_eq_true_eq]
      omega
    obtain ⟨rest, later⟩ := ih (fun x hx => forward x (List.mem_cons_of_mem _ hx))
      (List.pairwise_cons.1 apart).2 (List.pairwise_cons.1 apart).1
      (fun x hx => fits x (List.mem_cons_of_mem _ hx))
    rw [applyFrom, if_neg inBounds, if_neg valid, later]
    exact ⟨_, rfl⟩

/-- The edits of one file in a normal list stand one behind the other, at different places. -/
lemma IsNormal.inOrder {es : List Edit} {file : String} (h : IsNormal es)
    (one : ∀ e ∈ es, e.file = file) :
    es.Pairwise fun a b => a.span.stop ≤ b.span.start ∧ a.span ≠ b.span := by
  refine h.apart.imp_of_mem ?_
  intro a b ha hb before
  have same : a.file = b.file := (one a ha).trans (one b hb).symm
  exact (before.resolve_left fun less => absurd same less.ne).2

lemma IsNormal.oneBehindTheOther {es : List Edit} {file : String} (h : IsNormal es)
    (one : ∀ e ∈ es, e.file = file) : es.Pairwise fun a b => a.span.stop ≤ b.span.start :=
  (h.inOrder one).imp And.left

/-- Normal edits of one file stay in their order. -/
lemma IsNormal.sortBySpan_eq {es : List Edit} {file : String} (h : IsNormal es)
    (one : ∀ e ∈ es, e.file = file) : sortBySpan es = es := by
  refine List.mergeSort_of_pairwise ((h.oneBehindTheOther one).imp_of_mem ?_)
  intro a b ha hb stop
  have forward := h.forward a ha
  have forward' := h.forward b hb
  rw [Span.notAfter_iff]
  omega

/-- Normal edits of one file that stand at cuts of its text can be carried out. -/
theorem IsNormal.apply_ok {es : List Edit} {file text : String} (h : IsNormal es)
    (one : ∀ e ∈ es, e.file = file) (fits : ∀ e ∈ es, OnBoundaries text.toList e) :
    ∃ out, apply text es = .ok out := by
  obtain ⟨out, done⟩ :=
    applyFrom_ok h.forward (h.oneBehindTheOther one) (fun _ _ => Nat.zero_le _) fits
  rw [apply, h.sortBySpan_eq one, done]
  exact ⟨_, rfl⟩

/-! ## Edits by file -/

variable {e : Edit} {es : List Edit} {groups : List (String × List Edit)}

/-- What the groups of a normal list are: their files differ, and each group is a normal list of
edits of its file. -/
structure Grouped (es : List Edit) (groups : List (String × List Edit)) : Prop where
  files : groups.Pairwise fun g h => g.1 < h.1
  normal : ∀ g ∈ groups, IsNormal g.2
  oneFile : ∀ g ∈ groups, ∀ e ∈ g.2, e.file = g.1
  occurs : ∀ g ∈ groups, ∃ e ∈ es, e.file = g.1
  given : ∀ g ∈ groups, ∀ e ∈ g.2, e ∈ es

/-- An edit of the first group's file joins that group. -/
lemma Grouped.join {others : List Edit} (h : Grouped es ((e.file, others) :: groups))
    (normal : IsNormal (e :: es)) : Grouped (e :: es) ((e.file, e :: others) :: groups) := by
  have before := (List.pairwise_cons.1 normal.apart).1
  have given := h.given (e.file, others) List.mem_cons_self
  have joined : IsNormal (e :: others) :=
    (h.normal _ List.mem_cons_self).cons (fun x hx => before x (given x hx))
      (normal.forward e List.mem_cons_self)
  refine ⟨List.pairwise_cons.2 (List.pairwise_cons.1 h.files), ?_, ?_, ?_, ?_⟩
  · exact List.forall_mem_cons.2 ⟨joined, (List.forall_mem_cons.1 h.normal).2⟩
  · refine List.forall_mem_cons.2 ⟨?_, (List.forall_mem_cons.1 h.oneFile).2⟩
    exact List.forall_mem_cons.2 ⟨rfl, (List.forall_mem_cons.1 h.oneFile).1⟩
  · refine List.forall_mem_cons.2 ⟨⟨e, List.mem_cons_self, rfl⟩, ?_⟩
    intro g hg
    obtain ⟨x, hx, file⟩ := h.occurs g (List.mem_cons_of_mem _ hg)
    exact ⟨x, List.mem_cons_of_mem _ hx, file⟩
  · refine List.forall_mem_cons.2 ⟨?_, ?_⟩
    · exact List.forall_mem_cons.2
        ⟨List.mem_cons_self, fun x hx => List.mem_cons_of_mem _ (given x hx)⟩
    · intro g hg x hx
      exact List.mem_cons_of_mem _ (h.given g (List.mem_cons_of_mem _ hg) x hx)

/-- An edit of a file before those of all groups makes a group of its own. -/
lemma Grouped.open (h : Grouped es groups) (normal : IsNormal (e :: es))
    (less : ∀ g ∈ groups, e.file < g.1) : Grouped (e :: es) ((e.file, [e]) :: groups) := by
  have single : IsNormal [e] :=
    ⟨fun x hx => normal.forward x (by simp_all), List.pairwise_singleton _ _⟩
  refine ⟨List.pairwise_cons.2 ⟨less, h.files⟩, ?_, ?_, ?_, ?_⟩
  · exact List.forall_mem_cons.2 ⟨single, h.normal⟩
  · exact List.forall_mem_cons.2 ⟨by simp, h.oneFile⟩
  · refine List.forall_mem_cons.2 ⟨⟨e, List.mem_cons_self, rfl⟩, ?_⟩
    intro g hg
    obtain ⟨x, hx, file⟩ := h.occurs g hg
    exact ⟨x, List.mem_cons_of_mem _ hx, file⟩
  · refine List.forall_mem_cons.2 ⟨by simp, ?_⟩
    intro g hg x hx
    exact List.mem_cons_of_mem _ (h.given g hg x hx)

/-- An edit that precedes others is of no later file. -/
lemma IsNormal.file_le (normal : IsNormal (e :: es)) (h : Grouped es groups)
    {g : String × List Edit} (hg : g ∈ groups) : e.file ≤ g.1 := by
  obtain ⟨x, hx, file⟩ := h.occurs g hg
  rcases (List.pairwise_cons.1 normal.apart).1 x hx with less | ⟨same, -⟩
  · exact file ▸ less.le
  · exact (same.trans file).le

theorem IsNormal.grouped (normal : IsNormal es) : Grouped es (group es) := by
  induction es with
  | nil => exact ⟨.nil, nofun, nofun, nofun, nofun⟩
  | cons e es ih =>
    have later := ih normal.tail
    rw [group]
    split
    next file others groups shape =>
      rw [shape] at later
      split
      next same =>
        obtain rfl : file = e.file := by simpa using same
        exact later.join normal
      next other =>
        have different : file ≠ e.file := by simpa using other
        have first : e.file < file :=
          lt_of_le_of_ne (normal.file_le later List.mem_cons_self) different.symm
        refine later.open normal (List.forall_mem_cons.2 ⟨first, ?_⟩)
        intro g hg
        exact lt_trans first ((List.pairwise_cons.1 later.files).1 g hg)
    next shape =>
      rw [shape] at later
      exact later.open normal nofun

end Edit

/-! ## A snapshot -/

namespace Snapshot

/-- Another text for one file leaves the texts of the others. -/
lemma lookup_insertFile {path text other : String} {files : List (String × String)}
    (h : other ≠ path) : (insertFile path text files).lookup other = files.lookup other := by
  have skip : (other == path) = false := by simpa using h
  induction files with
  | nil => simp [insertFile, List.lookup, skip]
  | cons file rest ih =>
    obtain ⟨p, t⟩ := file
    rw [insertFile]
    split
    · simp [List.lookup, skip]
    split
    next same =>
      obtain rfl : path = p := by simpa using same
      simp [List.lookup, skip]
    · rw [List.lookup_cons, ih, ← List.lookup_cons]

lemma text?_set {s : Snapshot} {path text other : String} (h : other ≠ path) :
    (s.set path text).text? other = s.text? other := lookup_insertFile h

/-- An edit that can be carried out on its own: its file is there, and its span begins and ends at
cuts of the file's text. -/
structure Fits (s : Snapshot) (e : Edit) : Prop where
  known : (s.text? e.file).isSome
  boundaries : ∀ text, s.text? e.file = some text → Edit.OnBoundaries text.toList e

/-- Groups of different files can be carried out one after the other. -/
theorem applyGroups_ok {s : Snapshot} {groups : List (String × List Edit)}
    (files : groups.Pairwise fun g h => g.1 < h.1)
    (known : ∀ g ∈ groups, ∃ text, s.text? g.1 = some text ∧ ∃ out, Edit.apply text g.2 = .ok out) :
    ∃ after, s.applyGroups groups = .ok after := by
  induction groups generalizing s with
  | nil => exact ⟨s, rfl⟩
  | cons g groups ih =>
    obtain ⟨text, lookup, updated, applied⟩ := known g List.mem_cons_self
    obtain ⟨path, edits⟩ := g
    have others := (List.pairwise_cons.1 files).1
    have later : ∃ after, (s.set path updated).applyGroups groups = .ok after := by
      refine ih (List.pairwise_cons.1 files).2 ?_
      intro h hh
      obtain ⟨text', lookup', rest⟩ := known h (List.mem_cons_of_mem _ hh)
      refine ⟨text', ?_, rest⟩
      rw [text?_set (others h hh).ne', lookup']
    obtain ⟨after, done⟩ := later
    refine ⟨after, ?_⟩
    rw [applyGroups, lookup]
    exact (congrArg (· >>= fun updated => (s.set path updated).applyGroups groups) applied).trans
      done

/-- Normal edits apply if each of them could be carried out on its own. -/
theorem apply_of_isNormal {s : Snapshot} {es : List Edit} (normal : Edit.IsNormal es)
    (fits : ∀ e ∈ es, s.Fits e) : ∃ after, s.apply es = .ok after := by
  have grouped := normal.grouped
  have known : ∀ g ∈ Edit.group es,
      ∃ text, s.text? g.1 = some text ∧ ∃ out, Edit.apply text g.2 = .ok out := by
    intro g hg
    obtain ⟨e, he, file⟩ := grouped.occurs g hg
    obtain ⟨text, lookup⟩ := Option.isSome_iff_exists.1 (fits e he).known
    rw [file] at lookup
    refine ⟨text, lookup, (grouped.normal g hg).apply_ok (grouped.oneFile g hg) ?_⟩
    intro x hx
    refine (fits x (grouped.given g hg x hx)).boundaries text ?_
    rw [grouped.oneFile g hg x hx, lookup]
  obtain ⟨after, done⟩ := applyGroups_ok grouped.files known
  refine ⟨after, ?_⟩
  rw [apply, normal.normalize]
  show s.applyGroups (Edit.byFile es) = _
  rw [Edit.byFile, normal.sort_eq, done]

end Snapshot

end MethodLift
