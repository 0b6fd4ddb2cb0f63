import MethodLift.Proofs.Edit.Files
import MethodLift.Proofs.Workspace.Sources
import MethodLift.Report.Preview

/-!
# A preview shows what edits do

A preview is not made from the snapshot that the edits would change.  It puts the edits into their
normal form first, takes from the snapshot only the files that have edits, carries the normal edits
out there, where they are brought into normal form once more, and leaves out the files whose text
stays as it is.  So two things could come apart: which edits are refused, and which texts are shown.

Neither does (`Preview.agrees_with_apply`).  A normal list is its own normal form, the groups of its
edits are of different files, and a group can be carried out or not, and makes the same text,
whatever other files are there.  `Shows` says what a preview tells of a snapshot before and after
edits; it leaves nothing of the preview open (`Shows.unique`).
-/

namespace MethodLift

open Snapshot (Ordered)

/-! ## Groups, one by one -/

namespace Snapshot

variable {s : Snapshot} {edits normal : List Edit} {groups : List (String × List Edit)}

/-- A group of edits whose file is there and which can be carried out on its text. -/
def Carries (s : Snapshot) (g : String × List Edit) : Prop :=
  ∃ text, s.text? g.1 = some text ∧ ∃ out, Edit.apply text g.2 = .ok out

/-- Groups of different files can be carried out exactly if each of them can be on its own. -/
theorem applyGroups_ok_iff (files : groups.Pairwise fun g h => g.1 < h.1) :
    (∃ after, s.applyGroups groups = .ok after) ↔ ∀ g ∈ groups, s.Carries g := by
  refine ⟨fun ⟨after, done⟩ g hg => ?_, applyGroups_ok files⟩
  obtain ⟨text, out, known, applied, -⟩ := (text?_applyGroups files done).1 g hg
  exact ⟨text, known, out, applied⟩

/-- Edits are carried out in the groups of their normal form. -/
lemma apply_of_normalize (h : Edit.normalize edits = .ok normal) :
    s.apply edits = s.applyGroups (Edit.group normal) := by
  rw [apply, h]
  exact congrArg s.applyGroups (congrArg Edit.group (Edit.normalize_isNormal h).sort_eq)

end Snapshot

namespace Preview

variable {s before partly after : Snapshot} {edits normal : List Edit} {p q : Preview}
  {groups : List (String × List Edit)}

/-! ## The files that have edits -/

/-- The snapshot of the files that have edits: each of them with its text. -/
lemma touched_eq_ok (h : touched s groups = .ok before) :
    before.files.map (·.1) = groups.map (·.1)
      ∧ ∀ file ∈ before.files, s.text? file.1 = some file.2 := by
  induction groups generalizing before with
  | nil =>
    obtain rfl := Except.ok.inj h
    exact ⟨rfl, nofun⟩
  | cons g groups ih =>
    rw [touched] at h
    split at h
    next text known =>
      obtain ⟨rest, later, is⟩ := bind_eq_ok.1 h
      obtain rfl := Except.ok.inj is
      obtain ⟨paths, texts⟩ := ih later
      exact ⟨congrArg (g.1 :: ·) paths, List.forall_mem_cons.2 ⟨known, texts⟩⟩
    · nomatch h

lemma exists_touched (known : ∀ g ∈ groups, ∃ text, s.text? g.1 = some text) :
    ∃ before, touched s groups = .ok before := by
  induction groups with
  | nil => exact ⟨_, rfl⟩
  | cons g groups ih =>
    obtain ⟨first, others⟩ := List.forall_mem_cons.1 known
    obtain ⟨text, first⟩ := first
    obtain ⟨rest, later⟩ := ih others
    refine ⟨⟨(g.1, text) :: rest.files⟩, ?_⟩
    rw [touched, first, later]
    rfl

/-- The files that have edits stand in order if their groups do. -/
lemma touched_ordered (h : touched s groups = .ok before)
    (files : groups.Pairwise fun g h => g.1 < h.1) : Ordered before.files := by
  have paths : (before.files.map (·.1)).Pairwise (· < ·) := by
    rw [(touched_eq_ok h).1]
    exact List.pairwise_map.2 files
  exact List.pairwise_map.1 paths

/-- They have the texts that they have in the whole snapshot. -/
lemma text?_touched (h : touched s groups = .ok before)
    (files : groups.Pairwise fun g h => g.1 < h.1) {g : String × List Edit} (hg : g ∈ groups) :
    before.text? g.1 = s.text? g.1 := by
  have listed : g.1 ∈ before.files.map (·.1) :=
    (touched_eq_ok h).1 ▸ List.mem_map_of_mem hg
  obtain ⟨file, hf, path⟩ := List.mem_map.1 listed
  rw [← path, (touched_eq_ok h).2 file hf]
  exact (touched_ordered h files).lookup hf

/-- Groups can be carried out on the files that have edits exactly if they can be on all files. -/
lemma touched_carries (h : touched s groups = .ok before)
    (files : groups.Pairwise fun g h => g.1 < h.1) :
    (∀ g ∈ groups, before.Carries g) ↔ ∀ g ∈ groups, s.Carries g := by
  refine forall₂_congr fun g hg => ?_
  rw [Snapshot.Carries, text?_touched h files hg, Snapshot.Carries]

/-- Nor does it matter for the texts whether the files without edits are there. -/
lemma text?_partly (h : touched s groups = .ok before)
    (files : groups.Pairwise fun g h => g.1 < h.1)
    (shown : before.applyGroups groups = .ok partly) (done : s.applyGroups groups = .ok after)
    {g : String × List Edit} (hg : g ∈ groups) :
    ∃ text, partly.text? g.1 = some text ∧ after.text? g.1 = some text := by
  obtain ⟨text, out, known, applied, is⟩ := (Snapshot.text?_applyGroups files shown).1 g hg
  obtain ⟨text', out', known', applied', is'⟩ := (Snapshot.text?_applyGroups files done).1 g hg
  rw [text?_touched h files hg] at known
  obtain rfl : text = text' := Option.some.inj (known.symm.trans known')
  obtain rfl : out = out' := Except.ok.inj (applied.symm.trans applied')
  exact ⟨out, is, is'⟩

/-! ## What a preview shows -/

/-- What a preview tells of edits that have the normal form `normal` and make one snapshot of
another: the files whose text changes, in order, each with its new text, the difference between the
two texts and the number of its edits, and the number of all edits. -/
structure Shows (s after : Snapshot) (normal : List Edit) (p : Preview) : Prop where
  inOrder : p.files.Pairwise fun f g => f.file < g.file
  changed : ∀ path, (∃ f ∈ p.files, f.file = path) ↔ after.text? path ≠ s.text? path
  modified : ∀ f ∈ p.files, after.text? f.file = some f.modified
  diffs : ∀ f ∈ p.files, ∃ text, s.text? f.file = some text
    ∧ f.diff = Report.unifiedDiff f.file text f.modified
  counts : ∀ f ∈ p.files, f.editCount = normal.countP (·.file == f.file)
  total : p.editCount = normal.length

/-- Two previews show the same of a file. -/
lemma Shows.file_unique (hp : Shows s after normal p) (hq : Shows s after normal q)
    {f g : FilePreview} (hf : f ∈ p.files) (hg : g ∈ q.files) (same : f.file = g.file) : f = g := by
  obtain ⟨text, known, diff⟩ := hp.diffs f hf
  obtain ⟨text', known', diff'⟩ := hq.diffs g hg
  have texts : f.modified = g.modified :=
    Option.some.inj ((hp.modified f hf).symm.trans (same ▸ hq.modified g hg))
  obtain rfl : text = text' := Option.some.inj (known.symm.trans (same ▸ known'))
  have counts : f.editCount = g.editCount := by rw [hp.counts f hf, hq.counts g hg, same]
  have diffs : f.diff = g.diff := by rw [diff, diff', same, texts]
  cases f
  cases g
  simp only at same texts diffs counts
  rw [same, texts, diffs, counts]

lemma Shows.subset (hp : Shows s after normal p) (hq : Shows s after normal q) :
    p.files ⊆ q.files := by
  intro f hf
  obtain ⟨g, hg, same⟩ := (hq.changed f.file).2 ((hp.changed f.file).1 ⟨f, hf, rfl⟩)
  exact hp.file_unique hq hf hg same.symm ▸ hg

/-- What a preview shows determines the preview. -/
theorem Shows.unique (hp : Shows s after normal p) (hq : Shows s after normal q) : p = q := by
  have nodup {r : Preview} (hr : Shows s after normal r) : r.files.Nodup :=
    hr.inOrder.imp fun less same => less.ne (congrArg FilePreview.file same)
  have perm : p.files.Perm q.files :=
    (List.perm_ext_iff_of_nodup (nodup hp) (nodup hq)).2 fun _ =>
      ⟨fun h => hp.subset hq h, fun h => hq.subset hp h⟩
  have files : p.files = q.files :=
    perm.eq_of_pairwise (fun f g _ _ fg gf => absurd gf (lt_asymm fg)) hp.inOrder hq.inOrder
  cases p
  cases q
  exact congrArg₂ Preview.mk files (hp.total.trans hq.total.symm)

lemma file?_eq_some {path text : String} {f : FilePreview}
    (h : file? after normal path text = some f) :
    f.file = path ∧ f.modified = (after.text? path).getD "" ∧ text ≠ f.modified
      ∧ f.diff = Report.unifiedDiff path text f.modified
      ∧ f.editCount = normal.countP (·.file == path) := by
  rw [file?] at h
  split at h
  · nomatch h
  next different =>
    obtain rfl := Option.some.inj h
    exact ⟨rfl, rfl, by simpa using different, by dsimp only, rfl⟩

/-- The files of a preview that is made of the files with edits. -/
theorem shows_of_partly (isNormal : Edit.IsNormal normal)
    (h : touched s (Edit.group normal) = .ok before)
    (shown : before.applyGroups (Edit.group normal) = .ok partly)
    (done : s.applyGroups (Edit.group normal) = .ok after) :
    Shows s after normal
      ⟨before.files.filterMap fun file => file? partly normal file.1 file.2, normal.length⟩ := by
  have grouped := isNormal.grouped.files
  obtain ⟨paths, texts⟩ := touched_eq_ok h
  have texts_after {file : String × String} (hf : file ∈ before.files) :
      ∃ text, partly.text? file.1 = some text ∧ after.text? file.1 = some text := by
    have listed : file.1 ∈ (Edit.group normal).map (·.1) := paths ▸ List.mem_map_of_mem hf
    obtain ⟨g, hg, path⟩ := List.mem_map.1 listed
    rw [← path]
    exact text?_partly h grouped shown done hg
  have opened {f : FilePreview} (hf : f ∈ before.files.filterMap fun file =>
      file? partly normal file.1 file.2) :
      ∃ text, s.text? f.file = some text ∧ after.text? f.file = some f.modified
        ∧ text ≠ f.modified ∧ f.diff = Report.unifiedDiff f.file text f.modified
        ∧ f.editCount = normal.countP (·.file == f.file) := by
    obtain ⟨file, hf, is⟩ := List.mem_filterMap.1 hf
    obtain ⟨path, modified, different, diff, count⟩ := file?_eq_some is
    obtain ⟨text, known, known'⟩ := texts_after hf
    rw [known, Option.getD_some] at modified
    rw [path]
    exact ⟨file.2, texts file hf, modified ▸ known', different, diff, count⟩
  refine ⟨?_, fun path => ⟨?_, fun changes => ?_⟩, ?_, ?_, ?_, rfl⟩
  · refine (touched_ordered h grouped).filterMap _ fun a b less f hf g hg => ?_
    rwa [(file?_eq_some hf).1, (file?_eq_some hg).1]
  · rintro ⟨f, hf, rfl⟩
    obtain ⟨text, known, known', different, -⟩ := opened hf
    rw [known, known']
    exact fun same => different (Option.some.inj same).symm
  · -- a text that changes is that of a file with edits
    have some : ∃ g ∈ Edit.group normal, g.1 = path := by
      by_contra none
      refine changes ((Snapshot.text?_applyGroups grouped done).2 path fun g hg same => ?_)
      exact none ⟨g, hg, same⟩
    obtain ⟨g, hg, rfl⟩ := some
    have listed : g.1 ∈ before.files.map (·.1) := paths ▸ List.mem_map_of_mem hg
    obtain ⟨file, hf, path⟩ := List.mem_map.1 listed
    obtain ⟨text, known, known'⟩ := texts_after hf
    have different : ¬(file.2 == text) = true := by
      rw [← path, known', texts file hf] at changes
      exact fun same => changes (congrArg _ (eq_of_beq same).symm)
    have shown : file? partly normal file.1 file.2 = some ⟨file.1, text,
        Report.unifiedDiff file.1 file.2 text, normal.countP (·.file == file.1)⟩ := by
      rw [file?, known, Option.getD_some, if_neg different]
    exact ⟨_, List.mem_filterMap.2 ⟨file, hf, shown⟩, path⟩
  · intro f hf
    obtain ⟨-, -, modified, -⟩ := opened hf
    exact modified
  · intro f hf
    obtain ⟨text, known, -, -, diff, -⟩ := opened hf
    exact ⟨text, known, diff⟩
  · intro f hf
    obtain ⟨-, -, -, -, -, count⟩ := opened hf
    exact count

/-! ## Previews and applications -/

/-- A preview is refused with edits that have no normal form. -/
lemma exists_normal (h : ofEdits s edits = .ok p) :
    ∃ normal, Edit.normalize edits = .ok normal := by
  obtain ⟨normal, is, -⟩ := bind_eq_ok.1 h
  exact ⟨normal, is⟩

lemma ofEdits_of_normalize (h : Edit.normalize edits = .ok normal) :
    ofEdits s edits = (do
      let before ← touched s (Edit.group normal)
      let after ← before.applyGroups (Edit.group normal)
      return ⟨before.files.filterMap fun file => file? after normal file.1 file.2,
        normal.length⟩) := by
  have isNormal := Edit.normalize_isNormal h
  rw [ofEdits, h]
  change (touched s (Edit.group (Edit.sort normal)) >>= fun before => before.apply normal >>= _) = _
  rw [isNormal.sort_eq]
  exact congrArg _ (funext fun before =>
    congrArg (· >>= _) (Snapshot.apply_of_normalize isNormal.normalize))

/-- What edits make of a snapshot, the preview of the edits shows. -/
theorem ofEdits_of_apply (h : Edit.normalize edits = .ok normal)
    (done : s.apply edits = .ok after) :
    ∃ p, ofEdits s edits = .ok p ∧ Shows s after normal p := by
  have isNormal := Edit.normalize_isNormal h
  have grouped := isNormal.grouped.files
  rw [Snapshot.apply_of_normalize h] at done
  have carries := (Snapshot.applyGroups_ok_iff grouped).1 ⟨after, done⟩
  obtain ⟨before, found⟩ := exists_touched fun g hg => (carries g hg).imp fun _ => And.left
  obtain ⟨partly, shown⟩ :=
    (Snapshot.applyGroups_ok_iff grouped).2 ((touched_carries found grouped).2 carries)
  refine ⟨_, ?_, shows_of_partly isNormal found shown done⟩
  rw [ofEdits_of_normalize h]
  exact bind_eq_ok.2 ⟨before, found, bind_eq_ok.2 ⟨partly, shown, rfl⟩⟩

/-- Edits that have a preview can be carried out. -/
theorem exists_apply_of_ofEdits (h : Edit.normalize edits = .ok normal)
    (ok : ofEdits s edits = .ok p) : ∃ after, s.apply edits = .ok after := by
  have grouped := (Edit.normalize_isNormal h).grouped.files
  rw [ofEdits_of_normalize h] at ok
  obtain ⟨before, found, ok⟩ := bind_eq_ok.1 ok
  obtain ⟨partly, shown, -⟩ := bind_eq_ok.1 ok
  rw [Snapshot.apply_of_normalize h, Snapshot.applyGroups_ok_iff grouped]
  exact (touched_carries found grouped).1 ((Snapshot.applyGroups_ok_iff grouped).1 ⟨partly, shown⟩)

/-- Edits have a preview exactly if they can be carried out, and the preview is the one that shows
what they make of the snapshot. -/
theorem agrees_with_apply (s : Snapshot) (edits : List Edit) :
    ((∃ p, ofEdits s edits = .ok p) ↔ ∃ after, s.apply edits = .ok after)
      ∧ ∀ p, ofEdits s edits = .ok p ↔ ∃ normal after, Edit.normalize edits = .ok normal
        ∧ s.apply edits = .ok after ∧ Shows s after normal p := by
  refine ⟨⟨fun ⟨p, ok⟩ => ?_, fun ⟨after, done⟩ => ?_⟩, fun p => ⟨fun ok => ?_, ?_⟩⟩
  · obtain ⟨normal, h⟩ := exists_normal ok
    exact exists_apply_of_ofEdits h ok
  · obtain ⟨normal, h, -⟩ := bind_eq_ok.1 done
    obtain ⟨p, ok, -⟩ := ofEdits_of_apply h done
    exact ⟨p, ok⟩
  · obtain ⟨normal, h⟩ := exists_normal ok
    obtain ⟨after, done⟩ := exists_apply_of_ofEdits h ok
    obtain ⟨q, ok', shows⟩ := ofEdits_of_apply h done
    obtain rfl := Except.ok.inj (ok.symm.trans ok')
    exact ⟨normal, after, h, done, shows⟩
  · rintro ⟨normal, after, h, done, shows⟩
    obtain ⟨q, ok, shows'⟩ := ofEdits_of_apply h done
    rw [ok, shows.unique shows']

end Preview

end MethodLift
