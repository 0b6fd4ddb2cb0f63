import MethodLift.Proofs.Edit.Apply
import MethodLift.Proofs.Lift.Computing

/-!
# Which edits have a normal form

Merging compares each edit with the one before it in the sorted list, and that decides a condition
on all pairs: no span runs backwards, and every two edits of a file can be carried out together
(`Compatible`).  So `normalize` refuses no edits without a conflict and lets none through that have
one (`normalizes_exactly`).

The edits that are left of one file can be carried out in its text.  This is said file by file:
edits of different files may be of the same span, and `apply` is given a text and takes all its
edits to be meant for it (`edits_of_two_files_refused`).
-/

namespace MethodLift.Edit

/-- The edits of a file, in their order. -/
def ofFile (file : String) (es : List Edit) : List Edit := es.filter (·.file == file)

lemma file_of_mem_ofFile {file : String} {es : List Edit} {e : Edit} (h : e ∈ ofFile file es) :
    e.file = file := eq_of_beq (List.mem_filter.1 h).2

/-- What a normal form is good for: it is in order, no two edits of a file overlap or are of the same
span, it is its own normal form, and the edits of each file can be carried out in every text whose
cuts they begin and end at. -/
structure IsNormalForm (out : List Edit) : Prop where
  sorted : out.Pairwise fun a b => a.notAfter b = true
  disjoint : out.Pairwise fun a b => a.file = b.file → a.span.stop ≤ b.span.start
  distinct : out.Pairwise fun a b => a.file = b.file → a.span ≠ b.span
  again : normalize out = .ok out
  applies : ∀ file text, (∀ e ∈ ofFile file out, OnBoundaries text.toList e) →
    ∃ after, apply text (ofFile file out) = .ok after

theorem IsNormal.isNormalForm {out : List Edit} (h : IsNormal out) : IsNormalForm out := by
  have inFile {a b : Edit} (before : Precedes a b) (same : a.file = b.file) :
      a.span.stop ≤ b.span.start ∧ a.span ≠ b.span :=
    (before.resolve_left fun less => less.ne same).2
  exact
    { sorted := h.sorted
      disjoint := h.apart.imp fun before same => (inFile before same).1
      distinct := h.apart.imp fun before same => (inFile before same).2
      again := h.normalize
      applies := fun file _ fits => (h.ofFile file).apply_ok (fun _ => file_of_mem_ofFile) fits }

/-- Edits have a normal form exactly if none runs backwards and every two of a file that are not the
same edit are insertions at one offset, or are of different spans of which one ends before the other
begins.  The normal form is sorted and without overlaps, stays as it is, and can be carried out. -/
theorem normalizes_exactly (es : List Edit) :
    ((∃ out, normalize es = .ok out) ↔
      (∀ e ∈ es, e.span.start ≤ e.span.stop) ∧ ∀ a ∈ es, ∀ b ∈ es, Compatible a b)
    ∧ ∀ out, normalize es = .ok out → IsNormalForm out := by
  refine ⟨⟨?_, ?_⟩, fun out made => (normalize_isNormal made).isNormalForm⟩
  · rintro ⟨out, made⟩
    exact compatible_of_normalize made
  · rintro ⟨forward, compatible⟩
    exact normalize_ok_of_compatible compatible forward

/-- Edits of two files, one given twice, and insertions at the end of a replacement. -/
theorem mixed_edits_normalize :
    let given : List Edit := [⟨"b.py", ⟨1, 2⟩, "x"⟩, ⟨"a.py", ⟨3, 3⟩, "!"⟩, ⟨"a.py", ⟨0, 3⟩, "foo"⟩,
      ⟨"a.py", ⟨3, 3⟩, "?"⟩, ⟨"a.py", ⟨0, 3⟩, "foo"⟩]
    let out : List Edit :=
      [⟨"a.py", ⟨0, 3⟩, "foo"⟩, ⟨"a.py", ⟨3, 3⟩, "!?"⟩, ⟨"b.py", ⟨1, 2⟩, "x"⟩]
    normalize given = .ok out ∧ IsNormalForm out := by
  intro given out
  have made : normalize given = .ok out := by
    unfold given out
    rw [normalize_eq_sorted]
    decide +kernel
  exact ⟨made, (normalizes_exactly given).2 out made⟩

/-- A normal form with edits of two files need not apply to a text as a whole, although all its
spans are spans of the text. -/
theorem edits_of_two_files_refused :
    let edits : List Edit := [⟨"a.py", ⟨0, 1⟩, "x"⟩, ⟨"b.py", ⟨0, 1⟩, "y"⟩]
    normalize edits = .ok edits ∧ (∀ e ∈ edits, OnBoundaries "ab".toList e)
      ∧ apply "ab" edits = .error (.invalidRange "b.py" ⟨0, 1⟩) := by
  intro edits
  refine ⟨?_, ?_, ?_⟩
  · unfold edits
    rw [normalize_eq_sorted]
    decide +kernel
  · have start : Text.Boundary "ab".toList 0 := Text.isBoundary_iff.1 (by decide)
    have stop : Text.Boundary "ab".toList 1 := Text.isBoundary_iff.1 (by decide)
    simp only [edits, List.forall_mem_cons]
    exact ⟨⟨start, stop⟩, ⟨start, stop⟩, nofun⟩
  · unfold edits
    rw [applyComputed.eq]
    decide +kernel

end MethodLift.Edit
