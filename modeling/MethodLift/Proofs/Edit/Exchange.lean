import MethodLift.Proofs.Edit.Files
import MethodLift.Proofs.Text.Exchange

/-!
# Edits that cover what is exchanged

Edits make the same of two texts that differ at some places only, if each place lies inside an edit:
what is copied lies between the edits, and there both texts are the same.
-/

namespace MethodLift.Edit

open Text (SameBut)

variable {places : List Span} {n : ℕ} {a b : List Char}

/-- Applying edits from a cursor on, where each place lies outside of the text, in front of the
cursor, or inside an edit. -/
lemma applyFrom_exchange {out : List Char} {size cursor : ℕ} {es : List Edit}
    (same : SameBut places n a b) (done : applyFrom a size cursor es = .ok out)
    (covered : ∀ place ∈ places, Span.Apart ⟨n, n + Text.width a⟩ place
      ∨ place.stop ≤ n + cursor ∨ ∃ e ∈ es, (e.span.shift n).contains place = true) :
    applyFrom b size cursor es = .ok out := by
  induction es generalizing cursor out with
  | nil =>
    obtain rfl := Except.ok.inj done
    rw [applyFrom, same.dropBytes fun place hp => ?_]
    refine (covered place hp).imp_right fun known => ?_
    rcases known with front | ⟨e, he, -⟩
    · exact front
    · cases he
  | cons e es ih =>
    obtain ⟨forward, ahead, rest, later, rfl⟩ := applyFrom_cons done
    have gap : Text.slice a ⟨cursor, e.span.start⟩ = Text.slice b ⟨cursor, e.span.start⟩ := by
      refine same.slice fun place hp => (covered place hp).imp_right fun known => ?_
      rcases known with front | ⟨x, hx, inside⟩
      · exact .inr (by rw [Span.shift, Nat.add_comm]; exact front)
      · left
        have start := (Span.contains_iff.1 inside).1
        have order : e.span.start ≤ x.span.start := by
          rcases List.mem_cons.1 hx with rfl | hx
          · exact Nat.le_refl _
          · exact forward.trans (applyFrom_ahead later x hx)
        exact (Nat.add_le_add_right order _).trans start
    have rest' := ih later fun place hp => (covered place hp).imp_right fun known => by
      rcases known with front | ⟨x, hx, inside⟩
      · exact .inl (front.trans (by omega))
      · rcases List.mem_cons.1 hx with rfl | hx
        · left
          rw [Nat.add_comm]
          exact (Span.contains_iff.1 inside).2
        · exact .inr ⟨x, hx, inside⟩
    rw [applyFrom] at done ⊢
    simp only [Text.isBoundary_congr same.alike, later] at done
    simp only [← gap, rest']
    exact done

/-- An area of a text after its edits, counted from the beginning of the area on. -/
theorem apply_area_exchange {text other out : String} {area : Span} {edits normal : List Edit}
    (same : SameBut places 0 text.toList other.toList) (normalized : normalize edits = .ok normal)
    (applied : apply (Text.sliceString text area) normal = .ok out)
    (covered : ∀ place ∈ places, area.Apart place
      ∨ ∃ e ∈ edits, (e.span.shift area.start).contains place = true) :
    apply (Text.sliceString other area) normal = .ok out := by
  have inArea := same.area area
  by_cases empty : Text.slice text.toList area = []
  · have length := inArea.alike.length_eq
    rw [empty, List.length_nil, eq_comm, List.length_eq_zero_iff] at length
    rw [Text.sliceString, empty] at applied
    rwa [Text.sliceString, length]
  obtain ⟨chars, done, rfl⟩ := map_eq_ok.1 applied
  rw [Text.sliceString, String.toList_ofList] at done
  refine map_eq_ok.2 ⟨chars, ?_, rfl⟩
  rw [Text.sliceString, String.toList_ofList, ← Text.width_congr inArea.alike]
  refine applyFrom_exchange inArea done fun place hp => (covered place hp).imp (fun apart => ?_)
    fun edited => ?_
  · obtain ⟨x, z, -, start, stop⟩ := Text.slice_ne_nil empty
    rw [Text.width_append, start] at stop
    rwa [stop]
  · obtain ⟨e, he, inside⟩ := edited
    obtain ⟨e', he', at_, -⟩ := normalize_puts normalized he
    exact .inr ⟨e', List.mem_mergeSort.2 he', at_.2 ▸ inside⟩

/-- A whole text after its edits. -/
theorem apply_exchange {text other out : String} {es : List Edit}
    (same : SameBut places 0 text.toList other.toList) (done : apply text es = .ok out)
    (covered : ∀ place ∈ places, ∃ e ∈ es, e.span.contains place = true) :
    apply other es = .ok out := by
  obtain ⟨chars, ran, rfl⟩ := map_eq_ok.1 done
  refine map_eq_ok.2 ⟨chars, ?_, rfl⟩
  rw [← Text.width_congr same.alike]
  refine applyFrom_exchange same ran fun place hp => .inr (.inr ?_)
  obtain ⟨e, he, inside⟩ := covered place hp
  exact ⟨e, List.mem_mergeSort.2 he, inside⟩

end MethodLift.Edit
