import MethodLift.Proofs.Edit.Apply
import MethodLift.Proofs.Text.Spans

/-!
# What an edited text is made of

Applying edits copies the stretches of the text between them and puts their texts in between.  So if
every one of some places lies inside a span that an edit replaces, nothing of these places is copied.
`Woven` says this of a text that was computed from a source, possibly by edits within edits: it is
made of stretches of the source that lie apart from the places, and of words of a given kind.
-/

namespace MethodLift

namespace Text

/-! ## Slices of slices -/

lemma slice_nil (span : Span) : slice [] span = [] := by
  by_contra some
  obtain ⟨a, c, whole, -⟩ := slice_ne_nil some
  have parts := List.append_eq_nil_iff.1 whole.symm
  exact some (List.append_eq_nil_iff.1 parts.1).2

/-- A slice of a slice is a slice of the whole. -/
theorem slice_slice {cs : List Char} {area span : Span} (h : slice (slice cs area) span ≠ []) :
    slice (slice cs area) span = slice cs (span.shift area.start)
      ∧ area.start + span.stop ≤ area.stop := by
  have outer : slice cs area ≠ [] := by
    intro none
    rw [none, slice_nil] at h
    exact h rfl
  obtain ⟨a, c, whole, start, stop⟩ := slice_ne_nil outer
  obtain ⟨a', c', inner, start', stop'⟩ := slice_ne_nil h
  set taken := slice (slice cs area) span
  have shifted : span.shift area.start = ⟨width (a ++ a'), width (a ++ a' ++ taken)⟩ := by
    rw [Span.shift, width_append, width_append, width_append, Span.mk.injEq]
    rw [width_append] at stop'
    omega
  refine ⟨?_, ?_⟩
  · rw [shifted, whole, inner, ← List.append_assoc, ← List.append_assoc,
      List.append_assoc (a ++ a' ++ taken), slice_append]
  · have size := congrArg width inner
    rw [width_append, stop'] at size
    rw [width_append] at stop
    omega

/-- What follows a boundary is a slice. -/
lemma dropBytes_eq_slice (cs : List Char) (offset : ℕ) :
    dropBytes cs offset = slice cs ⟨offset, width cs⟩ := by
  cases cut : splitAt? cs offset with
  | none => rw [dropBytes, slice, slice?, cut]; rfl
  | some parts =>
    obtain ⟨rfl, rfl⟩ := eq_append_of_splitAt? (a := parts.1) (b := parts.2) cut
    have slice := slice_append parts.1 parts.2 []
    rw [List.append_nil] at slice
    rw [slice, dropBytes_append]

/-! ## Pieces -/

/-- A part of a text that was made from a source. -/
inductive Piece
  /-- What stands at a span of the source. -/
  | copied (span : Span)
  | written (word : String)

def Piece.chars (source : List Char) : Piece → List Char
  | copied span => slice source span
  | written word => word.toList

/-- Whether a piece has nothing of some places of the source: it is copied from elsewhere, or it is
a word of a kind. -/
def Piece.Without (places : List Span) (Word : String → Prop) : Piece → Prop
  | copied span => ∀ place ∈ places, span.Apart place
  | written word => Word word

/-- A text that is made of stretches of a source apart from some places, and of words of a kind. -/
def Woven (source : List Char) (places : List Span) (Word : String → Prop) (text : List Char) :
    Prop :=
  ∃ pieces : List Piece, text = pieces.flatMap (Piece.chars source)
    ∧ ∀ p ∈ pieces, p.Without places Word

namespace Woven

variable {source a b : List Char} {places : List Span} {Word : String → Prop}

lemma nil : Woven source places Word [] := ⟨[], rfl, nofun⟩

lemma word {w : String} (h : Word w) : Woven source places Word w.toList :=
  ⟨[.written w], by simp [Piece.chars], List.forall_mem_singleton.2 h⟩

lemma copied {span : Span} (h : ∀ place ∈ places, span.Apart place) :
    Woven source places Word (slice source span) :=
  ⟨[.copied span], by simp [Piece.chars], List.forall_mem_singleton.2 h⟩

lemma append (ha : Woven source places Word a) (hb : Woven source places Word b) :
    Woven source places Word (a ++ b) := by
  obtain ⟨pieces, rfl, without⟩ := ha
  obtain ⟨pieces', rfl, without'⟩ := hb
  exact ⟨pieces ++ pieces', by rw [List.flatMap_append],
    List.forall_mem_append.2 ⟨without, without'⟩⟩

/-- A stretch of an area of the source. -/
lemma copied_within {area span : Span}
    (h : ∀ place ∈ places, area.Apart place ∨ (span.shift area.start).Apart place) :
    Woven source places Word (slice (slice source area) span) := by
  by_cases empty : slice (slice source area) span = []
  · rw [empty]
    exact .nil
  · obtain ⟨same, stop⟩ := slice_slice empty
    rw [same]
    refine .copied fun place hp => (h place hp).elim (fun apart => ?_) id
    have inside : area.contains (span.shift area.start) = true :=
      Span.contains_iff.2 ⟨Nat.le_add_left _ _, (Nat.add_comm _ _).trans_le stop⟩
    exact (apart.symm.of_contains inside).symm

end Woven

end Text

namespace Edit

open Text

/-! ## Applying -/

lemma applyFrom_cons {text out : List Char} {size cursor : ℕ} {e : Edit} {es : List Edit}
    (h : applyFrom text size cursor (e :: es) = .ok out) :
    e.span.start ≤ e.span.stop ∧ cursor ≤ e.span.start
      ∧ ∃ rest, applyFrom text size e.span.stop es = .ok rest
        ∧ out = slice text ⟨cursor, e.span.start⟩ ++ e.text.toList ++ rest := by
  rw [applyFrom] at h
  split at h
  · cases h
  next bounds =>
  split at h
  · cases h
  next order =>
  obtain ⟨rest, later, h⟩ := bind_eq_ok.1 h
  simp only [Bool.or_eq_true, decide_eq_true_eq, not_or, not_lt] at bounds order
  exact ⟨bounds.2, order.1.1, rest, later, (Except.ok.inj h).symm⟩

/-- Edits are applied from the front to the back. -/
lemma applyFrom_ahead {text out : List Char} {size cursor : ℕ} {es : List Edit}
    (h : applyFrom text size cursor es = .ok out) : ∀ e ∈ es, cursor ≤ e.span.start := by
  induction es generalizing cursor out with
  | nil => nofun
  | cons e es ih =>
    obtain ⟨forward, ahead, rest, later, -⟩ := applyFrom_cons h
    refine List.forall_mem_cons.2 ⟨ahead, fun x hx => ?_⟩
    exact ahead.trans (forward.trans (ih later x hx))

variable {source : List Char} {places : List Span} {Word : String → Prop} {area : Span}

/-- What comes of an area behind a cursor if each place is outside of it, in front of the cursor, or
inside an edit. -/
lemma applyFrom_woven {out : List Char} {size cursor : ℕ} {es : List Edit}
    (h : applyFrom (slice source area) size cursor es = .ok out)
    (texts : ∀ e ∈ es, Woven source places Word e.text.toList)
    (covered : ∀ place ∈ places, area.Apart place ∨ place.stop ≤ area.start + cursor
      ∨ ∃ e ∈ es, (e.span.shift area.start).contains place = true) :
    Woven source places Word out := by
  induction es generalizing cursor out with
  | nil =>
    obtain rfl := Except.ok.inj h
    rw [dropBytes_eq_slice]
    refine .copied_within fun place hp => (covered place hp).imp_right fun known => ?_
    rcases known with front | ⟨e, he, -⟩
    · exact .inr (by rw [Span.shift, Nat.add_comm]; exact front)
    · nomatch he
  | cons e es ih =>
    obtain ⟨forward, ahead, rest, later, rfl⟩ := applyFrom_cons h
    have texts' := List.forall_mem_cons.1 texts
    have gap : Woven source places Word (slice (slice source area) ⟨cursor, e.span.start⟩) := by
      refine .copied_within fun place hp => (covered place hp).imp_right fun known => ?_
      rcases known with front | ⟨x, hx, inside⟩
      · exact .inr (by rw [Span.shift, Nat.add_comm]; exact front)
      · left
        have start := (Span.contains_iff.1 inside).1
        have order : e.span.start ≤ x.span.start := by
          rcases List.mem_cons.1 hx with rfl | hx
          · exact Nat.le_refl _
          · exact forward.trans (applyFrom_ahead later x hx)
        exact (Nat.add_le_add_right order _).trans start
    refine (gap.append texts'.1).append (ih later texts'.2 fun place hp => ?_)
    refine (covered place hp).imp_right fun known => ?_
    rcases known with front | ⟨x, hx, inside⟩
    · left
      omega
    · rcases List.mem_cons.1 hx with rfl | hx
      · left
        rw [Nat.add_comm]
        exact (Span.contains_iff.1 inside).2
      · exact .inr ⟨x, hx, inside⟩

/-! ## Normal forms -/

/-- Texts of normal edits are given texts, or such texts of one file put together. -/
lemma mergeAfter_texts {P : String → List Char → Prop}
    (append : ∀ file a b, P file a → P file b → P file (a ++ b)) {previous : Edit}
    {es out : List Edit} (texts : ∀ e ∈ previous :: es, P e.file e.text.toList)
    (h : mergeAfter previous es = .ok out) : ∀ e ∈ out, P e.file e.text.toList := by
  induction es generalizing previous out with
  | nil =>
    obtain rfl := Except.ok.inj h
    exact texts
  | cons x es ih =>
    obtain ⟨first, rest⟩ := List.forall_mem_cons.1 texts
    obtain ⟨second, others⟩ := List.forall_mem_cons.1 rest
    obtain ⟨-, ⟨tail, merged, rfl, -⟩ | ⟨rfl, merged⟩ | ⟨⟨file, -⟩, -, merged⟩⟩ :=
      mergeAfter_cases h
    · exact List.forall_mem_cons.2 ⟨first, ih rest merged⟩
    · exact ih rest merged
    · refine ih (List.forall_mem_cons.2 ⟨?_, others⟩) merged
      rw [String.toList_append]
      exact append _ _ _ first (file ▸ second)

theorem normalize_texts {P : String → List Char → Prop}
    (append : ∀ file a b, P file a → P file b → P file (a ++ b)) {es out : List Edit}
    (texts : ∀ e ∈ es, P e.file e.text.toList) (h : normalize es = .ok out) :
    ∀ e ∈ out, P e.file e.text.toList := by
  rcases normalize_cases h with ⟨-, rfl⟩ | ⟨first, rest, shape, -, merged⟩
  · nofun
  · refine mergeAfter_texts append (fun e he => texts e ?_) merged
    rw [← mem_sort, shape]
    exact he

/-! ## An area after its edits -/

/-- An area of a source after edits, counted from its beginning on, that put such texts in the place
of all places in the area. -/
theorem woven_of_apply {text out : String} {edits normal : List Edit}
    (normalized : normalize edits = .ok normal)
    (applied : apply (sliceString text area) normal = .ok out)
    (texts : ∀ e ∈ edits, Woven text.toList places Word e.text.toList)
    (covered : ∀ place ∈ places, area.Apart place
      ∨ ∃ e ∈ edits, (e.span.shift area.start).contains place = true) :
    Woven text.toList places Word out.toList := by
  obtain ⟨chars, done, rfl⟩ := map_eq_ok.1 applied
  rw [String.toList_ofList]
  rw [sliceString, String.toList_ofList] at done
  have texts' := normalize_texts (P := fun _ => Woven text.toList places Word)
    (fun _ _ _ => Woven.append) texts normalized
  refine applyFrom_woven done (fun e he => texts' e (List.mem_mergeSort.1 he)) fun place hp => ?_
  refine (covered place hp).imp_right fun ⟨e, he, inside⟩ => .inr ?_
  obtain ⟨e', he', place, -⟩ := normalize_puts normalized he
  exact ⟨e', List.mem_mergeSort.2 he', place.2 ▸ inside⟩

end Edit

end MethodLift
