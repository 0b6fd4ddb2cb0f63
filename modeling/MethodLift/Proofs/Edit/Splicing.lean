import MethodLift.Proofs.Edit.Places
import MethodLift.Proofs.Lift.Computing

/-!
# Edits as splices

`apply` carries out edits in one pass with a cursor.  What it computes can be said without one: an
edit on its own puts its text in the place of a span (`splice`), and edits are spliced into the text
one after the other.  The last one has to come first.  It leaves the text in front of it alone, so
that the spans of the others still mean what they meant, whatever the texts are (`splice_behind`).

The pass succeeds exactly if every span is one of the text and each edit, in the order of the spans,
starts where the one before it has ended or later (`apply_ok_iff`).  The order is stable, so
insertions at one offset stay as they were given.  Nothing else depends on the order of the list: if
no two edits are of one span, every permutation of them does the same (`apply_perm`).
-/

namespace MethodLift.Edit

variable {text : List Char} {cursor : ℕ} {e : Edit} {edits others ordered : List Edit}

/-! ## The order of the edits -/

/-- Edits by where they start, then by where they stop, and as they were given where both are the
same. -/
structure IsStableOrder (edits ordered : List Edit) : Prop where
  perm : ordered.Perm edits
  sorted : ordered.Pairwise fun a b =>
    a.span.start < b.span.start ∨ (a.span.start = b.span.start ∧ a.span.stop ≤ b.span.stop)
  stable : ∀ span, ordered.filter (·.span == span) = edits.filter (·.span == span)

lemma span_notAfter_trans (a b c : Edit) (hab : a.span.notAfter b.span = true)
    (hbc : b.span.notAfter c.span = true) : a.span.notAfter c.span = true := by
  rw [Span.notAfter_iff] at *
  omega

lemma span_notAfter_total (a b : Edit) :
    (a.span.notAfter b.span || b.span.notAfter a.span) = true := by
  rw [Bool.or_eq_true, Span.notAfter_iff, Span.notAfter_iff]
  omega

theorem sortBySpan_stable (edits : List Edit) : IsStableOrder edits (sortBySpan edits) := by
  constructor
  case perm => exact List.mergeSort_perm edits _
  case sorted =>
    have sorted := List.pairwise_mergeSort span_notAfter_trans span_notAfter_total edits
    exact sorted.imp Span.notAfter_iff.1
  case stable =>
    intro span
    apply filter_mergeSort span_notAfter_trans span_notAfter_total
    intro a b ha hb
    simp_all [Span.notAfter_iff]

lemma IsStableOrder.mem_iff (h : IsStableOrder edits ordered) : e ∈ ordered ↔ e ∈ edits :=
  h.perm.mem_iff

/-- Spans that differ have one order only. -/
lemma sortBySpan_perm (distinct : edits.Pairwise fun a b => a.span ≠ b.span)
    (perm : others.Perm edits) : sortBySpan others = sortBySpan edits := by
  have order := sortBySpan_stable edits
  have order' := sortBySpan_stable others
  have tied : ∀ a b, a ∈ sortBySpan others → b ∈ sortBySpan edits →
      (a.span.start < b.span.start ∨ (a.span.start = b.span.start ∧ a.span.stop ≤ b.span.stop)) →
      (b.span.start < a.span.start ∨ (b.span.start = a.span.start ∧ b.span.stop ≤ a.span.stop)) →
      a = b := by
    intro a b ha hb before behind
    have starts : a.span.start = b.span.start := by omega
    have stops : a.span.stop = b.span.stop := by omega
    have given : a ∈ edits := perm.mem_iff.1 (order'.mem_iff.1 ha)
    exact List.inj_on_of_nodup_map (List.pairwise_map.2 distinct) given (order.mem_iff.1 hb)
      (congrArg₂ Span.mk starts stops)
  exact List.Perm.eq_of_pairwise tied order'.sorted order.sorted
    (order'.perm.trans (perm.trans order.perm.symm))

/-! ## Splicing -/

/-- The text with the text of an edit in the place of its span. -/
def splice (e : Edit) (text : List Char) : List Char :=
  Text.takeBytes text e.span.start ++ e.text.toList ++ Text.dropBytes text e.span.stop

/-- A splice needs no more of a text than what reaches up to its end: what stands behind may be
something else already. -/
lemma splice_behind (placed : Text.Placed text e.span) (rest : List Char) :
    splice e (Text.takeBytes text e.span.stop ++ rest)
      = Text.takeBytes text e.span.start ++ e.text.toList ++ rest := by
  obtain ⟨a, b, c, rfl, start, stop⟩ := placed.start.divide placed.stop placed.forward
  have front : Text.takeBytes (a ++ b ++ c) e.span.stop = a ++ b := by
    rw [← stop, Text.takeBytes_append]
  have first : Text.takeBytes (a ++ b ++ c) e.span.start = a := by
    rw [← start, List.append_assoc, Text.takeBytes_append]
  have first' : Text.takeBytes (a ++ b ++ rest) e.span.start = a := by
    rw [← start, List.append_assoc, Text.takeBytes_append]
  have behind : Text.dropBytes (a ++ b ++ rest) e.span.stop = rest := by
    rw [← stop, Text.dropBytes_append]
  rw [splice, front, first, first', behind]

/-- The front of a text, up to a cut, and what stands between the cut and another one. -/
lemma takeBytes_append_slice {m n : ℕ} (hm : Text.Boundary text m) (hn : Text.Boundary text n)
    (order : m ≤ n) : Text.takeBytes text m ++ Text.slice text ⟨m, n⟩ = Text.takeBytes text n := by
  obtain ⟨a, b, c, rfl, rfl, rfl⟩ := hm.divide hn order
  rw [Text.slice_append, Text.takeBytes_append, List.append_assoc, Text.takeBytes_append]

lemma takeBytes_append_dropBytes {n : ℕ} (h : Text.Boundary text n) :
    Text.takeBytes text n ++ Text.dropBytes text n = text := by
  obtain ⟨a, b, rfl, rfl⟩ := h
  rw [Text.takeBytes_append, Text.dropBytes_append]

/-- Splicing from the last edit to the first leaves the text in front of a cursor, and makes of the
text behind it what the pass with the cursor makes of it. -/
lemma splices_of_applyFrom {out : List Char} (cut : Text.Boundary text cursor)
    (done : applyFrom text (Text.width text) cursor edits = .ok out) :
    edits.foldr splice text = Text.takeBytes text cursor ++ out := by
  induction edits generalizing cursor out with
  | nil =>
    obtain rfl := Except.ok.inj done
    rw [List.foldr_nil, takeBytes_append_dropBytes cut]
  | cons e edits ih =>
    obtain ⟨start, stop⟩ := applyFrom_bounds done
    obtain ⟨forward, ahead, rest, later, rfl⟩ := applyFrom_cons done
    calc (e :: edits).foldr splice text
        = splice e (Text.takeBytes text e.span.stop ++ rest) := by
          rw [List.foldr_cons, ih stop later]
      _ = Text.takeBytes text e.span.start ++ e.text.toList ++ rest :=
          splice_behind ⟨start, stop, forward⟩ rest
      _ = Text.takeBytes text cursor
            ++ (Text.slice text ⟨cursor, e.span.start⟩ ++ e.text.toList ++ rest) := by
          rw [← takeBytes_append_slice cut start ahead]
          simp only [List.append_assoc]

/-! ## When edits can be applied -/

/-- The spans of edits that the pass went through. -/
lemma placed_of_applyFrom {out : List Char}
    (done : applyFrom text (Text.width text) cursor edits = .ok out) :
    (∀ e ∈ edits, Text.Placed text e.span)
      ∧ edits.Pairwise fun a b => a.span.stop ≤ b.span.start := by
  induction edits generalizing cursor out with
  | nil => exact ⟨nofun, .nil⟩
  | cons e edits ih =>
    obtain ⟨start, stop⟩ := applyFrom_bounds done
    obtain ⟨forward, -, rest, later, -⟩ := applyFrom_cons done
    obtain ⟨placed, apart⟩ := ih later
    constructor
    · exact List.forall_mem_cons.2 ⟨⟨start, stop, forward⟩, placed⟩
    · exact List.pairwise_cons.2 ⟨applyFrom_ahead later, apart⟩

/-- Spans that run forwards, each starting behind the one before it, start behind all of them. -/
lemma pairwise_of_isChain (forward : ∀ e ∈ ordered, e.span.start ≤ e.span.stop)
    (chain : ordered.IsChain fun a b => a.span.stop ≤ b.span.start) :
    ordered.Pairwise fun a b => a.span.stop ≤ b.span.start := by
  have chain' : ordered.IsChain fun a b =>
      a.span.stop ≤ b.span.start ∧ b.span.start ≤ b.span.stop := by
    refine chain.imp_of_mem_imp ?_
    intro a b _ hb follows
    exact ⟨follows, forward b hb⟩
  have trans : IsTrans Edit fun a b => a.span.stop ≤ b.span.start ∧ b.span.start ≤ b.span.stop :=
    ⟨fun _ _ _ hab hbc => ⟨hab.1.trans (hab.2.trans hbc.1), hbc.2⟩⟩
  exact (List.isChain_iff_pairwise.1 chain').imp And.left

theorem apply_ok_iff (text : String) (edits : List Edit) :
    (∃ out, apply text edits = .ok out) ↔ (∀ e ∈ edits, Text.Placed text.toList e.span)
      ∧ (sortBySpan edits).IsChain fun a b => a.span.stop ≤ b.span.start := by
  have order := sortBySpan_stable edits
  constructor
  · rintro ⟨out, done⟩
    obtain ⟨chars, ran, -⟩ := map_eq_ok.1 done
    obtain ⟨placed, apart⟩ := placed_of_applyFrom ran
    exact ⟨fun e he => placed e (order.mem_iff.2 he), apart.isChain⟩
  · rintro ⟨placed, chain⟩
    have placed' : ∀ e ∈ sortBySpan edits, Text.Placed text.toList e.span :=
      fun e he => placed e (order.mem_iff.1 he)
    have forward : ∀ e ∈ sortBySpan edits, e.span.start ≤ e.span.stop :=
      fun e he => (placed' e he).forward
    have apart := pairwise_of_isChain forward chain
    obtain ⟨chars, ran⟩ := applyFrom_ok forward apart (fun e _ => Nat.zero_le e.span.start)
      fun e he => ⟨(placed' e he).start, (placed' e he).stop⟩
    exact ⟨String.ofList chars, by rw [apply, ran]; rfl⟩

/-! ## What applied edits make of a text -/

/-- A text that edits were spliced into. -/
structure IsSpliced (text : String) (ordered : List Edit) (out : String) : Prop where
  /-- The edits, one at a time, the last one first. -/
  spliced : out.toList = ordered.foldr splice text.toList
  /-- What lies in no span is copied, in its place between the texts of the edits. -/
  copied : Becomes text.toList 0 (Text.width text.toList) ordered out.toList

theorem isSpliced_of_apply {text out : String} (done : apply text edits = .ok out) :
    IsSpliced text (sortBySpan edits) out := by
  obtain ⟨chars, ran, rfl⟩ := map_eq_ok.1 done
  have front := Text.Boundary.zero text.toList
  have nothing : Text.takeBytes text.toList 0 = [] := Text.takeBytes_append [] text.toList
  constructor
  · rw [String.toList_ofList, splices_of_applyFrom front ran, nothing, List.nil_append]
  · rw [String.toList_ofList]
    exact becomes_of_applyFrom ran front

/-- Edits of different spans may be given in any order. -/
theorem apply_perm (text : String) (distinct : edits.Pairwise fun a b => a.span ≠ b.span)
    (perm : others.Perm edits) : apply text others = apply text edits := by
  rw [apply, apply, sortBySpan_perm distinct perm]

/-- Edits are applied by splicing them into the text, in the stable order of their spans and from the
last to the first.  That succeeds exactly if each span is one of the text and each edit starts where
the one before it has ended or later, and it is the same for all permutations of edits whose spans
differ. -/
theorem applies_by_splicing (text : String) (edits : List Edit) :
    IsStableOrder edits (sortBySpan edits)
    ∧ ((∃ out, apply text edits = .ok out) ↔ (∀ e ∈ edits, Text.Placed text.toList e.span)
      ∧ (sortBySpan edits).IsChain fun a b => a.span.stop ≤ b.span.start)
    ∧ (∀ out, apply text edits = .ok out → IsSpliced text (sortBySpan edits) out)
    ∧ ((edits.Pairwise fun a b => a.span ≠ b.span) →
      ∀ others, others.Perm edits → apply text others = apply text edits) := by
  refine ⟨sortBySpan_stable edits, apply_ok_iff text edits, ?_, ?_⟩
  · intro out done
    exact isSpliced_of_apply done
  · intro distinct others perm
    exact apply_perm text distinct perm

/-- Two insertions at the end of a replacement, behind a character of two bytes. -/
theorem insertions_behind_replacement :
    let text := "aé🙂b"
    let x : Edit := ⟨"a.py", ⟨1, 3⟩, "x"⟩
    let mark : Edit := ⟨"a.py", ⟨3, 3⟩, "!"⟩
    let more : Edit := ⟨"a.py", ⟨3, 3⟩, "?"⟩
    (apply text [mark, x, more] = .ok "ax!?🙂b"
        ∧ IsSpliced text (sortBySpan [mark, x, more]) "ax!?🙂b")
      ∧ ([mark, x].Pairwise fun a b => a.span ≠ b.span)
      ∧ ∀ others, others.Perm [mark, x] → apply text others = .ok "ax!🙂b" := by
  intro text x mark more
  have three : apply text [mark, x, more] = .ok "ax!?🙂b" := by
    unfold text mark x more
    rw [applyComputed.eq]
    decide +kernel
  have two : apply text [mark, x] = .ok "ax!🙂b" := by
    unfold text mark x
    rw [applyComputed.eq]
    decide +kernel
  have distinct : [mark, x].Pairwise fun a b => a.span ≠ b.span := by simp [mark, x]
  refine ⟨⟨three, (applies_by_splicing text [mark, x, more]).2.2.1 _ three⟩, distinct, ?_⟩
  intro others perm
  rw [(applies_by_splicing text [mark, x]).2.2.2 distinct others perm, two]

end MethodLift.Edit
