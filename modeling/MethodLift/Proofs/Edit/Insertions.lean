import MethodLift.Proofs.Edit.Places
import MethodLift.Proofs.Lift.Computing

/-!
# What becomes of insertions at one offset

Merging does two things to the insertions at one offset in the same pass.  It leaves out an edit that
is the same again, and it puts the texts of the others together.  But the edit that the next one is
compared with is the merged one.  So what is left out is a text that equals everything before it put
together (`Swallowed`), whether or not that text was inserted before.

`insertions_joined` says this of every list of edits.  It also says when nothing is lost that was not
given twice: unless some new text happens to equal what was put together in front of it.  Three
insertions are enough for that (`text_of_two_lost`).
-/

namespace MethodLift.Edit

variable {file : String} {offset : ℕ} {es out : List Edit} {given kept : List String}
  {text : String}

/-- The texts that edits insert at an offset of a file, in the order of the edits. -/
def inserted (file : String) (offset : ℕ) (es : List Edit) : List String :=
  (es.filter (isAt file (.point offset))).map (·.text)

/-! ## Leaving texts out -/

/-- Texts in the order given, some of which were left out.  Whether a text may be left out depends on
the texts given before it and on those kept of them. -/
inductive Kept (Omits : List String → List String → String → Prop) :
    List String → List String → Prop
  | nil : Kept Omits [] []
  | keep {given kept : List String} {text : String} (before : Kept Omits given kept) :
    Kept Omits (given ++ [text]) (kept ++ [text])
  | leave {given kept : List String} {text : String} (before : Kept Omits given kept)
    (omits : Omits given kept text) : Kept Omits (given ++ [text]) kept

/-- The text was given before. -/
def Repeated (given _ : List String) (text : String) : Prop := text ∈ given

/-- The text equals what was kept before it, put together. -/
def Swallowed (given kept : List String) (text : String) : Prop :=
  given ≠ [] ∧ text = String.join kept

/-- A text equals what was kept before it, and is none of the texts before it. -/
def Coincides (given : List String) : Prop :=
  ∃ front kept text, front ++ [text] <+: given ∧ Kept Swallowed front kept
    ∧ Swallowed front kept text ∧ text ∉ front

/-- If texts are left out only where they were given before, and none is given twice, then all of
them are kept. -/
lemma Kept.eq_of_nodup (h : Kept Repeated given kept) (distinct : given.Nodup) : kept = given := by
  induction h with
  | nil => rfl
  | keep before ih =>
    rw [ih distinct.of_append_left]
  | leave before omits ih =>
    have apart := List.disjoint_of_nodup_append distinct
    exact absurd (List.mem_singleton_self _) (apart omits)

/-- Texts that equal what was kept before them are repetitions, unless a new text coincides with
it. -/
lemma Kept.repeated (h : Kept Swallowed given kept) (none : ¬Coincides given) :
    Kept Repeated given kept := by
  induction h with
  | nil => exact .nil
  | @keep given kept text before ih =>
    apply Kept.keep
    apply ih
    rintro ⟨front, kept', text', inFront, found⟩
    exact none ⟨front, kept', text', inFront.trans (List.prefix_append _ _), found⟩
  | @leave given kept text before omits ih =>
    apply Kept.leave
    · apply ih
      rintro ⟨front, kept', text', inFront, found⟩
      exact none ⟨front, kept', text', inFront.trans (List.prefix_append _ _), found⟩
    · by_contra new
      exact none ⟨given, kept, text, List.prefix_refl _, before, omits, new⟩

/-! ## Merging -/

/-- Texts that are put together are those that were kept. -/
lemma exists_kept (text : String) (others : List String) :
    ∃ kept, Kept Swallowed (text :: others) kept ∧ joined text others = String.join kept := by
  induction others using List.reverseRecOn with
  | nil =>
    refine ⟨[text], Kept.keep .nil, ?_⟩
    rw [joined, List.foldl_nil, String.join_cons, String.join_nil, String.append_empty]
  | append_singleton others last ih =>
    obtain ⟨kept, before, same⟩ := ih
    by_cases again : joined text others = last
    · refine ⟨kept, before.leave ⟨List.cons_ne_nil _ _, again ▸ same⟩, ?_⟩
      rw [joined_concat, if_pos again, same]
    · refine ⟨kept ++ [last], before.keep, ?_⟩
      rw [joined_concat, if_neg again, same, String.join_append, String.join_cons, String.join_nil,
        String.append_empty]

/-- Of a normal list at most one edit stands at a place. -/
lemma IsNormal.filter_isAt {e : Edit} {span : Span} (h : IsNormal out) (he : e ∈ out)
    (here : e.isAt file span = true) : out.filter (isAt file span) = [e] := by
  obtain ⟨before, behind, rfl⟩ := List.append_of_mem he
  obtain ⟨rfl, rfl⟩ := isAt_iff.1 here
  have apart := h.apart
  rw [List.pairwise_append, List.pairwise_cons] at apart
  obtain ⟨-, ⟨later, -⟩, earlier⟩ := apart
  have noPlace {a b : Edit} (precedes : Precedes a b) : ¬(a.file = b.file ∧ a.span = b.span) := by
    rintro ⟨file, span⟩
    rcases precedes with less | ⟨-, -, other⟩
    · exact less.ne file
    · exact other span
  have front : before.filter (isAt e.file e.span) = [] := by
    refine List.filter_eq_nil_iff.2 fun a ha at_ => ?_
    exact noPlace (earlier a ha e List.mem_cons_self) (isAt_iff.1 at_)
  have back : behind.filter (isAt e.file e.span) = [] := by
    refine List.filter_eq_nil_iff.2 fun b hb at_ => ?_
    obtain ⟨file, span⟩ := isAt_iff.1 at_
    exact noPlace (later b hb) ⟨file.symm, span.symm⟩
  rw [List.filter_append, List.filter_cons_of_pos here, front, back, List.nil_append]

/-- Where nothing is inserted, nothing is inserted by the normal form. -/
lemma inserted_eq_nil (made : normalize es = .ok out) (none : inserted file offset es = []) :
    inserted file offset out = [] := by
  rw [inserted, List.map_eq_nil_iff, List.filter_eq_nil_iff] at none ⊢
  intro e he here
  obtain ⟨e', he', same⟩ := normalize_place made he
  exact none e' he' (same.isAt here)

/-- The insertions at one offset are one insertion in the normal form. -/
lemma inserted_eq_singleton {others : List String} (made : normalize es = .ok out)
    (texts : inserted file offset es = text :: others) :
    inserted file offset out = [joined text others] := by
  have here : (insert file offset (joined text others)).isAt file (.point offset) = true := by simp
  rw [inserted, (normalize_isNormal made).filter_isAt (normalize_inserted made texts) here]
  rfl

/-- In the normal form of edits the texts inserted at an offset are one text: those given there, put
together in their order, except that a text is left out which equals all that was kept before it.
Only texts given before are left out, unless a new text coincides with what was kept. -/
theorem insertions_joined (made : normalize es = .ok out) (file : String) (offset : ℕ) :
    ∃ kept, Kept Swallowed (inserted file offset es) kept
      ∧ inserted file offset out
        = (if inserted file offset es = [] then [] else [String.join kept])
      ∧ (Coincides (inserted file offset es) ∨ Kept Repeated (inserted file offset es) kept) := by
  cases texts : inserted file offset es with
  | nil => exact ⟨[], .nil, inserted_eq_nil made texts, .inr .nil⟩
  | cons text others =>
    obtain ⟨kept, selected, same⟩ := exists_kept text others
    refine ⟨kept, selected, ?_, ?_⟩
    · rw [if_neg (List.cons_ne_nil _ _), inserted_eq_singleton made texts, same]
    · by_cases coincides : Coincides (text :: others)
      · exact .inl coincides
      · exact .inr (selected.repeated coincides)

/-- A line that is inserted a second time, behind another one. -/
theorem repeated_line_joined :
    let es : List Edit := [insert "a.py" 0 "b\n", insert "a.py" 0 "b\n", insert "a.py" 0 "a\n"]
    let out : List Edit := [insert "a.py" 0 "b\na\n"]
    normalize es = .ok out
      ∧ ∃ kept, Kept Swallowed ["b\n", "b\n", "a\n"] kept
        ∧ inserted "a.py" 0 out = [String.join kept]
        ∧ (Coincides ["b\n", "b\n", "a\n"] ∨ Kept Repeated ["b\n", "b\n", "a\n"] kept) := by
  intro es out
  have made : normalize es = .ok out := by
    unfold es out
    rw [normalize_eq_sorted]
    decide +kernel
  exact ⟨made, insertions_joined made "a.py" 0⟩

/-- The third text is no repetition of one that was given, and it is lost. -/
theorem text_of_two_lost :
    let es : List Edit := [insert "a.py" 0 "a", insert "a.py" 0 "b", insert "a.py" 0 "ab"]
    let out : List Edit := [insert "a.py" 0 "ab"]
    normalize es = .ok out
      ∧ ¬∃ kept, Kept Repeated (inserted "a.py" 0 es) kept
        ∧ inserted "a.py" 0 out = [String.join kept] := by
  intro es out
  constructor
  · unfold es out
    rw [normalize_eq_sorted]
    decide +kernel
  · rintro ⟨kept, selected, left⟩
    have given : inserted "a.py" 0 es = ["a", "b", "ab"] := by decide +kernel
    rw [given] at selected
    rw [selected.eq_of_nodup (by decide)] at left
    exact absurd left (by decide +kernel)

end MethodLift.Edit
