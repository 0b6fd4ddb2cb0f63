import MethodLift.Proofs.Text.Boundary
import MethodLift.Syntax.ReplacementField

/-!
# Replacement fields lie apart

The expressions in the replacement fields of a string stand inside the string, one behind the other.
Looking for the end of a field goes on character by character and never beyond the limit, because
the limit is the end of a part of the text: what is passed and what is left up to the limit is always
that part (`UpTo`).
-/

namespace MethodLift.Syntax.ReplacementField

open Text (width)

variable {limit : ℕ} {tail : List Char}

/-- From a place on, the text goes up to the limit and then on with `tail`. -/
def UpTo (limit : ℕ) (tail : List Char) (p : Place) : Prop :=
  ∃ ahead, p.rest = ahead ++ tail ∧ p.offset + width ahead = limit

lemma UpTo.offset_le {p : Place} (h : UpTo limit tail p) : p.offset ≤ limit := by
  obtain ⟨ahead, -, size⟩ := h
  omega

/-- A place before the limit has a character before the limit. -/
lemma UpTo.next {offset : ℕ} {c : Char} {rest : List Char} (h : UpTo limit tail ⟨offset, c :: rest⟩)
    (more : ¬ limit ≤ offset) : UpTo limit tail ⟨offset + c.utf8Size, rest⟩ := by
  obtain ⟨ahead, text, size⟩ := h
  cases ahead with
  | nil => exact absurd size.ge more
  | cons d ds =>
    obtain ⟨rfl, rfl⟩ := List.cons.inj text
    rw [Text.width_cons] at size
    exact ⟨ds, rfl, by rw [← size]; exact Nat.add_assoc ..⟩

/-- One place comes no later than another one, and that is up to the limit. -/
structure Reaches (limit : ℕ) (tail : List Char) (offset : ℕ) (p : Place) : Prop where
  forward : offset ≤ p.offset
  upTo : UpTo limit tail p

lemma Reaches.from {offset offset' : ℕ} {p : Place} (h : Reaches limit tail offset p)
    (le : offset' ≤ offset) : Reaches limit tail offset' p := ⟨Nat.le_trans le h.forward, h.upTo⟩

lemma expressionEnd_reaches {depth : ℕ} {quote? : Option Char} {previous : Char} {offset : ℕ}
    {cs : List Char} (h : UpTo limit tail ⟨offset, cs⟩) :
    Reaches limit tail offset (expressionEnd limit depth quote? previous offset cs) := by
  fun_induction expressionEnd limit depth quote? previous offset cs with
  | case1 => exact ⟨Nat.le_refl _, h⟩
  | case2 => exact ⟨Nat.le_refl _, h⟩
  | case3 _ _ _ _ _ more => exact ⟨Nat.le_add_right _ _, h.next more⟩
  | case4 _ _ _ _ more => exact ⟨Nat.le_add_right _ _, h.next more⟩
  | case5 _ _ _ _ more _ _ _ inside _ _ ih =>
    have there := (h.next more).next inside
    exact (ih there).from (by omega)
  | case6 _ _ _ _ _ more _ _ _ ih => exact (ih (h.next more)).from (Nat.le_add_right _ _)
  | case7 => exact ⟨Nat.le_refl _, h⟩
  | case8 _ _ _ _ _ more _ _ _ ih => exact (ih (h.next more)).from (Nat.le_add_right _ _)
  | case9 _ _ _ _ _ more _ _ _ _ ih => exact (ih (h.next more)).from (Nat.le_add_right _ _)
  | case10 _ _ _ _ _ more _ _ _ _ _ ih => exact (ih (h.next more)).from (Nat.le_add_right _ _)
  | case11 _ _ _ _ _ more _ _ _ _ _ ih => exact (ih (h.next more)).from (Nat.le_add_right _ _)

lemma skip_reaches {c : Char} {p : Place} (h : UpTo limit tail p) :
    Reaches limit tail p.offset (skip limit c p) := by
  rcases p with ⟨offset, rest⟩
  unfold skip
  split
  next d ds is =>
    dsimp only at is
    subst is
    split
    next there =>
      rw [Bool.and_eq_true, decide_eq_true_eq] at there
      exact ⟨Nat.le_add_right _ _, h.next (Nat.not_le.2 there.2)⟩
    · exact ⟨Nat.le_refl _, h⟩
  · exact ⟨Nat.le_refl _, h⟩

lemma skipConversion_reaches {p : Place} (h : UpTo limit tail p) :
    Reaches limit tail p.offset (skipConversion limit p) := by
  have go (offset : ℕ) (cs : List Char) (h : UpTo limit tail ⟨offset, cs⟩) :
      Reaches limit tail offset (skipConversion.go limit offset cs) := by
    fun_induction skipConversion.go limit offset cs with
    | case1 => exact ⟨Nat.le_refl _, h⟩
    | case2 => exact ⟨Nat.le_refl _, h⟩
    | case3 offset c rest more ih =>
      have more : ¬ limit ≤ offset := by
        simp only [Bool.or_eq_true, decide_eq_true_eq, not_or] at more
        exact more.1.1
      exact (ih (h.next more)).from (Nat.le_add_right _ _)
  unfold skipConversion
  split
  · exact go p.offset p.rest h
  · exact ⟨Nat.le_refl _, h⟩

lemma afterExpression_reaches {p : Place} (h : UpTo limit tail p) :
    Reaches limit tail p.offset (afterExpression limit p) := by
  have sign := skip_reaches (c := '=') h
  exact (skipConversion_reaches sign.upTo).from sign.forward

/-- Spans that run forwards one behind the other between two offsets. -/
structure InOrder (start stop : ℕ) (spans : List Span) : Prop where
  each : ∀ s ∈ spans, start ≤ s.start ∧ s.start ≤ s.stop ∧ s.stop ≤ stop
  apart : spans.Pairwise fun a b => a.stop ≤ b.start

lemma InOrder.nil {start stop : ℕ} : InOrder start stop [] := ⟨nofun, .nil⟩

/-- Spans that belong to things which lie one behind the other. -/
lemma InOrder.flatMap {α : Type} {start stop : ℕ} {xs : List α} {at_ : α → Span}
    {f : α → List Span} (each : ∀ x ∈ xs, start ≤ (at_ x).start ∧ (at_ x).stop ≤ stop)
    (apart : xs.Pairwise fun x y => (at_ x).stop ≤ (at_ y).start)
    (inner : ∀ x ∈ xs, InOrder (at_ x).start (at_ x).stop (f x)) :
    InOrder start stop (xs.flatMap f) := by
  refine ⟨?_, List.pairwise_flatMap.2 ⟨fun x hx => (inner x hx).apart, ?_⟩⟩
  · intro s hs
    obtain ⟨x, hx, hs⟩ := List.mem_flatMap.1 hs
    obtain ⟨lower, forward, upper⟩ := (inner x hx).each s hs
    obtain ⟨first, last⟩ := each x hx
    exact ⟨by omega, forward, by omega⟩
  · refine apart.imp_of_mem ?_
    intro x y hx hy before a ha b hb
    have left := ((inner x hx).each a ha).2.2
    have right := ((inner y hy).each b hb).1
    omega

lemma InOrder.from {start start' stop : ℕ} {spans : List Span} (h : InOrder start stop spans)
    (le : start' ≤ start) : InOrder start' stop spans :=
  ⟨fun s hs => ⟨Nat.le_trans le (h.each s hs).1, (h.each s hs).2⟩, h.apart⟩

lemma InOrder.cons {start stop : ℕ} {s : Span} {spans : List Span} (h : InOrder s.stop stop spans)
    (lower : start ≤ s.start) (forward : s.start ≤ s.stop) (upper : s.stop ≤ stop) :
    InOrder start stop (s :: spans) := by
  refine ⟨List.forall_mem_cons.2 ⟨⟨lower, forward, upper⟩, ?_⟩,
    List.pairwise_cons.2 ⟨fun t ht => (h.each t ht).1, h.apart⟩⟩
  intro t ht
  obtain ⟨first, rest⟩ := h.each t ht
  exact ⟨by omega, rest⟩

theorem spansFrom_inOrder {specs offset : ℕ} {cs : List Char} (h : UpTo limit tail ⟨offset, cs⟩) :
    InOrder offset limit (spansFrom limit specs offset cs) := by
  fun_induction spansFrom limit specs offset cs with
  | case1 => exact .nil
  | case2 => exact .nil
  | case3 specs offset c rest more next twice ih =>
    have here := h.next more
    simp only [Bool.and_eq_true, decide_eq_true_eq, beq_iff_eq] at twice
    obtain ⟨⟨-, again⟩, inside⟩ := twice
    obtain ⟨rest', rfl⟩ : ∃ rest', rest = c :: rest' := by
      cases rest with
      | nil => nomatch again
      | cons d ds => exact ⟨ds, by rw [Option.some.inj again]⟩
    exact (ih (here.next (Nat.not_le.2 inside))).from (by omega)
  | case4 _ _ _ _ more next _ _ ih => exact (ih (h.next more)).from (Nat.le_add_right _ _)
  | case5 specs offset c rest more next _ _ _ stop after inside deeper behind =>
    have field : Reaches limit tail next stop := expressionEnd_reaches (h.next more)
    have conversion : Reaches limit tail stop.offset after := afterExpression_reaches field.upTo
    refine InOrder.cons ?_ (Nat.le_add_right _ _) field.forward field.upTo.offset_le
    split
    · have colon : Reaches limit tail after.offset inside := skip_reaches conversion.upTo
      exact (deeper colon.upTo).from (Nat.le_trans conversion.forward colon.forward)
    · have brace : Reaches limit tail after.offset (skip limit '}' after) :=
        skip_reaches conversion.upTo
      exact (behind brace.upTo).from (Nat.le_trans conversion.forward brace.forward)
  | case6 _ _ _ _ more next _ _ _ ih => exact (ih (h.next more)).from (Nat.le_add_right _ _)

lemma width_quote {q : Char} (h : Piece.isQuote q = true) : q.utf8Size = 1 := by
  rw [Piece.isQuote, Bool.or_eq_true, beq_iff_eq, beq_iff_eq] at h
  rcases h with rfl | rfl <;> rfl

lemma width_replicate {q : Char} (h : Piece.isQuote q = true) (n : ℕ) :
    width (List.replicate n q) = n := by
  induction n with
  | zero => rfl
  | succ n ih => rw [List.replicate_succ, Text.width_cons, ih, width_quote h, Nat.add_comm]

/-- The inside of a literal is the middle one of three parts of it. -/
lemma inside_eq_some {literal : List Char} {body : Span} (h : inside literal = some body) :
    ∃ front mid back, literal = front ++ mid ++ back
      ∧ body = ⟨width front, width front + width mid⟩ := by
  unfold inside at h
  dsimp only at h
  split at h
  · cases h
  next quote after shape =>
  have isQuote : Piece.isQuote quote = true := by
    have head := List.head?_dropWhile_not (!Piece.isQuote ·) literal
    rw [shape] at head
    simpa using head
  set letters := literal.takeWhile (!Piece.isQuote ·) with letters_eq
  set quotes : ℕ := if after.take 2 == [quote, quote] then 3 else 1 with quotes_eq
  have opening : after.take (quotes - 1) = List.replicate (quotes - 1) quote ∧ 1 ≤ quotes := by
    rw [quotes_eq]
    split
    next two => exact ⟨eq_of_beq two, by omega⟩
    · exact ⟨rfl, by omega⟩
  set rest := after.drop (quotes - 1) with rest_eq
  have whole : literal = letters ++ List.replicate quotes quote ++ rest := by
    have parts : letters ++ (quote :: after) = literal := by
      rw [← shape]
      exact List.takeWhile_append_dropWhile
    have after_eq : List.replicate (quotes - 1) quote ++ rest = after := by
      rw [← opening.1]
      exact List.take_append_drop _ _
    have one : List.replicate quotes quote = quote :: List.replicate (quotes - 1) quote := by
      rw [← List.replicate_succ, Nat.sub_add_cancel opening.2]
    rw [one, ← parts, ← after_eq]
    simp
  have first : width (letters ++ List.replicate quotes quote) = width letters + quotes := by
    rw [Text.width_append, width_replicate isQuote]
  obtain rfl := Option.some.inj h
  split
  next closed =>
    rw [Bool.and_eq_true, decide_eq_true_eq, List.all_eq_true] at closed
    obtain ⟨room, same⟩ := closed
    have closing : rest.drop (rest.length - quotes) = List.replicate quotes quote := by
      rw [List.eq_replicate_iff]
      refine ⟨by rw [List.length_drop]; omega, fun c hc => eq_of_beq (same c hc)⟩
    refine ⟨letters ++ List.replicate quotes quote, rest.take (rest.length - quotes),
      List.replicate quotes quote, ?_, ?_⟩
    · conv_lhs => rw [whole]
      rw [List.append_assoc _ (rest.take _), ← closing, List.take_append_drop]
    · have size : width rest = width (rest.take (rest.length - quotes)) + quotes := by
        conv_lhs => rw [← List.take_append_drop (rest.length - quotes) rest]
        rw [Text.width_append, closing, width_replicate isQuote]
      have total : width literal = width letters + quotes + width rest := by
        conv_lhs => rw [whole]
        rw [Text.width_append, first]
      rw [first, Span.mk.injEq]
      omega
  · refine ⟨_, rest, [], by rw [List.append_nil]; exact whole, ?_⟩
    have total : width literal = width letters + quotes + width rest := by
      conv_lhs => rw [whole]
      rw [Text.width_append, first]
    rw [first, total]

/-- The spans of the fields of a literal lie apart, inside the literal. -/
theorem spans_inOrder {before literal after : List Char} :
    InOrder (width before) (width before + width literal)
      (spans literal (width before) (literal ++ after)) := by
  unfold spans
  split
  · exact .nil
  next body is =>
  obtain ⟨front, mid, back, rfl, rfl⟩ := inside_eq_some is
  split
  · have cut : Text.dropBytes (front ++ mid ++ back ++ after) (width front)
        = mid ++ (back ++ after) := by
      simpa using Text.dropBytes_append front (mid ++ (back ++ after))
    have here : UpTo (width before + (width front + width mid)) (back ++ after)
        ⟨width before + width front, mid ++ (back ++ after)⟩ :=
      ⟨mid, rfl, Nat.add_assoc _ _ _⟩
    have field : InOrder (width before + width front) (width before + (width front + width mid))
        (spansFrom (width before + (width front + width mid)) 0 (width before + width front)
          (mid ++ (back ++ after))) := spansFrom_inOrder here
    have inner := field.from (Nat.le_add_right (width before) (width front))
    dsimp only
    rw [cut]
    refine ⟨fun s hs => ?_, inner.apart⟩
    obtain ⟨lower, forward, upper⟩ := inner.each s hs
    simp only [Text.width_append]
    exact ⟨lower, forward, by omega⟩
  · exact .nil

end MethodLift.Syntax.ReplacementField
