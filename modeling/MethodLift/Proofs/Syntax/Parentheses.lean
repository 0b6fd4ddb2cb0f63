import MethodLift.Proofs.Syntax.Precedence

/-!
# Where the parentheses of a call stand

A call is read from the tokens of its callee, an opening parenthesis, the tokens of its arguments and
a closing parenthesis (`CallTokens`).  Its span says less about the closing parenthesis than one
would think.  The span ends with that token only if the call does not stand in parentheses of its
own, since those widen it; with them it ends with the last one of them.

The arguments lie between the two parentheses.  Whether an argument that is a generator expression
has parentheses of its own is not recorded in the tree, but it can be told from the first character:
one that has them begins with a parenthesis (`Parenthesized.begins`).
-/

namespace MethodLift.Syntax

/-! ## Symbols -/

lemma wordKind_ne_symbol (word : String) (s : Symbol) : wordKind word ≠ .symbol s := by
  unfold wordKind
  split
  · nofun
  · nofun

/-- Only a symbol gives a token of a symbol's kind. -/
lemma contribution_symbol {layout : Layout} {piece : Piece} {taken : List Char} {span : Span}
    {t : Token} {s : Symbol} (ht : t ∈ (contribution layout piece taken span).tokens)
    (is : t.kind = .symbol s) : piece = .symbol s ∧ t.text = String.ofList taken := by
  cases piece with
  | blank | comment | joint | strayBackslash => nomatch ht
  | lineBreak =>
    unfold contribution at ht
    dsimp only at ht
    split at ht
    · split at ht
      · obtain rfl := List.mem_singleton.1 ht
        nomatch is
      · nomatch ht
    · nomatch ht
  | symbol s' =>
    obtain rfl := List.mem_singleton.1 ht
    obtain rfl := TokenKind.symbol.inj is
    exact ⟨rfl, rfl⟩
  | string formatted =>
    obtain rfl := List.mem_singleton.1 ht
    cases formatted <;> nomatch is
  | word =>
    obtain rfl := List.mem_singleton.1 ht
    exact absurd is (wordKind_ne_symbol _ s)
  | number | unknown =>
    obtain rfl := List.mem_singleton.1 ht
    nomatch is

/-- A token of a symbol's kind has the symbol's text. -/
lemma lexFrom_symbol {layout : Layout} {offset : ℕ} {cs : List Char} {t : Token} {s : Symbol}
    (ht : t ∈ (lexFrom layout offset cs).tokens) (is : t.kind = .symbol s) : t.text = s.text := by
  fun_induction lexFrom layout offset cs with
  | case1 => exact absurd is ((closing_points ht).2.2 s)
  | case2 => exact absurd is ((closing_points ht).2.2 s)
  | case3 layout offset c rest begins blanks first d ds shape empty line =>
    next ih => exact ih ht
  | case4 layout offset c rest begins blanks first d ds shape some step =>
    next ih =>
    rcases List.mem_append.1 ht with level | later
    · have layout := relevel_isLayout _ _ _ t level
      rw [is] at layout
      cases layout
    · exact ih later
  | case5 layout offset c rest inside found stop step =>
    next ih =>
    rcases List.mem_append.1 ht with here | later
    · obtain ⟨piece, text⟩ := contribution_symbol here is
      have taken : found.2.taken = s.text.toList := Piece.read_symbol (Prod.ext piece rfl)
      rw [text, taken, String.ofList_toList]
    · exact ih later

/-! ## Streams -/

namespace Stream

variable {text : String} {all : List Token} {t : Token} {s : Symbol}

/-- A replacement field that spells an expression is not empty. -/
lemma field_ne_nil {e : Expr} {offset : ℕ} {field : List Char} {p : Position} {ts : List Token}
    {ending : Token} (tokens : (lexBracketed offset field).tokens = ts ++ [ending])
    (spelled : Spelled text.toList [.part p e] ts) : field ≠ [] := by
  rintro rfl
  have one : (lexBracketed offset []).tokens = [⟨.endOfFile, "", .point offset⟩] := by
    rw [lexBracketed, lexFrom]
    rfl
  rw [one] at tokens
  obtain ⟨first, is, -⟩ := spelled.covers_part.start
  obtain ⟨others, rfl⟩ := List.head?_eq_some_iff.1 is
  have size := congrArg List.length tokens
  simp at size

/-- The tokens of a stream stand in the text. -/
theorem placed (h : Stream text all) : TokensPlaced text.toList all := by
  cases h with
  | whole => exact (lex_placed text).tokens
  | @field _ _ span ts ending _ _ _ tokens ends spelled =>
    obtain ⟨before, after, whole, start, -⟩ := Text.slice_ne_nil (field_ne_nil tokens spelled)
    rw [← tokens]
    exact (lexFrom_placed whole start).tokens

/-- Where a stream has a symbol, the text has it. -/
theorem slice_symbol (h : Stream text all) (ht : t ∈ all) (is : t.kind = .symbol s) :
    Text.slice text.toList t.span = s.text.toList := by
  have spelled : t.text = s.text := by
    cases h with
    | whole => exact lexFrom_symbol ht is
    | field _ _ _ tokens =>
      rw [← tokens] at ht
      exact lexFrom_symbol ht is
  have some : s.text ≠ "" := by cases s <;> decide
  rw [← spelled] at some ⊢
  exact ((h.placed.each t ht).text.resolve_left some)

lemma symbol_stop (h : Stream text all) (ht : t ∈ all) (is : t.kind = .symbol s) :
    t.span.stop = t.span.start + Text.width s.text.toList := (h.placed.each t ht).symbol s is

end Stream

/-! ## Calls -/

/-- The tokens that a call is read from, among those of a stream. -/
structure CallTokens (text : String) (mark : Mark) (func : Expr) (args : List (Arg Expr))
    (all callee inside : List Token) (opening closing : Token) : Prop where
  stream : Stream text all
  stretch : callee ++ opening :: inside ++ [closing] <:+: all
  opens : opening.kind = .symbol .leftParen
  closes : closing.kind = .symbol .rightParen
  callee : Spelled text.toList [.operand 15 func] callee
  arguments : Spelled text.toList (Segment.list (args.map (·.segments))) inside
  /-- The call's own parenthesis, or one around the call. -/
  last : ∃ t ∈ all, t.kind = .symbol .rightParen ∧ t.span.stop = mark.span.stop
  within : closing.span.stop ≤ mark.span.stop

/-- What is read as a call ends with a closing parenthesis. -/
lemma Spelled.call_last {source : List Char} {p : Position} {mark : Mark} {func : Expr}
    {args : List (Arg Expr)} {ts : List Token}
    (h : Spelled source [.part p (.call mark func args)] ts) :
    ∃ t ∈ ts, t.kind = .symbol .rightParen ∧ t.span.stop = mark.span.stop := by
  cases h with
  | leaf here _ => nomatch here
  | bare _ covers inside rest =>
    rw [rest.eq_nil, List.append_nil]
    change Spelled _ ((.operand 15 func :: Segment.sign .leftParen
      :: Segment.list (args.map (·.segments))) ++ [Segment.sign .rightParen]) _ at inside
    obtain ⟨front, back, rfl, -, single⟩ := inside.split
    obtain ⟨t, rfl, closes⟩ := single.leaf_of_single nofun nofun nofun
    have stops := covers.stop
    rw [lastStop?_append, lastStop?_singleton (by rw [closes]; rfl)] at stops
    exact ⟨t, List.mem_append_right _ (List.mem_singleton.2 rfl), closes, Option.some.inj stops⟩
  | @paren _ d _ _ opening closing _ _ _ closes widened _ rest =>
    rw [rest.eq_nil]
    have stops := congrArg (·.span.stop) widened
    rw [Expr.span_withSpan] at stops
    exact ⟨closing, by simp, closes, stops.symm⟩

/-- A call is read from the tokens of its callee and of its arguments, and its parentheses. -/
theorem ReadFrom.call {text : String} {mark : Mark} {func : Expr} {args : List (Arg Expr)}
    {p : Position} {all ts : List Token} (h : ReadFrom text all (.call mark func args) p ts) :
    ∃ callee inside opening closing,
      CallTokens text mark func args all callee inside opening closing := by
  obtain ⟨own, stretch, segments⟩ := h.spelled.exists_segments
  obtain ⟨last, mem, closes', stops⟩ := h.spelled.call_last
  change Spelled _ (.operand 15 func :: Segment.sign .leftParen
    :: (Segment.list (args.map (·.segments)) ++ [Segment.sign .rightParen])) _ at segments
  obtain ⟨callee, rest, rfl, calls, behind⟩ := segments.uncons
  obtain ⟨left, rest, rfl, single, listed⟩ := behind.uncons
  obtain ⟨opening, rfl, opens⟩ := single.leaf_of_single nofun nofun nofun
  obtain ⟨inside, right, rfl, arguments, single⟩ := listed.split
  obtain ⟨closing, rfl, closes⟩ := single.leaf_of_single nofun nofun nofun
  have inOrder : InOrder ts := h.stream.placed.inOrder.sublist h.stretch.sublist
  have mem' : closing ∈ ts := stretch.subset (by simp)
  have contains := h.covers.contains inOrder mem' (by rw [closes]; rfl)
  refine ⟨callee, inside, opening, closing, h.stream, ?_, opens, closes, calls, arguments,
    ⟨last, h.stretch.subset mem, closes', stops⟩, (Span.contains_iff.1 contains).2⟩
  have same : callee ++ ([opening] ++ (inside ++ [closing]))
      = callee ++ opening :: inside ++ [closing] := by simp
  rw [← same]
  exact stretch.trans h.stretch

/-- Every call in the tree of a text without problems is read so. -/
theorem call_tokens {text : String} (valid : (parse text).problems = []) {mark : Mark} {func : Expr}
    {args : List (Arg Expr)} (he : .call mark func args ∈ (parse text).module.reachableExprs) :
    ∃ all callee inside opening closing,
      CallTokens text mark func args all callee inside opening closing := by
  obtain ⟨all, p, ts, read⟩ := operators_bind valid _ he
  exact ⟨all, read.call⟩

/-! ## Positions -/

namespace Segment

/-- An argument holds its value. -/
lemma exists_part_of_arg (a : Arg Expr) : ∃ p, .part p a.value ∈ a.segments := by
  rw [Arg.segments]
  split
  · exact ⟨_, List.mem_singleton.2 rfl⟩
  · exact ⟨_, List.mem_of_mem_getLast? rfl⟩
  · exact ⟨_, List.mem_of_mem_getLast? rfl⟩
  · exact ⟨_, List.mem_of_mem_getLast? rfl⟩

lemma mem_list {items : List (List Segment)} {item : List Segment} (hi : item ∈ items)
    {x : Segment} (hx : x ∈ item) : x ∈ list items := by
  cases items with
  | nil => nomatch hi
  | cons first others =>
    refine List.mem_append_left _ ?_
    rcases List.mem_cons.1 hi with rfl | hi
    · exact List.mem_append_left _ hx
    · exact List.mem_append_right _ (List.mem_flatMap.2 ⟨item, hi, List.mem_cons_of_mem _ hx⟩)

end Segment

namespace CallTokens

variable {text : String} {mark : Mark} {func : Expr} {args : List (Arg Expr)}
  {all callee inside : List Token} {opening closing : Token}
  (h : CallTokens text mark func args all callee inside opening closing)
include h

lemma opening_mem : opening ∈ all := h.stretch.subset (by simp)

lemma closing_mem : closing ∈ all := h.stretch.subset (by simp)

lemma inside_infix : inside <:+: all :=
  List.IsInfix.trans ⟨callee ++ [opening], [closing], by simp⟩ h.stretch

lemma inOrder : InOrder (callee ++ opening :: inside ++ [closing]) :=
  h.stream.placed.inOrder.sublist h.stretch.sublist

/-- The callee ends in front of the opening parenthesis. -/
lemma func_stop_le : func.span.stop ≤ opening.span.start := by
  obtain ⟨t, ht, -, stops⟩ := exists_of_lastStop? h.callee.covers_part.stop
  rw [← stops]
  have apart := h.inOrder.apart
  rw [List.append_assoc] at apart
  exact (List.pairwise_append.1 apart).2.2 t ht opening List.mem_cons_self

lemma opening_stop_le : opening.span.stop ≤ closing.span.start := by
  have apart := h.inOrder.apart
  refine (List.pairwise_append.1 apart).2.2 opening ?_ closing (List.mem_singleton.2 rfl)
  exact List.mem_append_right _ List.mem_cons_self

lemma opening_stop : opening.span.stop = opening.span.start + 1 :=
  h.stream.symbol_stop h.opening_mem h.opens

lemma closing_stop : closing.span.stop = closing.span.start + 1 :=
  h.stream.symbol_stop h.closing_mem h.closes

/-- The tokens of an argument's value are among those between the parentheses. -/
lemma value_spelled {a : Arg Expr} (ha : a ∈ args) :
    ∃ p ts, ts <:+: inside ∧ Spelled text.toList [.part p a.value] ts := by
  obtain ⟨p, mem⟩ := Segment.exists_part_of_arg a
  obtain ⟨ts, within, spelled⟩ :=
    h.arguments.of_mem (Segment.mem_list (List.mem_map_of_mem ha) mem)
  exact ⟨p, ts, within, spelled⟩

/-- The value of an argument stands between the parentheses. -/
theorem value_between {a : Arg Expr} (ha : a ∈ args) :
    opening.span.stop ≤ a.value.span.start ∧ a.value.span.stop ≤ closing.span.start := by
  obtain ⟨p, ts, within, spelled⟩ := h.value_spelled ha
  obtain ⟨front, last⟩ := spelled.covers_part
  obtain ⟨t, ht, starts⟩ := front
  obtain ⟨t', ht', -, stops⟩ := exists_of_lastStop? last
  rw [← starts, ← stops]
  obtain ⟨left, -, toClosing⟩ := List.pairwise_append.1 h.inOrder.apart
  obtain ⟨-, ofOpening, -⟩ := List.pairwise_append.1 left
  refine ⟨?_, ?_⟩
  · exact (List.pairwise_cons.1 ofOpening).1 t (within.subset (List.mem_of_mem_head? ht))
  · refine toClosing t' ?_ closing (List.mem_singleton.2 rfl)
    exact List.mem_append_right _ (List.mem_cons_of_mem _ (within.subset ht'))

end CallTokens

/-! ## Generators -/

/-- What stands in parentheses of its own begins with a parenthesis. -/
lemma Parenthesized.begins {text : String} {all ts : List Token} {e : Expr}
    (h : Parenthesized text.toList e ts) (stream : Stream text all) (within : ts <:+: all) :
    (Text.dropBytes text.toList e.span.start).head? = some '(' := by
  obtain ⟨opening, closing, inside, d, rfl, opens, -, rfl, -⟩ := h
  have symbol := stream.slice_symbol (within.subset (by simp)) opens
  have some : Text.slice text.toList opening.span ≠ [] := by
    rw [symbol]
    exact nofun
  obtain ⟨a, c, whole, start, -⟩ := Text.slice_ne_nil some
  rw [Expr.span_withSpan, whole, symbol, List.append_assoc, ← start, Text.dropBytes_append]
  rfl

end MethodLift.Syntax
