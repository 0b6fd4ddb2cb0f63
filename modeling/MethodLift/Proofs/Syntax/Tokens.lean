import MethodLift.Proofs.Text.Boundary
import MethodLift.Syntax.Lexing

/-!
# Where tokens stand

Reading a text takes pieces off its front, so each token stands between two cuts of the text, holds
the characters between them, and comes behind the token before it (`lexFrom_placed`).  The statement
is about a text inside a larger one: the fields of formatted strings are read as texts of their own,
with offsets that count from the front of the whole text.

The induction follows the reading.  What one step contributes lies between the offset that it starts
at and the one that it leaves (`Contributed`), and what comes later starts no earlier than that.
-/

namespace MethodLift.Syntax

open Text (Boundary Placed width slice)

/-! ## Tokens of a text -/

/-- A token stands in the text: its span is one, and the text that it carries is there.  Layout
carries no text.  A symbol is as wide as it is written. -/
structure Token.Placed (source : List Char) (t : Token) : Prop where
  span : Text.Placed source t.span
  text : t.text = "" ∨ slice source t.span = t.text.toList
  symbol : ∀ s, t.kind = .symbol s → t.span.stop = t.span.start + width s.text.toList

/-- Tokens that stand in the text one behind the other. -/
structure TokensPlaced (source : List Char) (ts : List Token) : Prop where
  each : ∀ t ∈ ts, t.Placed source
  apart : ts.Pairwise fun a b => a.span.stop ≤ b.span.start

/-- Tokens from an offset on, and problems. -/
structure Lexed.Placed (source : List Char) (offset : ℕ) (l : Lexed) : Prop where
  tokens : TokensPlaced source l.tokens
  ahead : ∀ t ∈ l.tokens, offset ≤ t.span.start
  problems : ∀ p ∈ l.problems, Text.Placed source p.span

/-- Tokens and problems between two offsets. -/
structure Contributed (source : List Char) (start stop : ℕ) (ts : List Token)
    (ps : List Problem) : Prop extends Lexed.Placed source start ⟨ts, ps⟩ where
  inside : ∀ t ∈ ts, t.span.stop ≤ stop
  forward : start ≤ stop

lemma Contributed.cons {source : List Char} {start stop : ℕ} {ts : List Token}
    {ps : List Problem} {later : Lexed} (h : Contributed source start stop ts ps)
    (hl : later.Placed source stop) : (later.cons ts ps).Placed source start := by
  refine ⟨⟨?_, ?_⟩, ?_, ?_⟩
  · exact List.forall_mem_append.2 ⟨h.tokens.each, hl.tokens.each⟩
  · refine List.pairwise_append.2 ⟨h.tokens.apart, hl.tokens.apart, ?_⟩
    intro a ha b hb
    exact Nat.le_trans (h.inside a ha) (hl.ahead b hb)
  · refine List.forall_mem_append.2 ⟨h.ahead, ?_⟩
    intro t ht
    exact Nat.le_trans h.forward (hl.ahead t ht)
  · exact List.forall_mem_append.2 ⟨h.problems, hl.problems⟩

lemma Lexed.Placed.mono {source : List Char} {start stop : ℕ} {l : Lexed}
    (h : l.Placed source stop) (le : start ≤ stop) : l.Placed source start :=
  ⟨h.tokens, fun t ht => Nat.le_trans le (h.ahead t ht), h.problems⟩

/-! ## Layout tokens -/

/-- A token without text; no symbol is one. -/
lemma Token.Placed.layout {source : List Char} {kind : TokenKind} {span : Span}
    (placed : Text.Placed source span) (noSymbol : ∀ s, kind ≠ .symbol s) :
    Token.Placed source ⟨kind, "", span⟩ :=
  ⟨placed, .inl rfl, fun s is => absurd is (noSymbol s)⟩

/-- Any number of tokens without text at one offset. -/
lemma TokensPlaced.points {source : List Char} {offset : ℕ} (h : Boundary source offset)
    {ts : List Token} (all : ∀ t ∈ ts, t.span = .point offset ∧ t.text = ""
      ∧ ∀ s, t.kind ≠ .symbol s) : TokensPlaced source ts := by
  refine ⟨?_, List.pairwise_of_forall_mem_list ?_⟩
  · rintro ⟨kind, text, span⟩ ht
    obtain ⟨rfl, rfl, noSymbol⟩ := all _ ht
    exact .layout (.point h) noSymbol
  · intro a ha b hb
    rw [(all a ha).1, (all b hb).1]
    exact Nat.le_refl _

/-- The tokens at the end of a text stand at one offset. -/
lemma closing_points {layout : Layout} {offset : ℕ} {t : Token}
    (h : t ∈ closing layout offset) : t.span = .point offset ∧ t.text = ""
      ∧ ∀ s, t.kind ≠ .symbol s := by
  simp only [closing, List.mem_append, List.mem_singleton] at h
  rcases h with (h | h) | rfl
  · split at h
    · obtain rfl := List.mem_singleton.1 h
      exact ⟨rfl, rfl, nofun⟩
    · nomatch h
  · split at h
    · obtain ⟨_, -, rfl⟩ := List.mem_map.1 h
      exact ⟨rfl, rfl, nofun⟩
    · nomatch h
  · exact ⟨rfl, rfl, nofun⟩

lemma closing_placed {source : List Char} {layout : Layout} {offset : ℕ}
    (h : Boundary source offset) : Lexed.Placed source offset ⟨closing layout offset, []⟩ := by
  refine ⟨.points h fun t ht => closing_points ht, ?_, nofun⟩
  intro t ht
  rw [(closing_points ht).1]
  exact Nat.le_refl _

/-- The tokens of an indentation lie between its two ends. -/
lemma relevel_contributed {source : List Char} {layout : Layout} {columns : ℕ} {blanks : Span}
    (h : Text.Placed source blanks) :
    Contributed source blanks.start blanks.stop (relevel layout columns blanks).tokens
      (relevel layout columns blanks).problems := by
  rw [relevel]
  split
  · refine ⟨⟨⟨?_, List.pairwise_singleton _ _⟩, ?_, nofun⟩, ?_, h.forward⟩
    · exact List.forall_mem_singleton.2 (.layout h nofun)
    · exact List.forall_mem_singleton.2 (Nat.le_refl _)
    · exact List.forall_mem_singleton.2 (Nat.le_refl _)
  split
  · have points : ∀ t ∈ (layout.levels.takeWhile (columns < ·)).map fun _ =>
        (⟨.dedent, "", .point blanks.stop⟩ : Token),
        t.span = .point blanks.stop ∧ t.text = "" ∧ ∀ s, t.kind ≠ .symbol s := by
      intro t ht
      obtain ⟨_, -, rfl⟩ := List.mem_map.1 ht
      exact ⟨rfl, rfl, nofun⟩
    refine ⟨⟨.points h.stop points, ?_, ?_⟩, ?_, h.forward⟩
    · intro t ht
      rw [(points t ht).1]
      exact h.forward
    · intro p hp
      dsimp only at hp
      split at hp
      · nomatch hp
      · obtain rfl := List.mem_singleton.1 hp
        exact h
    · intro t ht
      rw [(points t ht).1]
      exact Nat.le_refl _
  · have none {P : Token → Prop} : ∀ t ∈ ([] : List Token), P t := List.forall_mem_nil _
    exact ⟨⟨⟨none, .nil⟩, none, nofun⟩, none, h.forward⟩

/-! ## Pieces -/

lemma Piece.symbol?_taken {cs : List Char} {s : Symbol} {cut : Cut}
    (h : Piece.symbol? cs = some (s, cut)) : cut.taken = s.text.toList := by
  obtain ⟨t, -, ht⟩ := List.exists_of_findSome?_eq_some h
  obtain ⟨rest, -, same⟩ := Option.map_eq_some_iff.1 ht
  cases same
  rfl

lemma Piece.prefixedString?_kind {c : Char} {cs : List Char} {piece : Piece} {cut : Cut}
    (h : Piece.prefixedString? c cs = some (piece, cut)) : ∃ f closed, piece = .string f closed := by
  unfold Piece.prefixedString? at h
  split at h
  · cases h
  split at h
  · cases h
  split at h
  · cases h
    exact ⟨_, _, rfl⟩
  split at h
  · split at h
    · cases h
    split at h
    · cases h
      exact ⟨_, _, rfl⟩
    · cases h
  · cases h

/-- Of the branches of `Piece.read` only the last one gives a symbol: the branches are told apart by
the first character, and each of the others names its own kind of piece. -/
lemma Piece.read_symbol {c : Char} {cs : List Char} {s : Symbol} {cut : Cut}
    (h : Piece.read c cs = (.symbol s, cut)) : cut.taken = s.text.toList := by
  unfold Piece.read at h
  split at h
  · nomatch h
  split at h
  · nomatch h
  split at h
  · nomatch h
  split at h
  · split at h
    · split at h <;> nomatch h
    · nomatch h
  split at h
  · nomatch h
  split at h
  · nomatch h
  split at h
  · split at h
    next found is =>
      subst h
      obtain ⟨f, closed, kind⟩ := Piece.prefixedString?_kind is
      nomatch kind
    · nomatch h
  split at h
  next is =>
    cases h
    exact Piece.symbol?_taken is
  · nomatch h

/-- What a piece contributes lies where the piece stands. -/
lemma contribution_contributed {source before taken after : List Char} (layout : Layout)
    {piece : Piece} (whole : source = before ++ taken ++ after)
    (symbol : ∀ s, piece = .symbol s → taken = s.text.toList) :
    Contributed source (width before) (width before + width taken)
      (contribution layout piece taken ⟨width before, width before + width taken⟩).tokens
      (contribution layout piece taken ⟨width before, width before + width taken⟩).problems := by
  set span : Span := ⟨width before, width before + width taken⟩ with span_eq
  have placed : Text.Placed source span :=
    ⟨⟨before, taken ++ after, by rw [whole, List.append_assoc], rfl⟩,
      ⟨before ++ taken, after, whole, Text.width_append before taken⟩, Nat.le_add_right _ _⟩
  have text : slice source span = (String.ofList taken).toList := by
    have cut := Text.slice_append before taken after
    rw [Text.width_append] at cut
    rw [whole, cut, String.toList_ofList]
  have one (kind : TokenKind) (ps : List Problem)
      (symbol : ∀ s, kind = .symbol s → taken = s.text.toList)
      (problems : ∀ p ∈ ps, p.span = span) :
      Contributed source span.start span.stop [⟨kind, String.ofList taken, span⟩] ps := by
    refine ⟨⟨⟨?_, List.pairwise_singleton _ _⟩, ?_, ?_⟩, ?_, placed.forward⟩
    · refine List.forall_mem_singleton.2 ⟨placed, .inr text, ?_⟩
      intro s is
      rw [← symbol s is]
    · exact List.forall_mem_singleton.2 (Nat.le_refl _)
    · intro p hp
      rw [problems p hp]
      exact placed
    · exact List.forall_mem_singleton.2 (Nat.le_refl _)
  have nothing (ps : List Problem) (problems : ∀ p ∈ ps, p.span = span) :
      Contributed source span.start span.stop [] ps := by
    have none {P : Token → Prop} : ∀ t ∈ ([] : List Token), P t := List.forall_mem_nil _
    refine ⟨⟨⟨none, .nil⟩, none, ?_⟩, none, placed.forward⟩
    intro p hp
    rw [problems p hp]
    exact placed
  cases piece with
  | blank | comment | joint => exact nothing [] nofun
  | strayBackslash => exact nothing _ (List.forall_mem_singleton.2 rfl)
  | number => exact one _ [] nofun nofun
  | word =>
    refine one _ [] ?_ nofun
    intro s is
    rw [wordKind] at is
    split at is <;> nomatch is
  | symbol s =>
    refine one _ [] ?_ nofun
    intro t is
    cases is
    exact symbol s rfl
  | unknown => exact one _ _ nofun (List.forall_mem_singleton.2 rfl)
  | string formatted closed =>
    refine one _ _ ?_ ?_
    · intro s is
      split at is <;> nomatch is
    · intro p hp
      rw [contribution] at hp
      dsimp only at hp
      split at hp
      · nomatch hp
      · obtain rfl := List.mem_singleton.1 hp
        rfl
  | lineBreak =>
    rw [contribution]
    split
    · split
      · refine ⟨⟨⟨?_, List.pairwise_singleton _ _⟩, ?_, nofun⟩, ?_, placed.forward⟩
        · exact List.forall_mem_singleton.2 (.layout (.point placed.start) nofun)
        · exact List.forall_mem_singleton.2 (Nat.le_refl _)
        · exact List.forall_mem_singleton.2 placed.forward
      · exact nothing [] nofun
    · exact nothing [] nofun

/-! ## Reading a text step by step -/

section

variable {layout : Layout} {c d : Char} {cs ds : List Char} (offset : ℕ)

lemma lexFrom_inLine (inLine : ¬layout.lineStart = true) : lexFrom layout offset (c :: cs)
    = (let found := Piece.read c cs
      let stop := offset + Text.width found.2.taken
      let step := contribution layout found.1 found.2.taken ⟨offset, stop⟩
      (lexFrom step.next stop found.2.rest).cons step.tokens step.problems) := by
  rw [lexFrom, if_neg inLine]

lemma lexFrom_blank (begins : layout.lineStart = true)
    (shape : (Cut.spanning isBlank (c :: cs)).rest = []) : lexFrom layout offset (c :: cs)
    = ⟨closing layout (offset + Text.width (Cut.spanning isBlank (c :: cs)).taken), []⟩ := by
  rw [lexFrom, if_pos begins]
  dsimp only
  split
  · rfl
  next d ds shape' => cases shape.symm.trans shape'

lemma lexFrom_emptyLine (begins : layout.lineStart = true)
    (shape : (Cut.spanning isBlank (c :: cs)).rest = d :: ds) (empty : beginsEmptyLine d = true) :
    lexFrom layout offset (c :: cs) = lexFrom layout
      (offset + Text.width (Cut.spanning isBlank (c :: cs)).taken
        + Text.width (emptyLine d ds).taken) (emptyLine d ds).rest := by
  rw [lexFrom, if_pos begins]
  dsimp only
  split
  next none => cases shape.symm.trans none
  next d' ds' shape' =>
    obtain ⟨rfl, rfl⟩ := List.cons.inj (shape.symm.trans shape')
    rw [if_pos empty]

lemma lexFrom_level (begins : layout.lineStart = true)
    (shape : (Cut.spanning isBlank (c :: cs)).rest = d :: ds) (some : ¬beginsEmptyLine d = true) :
    lexFrom layout offset (c :: cs)
    = (let blanks := (Cut.spanning isBlank (c :: cs)).taken
      let first := offset + Text.width blanks
      let step := relevel layout (indentationWidth blanks) ⟨offset, first⟩
      (lexFrom step.next first (d :: ds)).cons step.tokens step.problems) := by
  rw [lexFrom, if_pos begins]
  dsimp only
  split
  next none => cases shape.symm.trans none
  next d' ds' shape' =>
    obtain ⟨rfl, rfl⟩ := List.cons.inj (shape.symm.trans shape')
    rw [if_neg some]

end

/-! ## Reading a text -/

lemma emptyLine_append (c : Char) (cs : List Char) :
    (emptyLine c cs).taken ++ (emptyLine c cs).rest = c :: cs := by
  unfold emptyLine
  split
  · have parts := Cut.spanning_append (!isLineEnd ·) cs
    split
    next rest =>
      rw [rest, List.append_nil] at parts
      simp
    next d ds rest =>
      have inner := Piece.afterBreak_append d ds
      rw [rest] at parts
      simp [inner, parts]
  · simp [Piece.afterBreak_append]

/-- The tokens of a text that stands inside a larger one stand in the larger one. -/
theorem lexFrom_placed {source before cs after : List Char} {layout : Layout} {offset : ℕ}
    (whole : source = before ++ cs ++ after) (size : width before = offset) :
    (lexFrom layout offset cs).Placed source offset := by
  -- `before` grows by what each step takes off the front
  fun_induction lexFrom layout offset cs generalizing before with
  | case1 layout offset =>
    exact closing_placed ⟨before, after, by simpa using whole, size⟩
  | case2 layout offset c rest begins blanks first =>
    have parts : blanks.taken ++ blanks.rest = c :: rest := Cut.spanning_append _ _
    have here : Boundary source first := by
      refine ⟨before ++ blanks.taken, blanks.rest ++ after, ?_, ?_⟩
      · rw [whole, ← parts]
        simp only [List.append_assoc]
      · rw [Text.width_append, size]
    exact (closing_placed here).mono (Nat.le_add_right _ _)
  | case3 layout offset c rest begins blanks first d ds shape empty line =>
    next ih =>
    have parts : blanks.taken ++ blanks.rest = c :: rest := Cut.spanning_append _ _
    have inner : line.taken ++ line.rest = d :: ds := emptyLine_append d ds
    have later := @ih (before ++ blanks.taken ++ line.taken)
      (by rw [whole, ← parts, shape, ← inner]; simp only [List.append_assoc])
      (by rw [Text.width_append, Text.width_append, size])
    exact later.mono (Nat.le_trans (Nat.le_add_right _ _) (Nat.le_add_right _ _))
  | case4 layout offset c rest begins blanks first d ds shape some step =>
    next ih =>
    have parts : blanks.taken ++ blanks.rest = c :: rest := Cut.spanning_append _ _
    have whole' : source = before ++ blanks.taken ++ (d :: ds) ++ after := by
      rw [whole, ← parts, shape]
      simp only [List.append_assoc]
    have size' : width (before ++ blanks.taken) = first := by rw [Text.width_append, size]
    have placed : Text.Placed source ⟨offset, first⟩ :=
      ⟨⟨before, c :: rest ++ after, by rw [whole, List.append_assoc], size⟩,
        ⟨before ++ blanks.taken, d :: ds ++ after, by rw [whole', List.append_assoc], size'⟩,
        Nat.le_add_right _ _⟩
    exact (relevel_contributed placed).cons (ih whole' size')
  | case5 layout offset c rest inside found stop step =>
    next ih =>
    have parts : found.2.taken ++ found.2.rest = c :: rest := Piece.read_taken_append_rest c rest
    have whole' : source = before ++ found.2.taken ++ (found.2.rest ++ after) := by
      rw [whole, ← parts]
      simp only [List.append_assoc]
    have symbol : ∀ s, found.1 = .symbol s → found.2.taken = s.text.toList :=
      fun s is => Piece.read_symbol (Prod.ext is rfl)
    have here : Contributed source offset stop step.tokens step.problems := by
      have piece := contribution_contributed layout whole' symbol
      rw [size] at piece
      exact piece
    have later := @ih (before ++ found.2.taken) (by rw [whole']; simp only [List.append_assoc])
      (by rw [Text.width_append, size])
    exact here.cons later

/-! ## The end of the text -/

lemma closing_eq (layout : Layout) (offset : ℕ) : ∃ front,
    closing layout offset = front ++ [⟨.endOfFile, "", .point offset⟩]
      ∧ ∀ t ∈ front, t.kind.isLayout = true := by
  refine ⟨_, rfl, fun t ht => ?_⟩
  rcases List.mem_append.1 ht with ht | ht
  · split at ht
    · obtain rfl := List.mem_singleton.1 ht
      rfl
    · nomatch ht
  · split at ht
    · obtain ⟨_, -, rfl⟩ := List.mem_map.1 ht
      rfl
    · nomatch ht

lemma relevel_isLayout (layout : Layout) (columns : ℕ) (blanks : Span) :
    ∀ t ∈ (relevel layout columns blanks).tokens, t.kind.isLayout = true := by
  intro t ht
  unfold relevel at ht
  split at ht
  · obtain rfl := List.mem_singleton.1 ht
    rfl
  split at ht
  · obtain ⟨_, -, rfl⟩ := List.mem_map.1 ht
    rfl
  · nomatch ht

/-- No piece is the end of the text. -/
lemma contribution_ne_endOfFile (layout : Layout) (piece : Piece) (taken : List Char)
    (span : Span) : ∀ t ∈ (contribution layout piece taken span).tokens, t.kind ≠ .endOfFile := by
  have one {kind : TokenKind} (ne : kind ≠ .endOfFile) :
      ∀ t ∈ [(⟨kind, String.ofList taken, span⟩ : Token)], t.kind ≠ .endOfFile :=
    List.forall_mem_singleton.2 ne
  cases piece with
  | blank | comment | joint | strayBackslash => exact List.forall_mem_nil _
  | number | symbol | unknown => exact one nofun
  | word =>
    refine one ?_
    rw [wordKind]
    split <;> nofun
  | string formatted =>
    refine one ?_
    split <;> nofun
  | lineBreak =>
    rw [contribution]
    split
    · split
      · exact List.forall_mem_singleton.2 nofun
      · exact List.forall_mem_nil _
    · exact List.forall_mem_nil _

/-- The end of a text is the last one of its tokens, and no other one. -/
def Complete (ts : List Token) : Prop :=
  ∃ (front : List Token) (last : Token), ts = front ++ [last] ∧ last.kind = .endOfFile
    ∧ ∀ t ∈ front, t.kind ≠ .endOfFile

lemma Complete.append {before ts : List Token} (h : Complete ts)
    (others : ∀ t ∈ before, t.kind ≠ .endOfFile) : Complete (before ++ ts) := by
  obtain ⟨front, last, rfl, is, ne⟩ := h
  exact ⟨before ++ front, last, (List.append_assoc _ _ _).symm, is,
    List.forall_mem_append.2 ⟨others, ne⟩⟩

theorem lexFrom_complete (layout : Layout) (offset : ℕ) (cs : List Char) :
    Complete (lexFrom layout offset cs).tokens := by
  have other {t : Token} (layout : t.kind.isLayout = true) : t.kind ≠ .endOfFile := by
    intro is
    rw [is] at layout
    nomatch layout
  have ends (layout : Layout) (offset : ℕ) : Complete (closing layout offset) := by
    obtain ⟨front, whole, others⟩ := closing_eq layout offset
    exact ⟨front, _, whole, rfl, fun t ht => other (others t ht)⟩
  fun_induction lexFrom layout offset cs with
  | case1 => exact ends _ _
  | case2 => exact ends _ _
  | case3 _ _ _ _ _ _ _ _ _ _ _ _ ih => exact ih
  | case4 _ _ _ _ _ _ _ _ _ _ _ _ ih =>
    exact ih.append fun t ht => other (relevel_isLayout _ _ _ t ht)
  | case5 _ _ _ _ _ _ _ _ ih => exact ih.append (contribution_ne_endOfFile _ _ _ _)

/-- The tokens of a whole text. -/
theorem lex_placed (text : String) : (lex text).Placed text.toList 0 :=
  @lexFrom_placed text.toList [] text.toList [] .module 0 (List.append_nil _).symm rfl

end MethodLift.Syntax
