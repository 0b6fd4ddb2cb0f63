import MethodLift.Proofs.Syntax.Brackets

/-!
# Layout is well formed

The ends of lines and the indentation of blocks become tokens, and those who read on rely on where
such tokens can be: none is in brackets, a line ends behind a token that is no layout, and blocks that
begin also end.  The tokens of every text are of this form, with one reservation (`layout_formed`): a
line that is indented less than the one before, but not as any line around it, counts as indented anew
and has no token for that.  Blocks need not be balanced where this is a problem of the text.

While a text is read, the layout that is carried along says what the tokens so far have in common with
it: how many brackets are open behind them, whether the last one was layout (`Layout.Follows`), and how
many blocks they have begun and not ended (`Layout.Balances`).  Each step keeps both.
-/

namespace MethodLift.Syntax

/-! ## What tokens amount to -/

/-- How many brackets are open behind a token; one that closes none is of no account. -/
def TokenKind.depthBehind (depth : ℕ) (k : TokenKind) : ℕ :=
  if k.opens then depth + 1 else if k.closes then depth - 1 else depth

/-- How many brackets are open behind some tokens. -/
def bracketDepth (ts : List Token) : ℕ := ts.foldl (fun depth t => t.kind.depthBehind depth) 0

/-- How many blocks begin with some tokens. -/
def indents (ts : List Token) : ℕ := ts.countP (·.kind == .indent)

/-- How many blocks end with some tokens. -/
def dedents (ts : List Token) : ℕ := ts.countP (·.kind == .dedent)

section

variable {ts us : List Token}

@[simp] lemma indents_append : indents (ts ++ us) = indents ts + indents us := List.countP_append
@[simp] lemma dedents_append : dedents (ts ++ us) = dedents ts + dedents us := List.countP_append

/-- Each of some blocks ends. -/
lemma counts_of_ends (levels : List ℕ) (offset : ℕ) :
    indents (levels.map fun _ => ⟨.dedent, "", .point offset⟩) = 0
      ∧ dedents (levels.map fun _ => ⟨.dedent, "", .point offset⟩) = levels.length := by
  simp [indents, dedents, List.countP_replicate]

lemma bracketDepth_append_singleton (ts : List Token) (t : Token) :
    bracketDepth (ts ++ [t]) = t.kind.depthBehind (bracketDepth ts) := by
  rw [bracketDepth, List.foldl_append]
  rfl

lemma TokenKind.depthBehind_of_isLayout {k : TokenKind} (h : k.isLayout = true) (depth : ℕ) :
    k.depthBehind depth = depth := by
  cases k with
  | newline | indent | dedent => rfl
  | _ => nomatch h

/-- Layout opens and closes no bracket. -/
lemma bracketDepth_append_layout (layouts : ∀ t ∈ us, t.kind.isLayout = true) :
    bracketDepth (ts ++ us) = bracketDepth ts := by
  induction us using List.reverseRecOn with
  | nil => rw [List.append_nil]
  | append_singleton us t ih =>
    obtain ⟨front, last⟩ := List.forall_mem_append.1 layouts
    rw [← List.append_assoc, bracketDepth_append_singleton,
      TokenKind.depthBehind_of_isLayout (last t (List.mem_singleton.2 rfl)), ih front]

end

/-! ## Tokens behind others -/

/-- What is asked of a token behind others. -/
structure Token.LaidBehind (before : List Token) (t : Token) : Prop where
  outside : t.kind.isLayout = true → bracketDepth before = 0
  ended : t.kind = .newline → ∃ last ∈ before.getLast?, last.kind.isLayout = false

/-- The same of each of some tokens behind others. -/
def AllLaid (before ts : List Token) : Prop :=
  ∀ front t, front ++ [t] <+: ts → t.LaidBehind (before ++ front)

section

variable {before ts us : List Token} {t : Token}

lemma AllLaid.nil : AllLaid before [] := by
  intro front t is
  simp at is

lemma AllLaid.append (h : AllLaid before ts) (h' : AllLaid (before ++ ts) us) :
    AllLaid before (ts ++ us) := by
  intro front t is
  rcases List.prefix_or_prefix_of_prefix is (List.prefix_append ts us) with is' | ⟨rest, parts⟩
  · exact h front t is'
  cases rest using List.reverseRecOn with
  | nil => exact h front t (by rw [← parts, List.append_nil])
  | append_singleton rest last =>
    rw [← List.append_assoc] at parts
    obtain ⟨rfl, same⟩ := List.append_inj' parts rfl
    obtain rfl : last = t := by simpa using same
    rw [List.append_assoc, List.prefix_append_right_inj] at is
    rw [← List.append_assoc]
    exact h' rest last is

lemma AllLaid.singleton (h : t.LaidBehind before) : AllLaid before [t] := by
  intro front u is
  obtain ⟨rfl, rfl⟩ : front = [] ∧ u = t := by
    cases front with
    | nil => simpa using is
    | cons x front => simp at is
  rwa [List.append_nil]

lemma Token.LaidBehind.of_solid (h : t.kind.isLayout = false) : t.LaidBehind before := by
  constructor
  · intro layout
    rw [h] at layout
    nomatch layout
  · intro newline
    rw [newline] at h
    nomatch h

/-- Where no bracket is open, blocks may begin and end. -/
lemma AllLaid.blocks (outside : bracketDepth before = 0)
    (blocks : ∀ t ∈ ts, t.kind = .indent ∨ t.kind = .dedent) : AllLaid before ts := by
  intro front t is
  have layouts : ∀ u ∈ front, u.kind.isLayout = true := by
    intro u hu
    rcases blocks u (is.subset (List.mem_append_left _ hu)) with kind | kind <;> rw [kind] <;> rfl
  constructor
  · intro
    rw [bracketDepth_append_layout layouts, outside]
  · intro newline
    rcases blocks t (is.subset (List.mem_append_right _ List.mem_cons_self)) with kind | kind <;>
      rw [kind] at newline <;> nomatch newline

end

/-! ## The layout that is carried along -/

/-- What the layout says of the tokens so far. -/
structure Layout.Follows (layout : Layout) (before : List Token) : Prop where
  depth : bracketDepth before = layout.depth
  outside : layout.lineStart = true → layout.depth = 0
  pending : layout.pending = true → ∃ last ∈ before.getLast?, last.kind.isLayout = false

/-- The blocks that are open are those that began and did not end. -/
def Layout.Balances (layout : Layout) (before : List Token) : Prop :=
  dedents before + layout.levels.length = indents before

section

variable {layout : Layout} {before : List Token}

/-! ### Indentation -/

/-- The indentation of a line begins a block, or ends some. -/
lemma relevel_blocks (layout : Layout) (columns : ℕ) (blanks : Span) :
    ∀ t ∈ (relevel layout columns blanks).tokens, t.kind = .indent ∨ t.kind = .dedent := by
  unfold relevel
  split
  · exact List.forall_mem_singleton.2 (.inl rfl)
  split
  · exact List.forall_mem_map.2 fun _ _ => .inr rfl
  · exact List.forall_mem_nil _

lemma Layout.Follows.relevel (h : layout.Follows before) (outside : layout.depth = 0)
    (columns : ℕ) (blanks : Span) : (relevel layout columns blanks).next.Follows
      (before ++ (relevel layout columns blanks).tokens) := by
  have depth : (Syntax.relevel layout columns blanks).next.depth = layout.depth := by
    unfold Syntax.relevel
    split
    · rfl
    split <;> rfl
  constructor
  · rw [bracketDepth_append_layout (relevel_isLayout layout columns blanks), depth, h.depth]
  · intro
    rw [depth, outside]
  · intro pending
    unfold Syntax.relevel at pending ⊢
    split at pending
    · nomatch pending
    split at pending
    · nomatch pending
    next deeper other =>
      rw [if_neg deeper, if_neg other, List.append_nil]
      exact h.pending pending

/-- At each indentation the blocks that it ends were open. -/
lemma Layout.Balances.relevel (h : layout.Balances before) {columns : ℕ} {blanks : Span}
    (fits : ∀ p ∈ (relevel layout columns blanks).problems, p.cause ≠ .unindentMismatch) :
    (relevel layout columns blanks).next.Balances
        (before ++ (relevel layout columns blanks).tokens)
      ∧ dedents (relevel layout columns blanks).tokens ≤ layout.levels.length := by
  unfold Balances at h ⊢
  rw [indents_append, dedents_append]
  unfold Syntax.relevel at fits ⊢
  split
  · simp [indents, dedents] at h ⊢
    omega
  next same =>
  rw [if_neg same] at fits
  split
  next less =>
    rw [if_pos less] at fits
    have parts := congrArg List.length
      (List.takeWhile_append_dropWhile (p := (columns < ·)) (l := layout.levels))
    rw [List.length_append] at parts
    have found : ((layout.levels.dropWhile (columns < ·)).headD 0 == columns) = true := by
      by_contra none
      simp only [if_neg none] at fits
      exact fits _ List.mem_cons_self rfl
    obtain ⟨none, all⟩ := counts_of_ends (layout.levels.takeWhile (columns < ·)) blanks.stop
    simp only [if_pos found, none, all]
    omega
  · exact ⟨h, Nat.zero_le _⟩

/-! ### Pieces -/

/-- A piece adds nothing; or the end of a line, outside of brackets; or a token that is no layout. -/
lemma contribution_laid (layout : Layout) (piece : Piece) (taken : List Char) (span : Span) :
    ((contribution layout piece taken span).tokens = []
        ∧ (contribution layout piece taken span).next = layout)
      ∨ (layout.depth = 0
        ∧ (contribution layout piece taken span).tokens
          = (if layout.pending then [⟨.newline, "", .point span.start⟩] else [])
        ∧ (contribution layout piece taken span).next
          = { layout with pending := false, lineStart := true })
      ∨ ∃ t, (contribution layout piece taken span).tokens = [t] ∧ t.kind.isLayout = false
        ∧ (contribution layout piece taken span).next
          = { layout with depth := t.kind.depthBehind layout.depth, pending := true } := by
  cases piece with
  | blank | comment | joint | strayBackslash => exact .inl ⟨rfl, rfl⟩
  | lineBreak =>
    rw [contribution]
    split
    next outside => exact .inr (.inl ⟨by simpa using outside, rfl, rfl⟩)
    · exact .inl ⟨rfl, rfl⟩
  | number | unknown | symbol => exact .inr (.inr ⟨_, rfl, rfl, rfl⟩)
  | word =>
    refine .inr (.inr ⟨_, rfl, ?_, ?_⟩)
    · rw [wordKind]
      split <;> rfl
    · rw [wordKind]
      split <;> rfl
  | string formatted =>
    refine .inr (.inr ⟨_, rfl, ?_, ?_⟩)
    · cases formatted <;> rfl
    · cases formatted <;> rfl

lemma Layout.Follows.contribution (h : layout.Follows before)
    (inLine : ¬ layout.lineStart = true) (piece : Piece) (taken : List Char) (span : Span) :
    (contribution layout piece taken span).next.Follows
        (before ++ (contribution layout piece taken span).tokens)
      ∧ AllLaid before (contribution layout piece taken span).tokens := by
  rcases contribution_laid layout piece taken span with
    ⟨none, next⟩ | ⟨outside, line, next⟩ | ⟨t, one, solid, next⟩
  · rw [none, next, List.append_nil]
    exact ⟨h, .nil⟩
  · rw [line, next]
    by_cases pending : layout.pending = true
    · rw [if_pos pending]
      constructor
      · constructor
        · rw [bracketDepth_append_layout (by simp [TokenKind.isLayout]), h.depth]
        · exact fun _ => outside
        · simp
      · refine .singleton ⟨fun _ => ?_, fun _ => h.pending pending⟩
        rw [h.depth, outside]
    · rw [if_neg pending, List.append_nil]
      exact ⟨⟨h.depth, fun _ => outside, by simp⟩, .nil⟩
  · rw [one, next]
    constructor
    · constructor
      · rw [bracketDepth_append_singleton, h.depth]
      · exact fun begins => absurd begins inLine
      · intro
        exact ⟨t, by simp, solid⟩
    · exact .singleton (.of_solid solid)

/-- A piece begins no block and ends none. -/
lemma contribution_counts (layout : Layout) (piece : Piece) (taken : List Char) (span : Span) :
    indents (contribution layout piece taken span).tokens = 0
      ∧ dedents (contribution layout piece taken span).tokens = 0 := by
  rcases contribution_laid layout piece taken span with
    ⟨none, -⟩ | ⟨-, line, -⟩ | ⟨t, one, solid, -⟩
  · rw [none]
    exact ⟨rfl, rfl⟩
  · rw [line]
    split <;> exact ⟨rfl, rfl⟩
  · have noIndent : t.kind ≠ .indent := fun is => by rw [is] at solid; cases solid
    have noDedent : t.kind ≠ .dedent := fun is => by rw [is] at solid; cases solid
    rw [one]
    simp [indents, dedents, noIndent, noDedent]

/-- So behind a piece the same blocks are open. -/
lemma Layout.Balances.contribution (h : layout.Balances before) (piece : Piece)
    (taken : List Char) (span : Span) :
    (contribution layout piece taken span).next.Balances
        (before ++ (contribution layout piece taken span).tokens)
      ∧ dedents (contribution layout piece taken span).tokens = 0 := by
  obtain ⟨noIndent, noDedent⟩ := contribution_counts layout piece taken span
  have levels : (Syntax.contribution layout piece taken span).next.levels = layout.levels := by
    rcases contribution_laid layout piece taken span with
      ⟨-, next⟩ | ⟨-, -, next⟩ | ⟨t, -, -, next⟩ <;> rw [next]
  unfold Balances at h ⊢
  rw [indents_append, dedents_append, noIndent, noDedent, levels]
  exact ⟨h, rfl⟩

/-! ### The end of the text -/

lemma Layout.Follows.closing (h : layout.Follows before) (offset : ℕ) :
    AllLaid before (closing layout offset) := by
  have last (before : List Token) : AllLaid before [⟨.endOfFile, "", .point offset⟩] :=
    .singleton (.of_solid rfl)
  unfold Syntax.closing
  by_cases outside : layout.depth = 0
  · have here : bracketDepth before = 0 := by rw [h.depth, outside]
    simp only [outside, beq_self_eq_true, Bool.true_and, if_true]
    have line : AllLaid before
        (if layout.pending = true then [⟨.newline, "", .point offset⟩] else []) := by
      by_cases pending : layout.pending = true
      · rw [if_pos pending]
        exact .singleton ⟨fun _ => here, fun _ => h.pending pending⟩
      · rw [if_neg pending]
        exact .nil
    refine (line.append (.blocks ?_ ?_)).append (last _)
    · rw [bracketDepth_append_layout, here]
      split <;> simp [TokenKind.isLayout]
    · exact List.forall_mem_map.2 fun _ _ => .inr rfl
  · have inBrackets : (layout.depth == 0) = false := by simpa using outside
    simp only [inBrackets, Bool.false_and]
    exact last before

lemma Layout.Follows.bracketDepth_closing (h : layout.Follows before) (offset : ℕ) :
    bracketDepth (before ++ Syntax.closing layout offset) = layout.depth := by
  unfold Syntax.closing
  rw [← List.append_assoc, bracketDepth_append_singleton, bracketDepth_append_layout, h.depth]
  · rfl
  · refine List.forall_mem_append.2 ⟨?_, ?_⟩
    · split <;> simp [TokenKind.isLayout]
    · split <;> simp [TokenKind.isLayout]

/-- At the end all blocks end that are open, if no bracket is. -/
lemma Layout.Balances.closing (h : layout.Balances before) (offset : ℕ) :
    dedents (closing layout offset) ≤ layout.levels.length
      ∧ (layout.depth = 0 →
        dedents (before ++ closing layout offset) = indents (before ++ closing layout offset)) := by
  have line : indents (if layout.depth == 0 && layout.pending then
        [(⟨.newline, "", .point offset⟩ : Token)] else []) = 0
      ∧ dedents (if layout.depth == 0 && layout.pending then
        [(⟨.newline, "", .point offset⟩ : Token)] else []) = 0 := by
    split <;> exact ⟨rfl, rfl⟩
  unfold Balances at h
  unfold Syntax.closing
  simp only [indents_append, dedents_append, line.1, line.2]
  by_cases outside : layout.depth = 0
  · obtain ⟨none, all⟩ := counts_of_ends layout.levels offset
    simp only [outside, beq_self_eq_true, if_true, none, all]
    simp [indents, dedents] at h ⊢
    exact h
  · simp [outside, dedents]

end

/-! ## All tokens -/

/-- The tokens behind others are laid out well, if the layout follows those. -/
theorem lexFrom_laid {layout : Layout} {before : List Token} (h : layout.Follows before)
    (offset : ℕ) (cs : List Char) : AllLaid before (lexFrom layout offset cs).tokens := by
  fun_induction lexFrom layout offset cs generalizing before with
  | case1 => exact h.closing _
  | case2 => exact h.closing _
  | case3 =>
    next ih => exact ih h
  | case4 layout _ _ _ begins =>
    next ih =>
    have outside := h.outside begins
    apply AllLaid.append
    · exact .blocks (by rw [h.depth, outside]) (relevel_blocks layout _ _)
    · exact ih (h.relevel outside _ _)
  | case5 _ _ _ _ inLine =>
    next ih =>
    obtain ⟨next, here⟩ := h.contribution inLine _ _ _
    exact here.append (ih next)

/-- Of blocks that begin and end, no more end than begin, and at the end as many, unless brackets are
open there. -/
structure Balanced (before ts : List Token) : Prop where
  fronts : ∀ front, front <+: ts → dedents (before ++ front) ≤ indents (before ++ front)
  whole : bracketDepth (before ++ ts) = 0 → dedents (before ++ ts) = indents (before ++ ts)

/-- Tokens that end only blocks that are open. -/
lemma Layout.Balances.fronts {layout : Layout} {before ts : List Token} (h : layout.Balances before)
    (few : dedents ts ≤ layout.levels.length) (front : List Token) (is : front <+: ts) :
    dedents (before ++ front) ≤ indents (before ++ front) := by
  have fewer : dedents front ≤ dedents ts := is.sublist.countP_le
  unfold Layout.Balances at h
  rw [dedents_append, indents_append]
  omega

/-- Some tokens that end only blocks that are open, and balanced ones behind them. -/
lemma Balanced.append {layout : Layout} {before ts us : List Token} (h : layout.Balances before)
    (few : dedents ts ≤ layout.levels.length) (later : Balanced (before ++ ts) us) :
    Balanced before (ts ++ us) := by
  constructor
  · intro front is
    rcases List.prefix_or_prefix_of_prefix is (List.prefix_append ts us) with is' | ⟨rest, rfl⟩
    · exact h.fronts few front is'
    · rw [← List.append_assoc]
      exact later.fronts rest ((List.prefix_append_right_inj ts).1 is)
  · rw [← List.append_assoc]
    exact later.whole

/-- At the end of the text blocks are balanced. -/
lemma Layout.Balances.closing_balanced {layout : Layout} {before : List Token}
    (h : layout.Balances before) (follows : layout.Follows before) (offset : ℕ) :
    Balanced before (Syntax.closing layout offset) := by
  obtain ⟨few, all⟩ := h.closing offset
  constructor
  · exact h.fronts few
  · intro outside
    apply all
    rwa [follows.bracketDepth_closing] at outside

/-- The blocks of a text are balanced, if every line is indented like one around it or deeper. -/
theorem lexFrom_balanced {layout : Layout} {before : List Token} (follows : layout.Follows before)
    (h : layout.Balances before) (offset : ℕ) (cs : List Char)
    (fits : ∀ p ∈ (lexFrom layout offset cs).problems, p.cause ≠ .unindentMismatch) :
    Balanced before (lexFrom layout offset cs).tokens := by
  fun_induction lexFrom layout offset cs generalizing before with
  | case1 => exact h.closing_balanced follows _
  | case2 => exact h.closing_balanced follows _
  | case3 =>
    next ih => exact ih follows h fits
  | case4 layout _ _ _ begins =>
    next ih =>
    obtain ⟨here, later⟩ := List.forall_mem_append.1 fits
    obtain ⟨next, few⟩ := h.relevel here
    exact .append h few (ih (follows.relevel (follows.outside begins) _ _) next later)
  | case5 _ _ _ _ inLine found =>
    next ih =>
    obtain ⟨-, later⟩ := List.forall_mem_append.1 fits
    obtain ⟨next, none⟩ := h.contribution found.1 found.2.taken _
    apply Balanced.append h (none.trans_le (Nat.zero_le _))
    exact ih (follows.contribution inLine _ _ _).1 next later

/-! ## The tokens of a text -/

/-- Tokens of a text whose layout is well formed. -/
structure Lexed.Formed (l : Lexed) : Prop where
  /-- In brackets there is no layout. -/
  outside : ∀ front t back, l.tokens = front ++ t :: back → t.kind.isLayout = true →
    bracketDepth front = 0
  /-- A line ends directly behind a token that is no layout. -/
  ended : ∀ front t back, l.tokens = front ++ t :: back → t.kind = .newline →
    ∃ last ∈ front.getLast?, last.kind.isLayout = false
  /-- No more blocks have ended than have begun. -/
  nested : (∀ p ∈ l.problems, p.cause ≠ .unindentMismatch) → ∀ front, front <+: l.tokens →
    dedents front ≤ indents front
  /-- If no bracket is left open, all blocks end. -/
  closed : (∀ p ∈ l.problems, p.cause ≠ .unindentMismatch) → bracketDepth l.tokens = 0 →
    dedents l.tokens = indents l.tokens

/-- The layout of the tokens of every text is well formed.  Of problems with the text only one can
keep blocks from being balanced. -/
theorem layout_formed (text : String) : (lex text).Formed := by
  have follows : Layout.module.Follows [] := ⟨rfl, fun _ => rfl, nofun⟩
  have balances : Layout.module.Balances [] := rfl
  have laid : AllLaid [] (lex text).tokens := lexFrom_laid follows 0 _
  have each {front back : List Token} {t : Token} (parts : (lex text).tokens = front ++ t :: back) :
      t.LaidBehind front := laid front t ⟨back, by rw [parts]; simp⟩
  refine ⟨fun _ _ _ parts => (each parts).outside, fun _ _ _ parts => (each parts).ended,
    fun fits => ?_, fun fits => ?_⟩
  · exact (lexFrom_balanced follows balances 0 _ fits).fronts
  · exact (lexFrom_balanced follows balances 0 _ fits).whole

end MethodLift.Syntax
