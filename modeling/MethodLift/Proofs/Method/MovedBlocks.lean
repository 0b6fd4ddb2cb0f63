import MethodLift.Proofs.Method.MovedLines

/-!
# Reading a block and the block that was moved

Of a block that is moved, the tokens that are no layout are always kept (`tokens_dedent`).  Layout
is kept as well if the lines are all indented with the same character: as many blanks then are as
many columns in every line.  This is not so behind a form feed, which makes reading count anew, or
with tabs behind spaces, which are worth less the more spaces are left.

The block and the block that was moved are read in step (`MovesOn`).  The same blocks are open in
both, each with so much less indentation (`Layout.Moved`), and what is left of the texts differs by
the blanks at the fronts of lines (`Shifts`).  Each way to go on keeps this: a line without tokens
(`Moving.emptyLine`), the indentation of a line (`Moving.level`) and a piece in a line
(`Moving.piece`).  In brackets and behind joined lines blanks are nothing, and those that are in the
block only are passed over.  So what is left has the same tokens (`lexFrom_moved`).

A line that is indented less than the block has no blanks left, however many it had.  Such a line
would end the block (`Stays.deep`), so what is asked for is that the block goes on to the end of the
text.
-/

namespace MethodLift

namespace Syntax

open Text (IndentedBy ReturnsPaired dedentLines dedentRest isIndent linesWithFeed width)

variable {strings : List Span} {columns offset : ℕ} {u c d : Char} {cs ds rest : List Char}

/-! ## Columns -/

/-- How many columns a blank takes where all blanks are the same. -/
def columnsOf (u : Char) : ℕ := if u == '\t' then tabWidth else 1

lemma columnsOf_pos (u : Char) : 0 < columnsOf u := by
  unfold columnsOf
  split <;> decide

lemma indentationWidth_of_uniform (indent : isIndent u = true) {blanks : List Char}
    (uniform : ∀ c ∈ blanks, c = u) : indentationWidth blanks = blanks.length * columnsOf u := by
  rw [isIndent, Bool.or_eq_true, beq_iff_eq, beq_iff_eq] at indent
  induction blanks using List.reverseRecOn with
  | nil => rw [List.length_nil, Nat.zero_mul]; rfl
  | append_singleton blanks b ih =>
    obtain ⟨front, last⟩ := List.forall_mem_append.1 uniform
    obtain rfl : b = u := last b (List.mem_singleton.2 rfl)
    have step : indentationWidth (blanks ++ [b]) = columnAfter (indentationWidth blanks) b :=
      List.foldl_append
    rw [step, ih front, List.length_append, List.length_singleton, Nat.add_mul, Nat.one_mul]
    rcases indent with rfl | rfl
    · rfl
    · simp [columnAfter, columnsOf, tabWidth, Nat.add_mul]

/-! ## Layouts -/

/-- A layout in a block that is indented by some columns, and the one in the block that was moved:
the blocks inside it are the same, and each is indented by so much less. -/
structure Layout.Moved (columns : ℕ) (inner : List ℕ) (layout moved : Layout) : Prop where
  levels : layout.levels = inner ++ [columns]
  less : moved.levels = inner.map (· - columns)
  deeper : ∀ n ∈ inner, columns < n
  depth : moved.depth = layout.depth
  lineStart : moved.lineStart = layout.lineStart
  pending : moved.pending = layout.pending

/-- Two steps contribute the same tokens, and lead to such layouts. -/
structure Step.Moved (columns : ℕ) (inner : List ℕ) (a b : Step) : Prop where
  words : b.tokens.map Token.word = a.tokens.map Token.word
  next : a.next.Moved columns inner b.next

/-- Tokens of a text and of the one that was moved: the block itself, which may end with the first
ones, is missing from the second ones. -/
def MovedWords (ts us : List Token) : Prop :=
  ∃ words ends, ts.map Token.word = words ++ ends ++ [(.endOfFile, "")]
    ∧ us.map Token.word = words ++ [(.endOfFile, "")] ∧ (ends = [] ∨ ends = [(.dedent, "")])

lemma MovedWords.append {ts ts' us us' : List Token} (words : us.map Token.word = ts.map Token.word)
    (h : MovedWords ts' us') : MovedWords (ts ++ ts') (us ++ us') := by
  obtain ⟨later, ends, whole, moved, end'⟩ := h
  refine ⟨ts.map Token.word ++ later, ends, ?_, ?_, end'⟩
  · rw [List.map_append, whole]
    simp only [List.append_assoc]
  · rw [List.map_append, moved, words, List.append_assoc]

namespace Layout.Moved

variable {inner : List ℕ} {layout moved : Layout}

lemma contribution (h : layout.Moved columns inner moved) (piece : Piece) (taken : List Char)
    (span span' : Span) : (contribution layout piece taken span).Moved columns inner
      (contribution moved piece taken span') := by
  obtain ⟨levels, less, deeper, depth, lineStart, pending⟩ := h
  cases piece with
  | blank | comment | joint | strayBackslash =>
    exact ⟨rfl, levels, less, deeper, depth, lineStart, pending⟩
  | number | string | word | unknown => exact ⟨rfl, levels, less, deeper, depth, lineStart, rfl⟩
  | symbol s =>
    refine ⟨rfl, levels, less, deeper, ?_, lineStart, rfl⟩
    simp only [Syntax.contribution, afterSymbol, depth]
  | lineBreak =>
    unfold Syntax.contribution
    by_cases outside : (layout.depth == 0) = true
    · have outside' : (moved.depth == 0) = true := by rwa [depth]
      simp only [if_pos outside, if_pos outside', pending]
      refine ⟨?_, levels, less, deeper, depth, rfl, rfl⟩
      dsimp only
      split <;> rfl
    · have inside' : ¬(moved.depth == 0) = true := by rwa [depth]
      simp only [if_neg outside, if_neg inside']
      exact ⟨rfl, levels, less, deeper, depth, lineStart, pending⟩

lemma closing (h : layout.Moved columns inner moved) (offset place : ℕ) :
    MovedWords (closing layout offset) (closing moved place) := by
  unfold Syntax.closing
  rw [h.depth, h.pending, h.levels, h.less]
  dsimp only
  by_cases outside : (layout.depth == 0) = true
  · rw [if_pos outside, if_pos outside]
    refine ⟨(if layout.depth == 0 && layout.pending then [(.newline, "")] else [])
      ++ inner.map fun _ => (.dedent, ""), [(.dedent, "")], ?_, ?_, .inr rfl⟩
    · split <;> simp [Token.word]
    · split <;> simp [Token.word, Function.comp_def]
  · rw [if_neg outside, if_neg outside]
    refine ⟨if layout.depth == 0 && layout.pending then [(.newline, "")] else [], [], ?_, ?_,
      .inl rfl⟩
    · split <;> rfl
    · split <;> rfl

lemma level (h : layout.Moved columns inner moved) : layout.level = moved.level + columns := by
  rw [Layout.level, Layout.level, h.levels, h.less]
  cases inner with
  | nil => exact (Nat.zero_add _).symm
  | cons n inner =>
    have deeper := h.deeper n List.mem_cons_self
    simp only [List.cons_append, List.map_cons, List.headD_cons]
    omega

/-- The blocks that a line ends, and those it does not. -/
lemma split_levels (h : layout.Moved columns inner moved) {n : ℕ} (deep : columns ≤ n) :
    layout.levels.takeWhile (n < ·) = inner.takeWhile (n < ·)
      ∧ layout.levels.dropWhile (n < ·) = inner.dropWhile (n < ·) ++ [columns]
      ∧ moved.levels.takeWhile (n - columns < ·) = (inner.takeWhile (n < ·)).map (· - columns)
      ∧ moved.levels.dropWhile (n - columns < ·) = (inner.dropWhile (n < ·)).map (· - columns) := by
  have stays : ¬n < columns := Nat.not_lt.2 deep
  rw [h.levels, h.less]
  have deeper := h.deeper
  clear h
  induction inner with
  | nil => simp [stays]
  | cons m inner ih =>
    obtain ⟨first, others⟩ := List.forall_mem_cons.1 deeper
    have same : n - columns < m - columns ↔ n < m := by omega
    by_cases ends : n < m <;> simp [ends, same, ih others]

/-- A line fits to those around it in both or in neither. -/
lemma fits_moved {still : List ℕ} (deeper : ∀ m ∈ still, columns < m) {n : ℕ} (deep : columns ≤ n) :
    ((still.map (· - columns)).headD 0 == n - columns)
      = ((still ++ [columns]).headD 0 == n) := by
  rw [Bool.eq_iff_iff, beq_iff_eq, beq_iff_eq]
  cases still with
  | nil =>
    simp only [List.map_nil, List.headD_nil, List.nil_append, List.headD_cons]
    omega
  | cons m still =>
    have first := deeper m List.mem_cons_self
    simp only [List.map_cons, List.headD_cons, List.cons_append]
    omega

/-- The indentation of a line that is at least that of the block. -/
lemma relevel (h : layout.Moved columns inner moved) {n : ℕ} (deep : columns ≤ n)
    (blanks blanks' : Span) : ∃ inner', (relevel layout n blanks).Moved columns inner'
        (relevel moved (n - columns) blanks')
      ∧ inner.length + indents (Syntax.relevel layout n blanks).tokens
        ≤ inner'.length + dedents (Syntax.relevel layout n blanks).tokens := by
  have level := h.level
  obtain ⟨ended, kept, ended', kept'⟩ := h.split_levels deep
  obtain ⟨levels, less, deeper, depth, lineStart, pending⟩ := h
  unfold Syntax.relevel
  dsimp only
  by_cases begins : layout.level < n
  · have begins' : moved.level < n - columns := by omega
    rw [if_pos begins, if_pos begins']
    refine ⟨n :: inner, ⟨rfl, ?_, ?_, List.forall_mem_cons.2 ⟨by omega, deeper⟩, depth, rfl, rfl⟩,
      by simp [indents, dedents]⟩
    · exact congrArg (n :: ·) levels
    · exact congrArg ((n - columns) :: ·) less
  have begins' : ¬moved.level < n - columns := by omega
  rw [if_neg begins, if_neg begins']
  by_cases ends : n < layout.level
  · have ends' : n - columns < moved.level := by omega
    rw [if_pos ends, if_pos ends', ended, kept, ended', kept']
    have count := counts_of_ends (inner.takeWhile (n < ·)) blanks.stop
    have parts := congrArg List.length (List.takeWhile_append_dropWhile (p := (n < ·)) (l := inner))
    rw [List.length_append] at parts
    have open' : ∀ m ∈ inner.dropWhile (n < ·), columns < m := fun m hm =>
      deeper m ((List.dropWhile_sublist _).subset hm)
    have none (same : n = columns) : inner.dropWhile (n < ·) = [] := by
      rw [List.dropWhile_eq_nil_iff]
      exact fun m hm => by simpa [same] using deeper m hm
    generalize inner.dropWhile (n < ·) = still at open' none parts ⊢
    simp only [fits_moved open' deep]
    split
    · refine ⟨still, ⟨by simp [Token.word, Function.comp_def], rfl, rfl, open', depth, rfl, rfl⟩,
        ?_⟩
      rw [count.1, count.2]
      omega
    next other =>
      refine ⟨n :: still, ⟨by simp [Token.word, Function.comp_def], rfl, rfl,
        List.forall_mem_cons.2 ⟨?_, open'⟩, depth, rfl, rfl⟩, ?_⟩
      · refine lt_of_le_of_ne deep fun same => other ?_
        rw [none same.symm]
        simp [same]
      · rw [count.1, count.2, List.length_cons]
        omega
  · have ends' : ¬n - columns < moved.level := by omega
    rw [if_neg ends, if_neg ends']
    exact ⟨inner, ⟨rfl, levels, less, deeper, depth, rfl, pending⟩, by simp [indents, dedents]⟩

/-- A line that is indented less ends the block. -/
lemma relevel_ends (h : layout.Moved columns inner moved) {n : ℕ} (out : n < columns)
    (blanks : Span) : (Syntax.relevel layout n blanks).tokens
      = (inner ++ [columns]).map fun _ => ⟨.dedent, "", .point blanks.stop⟩ := by
  have level := h.level
  have all : (inner ++ [columns]).takeWhile (n < ·) = inner ++ [columns] := by
    rw [List.takeWhile_eq_self_iff]
    refine List.forall_mem_append.2 ⟨fun m hm => ?_, List.forall_mem_singleton.2 ?_⟩
    · simpa using out.trans (h.deeper m hm)
    · simpa using out
  have begins : ¬layout.level < n := by omega
  have ends : n < layout.level := by omega
  unfold Syntax.relevel
  rw [if_neg begins, if_pos ends, h.levels, all]

end Layout.Moved

/-! ## What lies ahead -/

/-- In front of its end, tokens end no more than some blocks that they did not begin. -/
def Stays (blocks stop : ℕ) (ts : List Token) : Prop :=
  ∀ front t, front ++ [t] <+: ts → t.span.start < stop →
    dedents (front ++ [t]) ≤ indents (front ++ [t]) + blocks

/-- The strings of a block are those among the tokens ahead, and some that were passed. -/
structure StringsAhead (strings : List Span) (offset : ℕ) (ts : List Token) : Prop where
  known : ∀ t ∈ ts, t.kind = .string ∨ t.kind = .fstring → t.span ∈ strings
  passed : ∀ s ∈ strings, s.stop ≤ offset ∨ ∃ t ∈ ts, t.span = s

section

variable {blocks blocks' stop : ℕ} {ts us : List Token}

lemma Stays.behind (h : Stays blocks stop (ts ++ us))
    (le : blocks + indents ts ≤ blocks' + dedents ts) : Stays blocks' stop us := by
  intro front t is first
  have all := h (ts ++ front) t (by simpa [List.prefix_append_right_inj] using is) first
  rw [List.append_assoc, dedents_append, indents_append] at all
  omega

lemma StringsAhead.behind (h : StringsAhead strings offset (ts ++ us)) (le : offset ≤ stop)
    (within : ∀ t ∈ ts, t.span.stop ≤ stop) : StringsAhead strings stop us := by
  refine ⟨fun t ht => h.known t (List.mem_append_right _ ht), fun s hs => ?_⟩
  rcases h.passed s hs with passed | ⟨t, ht, rfl⟩
  · exact .inl (passed.trans le)
  · exact (List.mem_append.1 ht).imp (within t) fun later => ⟨t, later, rfl⟩

/-- No string goes on where reading is between two pieces. -/
lemma StringsAhead.outside (h : StringsAhead strings offset ts)
    (ahead : ∀ t ∈ ts, offset ≤ t.span.start) : Text.beginsInString strings offset = false := by
  rw [Text.beginsInString, List.any_eq_false]
  intro s hs inside
  rw [Bool.and_eq_true, decide_eq_true_eq, decide_eq_true_eq] at inside
  rcases h.passed s hs with passed | ⟨t, ht, rfl⟩
  · omega
  · have := ahead t ht
    omega

/-- A line that is indented less than the block does not come before its end. -/
lemma Stays.deep {inner : List ℕ} {layout moved : Layout} (h : layout.Moved columns inner moved)
    {n : ℕ} {blanks : Span}
    (stays : Stays inner.length stop ((relevel layout n blanks).tokens ++ ts))
    (inFront : blanks.stop < stop) : columns ≤ n := by
  by_contra out
  rw [h.relevel_ends (Nat.not_le.1 out), List.map_append] at stays
  have all := stays _ _ (List.prefix_append _ _) inFront
  have count := counts_of_ends inner blanks.stop
  rw [dedents_append, indents_append, count.1, count.2] at all
  simp [indents, dedents] at all

end

/-! ## The text of the block that was moved -/

/-- What is left of a block, and of the block that was moved: at the front of a line its indentation
is still to be taken away, and within a line blanks may be left that are taken away already. -/
inductive Shifts (strings : List Span) (columns : ℕ) (u : Char) (layout : Layout) (offset : ℕ)
    (cs moved : List Char) : Prop
  | line (begins : layout.lineStart = true) (uniform : IndentedBy u ('\n' :: cs))
      (text : moved = dedentLines strings columns offset (linesWithFeed cs))
  | inLine (goesOn : layout.lineStart = false) (uniform : IndentedBy u cs) (blanks rest : List Char)
      (whole : cs = blanks ++ rest) (indents : ∀ c ∈ blanks, isIndent c = true)
      (text : moved = dedentRest strings columns (offset + width blanks) rest)

/-- Behind a line feed, wherever that is. -/
lemma Shifts.ofBreak (layout : Layout) (uniform : IndentedBy u ('\n' :: cs)) :
    Shifts strings columns u layout offset cs
      (dedentLines strings columns offset (linesWithFeed cs)) := by
  cases begins : layout.lineStart with
  | true => exact .line begins uniform rfl
  | false =>
    obtain ⟨blanks, rest, whole, indents, -, same⟩ :=
      Text.dedentLines_eq strings columns offset cs
    have uniform : IndentedBy u (['\n'] ++ cs) := uniform
    exact .inLine begins uniform.behind blanks rest whole indents same

/-- A piece of a line is the same in both, and so is what it leads to. -/
lemma Shifts.piece {layout : Layout} {taken : List Char} {piece : Piece}
    (found : Piece.read c cs = (piece, ⟨taken, rest⟩)) (goesOn : layout.lineStart = false)
    (uniform : IndentedBy u (c :: cs)) (paired : ReturnsPaired (c :: cs))
    (known : ∀ f closed, piece = .string f closed → ⟨offset, offset + width taken⟩ ∈ strings)
    (span : Span) : ∃ own more, taken = c :: own
      ∧ dedentRest strings columns offset (c :: cs) = c :: (own ++ more)
      ∧ Piece.read c (own ++ more) = (piece, ⟨taken, more⟩)
      ∧ Shifts strings columns u (contribution layout piece taken span).next
        (offset + width taken) rest more := by
  have parts := Piece.read_taken_append_rest c cs
  rw [found] at parts
  by_cases breaks : piece = .lineBreak ∨ piece = .joint
  · obtain ⟨own, front, rfl, unfed, is, again⟩ := Piece.read_broken found breaks paired
    refine ⟨own, _, rfl, ?_, again _, .ofBreak _ ?_⟩
    · rw [← parts, is, Text.dedentRest_break unfed, ← is]
      rfl
    · rw [← parts, is, List.append_assoc] at uniform
      exact uniform.behind
  · obtain ⟨own, rfl⟩ : ∃ own, taken = c :: own := by
      cases taken with
      | nil => exact absurd (congrArg (·.2.taken) found) (Piece.read_taken_ne_nil c cs)
      | cons d own => exact ⟨own, congrArg (· :: own) (List.cons.inj parts).1⟩
    rw [not_or] at breaks
    refine ⟨own, dedentRest strings columns (offset + width (c :: own)) rest, rfl, ?_,
      Piece.read_dedentRest strings columns _ found, .inLine ?_ ?_ [] rest rfl
        (List.forall_mem_nil _) rfl⟩
    · exact Piece.dedentRest_unbroken found (not_or.2 breaks) known
    · rw [contribution_lineStart breaks.1, goesOn]
    · rw [← parts] at uniform
      exact uniform.behind

/-! ## Reading both -/

/-- Reading has come to a layout in a block and to another one in the block that was moved, with
these rests of them. -/
structure Moving (strings : List Span) (columns : ℕ) (u : Char) (inner : List ℕ)
    (layout moved : Layout) (offset : ℕ) (cs text : List Char) (ts : List Token) : Prop where
  shifts : Shifts strings columns u layout offset cs text
  layouts : layout.Moved (columns * columnsOf u) inner moved
  paired : ReturnsPaired cs
  ahead : StringsAhead strings offset ts
  stays : Stays inner.length (offset + width cs) ts

/-- Where a step goes on with the rest of the block behind some tokens, the block that was moved has
tokens `us` that begin with the same ones. -/
def MovesOn (strings : List Span) (columns : ℕ) (u : Char) (tokens : List Token) (next : Layout)
    (stop : ℕ) (rest : List Char) (us : List Token) : Prop :=
  ∃ new inner moved place text, us = new ++ (lexFrom moved place text).tokens
    ∧ new.map Token.word = tokens.map Token.word
    ∧ Moving strings columns u inner next moved stop rest text (lexFrom next stop rest).tokens

section

variable {inner : List ℕ} {layout moved : Layout} {blanks text : List Char} {place : ℕ}

lemma solid_behind_blanks (shape : (Cut.spanning isBlank cs).rest = d :: ds) :
    isBlank d = false := Cut.head?_rest_spanning isBlank cs d (by rw [shape]; rfl)

/-- A text of blanks. -/
lemma lexFrom_onlyBlanks (begins : layout.lineStart = true)
    (blank : ∀ b ∈ blanks, isBlank b = true) (offset : ℕ) :
    ∃ stop, (lexFrom layout offset blanks).tokens = closing layout stop := by
  cases blanks with
  | nil => exact ⟨offset, by rw [lexFrom]⟩
  | cons b blanks =>
    have none : (Cut.spanning isBlank (b :: blanks)).rest = [] := by
      simpa [Cut.spanning, List.dropWhile_eq_nil_iff] using blank
    exact ⟨_, by rw [lexFrom_blank _ begins none]⟩

/-- Where a line begins, a line without tokens is passed over. -/
lemma lexFrom_blanks_emptyLine (begins : layout.lineStart = true)
    (blank : ∀ b ∈ blanks, isBlank b = true) (solid : isBlank c = false)
    (empty : beginsEmptyLine c = true) (offset : ℕ) (cs : List Char) :
    lexFrom layout offset (blanks ++ c :: cs) = lexFrom layout
      (offset + width blanks + width (emptyLine c cs).taken) (emptyLine c cs).rest := by
  have spans := Cut.spanning_append_cons blank solid cs
  obtain ⟨e, es, whole⟩ := List.exists_cons_of_ne_nil (List.append_ne_nil_of_right_ne_nil blanks
    (List.cons_ne_nil c cs))
  rw [whole, lexFrom_emptyLine _ begins (by rw [← whole, spans]) empty, ← whole, spans]

namespace Moving

/-- At the end of the block. -/
lemma nil {ts : List Token} (h : Moving strings columns u inner layout moved offset [] text ts)
    (place : ℕ) : MovedWords (closing layout offset) (lexFrom moved place text).tokens := by
  have none : text = [] := by
    cases h.shifts with
    | line _ _ text => exact text
    | inLine _ _ blanks rest whole _ text =>
      obtain ⟨rfl, rfl⟩ := List.append_eq_nil_iff.1 whole.symm
      exact text
  rw [none, lexFrom]
  exact h.layouts.closing offset place

/-- In front of blanks at the end of the block. -/
lemma onlyBlanks {ts : List Token} (begins : layout.lineStart = true)
    (blank : ∀ b ∈ blanks, isBlank b = true)
    (h : Moving strings columns u inner layout moved offset blanks text ts) (stop place : ℕ) :
    MovedWords (closing layout stop) (lexFrom moved place text).tokens := by
  cases h.shifts with
  | inLine goesOn =>
    rw [begins] at goesOn
    cases goesOn
  | line _ _ is =>
    obtain ⟨kept, blank, same⟩ :=
      @Text.dedentLines_blanks strings columns offset [] blanks blank (by simp)
    rw [List.append_nil, ← is, dedentRest, List.append_nil] at same
    obtain ⟨stop', ends⟩ := lexFrom_onlyBlanks (h.layouts.lineStart.trans begins) blank place
    rw [same, ends]
    exact h.layouts.closing stop stop'

/-- In front of a line without tokens. -/
lemma emptyLine (begins : layout.lineStart = true) (blank : ∀ b ∈ blanks, isBlank b = true)
    (solid : isBlank d = false) (empty : beginsEmptyLine d = true) {stop : ℕ}
    (stops : stop = offset + width blanks + width (Syntax.emptyLine d ds).taken)
    (h : Moving strings columns u inner layout moved offset (blanks ++ d :: ds) text
      (lexFrom layout stop (Syntax.emptyLine d ds).rest).tokens) :
    MovesOn strings columns u [] layout stop (Syntax.emptyLine d ds).rest
      (lexFrom moved place text).tokens := by
  subst stops
  have parts := emptyLine_append d ds
  have paired := h.paired.behind
  have stays := h.stays
  rw [Text.width_append, ← parts, Text.width_append, ← Nat.add_assoc, ← Nat.add_assoc]
    at stays
  cases h.shifts with
  | inLine goesOn =>
    rw [begins] at goesOn
    cases goesOn
  | line _ uniform is =>
    obtain ⟨kept, blank, same⟩ :=
      @Text.dedentLines_blanks strings columns offset (d :: ds) _ blank (by simpa using solid)
    obtain ⟨ds', here, again⟩ := emptyLine_dedentRest empty paired (offset + width blanks)
    have behind : IndentedBy u ('\n' :: blanks ++ d :: ds) := uniform
    refine ⟨[], inner, moved, place + width kept + width (Syntax.emptyLine d ds).taken, _, ?_, rfl,
      .ofBreak layout (indentedBy_emptyLine empty paired behind.behind), h.layouts,
      (parts ▸ paired).behind, ?_, stays⟩
    · rw [is, same, here, lexFrom_blanks_emptyLine (h.layouts.lineStart.trans begins) blank solid
        empty, again]
      rfl
    · exact @StringsAhead.behind strings offset _ [] _ h.ahead
        ((Nat.le_add_right _ _).trans (Nat.le_add_right _ _)) (List.forall_mem_nil _)

/-- In front of a line with a token. -/
lemma level (indent : isIndent u = true) (begins : layout.lineStart = true)
    (blank : ∀ b ∈ blanks, isBlank b = true) (solid : isBlank d = false)
    (some : ¬beginsEmptyLine d = true) {stop : ℕ} (stops : stop = offset + width blanks) :
    let step := relevel layout (indentationWidth blanks) ⟨offset, stop⟩
    let later := lexFrom step.next stop (d :: ds)
    (∀ t ∈ step.tokens ++ later.tokens, offset ≤ t.span.start) →
    Moving strings columns u inner layout moved offset (blanks ++ d :: ds) text
      (step.tokens ++ later.tokens) →
    MovesOn strings columns u step.tokens step.next stop (d :: ds)
      (lexFrom moved place text).tokens := by
  subst stops
  intro step later behind h
  have paired := h.paired.behind
  have stays := h.stays
  rw [Text.width_append, ← Nat.add_assoc] at stays
  have positive := Text.width_pos (List.cons_ne_nil d ds)
  cases h.shifts with
  | inLine goesOn =>
    rw [begins] at goesOn
    cases goesOn
  | line _ uniform is =>
    have same : ∀ b ∈ blanks, b = u := uniform [] blanks (d :: ds) rfl blank
    have indents : ∀ b ∈ blanks, isIndent b = true := fun b hb => by rwa [same b hb]
    have deep : columns * columnsOf u ≤ indentationWidth blanks :=
      Stays.deep h.layouts stays (by dsimp only; omega)
    have enough : columns ≤ blanks.length := by
      rw [indentationWidth_of_uniform indent same] at deep
      exact Nat.le_of_mul_le_mul_right deep (columnsOf_pos u)
    have kept : ∀ b ∈ blanks.drop columns, b = u := fun b hb => same b (List.mem_of_mem_drop hb)
    have left : indentationWidth (blanks.drop columns)
        = indentationWidth blanks - columns * columnsOf u := by
      rw [indentationWidth_of_uniform indent kept, indentationWidth_of_uniform indent same,
        List.length_drop, Nat.sub_mul]
    have noFeed : d ≠ '\n' := by
      rintro rfl
      exact some rfl
    have line : IndentedBy u ('\n' :: blanks ++ d :: ds) := uniform
    obtain ⟨inner', moves, count⟩ := h.layouts.relevel deep ⟨offset, offset + width blanks⟩
      ⟨place, place + width (blanks.drop columns)⟩
    rw [Text.dedentLines_deep (h.ahead.outside behind) indents enough (List.cons_ne_nil d ds),
      Text.dedentRest_cons noFeed] at is
    refine ⟨_, inner', _, place + width (blanks.drop columns), _, ?_, moves.words,
      .inLine (relevel_lineStart _ _ _) line.behind [] _ rfl (List.forall_mem_nil _) rfl,
      moves.next, paired,
      h.ahead.behind (Nat.le_add_right _ _) fun t ht => (relevel_within _ _ _ _ t ht).2.le,
      stays.behind count⟩
    rw [is, lexFrom_blanks (h.layouts.lineStart.trans begins)
      (fun b hb => blank b (List.mem_of_mem_drop hb)) solid some, left, Text.width_nil,
      Nat.add_zero, Text.dedentRest_cons noFeed]
    rfl

/-- In a line. -/
lemma piece (inside : layout.lineStart = false) {taken : List Char} {piece : Piece}
    (found : Piece.read c cs = (piece, ⟨taken, rest⟩)) {stop : ℕ}
    (stops : stop = offset + width taken) :
    let step := contribution layout piece taken ⟨offset, stop⟩
    let later := lexFrom step.next stop rest
    Moving strings columns u inner layout moved offset (c :: cs) text
      (step.tokens ++ later.tokens) →
    MovesOn strings columns u step.tokens step.next stop rest
      (lexFrom moved place text).tokens := by
  subst stops
  intro step later h
  have parts := Piece.read_taken_append_rest c cs
  rw [found] at parts
  have paired := h.paired
  rw [← parts] at paired
  have ahead : StringsAhead strings (offset + width taken) later.tokens :=
    h.ahead.behind (Nat.le_add_right _ _) fun t ht => (contribution_within _ _ _ _ t ht).2
  have stays := h.stays
  rw [← parts, Text.width_append, ← Nat.add_assoc] at stays
  have stays : Stays inner.length (offset + width taken + width rest) later.tokens :=
    stays.behind (by rw [(contribution_counts _ _ _ _).1]; exact Nat.le_add_right _ _)
  cases h.shifts with
  | line begins =>
    rw [inside] at begins
    cases begins
  | inLine _ uniform blanks own whole indents is =>
    cases blanks with
    | cons b blanks =>
      -- a blank that is not in the block that was moved
      obtain ⟨rfl, rfl⟩ := List.cons.inj whole
      obtain ⟨first, others⟩ := List.forall_mem_cons.1 indents
      have blank := Piece.read_of_isBlank (Text.isBlank_of_isIndent first) (blanks ++ own)
      obtain ⟨rfl, cut⟩ := Prod.mk.inj (found.symm.trans blank)
      obtain ⟨rfl, rfl⟩ := Cut.mk.inj cut
      have uniform : IndentedBy u ([c] ++ (blanks ++ own)) := uniform
      refine ⟨[], inner, moved, place, text, rfl, rfl,
        .inLine inside uniform.behind blanks own rfl others ?_, h.layouts, paired.behind, ahead,
        stays⟩
      rw [is, Text.width_cons, Text.width_cons, Text.width_nil, Nat.add_zero, Nat.add_assoc]
    | nil =>
      obtain rfl : c :: cs = own := whole
      rw [Text.width_nil, Nat.add_zero] at is
      have known : ∀ f closed, piece = .string f closed →
          ⟨offset, offset + width taken⟩ ∈ strings := by
        rintro f closed rfl
        exact h.ahead.known ⟨if f then .fstring else .string, String.ofList taken,
          ⟨offset, offset + width taken⟩⟩ List.mem_cons_self (by cases f <;> simp)
      obtain ⟨own, more, rfl, moves, again, shifts⟩ := @Shifts.piece strings columns offset u c cs
        rest layout taken piece found inside uniform h.paired known
        ⟨offset, offset + width taken⟩
      have contributes := h.layouts.contribution piece (c :: own)
        ⟨offset, offset + width (c :: own)⟩ ⟨place, place + width (c :: own)⟩
      have still : ¬moved.lineStart = true := by simp [h.layouts.lineStart, inside]
      refine ⟨_, inner, _, place + width (c :: own), more, ?_, contributes.words, shifts,
        contributes.next, paired.behind, ahead, stays⟩
      rw [is, moves, lexFrom_inLine _ still, again]
      rfl

end Moving

/-- What the rest of the block amounts to when it is moved, the block aside. -/
lemma MovesOn.words {tokens later us : List Token} {next : Layout} {stop : ℕ} {rest : List Char}
    (h : MovesOn strings columns u tokens next stop rest us)
    (goesOn : ∀ inner moved text place,
      Moving strings columns u inner next moved stop rest text (lexFrom next stop rest).tokens →
      MovedWords later (lexFrom moved place text).tokens) : MovedWords (tokens ++ later) us := by
  obtain ⟨new, inner, moved, place, text, rfl, words, moving⟩ := h
  exact (goesOn inner moved text place moving).append words

end

/-- What is left of a block has the same tokens when the block is moved, the block itself aside. -/
theorem lexFrom_moved (indent : isIndent u = true) {layout : Layout} {offset : ℕ} {cs : List Char}
    {inner : List ℕ} {moved : Layout} {text : List Char}
    (h : Moving strings columns u inner layout moved offset cs text
      (lexFrom layout offset cs).tokens) (place : ℕ) :
    MovedWords (lexFrom layout offset cs).tokens (lexFrom moved place text).tokens := by
  fun_induction lexFrom layout offset cs generalizing inner moved text place with
  | case1 layout offset => exact h.nil place
  | case2 layout offset c rest begins blanks =>
    next first shape =>
    have parts : blanks.taken = c :: rest := by
      have whole : blanks.taken ++ blanks.rest = c :: rest := Cut.spanning_append _ _
      rwa [shape, List.append_nil] at whole
    rw [← parts] at h
    exact h.onlyBlanks begins (fun b => List.mem_takeWhile_imp) first place
  | case3 layout offset c rest begins blanks first d ds shape =>
    next empty line ih =>
    have parts : blanks.taken ++ d :: ds = c :: rest := shape ▸ Cut.spanning_append _ _
    rw [← parts] at h
    exact (h.emptyLine begins (fun b => List.mem_takeWhile_imp) (solid_behind_blanks shape)
      empty rfl).words
      fun _ _ _ place moving => ih moving place
  | case4 layout offset c rest begins blanks first d ds shape =>
    next some step ih =>
    have parts : blanks.taken ++ d :: ds = c :: rest := shape ▸ Cut.spanning_append _ _
    have behind := (lexFrom_tiles layout offset (c :: rest)).ahead
    rw [lexFrom_level offset begins shape some] at behind
    rw [← parts] at h
    exact (Moving.level indent begins (fun b => List.mem_takeWhile_imp) (solid_behind_blanks shape)
      some rfl behind h).words
      fun _ _ _ place moving => ih moving place
  | case5 layout offset c rest inside found =>
    next stop step ih =>
    exact (Moving.piece (by simpa using inside) rfl rfl h).words
      fun _ _ _ place moving => ih moving place

end Syntax

end MethodLift
