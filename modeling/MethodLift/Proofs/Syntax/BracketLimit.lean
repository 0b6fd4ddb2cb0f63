import MethodLift.Proofs.Syntax.Computing
import MethodLift.Proofs.Syntax.GuardedStatements

/-!
# The limit of nesting, and what it leaves out

Blocks and expressions that are nested more deeply than `maxNesting` are refused, so that reading
cannot run away with the depth of a text.  That would bound the brackets of an accepted text too if
reading counted whenever it enters a bracket.  It counts when it enters an expression.  The operand
of a star, that of two stars in a dictionary, and the target, the source and the conditions of a
comprehension are read without one.

What is bounded are the brackets in which none of these has begun (`guarded_le_maxNesting`).  The
condition looks at tokens only: a product or a power lifts the guard of its brackets as well,
although its operands are of no account there.

Without the condition there is no bound at all.  Reading goes from a star to the operand after it,
from there into the next bracket, and comes back to a star at the depth that it started from, so
that a name in any number of starred brackets is read without a problem (`starredText_nests`).
-/

namespace MethodLift.Syntax

open Syntax.Parser (maxNesting)

/-! ## What is bounded -/

/-- The brackets that are open behind some tokens of a text. -/
def openBrackets (front : List Token) : Brackets := Brackets.past [] front

/-- In a text without problems no more brackets than the limit of nesting are open at once in which
neither a star nor a `for` has come. -/
theorem guarded_le_maxNesting {text : String} (valid : (parse text).problems = [])
    {front : List Token} (is : front <+: (lex text).tokens) :
    (openBrackets front).guarded ≤ maxNesting := (parse_leads valid).bounded front is

set_option maxRecDepth 100000 in
/-- A bracket with a star in it, and one in the operand of the star. -/
theorem starred_list_within_limit :
    let text := "[*(a)]\n"
    (parse text).problems.isEmpty = true
      ∧ ∀ n, (openBrackets ((lex text).tokens.take n)).guarded ≤ maxNesting := by
  intro text
  have valid : (parse text).problems.isEmpty = true := by
    unfold text
    simp only [parseComputed.eq]
    decide +kernel
  exact ⟨valid, fun n => guarded_le_maxNesting (List.isEmpty_iff.1 valid) (List.take_prefix n _)⟩

/-! ## A name in starred brackets -/

/-- A name with a star and brackets around it, again and again. -/
def starredName : ℕ → List Char
  | 0 => ['*', 'x']
  | n + 1 => '*' :: '(' :: (starredName n ++ [')'])

/-- The kinds of its tokens. -/
def starredKinds : ℕ → List TokenKind
  | 0 => [.symbol .star, .name]
  | n + 1 => .symbol .star :: .symbol .leftParen :: (starredKinds n ++ [.symbol .rightParen])

lemma starredKinds_eq (n : ℕ) : ∃ ks, starredKinds n = .symbol .star :: ks := by
  cases n <;> exact ⟨_, rfl⟩

lemma two_le_length_starredKinds (n : ℕ) : 2 ≤ (starredKinds n).length := by
  cases n <;> exact Nat.succ_le_succ (Nat.succ_pos _)

/-! ### Its tokens -/

/-- The tokens at the front of a text have some kinds, and there is no problem with them. -/
def Begins (layout : Layout) (cs : List Char) (kinds : List TokenKind) (next : Layout)
    (rest : List Char) : Prop :=
  ∀ offset, ∃ ts offset', ts.map (·.kind) = kinds
    ∧ lexFrom layout offset cs = (lexFrom next offset' rest).cons ts []

section

variable {layout next last : Layout} {cs rest rest' : List Char} {ks ks' : List TokenKind}

lemma Begins.trans (h : Begins layout cs ks next rest) (h' : Begins next rest ks' last rest') :
    Begins layout cs (ks ++ ks') last rest' := by
  intro offset
  obtain ⟨ts, offset', is, read⟩ := h offset
  obtain ⟨us, offset'', is', read'⟩ := h' offset'
  refine ⟨ts ++ us, offset'', by rw [List.map_append, is, is'], ?_⟩
  rw [read, read', Lexed.cons, Lexed.cons, Lexed.cons, List.append_assoc]
  rfl

/-- One piece that is a token. -/
lemma Begins.token {c : Char} {taken : List Char} {piece : Piece} {kind : TokenKind}
    (inLine : layout.lineStart = false) (read : Piece.read c cs = (piece, ⟨taken, rest⟩))
    (one : ∀ span, contribution layout piece taken span
      = ⟨[⟨kind, String.ofList taken, span⟩], [], next⟩) :
    Begins layout (c :: cs) [kind] next rest := by
  intro offset
  refine ⟨[⟨kind, String.ofList taken, ⟨offset, offset + Text.width taken⟩⟩],
    offset + Text.width taken, rfl, ?_⟩
  rw [lexFrom_inLine offset (by simp [inLine]), read]
  simp only [one]

/-- A starred name in the middle of a line. -/
lemma begins_starredName (n : ℕ) (inLine : layout.lineStart = false) {c : Char}
    (ends : c = ')' ∨ c = '\n') (tail : List Char) :
    Begins layout (starredName n ++ c :: tail) (starredKinds n) { layout with pending := true }
      (c :: tail) := by
  induction n generalizing layout c tail with
  | zero =>
    have star : Begins layout ('*' :: 'x' :: c :: tail) [.symbol .star]
        { layout with pending := true } ('x' :: c :: tail) := .token inLine rfl fun _ => rfl
    have word : wordKind (String.ofList ['x']) = .name := by decide
    have read : Piece.read 'x' (c :: tail) = (.word, ⟨['x'], c :: tail⟩) := by
      rcases ends with rfl | rfl <;> rfl
    have name : Begins { layout with pending := true } ('x' :: c :: tail) [.name]
        { layout with pending := true } (c :: tail) :=
      .token inLine read fun span => by rw [contribution, word]
    exact star.trans name
  | succ n ih =>
    have star : Begins layout ('*' :: '(' :: (starredName n ++ ')' :: c :: tail)) [.symbol .star]
        { layout with pending := true } ('(' :: (starredName n ++ ')' :: c :: tail)) :=
      .token inLine rfl fun _ => rfl
    have opening : Begins { layout with pending := true }
        ('(' :: (starredName n ++ ')' :: c :: tail)) [.symbol .leftParen]
        { layout with pending := true, depth := layout.depth + 1 }
        (starredName n ++ ')' :: c :: tail) := .token inLine rfl fun _ => rfl
    have name := @ih { layout with pending := true, depth := layout.depth + 1 } inLine ')'
      (.inl rfl) (c :: tail)
    have closing : Begins { layout with pending := true, depth := layout.depth + 1 }
        (')' :: c :: tail) [.symbol .rightParen] { layout with pending := true } (c :: tail) :=
      .token inLine rfl fun _ => rfl
    have whole := ((star.trans opening).trans name).trans closing
    rw [starredName, List.cons_append, List.cons_append, List.append_assoc]
    exact whole

end

/-- A text that nests brackets, each in the operand of a star. -/
def starredText (n : ℕ) : String := String.ofList (starredName n ++ ['\n'])

lemma lex_starredText (n : ℕ) : (lex (starredText n)).problems = []
    ∧ (lex (starredText n)).tokens.map (·.kind) = starredKinds n ++ [.newline, .endOfFile] := by
  have starts : ∃ cs, starredName n = '*' :: cs := by cases n <;> exact ⟨_, rfl⟩
  obtain ⟨cs, is⟩ := starts
  set line : Layout := ⟨0, [], false, false⟩
  obtain ⟨ts, offset, kinds, read⟩ := @begins_starredName line n rfl '\n' (.inr rfl) [] 0
  have level : lex (starredText n) = lexFrom line 0 (starredName n ++ ['\n']) := by
    rw [lex, starredText, String.toList_ofList, is]
    exact lexFrom_level 0 rfl rfl (by decide)
  have lineBreak : lexFrom { line with pending := true } offset ['\n']
      = (lexFrom ⟨0, [], true, false⟩ (offset + 1) []).cons [⟨.newline, "", .point offset⟩] [] :=
    lexFrom_inLine offset nofun
  have ending : lexFrom ⟨0, [], true, false⟩ (offset + 1) []
      = ⟨[⟨.endOfFile, "", .point (offset + 1)⟩], []⟩ := by rw [lexFrom]; rfl
  rw [level, read, lineBreak, ending]
  refine ⟨rfl, ?_⟩
  simp [Lexed.cons, kinds]

/-! ### Reading it -/

/-- The kinds of the tokens that are left. -/
def ParserState.kinds (s : ParserState) : List TokenKind :=
  s.current.kind :: s.later.map fun t => t.kind

/-- From a state, a step takes the tokens before those of the kinds `ks`, and notes no problem. -/
abbrev Reaches {α : Type} (p : Parser α) (s : ParserState) (ks : List TokenKind) : Prop :=
  Ends p s fun _ s' => s'.kinds = ks ∧ s'.depth = s.depth ∧ s'.problems = s.problems

namespace Reaches

variable {α β : Type} {p q : Parser α} {f : α → Parser β} {s : ParserState} {k k' : TokenKind}
  {ks ks' : List TokenKind}

/-- One step after the other. -/
theorem bind (first : Reaches p s ks)
    (rest : ∀ a s', s'.kinds = ks → s'.depth = s.depth → Reaches (f a) s' ks') :
    Reaches (p >>= f) s ks' := by
  obtain ⟨left, depth, problems⟩ := first
  obtain ⟨left', depth', problems'⟩ := rest _ _ left depth
  exact ⟨left', depth'.trans depth, problems'.trans problems⟩

lemma give (left : s.kinds = ks) (a : α) : Reaches (pure a) s ks := ⟨left, rfl, rfl⟩

/-- A token is taken. -/
lemma bump (left : s.kinds = k :: k' :: ks) (more : k ≠ .endOfFile) :
    Reaches Parser.bump s (k' :: ks) := by
  obtain ⟨here, behind⟩ := List.cons.inj left
  cases later : s.later with
  | nil => simp [later] at behind
  | cons t ts =>
    have run : Parser.advance s = { s with
        current := t
        later := ts
        lastEnd := if s.current.kind.isLayout then s.lastEnd else s.current.span.stop } := by
      rw [Parser.advance, if_neg (by simpa [here] using more), later]
      rfl
    show (Parser.advance s).kinds = k' :: ks ∧ (Parser.advance s).depth = s.depth
      ∧ (Parser.advance s).problems = s.problems
    rw [run]
    refine ⟨?_, rfl, rfl⟩
    rw [← behind, later]
    rfl

/-- A token that is there is taken. -/
lemma eat {g : Bool → Parser β} (left : s.kinds = k :: k' :: ks) (more : k ≠ .endOfFile)
    (rest : ∀ s', s'.kinds = k' :: ks → Reaches (g true) s' ks') :
    Reaches (Parser.eat k >>= g) s ks' :=
  Parser.eat_cases k s
    (fun _ => (bump left more).bind (f := fun _ => g true) fun _ s' left' _ => rest s' left')
    fun no => absurd (List.cons.inj left).1 no

/-- A symbol that has to be there is. -/
lemma expect {symbol : Symbol} (left : s.kinds = .symbol symbol :: k' :: ks) :
    Reaches (Parser.expectSymbol symbol) s (k' :: ks) :=
  eat left nofun fun _ left' => give left' true

/-- A token that is not there. -/
lemma skip {g : Bool → Parser β} (other : s.current.kind ≠ k) (rest : Reaches (g false) s ks) :
    Reaches (Parser.eat k >>= g) s ks :=
  Parser.eat_cases k s (fun there => absurd there other) fun _ => rest

/-- A step that only looks. -/
lemma look {a : α} (run : p.run s = (a, s)) (h : Reaches (f a) s ks) : Reaches (p >>= f) s ks := by
  refine Ends.look (congrArg Prod.snd run) ?_
  rw [run]
  exact h

/-- A loop that takes nothing. -/
lemma extend {step : α → Parser (Option α)} {a : α} (left : s.kinds = ks)
    (none : (step a).run s = (none, s)) : Reaches (Parser.extend step a) s ks := by
  refine .look rfl (.look none ?_)
  exact give left a

/-- A loop that takes nothing. -/
lemma collect {step : Parser (Option α)} (left : s.kinds = ks)
    (none : step.run s = (none, s)) : Reaches (Parser.collect step) s ks := by
  refine .look rfl (.look none ?_)
  exact give left []

/-- A loop of one round. -/
lemma collectOnce {step : Parser (Option α)} (more : 0 < s.later.length)
    (some : step.run s = (some <$> p).run s) (first : Reaches p s ks)
    (none : ∀ s', s'.kinds = ks → step.run s' = (none, s')) :
    Reaches (Parser.collect step) s ks := by
  obtain ⟨n, is⟩ := Nat.exists_eq_add_one_of_ne_zero more.ne'
  have one (a : α) (s₁ : ParserState) (left₁ : s₁.kinds = ks) :
      Reaches (Parser.collectAtMost step (n + 1)) s₁ ks := .look (none s₁ left₁) (.give left₁ [])
  have rounds : Reaches (do let a ← p; return a :: (← Parser.collectAtMost step (n + 1))) s ks :=
    first.bind fun a s₁ left₁ _ => (one a s₁ left₁).bind fun as s₂ left₂ _ => .give left₂ _
  have run : (Parser.collect step).run s
      = (do let a ← p; return a :: (← Parser.collectAtMost step (n + 1))).run s := by
    have limit : Parser.remaining.run s = (n + 1, s) := congrArg (·, s) is
    rw [Parser.collect, StateT.run_bind, limit]
    show (Parser.collectAtMost step (n + 1 + 1)).run s = _
    rw [Parser.collectAtMost, StateT.run_bind, some]
    rfl
  unfold Reaches Ends at rounds ⊢
  rwa [run]

end Reaches

namespace Parser

variable {rules : Rules} {s : ParserState} {k k' : TokenKind} {ks ks' : List TokenKind}

lemma isAt_run (here : s.current.kind = k) (k' : TokenKind) : (isAt k').run s = (k == k', s) :=
  congrArg (fun k => (k == k', s)) here

lemma extension?_none {e : Expr} (here : s.current.kind = k)
    (ends : k = .symbol .rightParen ∨ k = .newline) :
    (extension? rules e).run s = (none, s) := by
  have run : (kind.run s) = (k, s) := congrArg (·, s) here
  rcases ends with rfl | rfl <;> (rw [extension?, StateT.run_bind, run]; rfl)

lemma binaryStep?_none {e : Expr} (here : s.current.kind = k)
    (ends : k = .symbol .rightParen ∨ k = .newline) :
    (binaryStep? rules 0 e).run s = (none, s) := by
  have run : (kind.run s) = (k, s) := congrArg (·, s) here
  rcases ends with rfl | rfl <;> (rw [binaryStep?, StateT.run_bind, run]; rfl)

/-- An atom that nothing follows. -/
lemma binary_reaches (shallow : s.depth < maxNesting) (here : s.current.kind = k')
    (begins : k' = .name ∨ k' = .symbol .leftParen)
    (ends : k = .symbol .rightParen ∨ k = .newline) (h : Reaches (atom rules) s (k :: ks)) :
    Reaches (binary rules 0) s (k :: ks) := by
  have primary : Reaches (primary rules) s (k :: ks) :=
    h.bind fun e s₁ left _ => .extend left (extension?_none (List.cons.inj left).1 ends)
  have power : Reaches (power rules) s (k :: ks) := by
    have unawaited : (atKeyword .kAwait).run s = (false, s) := by
      rcases begins with rfl | rfl <;> exact isAt_run here _
    refine .look unawaited (primary.bind fun e s₁ left _ => .skip ?_ (.give left e))
    rw [(List.cons.inj left).1]
    rcases ends with rfl | rfl <;> exact nofun
  have unary : Reaches (unary rules) s (k :: ks) := by
    have run : tooDeep.run s = (false, s) := congrArg (·, s) (decide_eq_false shallow.not_ge)
    have unsigned : kind.run s = (k', s) := congrArg (·, s) here
    refine .look run (.look unsigned ?_)
    rcases begins with rfl | rfl <;> exact power
  exact unary.bind fun e s₁ left _ => .extend left (binaryStep?_none (List.cons.inj left).1 ends)

/-- A starred operand. -/
lemma element_reaches (left : s.kinds = .symbol .star :: k' :: ks')
    (h : ∀ s', s'.kinds = k' :: ks' → s'.depth = s.depth → Reaches (rules.binary 0) s' ks) :
    Reaches (element rules) s ks :=
  .look (isAt_run (List.cons.inj left).1 _) <| (Reaches.bump left nofun).bind
    fun _ s₁ left₁ depth₁ => (h s₁ left₁ depth₁).bind fun _ _ left₂ _ => ⟨left₂, rfl, rfl⟩

/-- A starred operand in parentheses. -/
lemma parenthesized_reaches (left : s.kinds = .symbol .leftParen :: .symbol .star :: ks)
    (h : ∀ s', s'.kinds = .symbol .star :: ks → s'.depth = s.depth →
      Reaches (element rules) s' (.symbol .rightParen :: k :: ks')) :
    Reaches (parenthesized rules) s (k :: ks') := by
  refine (Reaches.bump left nofun).bind fun t s₁ left₁ depth₁ => ?_
  have star := (List.cons.inj left₁).1
  refine .skip (fun is => nomatch star.symm.trans is) (.look (isAt_run star _) ?_)
  refine (h s₁ left₁ depth₁).bind fun first s₂ left₂ _ => ?_
  have close := (List.cons.inj left₂).1
  have noClause : atGenerator.run s₂ = (false, s₂) := by
    show (s₂.current.kind == .keyword .kFor || (s₂.current.kind == .keyword .kAsync && _), s₂) = _
    rw [close]
    rfl
  refine .look noClause (.look (isAt_run close _) ?_)
  exact (Reaches.expect left₂).bind fun _ s₃ left₃ _ => .give left₃ _

variable {n m : ℕ}

lemma star_of_kinds (left : s.kinds = starredKinds n ++ ks) : s.current.kind = .symbol .star := by
  obtain ⟨inner, is⟩ := starredKinds_eq n
  rw [is] at left
  exact (List.cons.inj left).1

/-- Stars and brackets are read at any depth of brackets, and the nesting is counted nowhere. -/
theorem starred_reaches (enough : n < m) (shallow : s.depth < maxNesting)
    (left : s.kinds = starredKinds n ++ k :: ks)
    (ends : k = .symbol .rightParen ∨ k = .newline) :
    Reaches (element (Rules.upTo m)) s (k :: ks) := by
  induction n generalizing m s k ks with
  | zero =>
    obtain ⟨m, rfl⟩ := Nat.exists_eq_add_one_of_ne_zero (Nat.ne_zero_of_lt enough)
    refine element_reaches left fun s₁ left₁ depth₁ => ?_
    have here := (List.cons.inj left₁).1
    refine binary_reaches (depth₁ ▸ shallow) here (.inl rfl) ends (.look (congrArg (·, s₁) here) ?_)
    exact (Reaches.bump left₁ nofun).bind fun _ _ left₂ _ => ⟨left₂, rfl, rfl⟩
  | succ n ih =>
    obtain ⟨m, rfl⟩ := Nat.exists_eq_add_one_of_ne_zero (Nat.ne_zero_of_lt enough)
    obtain ⟨inner, is⟩ := starredKinds_eq n
    rw [starredKinds, List.cons_append, List.cons_append, List.append_assoc, is] at left
    refine element_reaches left fun s₁ left₁ depth₁ => ?_
    have here := (List.cons.inj left₁).1
    refine binary_reaches (depth₁ ▸ shallow) here (.inr rfl) ends (.look (congrArg (·, s₁) here) ?_)
    refine parenthesized_reaches left₁ fun s₂ left₂ depth₂ => ?_
    refine ih (Nat.lt_of_succ_lt_succ enough) (depth₂ ▸ depth₁ ▸ shallow) ?_ (.inl rfl)
    rw [is]
    exact left₂

/-! ### The line that it stands on -/

/-- A line that is a starred name. -/
lemma exprStmt_reaches (enough : n < m) (shallow : s.depth < maxNesting)
    (left : s.kinds = starredKinds n ++ .newline :: ks) :
    Reaches (exprStmt (Rules.upTo m)) s (.newline :: ks) := by
  have star := star_of_kinds left
  have begins : canBegin.run s = (true, s) := congrArg (beginsExpression ·, s) star
  have expressions : Reaches (expressions (Rules.upTo m)) s (.newline :: ks) :=
    (starred_reaches enough shallow left (.inr rfl)).bind fun _ _ left' _ =>
      .look (isAt_run (List.cons.inj left').1 _) (.give left' _)
  refine .look (a := s.current.span.start) rfl (.look begins (.look (isAt_run star _) ?_))
  have value : Reaches (value (Rules.upTo m)) s (.newline :: ks) :=
    .look (isAt_run star _) expressions
  refine value.bind fun e s₁ left₁ _ => ?_
  have line := (List.cons.inj left₁).1
  refine .skip (fun is => nomatch line.symm.trans is) (.look (congrArg (·, s₁) line) ?_)
  exact .look (isAt_run line _) ⟨left₁, rfl, rfl⟩

lemma remaining_run (left : s.kinds = ks) : remaining.run s = (ks.length - 1, s) := by
  rw [← left, ParserState.kinds, List.length_cons, List.length_map]
  rfl

/-- A step that takes something. -/
lemma progressing_reaches {α : Type} {p : Parser α} (left : s.kinds = ks)
    (fewer : ks'.length + 1 < ks.length) (h : Reaches p s (k :: ks')) :
    Reaches (progressing p) s (k :: ks') := by
  refine .look (remaining_run left) (h.bind fun a s₁ left₁ _ => .look (remaining_run left₁) ?_)
  have progress : ((k :: ks').length - 1 == ks.length - 1) = false := by
    rw [List.length_cons, beq_eq_false_iff_ne]
    omega
  rw [progress]
  exact .give left₁ a

/-- The line with its end. -/
lemma simpleStmts_reaches (enough : n < m) (shallow : s.depth < maxNesting)
    (left : s.kinds = starredKinds n ++ .newline :: k :: ks) :
    Reaches (simpleStmts (Rules.upTo m)) s (k :: ks) := by
  have star := star_of_kinds left
  have statement : Reaches (smallStmt (Rules.upTo m)) s (.newline :: k :: ks) :=
    .look (congrArg (·, s) star) (exprStmt_reaches enough shallow left)
  have fewer : (k :: ks).length + 1 < (starredKinds n ++ .newline :: k :: ks).length := by
    have two := two_le_length_starredKinds n
    simp only [List.length_append, List.length_cons]
    omega
  refine (progressing_reaches left fewer statement).bind fun first s₁ left₁ _ => ?_
  have line := (List.cons.inj left₁).1
  refine (Reaches.collect left₁ ?_).bind fun others s₂ left₂ _ => ?_
  · rw [StateT.run_bind, eatSymbol, eat_run, if_neg (by rw [line]; exact nofun)]
    rfl
  · exact .eat left₂ nofun fun s₃ left₃ => .give left₃ _

/-- A text that is one line, a starred name. -/
lemma moduleBody_reaches {blocks : Blocks} (enough : n < m) (shallow : s.depth < maxNesting)
    (left : s.kinds = starredKinds n ++ [.newline, .endOfFile]) :
    Reaches (moduleBody (Rules.upTo m) blocks) s [.endOfFile] := by
  have star := star_of_kinds left
  have two := two_le_length_starredKinds n
  have many : (starredKinds n ++ [TokenKind.newline, .endOfFile]).length
      = (starredKinds n).length + 2 := List.length_append
  have statement : Reaches (statement (Rules.upTo m) blocks) s [.endOfFile] :=
    .look (congrArg (·, s) star) (simpleStmts_reaches enough shallow left)
  have line := progressing_reaches left (by rw [many, List.length_nil]; omega) statement
  have some : (moduleStep? (Rules.upTo m) blocks).run s
      = (some <$> progressing (Parser.statement (Rules.upTo m) blocks)).run s := by
    have run : kind.run s = (_, s) := congrArg (·, s) star
    rw [moduleStep?, StateT.run_bind, run]
    rfl
  have none (s' : ParserState) (left' : s'.kinds = [.endOfFile]) :
      (moduleStep? (Rules.upTo m) blocks).run s' = (none, s') := by
    have run : kind.run s' = (_, s') := congrArg (·, s') (List.cons.inj left').1
    rw [moduleStep?, StateT.run_bind, run]
    rfl
  have more : 0 < s.later.length := by
    have lengths := congrArg List.length left
    rw [many, ParserState.kinds, List.length_cons, List.length_map] at lengths
    omega
  have lines : Reaches (collect (moduleStep? (Rules.upTo m) blocks)) s [.endOfFile] :=
    .collectOnce more some line none
  exact lines.bind fun ss s₁ left₁ _ => .give left₁ _

end Parser

/-! ## What is not bounded -/

lemma le_width_starredName (n : ℕ) : n ≤ Text.width (starredName n) := by
  induction n with
  | zero => exact Nat.zero_le _
  | succ n ih =>
    have star : 0 < ('*').utf8Size := Char.utf8Size_pos _
    rw [starredName, Text.width_cons, Text.width_cons, Text.width_append]
    omega

/-- There is no problem with a name in starred brackets. -/
lemma parse_starredText (n : ℕ) : (parse (starredText n)).problems = [] := by
  obtain ⟨clean, kinds⟩ := lex_starredText n
  have left : (ParserState.start (starredText n)).kinds
      = starredKinds n ++ [.newline, .endOfFile] := by
    rw [ParserState.kinds, ← List.map_cons (f := fun t : Token => t.kind), start_tokens, kinds]
  have enough : n < 2 * Text.width (starredText n).toList + 8 := by
    have wide := le_width_starredName n
    rw [starredText, String.toList_ofList, Text.width_append]
    omega
  have read : (ParserState.final (starredText n)).problems = [] :=
    (Parser.moduleBody_reaches enough (Nat.zero_lt_succ _) left).2.2
  show ((lex (starredText n)).problems
    ++ (ParserState.final (starredText n)).problems.reverse).mergeSort _ = []
  rw [clean, read]
  exact List.mergeSort_nil

/-- On the way into the brackets they are all open at once. -/
lemma starredKinds_opens (n : ℕ) (b : Brackets) : ∃ ks ks', starredKinds n = ks ++ ks'
    ∧ (ks.foldl Brackets.behind b).length = b.length + n := by
  induction n generalizing b with
  | zero => exact ⟨[], _, rfl, rfl⟩
  | succ n ih =>
    obtain ⟨ks, ks', split, many⟩ := ih (true :: b.loosen)
    refine ⟨.symbol .star :: .symbol .leftParen :: ks, ks' ++ [.symbol .rightParen], ?_, ?_⟩
    · rw [starredKinds, split, List.append_assoc]
      rfl
    · have same : b.loosen.length = b.length := by cases b <;> rfl
      have both : (ks.foldl Brackets.behind (true :: b.loosen)).length = b.length + (n + 1) := by
        rw [many, List.length_cons, same]
        omega
      exact both

/-- A text without problems can have any number of brackets open. -/
theorem starredText_nests (n : ℕ) : (parse (starredText n)).problems = []
    ∧ ∃ front, front <+: (lex (starredText n)).tokens ∧ (openBrackets front).length = n := by
  obtain ⟨ks, ks', split, many⟩ := starredKinds_opens n []
  obtain ⟨-, kinds⟩ := lex_starredText n
  rw [split, List.append_assoc] at kinds
  obtain ⟨front, rest, whole, is, -⟩ := List.map_eq_append_iff.1 kinds
  refine ⟨parse_starredText n, front, ⟨rest, whole.symm⟩, ?_⟩
  rw [openBrackets, Brackets.past, ← List.foldl_map (f := Token.kind), is, many]
  simp

/-- The limit of nesting does not bound the brackets of a text without problems. -/
theorem stars_nest_beyond_limit :
    let text := starredText 101
    (parse text).problems = [] ∧ ∃ front, front <+: (lex text).tokens
      ∧ maxNesting < (openBrackets front).length := by
  obtain ⟨valid, front, is, many⟩ := starredText_nests 101
  exact ⟨valid, front, is, many ▸ Nat.lt_succ_self 100⟩

end MethodLift.Syntax
