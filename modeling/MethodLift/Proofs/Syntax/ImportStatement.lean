import MethodLift.Proofs.Syntax.BracketLimit
import MethodLift.Proofs.Syntax.ImportWords

/-!
# A text that imports one name

The line `from a.b import f` is one statement, which imports the name `f` from the module `a.b` and
does nothing else (`parse_importLine`).

`Takes` says of a step of reading which words it leaves, with no problem noted, and what it gives.
The steps of the grammar are gone through in the order in which they come.  The only loop that takes
more than one round is that over the parts of the path, by induction on the parts
(`Takes.dots`).
-/

namespace MethodLift.Syntax

/-- The words of the tokens that are left. -/
def ParserState.words (s : ParserState) : List Word := (s.current :: s.later).map Token.word

/-- From a state, a step takes the words before the given ones, notes no problem, and gives
something as described. -/
abbrev Takes {α : Type} (p : Parser α) (s : ParserState) (ws : List Word) (post : α → Prop) :
    Prop :=
  Ends p s fun a s' => s'.words = ws ∧ s'.problems = s.problems ∧ post a

variable {α β : Type} {p q : Parser α} {f : α → Parser β} {s : ParserState}
  {k k' : TokenKind} {text text' : String} {ws ws' : List Word} {post : α → Prop} {post' : β → Prop}

lemma ParserState.kind_of_words (left : s.words = (k, text) :: ws) : s.current.kind = k :=
  congrArg Prod.fst (List.cons.inj left).1

namespace Takes

/-- One step after the other. -/
theorem bind (first : Takes p s ws post)
    (rest : ∀ a s', s'.words = ws → post a → Takes (f a) s' ws' post') :
    Takes (p >>= f) s ws' post' := by
  obtain ⟨left, problems, result⟩ := first
  obtain ⟨left', problems', result'⟩ := rest _ _ left result
  exact ⟨left', problems'.trans problems, result'⟩

lemma give {a : α} (left : s.words = ws) (result : post a) : Takes (pure a) s ws post :=
  ⟨left, rfl, result⟩

lemma mono {weaker : α → Prop} (h : Takes p s ws post) (le : ∀ a, post a → weaker a) :
    Takes p s ws weaker := ⟨h.1, h.2.1, le _ h.2.2⟩

/-- A step that only looks. -/
lemma look {a : α} (run : p.run s = (a, s)) (h : Takes (f a) s ws post') :
    Takes (p >>= f) s ws post' := by
  refine Ends.look (congrArg Prod.snd run) ?_
  rw [run]
  exact h

lemma advance (left : s.words = (k, text) :: ws) (ahead : ws ≠ []) (solid : k ≠ .endOfFile) :
    (Parser.advance s).words = ws ∧ (Parser.advance s).problems = s.problems := by
  have here := ParserState.kind_of_words left
  have later : s.later.map Token.word = ws := (List.cons.inj left).2
  cases tokens : s.later with
  | nil => simp [tokens, ahead.symm] at later
  | cons t ts =>
    rw [tokens] at later
    simp [Parser.advance, here, solid, tokens, ParserState.words, ← later]

/-- A token is taken. -/
lemma bump (left : s.words = (k, text) :: ws) (ahead : ws ≠ []) (solid : k ≠ .endOfFile) :
    Takes Parser.bump s ws fun t => t.word = (k, text) := by
  obtain ⟨left', problems⟩ := advance left ahead solid
  exact ⟨left', problems, (List.cons.inj left).1⟩

/-- A token that is there is taken. -/
lemma eat {g : Bool → Parser β} (left : s.words = (k, text) :: ws) (ahead : ws ≠ [])
    (solid : k ≠ .endOfFile) (rest : ∀ s', s'.words = ws → Takes (g true) s' ws' post') :
    Takes (Parser.eat k >>= g) s ws' post' := by
  apply Parser.eat_cases k s
  · intro there
    obtain ⟨left', problems⟩ := advance left ahead solid
    obtain ⟨left'', problems', result⟩ := rest _ left'
    exact ⟨left'', problems'.trans problems, result⟩
  · intro no
    exact absurd (ParserState.kind_of_words left) no

lemma eat_none (left : s.words = (k', text) :: ws) (other : k' ≠ k) :
    (Parser.eat k).run s = (false, s) := by
  rw [Parser.eat_run, ParserState.kind_of_words left, if_neg other]

/-- A step that begins with a token that is not there. -/
lemma eat_bind_none {g : Bool → Parser (Option α)} (left : s.words = (k', text) :: ws)
    (other : k' ≠ k) (nothing : (g false).run s = (none, s)) :
    (Parser.eat k >>= g).run s = (none, s) := by
  rw [StateT.run_bind, eat_none left other]
  exact nothing

/-- A token that is not there. -/
lemma skip {g : Bool → Parser β} (left : s.words = (k', text) :: ws) (other : k' ≠ k)
    (rest : Takes (g false) s ws' post') : Takes (Parser.eat k >>= g) s ws' post' :=
  look (eat_none left other) rest

lemma eat? (left : s.words = (k, text) :: ws) (ahead : ws ≠ []) (solid : k ≠ .endOfFile) :
    Takes (Parser.eat? k) s ws fun o => ∃ t, o = Option.some t ∧ t.word = (k, text) := by
  apply look (Parser.isAt_run (ParserState.kind_of_words left) k)
  rw [beq_self_eq_true]
  apply (bump left ahead solid).bind
  intro t s' left' is
  exact give left' ⟨t, rfl, is⟩

/-- A name that is there is taken. -/
lemma name? (left : s.words = (.name, text) :: ws) (ahead : ws ≠ []) :
    Takes Parser.name? s ws fun o => ∃ span, o = Option.some ⟨text, span⟩ := by
  apply (eat? left ahead (by simp)).bind
  rintro o s' left' ⟨t, rfl, is⟩
  obtain rfl : t.text = text := congrArg Prod.snd is
  exact give left' ⟨t.span, rfl⟩

lemma remaining_run (left : s.words = ws) :
    Parser.remaining.run s = (ws.length - 1, s) := by
  simp [← left, ParserState.words, Parser.remaining]
  rfl

/-- A loop that takes nothing. -/
lemma collectNone {step : Parser (Option α)} (left : s.words = ws)
    (nothing : step.run s = (none, s)) : Takes (Parser.collect step) s ws (· = []) := by
  apply look (remaining_run rfl)
  apply look nothing
  exact give left rfl

/-- A loop of one round. -/
lemma collectOne {step : Parser (Option α)} (more : 1 < s.words.length)
    (first : Takes step s ws fun o => ∃ a, o = some a ∧ post a)
    (ended : ∀ s', s'.words = ws → step.run s' = (none, s')) :
    Takes (Parser.collect step) s ws fun as => ∃ a, as = [a] ∧ post a := by
  obtain ⟨n, is⟩ : ∃ n, s.words.length - 1 = n + 1 := ⟨s.words.length - 2, by omega⟩
  apply look (remaining_run rfl)
  rw [is]
  apply first.bind
  rintro o s' left' ⟨a, rfl, found⟩
  have last : Takes (Parser.collectAtMost step (n + 1)) s' ws (· = []) := by
    apply look (ended s' left')
    exact give left' rfl
  apply last.bind
  rintro as s'' left'' rfl
  exact give left'' ⟨a, rfl, found⟩

/-- A step that takes something. -/
lemma progressing (h : Takes p s ws post) (fewer : ws.length < s.words.length) (ahead : ws ≠ []) :
    Takes (Parser.progressing p) s ws post := by
  apply look (remaining_run rfl)
  apply h.bind
  intro a s' left' found
  apply look (remaining_run left')
  have progress : (ws.length - 1 == s.words.length - 1) = false := by
    have short := List.length_pos_iff.2 ahead
    rw [beq_eq_false_iff_ne]
    omega
  rw [progress]
  exact give left' found

/-! ## The path -/

lemma nextKind_run {w : Word} (left : s.words = w :: (k, text) :: ws) :
    Parser.nextKind.run s = (k, s) := by
  have later : s.later.map Token.word = (k, text) :: ws := (List.cons.inj left).2
  obtain ⟨t, ts, tokens, is, -⟩ := List.map_eq_cons_iff.1 later
  obtain rfl : t.kind = k := congrArg Prod.fst is
  show (((s.later.head?.map (·.kind)).getD .endOfFile), s) = _
  rw [tokens]
  rfl

/-- The next part of a path, with the dot before it. -/
abbrev dotPart? : Parser (Option String) := do
  if (← Parser.atSymbol .dot) && (← Parser.nextKind) == .name then
    let _ ← Parser.bump
    return some ("." ++ (← Parser.bump).text)
  else return none

lemma dotPart (left : s.words = (.symbol .dot, ".") :: (.name, text) :: ws) (ahead : ws ≠ []) :
    Takes dotPart? s ws (· = some ("." ++ text)) := by
  apply look (Parser.isAt_run (ParserState.kind_of_words left) _)
  apply look (nextKind_run left)
  apply (bump left (by simp) (by simp)).bind
  intro dot s₁ left₁ _
  apply (bump left₁ ahead (by simp)).bind
  intro t s₂ left₂ is
  obtain rfl : t.text = text := congrArg Prod.snd is
  exact give left₂ rfl

lemma dotPart_none (left : s.words = (k, text) :: ws) (other : k ≠ .symbol .dot) :
    dotPart?.run s = (none, s) := by
  have run := Parser.isAt_run (ParserState.kind_of_words left) (.symbol .dot)
  rw [beq_false_of_ne other] at run
  rw [dotPart?, StateT.run_bind, Parser.atSymbol, run]
  rfl

/-- The parts of a path behind the first one. -/
lemma dots {n : ℕ} {parts : List String} (enough : parts.length < n)
    (left : s.words = dotWords parts ++ (k, text) :: ws) (other : k ≠ .symbol .dot) :
    Takes (Parser.collectAtMost dotPart? n) s ((k, text) :: ws)
      (· = parts.map ("." ++ ·)) := by
  induction parts generalizing n s with
  | nil =>
    obtain ⟨n, rfl⟩ := Nat.exists_eq_add_one_of_ne_zero enough.ne'
    apply look (dotPart_none left other)
    exact give left rfl
  | cons part parts ih =>
    obtain ⟨n, rfl⟩ := Nat.exists_eq_add_one_of_ne_zero (Nat.ne_zero_of_lt enough)
    have taken : Takes dotPart? s (dotWords parts ++ (k, text) :: ws)
        (· = some ("." ++ part)) := dotPart left (by simp)
    apply taken.bind
    rintro o s₁ left₁ rfl
    apply (ih (Nat.lt_of_succ_lt_succ enough) left₁).bind
    rintro others s₂ left₂ rfl
    exact give left₂ rfl

lemma foldl_dots (first : String) (parts : List String) :
    (parts.map ("." ++ ·)).foldl (· ++ ·) first = ".".intercalate (first :: parts) := by
  induction parts generalizing first with
  | nil => simp
  | cons part parts ih => simp [ih, String.append_assoc]

/-- A path is taken as a whole. -/
lemma dottedName? {first : String} {parts : List String}
    (left : s.words = (.name, first) :: (dotWords parts ++ (k, text) :: ws))
    (other : k ≠ .symbol .dot) :
    Takes Parser.dottedName? s ((k, text) :: ws) fun o =>
      ∃ start, o = some (".".intercalate (first :: parts), start) := by
  apply (name? left (by simp)).bind
  rintro o s₁ left₁ ⟨span, rfl⟩
  have enough : parts.length < (dotWords parts ++ (k, text) :: ws).length - 1 + 1 := by
    have both : (dotWords parts).length = parts.length * 2 := by simp [dotWords]
    simp only [List.length_append, List.length_cons]
    omega
  have others : Takes (Parser.collect dotPart?) s₁ ((k, text) :: ws)
      (· = parts.map ("." ++ ·)) := look (remaining_run left₁) (dots enough left₁ other)
  apply others.bind
  rintro others s₂ left₂ rfl
  rw [foldl_dots]
  exact give left₂ ⟨span.start, rfl⟩

end Takes

/-! ## The statement -/

/-- A statement that imports one name of a module, and nothing else. -/
def ImportsName (path symbol : String) (d : Stmt) : Prop :=
  ∃ mark a, d = .importFrom mark (some path) 0 [a] false ∧ a.name = symbol ∧ a.asname = none

namespace Takes

/-- A name without `as`. -/
lemma plainAlias (left : s.words = (.name, text) :: (k, text') :: ws) (other : k ≠ .keyword .kAs) :
    Takes (Parser.alias? false) s ((k, text') :: ws) fun o =>
      ∃ a : Alias, o = some a ∧ a.name = text ∧ a.asname = none := by
  have plain : Takes Parser.plainName? s ((k, text') :: ws) fun o =>
      ∃ start, o = some (text, start) := by
    apply (name? left (by simp)).bind
    rintro o s₁ left₁ ⟨span, rfl⟩
    exact give left₁ ⟨span.start, rfl⟩
  apply plain.bind
  rintro o s₁ left₁ ⟨start, rfl⟩
  have unnamed : Takes Parser.asName? s₁ ((k, text') :: ws) (· = none) :=
    skip left₁ other (give left₁ rfl)
  apply unnamed.bind
  rintro asname s₂ left₂ rfl
  exact ⟨left₂, rfl, _, rfl, rfl, rfl⟩

/-- One name, in no parentheses. -/
lemma importedNames (left : s.words = [(.name, text), (.newline, ""), (.endOfFile, "")]) :
    Takes Parser.importedNames s [(.newline, ""), (.endOfFile, "")] fun names =>
      ∃ a : Alias, names = [a] ∧ a.name = text ∧ a.asname = none := by
  refine skip (k := .symbol .leftParen) left (by simp) ?_
  have names : Takes (Parser.separated .comma (Parser.alias? false)) s
      [(.newline, ""), (.endOfFile, "")] fun names =>
      ∃ a : Alias, names = [a] ∧ a.name = text ∧ a.asname = none := by
    apply (plainAlias left (by simp)).bind
    rintro o s₁ left₁ ⟨a, rfl, name, asname⟩
    have none : Takes (Parser.collect do
        if ← Parser.eatSymbol .comma then Parser.alias? false else return none) s₁
        [(.newline, ""), (.endOfFile, "")] (· = []) :=
      collectNone left₁ (eat_bind_none (k := .symbol .comma) left₁ (by simp) rfl)
    apply none.bind
    rintro others s₂ left₂ rfl
    exact give left₂ ⟨a, rfl, name, asname⟩
  apply names.bind
  rintro names s₁ left₁ ⟨a, rfl, found⟩
  exact give left₁ ⟨a, rfl, found⟩

lemma completeStmtFrom (left : s.words = ws) (start : ℕ) (build : Mark → Stmt) :
    Takes (Parser.completeStmtFrom start build) s ws fun d => ∃ mark, d = build mark :=
  ⟨left, rfl, _, rfl⟩

/-- The statement up to the end of its line. -/
lemma importFromStmt {first symbol : String} {parts : List String}
    (left : s.words = importWords first parts symbol ++ [(.newline, ""), (.endOfFile, "")]) :
    Takes Parser.importFromStmt s [(.newline, ""), (.endOfFile, "")]
      (ImportsName (".".intercalate (first :: parts)) symbol) := by
  have left : s.words = (.keyword .kFrom, "from") :: (.name, first) :: (dotWords parts
      ++ (.keyword .kImport, "import") :: [(.name, symbol), (.newline, ""), (.endOfFile, "")]) := by
    simpa [importWords] using left
  apply (bump left (by simp) (by simp)).bind
  intro word s₁ left₁ _
  have levels : Takes (Parser.collect Parser.levelStep?) s₁ ((.name, first) :: (dotWords parts
      ++ (.keyword .kImport, "import") :: [(.name, symbol), (.newline, ""), (.endOfFile, "")]))
      (· = []) := by
    -- neither a dot nor three of them stand in front of the path
    have noEllipsis : (do if ← Parser.eatSymbol .ellipsis then return some 3 else return none :
        Parser (Option ℕ)).run s₁ = (none, s₁) :=
      eat_bind_none (k := .symbol .ellipsis) left₁ (by simp) rfl
    exact collectNone left₁ (eat_bind_none (k := .symbol .dot) left₁ (by simp) noEllipsis)
  apply levels.bind
  rintro levels s₂ left₂ rfl
  apply (dottedName? left₂ (by simp)).bind
  rintro o s₃ left₃ ⟨start, rfl⟩
  have importWord : Takes (Parser.expectKeyword .kImport) s₃ _ fun _ => True :=
    eat left₃ (by simp) (by simp) fun s' left' => give left' trivial
  apply importWord.bind
  intro _ s₄ left₄ _
  refine skip (k := .symbol .star) left₄ (by simp) ?_
  apply (importedNames left₄).bind
  rintro names s₅ left₅ ⟨a, rfl, name, asname⟩
  apply (completeStmtFrom left₅ _ _).mono
  rintro d ⟨mark, rfl⟩
  exact ⟨mark, a, rfl, name, asname⟩

/-! ## The text -/

variable {rules : Rules} {blocks : Blocks} {first symbol : String} {parts : List String}

/-- The line with its end. -/
lemma simpleStmts
    (left : s.words = importWords first parts symbol ++ [(.newline, ""), (.endOfFile, "")]) :
    Takes (Parser.simpleStmts rules) s [(.endOfFile, "")] fun ds =>
      ∃ d, ds = [d] ∧ ImportsName (".".intercalate (first :: parts)) symbol d := by
  have statement : Takes (Parser.smallStmt rules) s [(.newline, ""), (.endOfFile, "")]
      (ImportsName (".".intercalate (first :: parts)) symbol) := by
    have word : Parser.kind.run s = (.keyword .kFrom, s) :=
      congrArg (·, s) (ParserState.kind_of_words left)
    exact look word (importFromStmt left)
  have fewer : 2 < s.words.length := by
    simp [left, importWords]
  apply (statement.progressing fewer (by simp)).bind
  intro d s₁ left₁ found
  have alone : Takes (Parser.collect do
      if ← Parser.eatSymbol .semicolon then
        if (← Parser.isAt .newline) || (← Parser.isAt .endOfFile) then return none
        else return some (← Parser.progressing (Parser.smallStmt rules))
      else return none) s₁ [(.newline, ""), (.endOfFile, "")] (· = []) :=
    collectNone left₁ (eat_bind_none (k := .symbol .semicolon) left₁ (by simp) rfl)
  apply alone.bind
  rintro others s₂ left₂ rfl
  refine eat left₂ (by simp) (by simp) fun s₃ left₃ => ?_
  exact give left₃ ⟨d, rfl, found⟩

/-- A text of this one line. -/
lemma moduleBody
    (left : s.words = importWords first parts symbol ++ [(.newline, ""), (.endOfFile, "")]) :
    Takes (Parser.moduleBody rules blocks) s [(.endOfFile, "")] fun body =>
      ∃ d, body = [d] ∧ ImportsName (".".intercalate (first :: parts)) symbol d := by
  have word : Parser.kind.run s = (.keyword .kFrom, s) :=
    congrArg (·, s) (ParserState.kind_of_words left)
  have fewer : 1 < s.words.length := by
    simp [left, importWords]
  have line : Takes (Parser.statement rules blocks) s [(.endOfFile, "")] fun ds =>
      ∃ d, ds = [d] ∧ ImportsName (".".intercalate (first :: parts)) symbol d :=
    look word (simpleStmts left)
  have lines : Takes (Parser.moduleStep? rules blocks) s [(.endOfFile, "")] fun o =>
      ∃ ds, o = some ds
        ∧ ∃ d, ds = [d] ∧ ImportsName (".".intercalate (first :: parts)) symbol d := by
    refine look word ((line.progressing fewer (by simp)).bind fun ds s₁ left₁ found => ?_)
    exact give left₁ ⟨ds, rfl, found⟩
  have ended (s' : ParserState) (left' : s'.words = [(.endOfFile, "")]) :
      (Parser.moduleStep? rules blocks).run s' = (none, s') := by
    have run : Parser.kind.run s' = (.endOfFile, s') :=
      congrArg (·, s') (ParserState.kind_of_words left')
    rw [Parser.moduleStep?, StateT.run_bind, run]
    rfl
  apply (collectOne fewer lines ended).bind
  rintro bodies s₁ left₁ ⟨ds, rfl, d, rfl, found⟩
  exact give left₁ ⟨d, rfl, found⟩

end Takes

/-- A text is the import of one name of a module, and nothing is wrong with it. -/
structure ReadsAsImport (text path symbol : String) : Prop where
  valid : (parse text).problems = []
  body : ∃ d, (parse text).module.body = [d] ∧ ImportsName path symbol d

/-- The line is read as the import that it is written as. -/
theorem parse_importLine {lead tail : List Char} (before : IsBreak lead) (behind : IsBreak tail)
    {first symbol text : String} {parts : List String}
    (words : ∀ part ∈ first :: parts, isIdentifier part = true)
    (word : isIdentifier symbol = true)
    (is : text.toList
      = lead ++ (importLine (".".intercalate (first :: parts)) symbol).toList ++ tail) :
    ReadsAsImport text (".".intercalate (first :: parts)) symbol := by
  obtain ⟨clean, same⟩ := lex_importLine before behind words word is
  have left : (ParserState.start text).words
      = importWords first parts symbol ++ [(.newline, ""), (.endOfFile, "")] := by
    rw [ParserState.words, start_tokens, same]
  set size := Text.width text.toList
  set rules := Rules.upTo (2 * size + 8)
  have read : Takes (Parser.moduleBody rules (Blocks.upTo rules (size + 8)))
      (ParserState.start text) [(.endOfFile, "")] fun body =>
      ∃ d, body = [d] ∧ ImportsName (".".intercalate (first :: parts)) symbol d :=
    Takes.moduleBody left
  obtain ⟨-, problems, d, body, found⟩ := read
  constructor
  case valid =>
    show ((lex text).problems ++ (ParserState.final text).problems.reverse).mergeSort _ = []
    rw [clean, problems]
    exact List.mergeSort_nil
  case body => exact ⟨d, body, found⟩

end MethodLift.Syntax
