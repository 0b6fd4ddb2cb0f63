import MethodLift.Proofs.Syntax.Trees

/-!
# Reading keeps to the text

Every step of reading a tree keeps an invariant of the state, `ParserState.Sound`: the tokens that
are left stand in the text one behind the other, the last token taken ended at a cut, and all that
was noted or set aside stands in the text.  It also never goes back.  `Reads` says both of a step,
together with what the step's result is known to be.

A step that is put together of others is dealt with by `Reads.bind`, one step after the other, so
that the proofs about the grammar follow the text of its definitions.  Looking at a token changes
nothing (`Reads.look`).  Loops have one lemma each.

Two kinds of results occur again and again.  Most steps give something that stands in the text
(`Gives`).  Steps that give an expression are known to do more (`ReadsExpr`): the expression starts
between where the step started and where it ended, and if it is a call without arguments, it ends
where the last token ended.  The first makes the ends of larger nodes come out in order, the second
survives the parentheses that are put around a call.
-/

namespace MethodLift.Syntax

open Text (Boundary)

variable {source : List Char} {α β : Type}

/-! ## The invariant -/

/-- What holds of the state while a text is read. -/
structure ParserState.Sound (source : List Char) (s : ParserState) : Prop where
  text : s.source = source
  tokens : TokensPlaced source (s.current :: s.later)
  lastEnd : Boundary source s.lastEnd
  problems : ∀ p ∈ s.problems, Text.Placed source p.span
  unused : ∀ e ∈ s.unused, e.Placed source

/-- Where the current token starts. -/
abbrev ParserState.position (s : ParserState) : ℕ := s.current.span.start

lemma ParserState.Sound.current {s : ParserState} (h : s.Sound source) :
    s.current.Placed source := h.tokens.each _ List.mem_cons_self

/-- Reading came from one state to another one. -/
structure Moves (source : List Char) (s s' : ParserState) : Prop where
  sound : s'.Sound source
  forward : s.position ≤ s'.position

lemma Moves.trans {s s' s'' : ParserState} (h : Moves source s s') (h' : Moves source s' s'') :
    Moves source s s'' := ⟨h'.sound, Nat.le_trans h.forward h'.forward⟩

lemma ParserState.Sound.moves {s : ParserState} (h : s.Sound source) : Moves source s s :=
  ⟨h, Nat.le_refl _⟩

/-- From the state `s`, a step gives a result and a state as described.  The state may be anywhere
in the text. -/
def Ends (p : Parser α) (s : ParserState) (post : α → ParserState → Prop) : Prop :=
  post (p.run s).1 (p.run s).2

/-- A step that only looks leaves the state as it is. -/
lemma Ends.look {p : Parser α} {f : α → Parser β} {s : ParserState}
    {post : β → ParserState → Prop} (same : (p.run s).2 = s) (h : Ends (f (p.run s).1) s post) :
    Ends (p >>= f) s post := by
  have run : (p >>= f).run s = (f (p.run s).1).run (p.run s).2 := rfl
  rw [same] at run
  unfold Ends
  rw [run]
  exact h

/-- From the state `s`, a step keeps the invariant, does not go back, and gives a result and a state
as described. -/
def Reads (source : List Char) (p : Parser α) (s : ParserState)
    (post : α → ParserState → Prop) : Prop :=
  Ends p s fun a s' => Moves source s s' ∧ post a s'

namespace Reads

variable {p : Parser α} {f : α → Parser β} {s : ParserState} {post : α → ParserState → Prop}
  {post' : β → ParserState → Prop}

lemma pure {a : α} (h : s.Sound source) (hp : post a s) : Reads source (Pure.pure a) s post :=
  ⟨h.moves, hp⟩

/-- One step after the other. -/
theorem bind (first : Reads source p s post)
    (second : ∀ a s', Moves source s s' → post a s' → Reads source (f a) s' post') :
    Reads source (p >>= f) s post' := by
  obtain ⟨moved, result⟩ := first
  obtain ⟨moved', result'⟩ := second _ _ moved result
  exact ⟨moved.trans moved', result'⟩

/-- A step that only looks leaves the state as it is. -/
lemma look (same : (p.run s).2 = s) (h : Reads source (f (p.run s).1) s post') :
    Reads source (p >>= f) s post' := Ends.look same h

lemma map {g : α → β} (h : Reads source p s fun a s' => post' (g a) s') :
    Reads source (g <$> p) s post' := h

lemma mono (h : Reads source p s post) {weaker : α → ParserState → Prop}
    (le : ∀ a s', Moves source s s' → post a s' → weaker a s') : Reads source p s weaker :=
  ⟨h.1, le _ _ h.1 h.2⟩

end Reads

/-- Reading, and then a step that may go back. -/
lemma Reads.ends {p : Parser α} {f : α → Parser β} {s : ParserState}
    {post : α → ParserState → Prop} {post' : β → ParserState → Prop} (h : Reads source p s post)
    (rest : ∀ a s', s'.Sound source → post a s' → Ends (f a) s' post') :
    Ends (p >>= f) s post' := rest _ _ h.1.sound h.2

/-- Reading that goes on somewhere else and comes back. -/
lemma Reads.elsewhere {f : Unit → Parser β} {s inner : ParserState}
    {post : β → ParserState → Prop}
    (h : Ends (f ()) inner fun b s' => Moves source s s' ∧ post b s') :
    Reads source (set inner >>= f) s post := h

/-! ## Results -/

/-- From everywhere, a step gives something with a property. -/
def Gives (source : List Char) (p : Parser α) (P : α → Prop) : Prop :=
  ∀ s : ParserState, s.Sound source → Reads source p s fun a _ => P a

lemma Gives.some {p : Parser α} {P : α → Prop} (h : Gives source p P) :
    Gives source (Option.some <$> p) fun o => ∀ a ∈ o, P a := by
  intro s hs
  refine Reads.map ((h s hs).mono ?_)
  rintro a s' - found _ ⟨⟩
  exact found

lemma Gives.none {P : α → Prop} :
    Gives source (Pure.pure Option.none : Parser (Option α)) fun o => ∀ a ∈ o, P a :=
  fun _ hs => .pure hs nofun

/-- One of two steps, and then the same step after either. -/
lemma Reads.choice {c : Prop} [Decidable c] {p q : Parser α} {f : α → Parser β} {s : ParserState}
    {P : α → Prop} {post : β → ParserState → Prop} (hs : s.Sound source) (hp : Gives source p P)
    (hq : Gives source q P)
    (rest : ∀ a s', Moves source s s' → P a → Reads source (f a) s' post) :
    Reads source (if c then p >>= f else q >>= f) s post := by
  split
  · exact (hp s hs).bind rest
  · exact (hq s hs).bind rest

/-- A step that is taken or not, and then the same step after either. -/
lemma Reads.optional {c : Prop} [Decidable c] {p : Parser α} {q : Parser β} {s : ParserState}
    {P : α → Prop} {post : β → ParserState → Prop} (hs : s.Sound source) (hp : Gives source p P)
    (rest : ∀ s', Moves source s s' → Reads source q s' post) :
    Reads source (if c then p >>= fun _ => q else q) s post := by
  split
  · exact (hp s hs).bind fun _ s' moved _ => rest s' moved
  · exact rest s hs.moves

/-- Something found, as a step that may find nothing gives it. -/
lemma Reads.pure_some {s : ParserState} {a : α} {P : α → Prop} (hs : s.Sound source) (ha : P a) :
    Reads source (Pure.pure (Option.some a)) s fun o _ => ∀ a ∈ o, P a := by
  refine .pure hs ?_
  rintro _ ⟨⟩
  exact ha

/-- An expression that was read between two states. -/
structure ExprRead (source : List Char) (s : ParserState) (e : Expr) (s' : ParserState) :
    Prop where
  placed : e.Placed source
  lower : s.position ≤ e.span.start
  upper : e.span.start ≤ s'.position
  closing : e.isBareCall = true → s'.lastEnd = e.span.stop

/-- From everywhere, a step reads an expression. -/
def ReadsExpr (source : List Char) (p : Parser Expr) : Prop :=
  ∀ s : ParserState, s.Sound source → Reads source p s (ExprRead source s)

lemma ReadsExpr.gives {p : Parser Expr} (h : ReadsExpr source p) :
    Gives source p (Expr.Placed source) := fun s hs => (h s hs).mono fun _ _ _ read => read.placed

namespace Parser

variable {s : ParserState}

/-! ## Taking tokens -/

lemma advance_sound (h : s.Sound source) : (advance s).Sound source := by
  unfold advance
  split
  · exact h
  refine ⟨h.text, ?_, ?_, h.problems, h.unused⟩
  · cases later : s.later with
    | nil =>
      refine ⟨List.forall_mem_singleton.2 ?_, List.pairwise_singleton _ _⟩
      exact .layout (.point h.current.span.stop) nofun
    | cons t ts =>
      have tokens := h.tokens
      rw [later] at tokens
      exact ⟨(List.forall_mem_cons.1 tokens.each).2, (List.pairwise_cons.1 tokens.apart).2⟩
  · dsimp only
    split
    · exact h.lastEnd
    · exact h.current.span.stop

/-- The next token starts no earlier than the current one ends. -/
lemma stop_le_advance (h : s.Sound source) (more : s.current.kind ≠ .endOfFile) :
    s.current.span.stop ≤ (advance s).position := by
  have some : (s.current.kind == .endOfFile) = false := by simpa using more
  rw [advance, some, if_neg Bool.false_ne_true]
  cases later : s.later with
  | nil => exact Nat.le_refl _
  | cons t ts =>
    have apart := h.tokens.apart
    rw [later] at apart
    exact (List.pairwise_cons.1 apart).1 t List.mem_cons_self

lemma advance_moves (h : s.Sound source) : Moves source s (advance s) := by
  refine ⟨advance_sound h, ?_⟩
  by_cases more : s.current.kind = .endOfFile
  · rw [advance, more]
    exact Nat.le_refl _
  · exact Nat.le_trans h.current.span.forward (stop_le_advance h more)

lemma advance_lastEnd (more : s.current.kind ≠ .endOfFile)
    (word : s.current.kind.isLayout = false) : (advance s).lastEnd = s.current.span.stop := by
  have some : (s.current.kind == .endOfFile) = false := by simpa using more
  rw [advance, some, if_neg Bool.false_ne_true, word]
  rfl

lemma bump_reads (h : s.Sound source) :
    Reads source bump s fun t s' => t = s.current ∧ s' = advance s :=
  ⟨advance_moves h, rfl, rfl⟩

lemma bump_gives : Gives source bump (Token.Placed source) := by
  intro s h
  refine (bump_reads h).mono ?_
  rintro _ _ - ⟨rfl, -⟩
  exact h.current

/-- A token that is not there leaves everything as it is. -/
lemma eat?_reads (h : s.Sound source) (k : TokenKind) :
    Reads source (eat? k) s fun t? s' => (t? = none → s' = s)
      ∧ ∀ t ∈ t?, t = s.current ∧ t.kind = k ∧ s' = advance s := by
  refine .look rfl ?_
  split
  next there =>
    have kind : s.current.kind = k := eq_of_beq there
    refine (bump_reads h).bind ?_
    rintro t s' moved ⟨rfl, rfl⟩
    refine .pure moved.sound ⟨nofun, ?_⟩
    rintro _ ⟨⟩
    exact ⟨rfl, kind, rfl⟩
  · exact .pure h ⟨fun _ => rfl, nofun⟩

/-- A token that is not there leaves everything as it is. -/
lemma eat_reads (h : s.Sound source) (k : TokenKind) :
    Reads source (eat k) s fun there s' => (there = false → s' = s)
      ∧ (there = true → s.current.kind = k ∧ s' = advance s) := by
  refine (eat?_reads h k).bind ?_
  intro t? s' moved taken
  refine .pure moved.sound ?_
  cases t? with
  | none => exact ⟨fun _ => taken.1 rfl, nofun⟩
  | some t =>
    obtain ⟨rfl, kind, rfl⟩ := taken.2 t rfl
    exact ⟨nofun, fun _ => ⟨kind, rfl⟩⟩

lemma eat_gives (k : TokenKind) : Gives source (eat k) fun _ => True :=
  fun _ h => (eat_reads h k).mono fun _ _ _ _ => trivial

/-- What follows a token, if the token is there. -/
lemma afterEaten_gives {α : Type} {P : α → Prop} {k : TokenKind} {step : Parser α}
    (h : Gives source step P) :
    Gives source (do if ← eat k then return some (← step) else return none : Parser (Option α))
      fun o => ∀ a ∈ o, P a := by
  intro s hs
  refine (eat_gives k s hs).bind ?_
  intro there s' moved _
  split
  · refine (h s' moved.sound).bind ?_
    intro a s'' moved' found
    exact .pure_some moved'.sound found
  · exact .pure moved.sound nofun

/-- A name is written where its token stands. -/
lemma ident_placed {t : Token} (h : t.Placed source) : Ident.Placed source ⟨t.text, t.span⟩ :=
  ⟨h.span, h.text⟩

lemma name?_gives : Gives source name? fun o => ∀ i ∈ o, i.Placed source := by
  intro s h
  refine (eat?_reads h .name).bind ?_
  intro t? s' moved taken
  refine .pure moved.sound ?_
  intro i hi
  obtain ⟨t, ht, rfl⟩ := Option.map_eq_some_iff.1 hi
  obtain ⟨rfl, -, -⟩ := taken.2 t ht
  exact ident_placed h.current

/-! ## Noting problems -/

lemma noteAt_reads (h : s.Sound source) {span : Span} (cause : Problem.Cause)
    (placed : Text.Placed source span) :
    Reads source (noteAt cause span) s fun _ s' => s'.current = s.current
      ∧ s'.lastEnd = s.lastEnd :=
  ⟨⟨⟨h.text, h.tokens, h.lastEnd, List.forall_mem_cons.2 ⟨placed, h.problems⟩, h.unused⟩,
    Nat.le_refl _⟩, rfl, rfl⟩

lemma note_reads (h : s.Sound source) (cause : Problem.Cause) :
    Reads source (note cause) s fun _ s' => s'.current = s.current ∧ s'.lastEnd = s.lastEnd :=
  noteAt_reads h cause h.current.span

lemma note_gives (cause : Problem.Cause) : Gives source (note cause) fun _ => True :=
  fun _ h => (note_reads h cause).mono fun _ _ _ _ => trivial

/-- A symbol that has to be there: if it is, it is taken, and else nothing is. -/
lemma expectSymbol_reads (h : s.Sound source) (symbol : Symbol) :
    Reads source (expectSymbol symbol) s fun _ s' =>
      (s.current.kind = .symbol symbol ∧ s' = advance s) ∨ s'.lastEnd = s.lastEnd := by
  refine (eat_reads h (.symbol symbol)).bind ?_
  intro there s' moved taken
  split
  next yes => exact .pure moved.sound (.inl (taken.2 yes))
  next no =>
    obtain rfl := taken.1 (by simpa using no)
    refine (note_reads h _).bind ?_
    intro _ s' moved kept
    exact .pure moved.sound (.inr kept.2)

lemma expectSymbol_gives (symbol : Symbol) : Gives source (expectSymbol symbol) fun _ => True :=
  fun _ h => (expectSymbol_reads h symbol).mono fun _ _ _ _ => trivial

lemma expectKeyword_gives (word : Keyword) : Gives source (expectKeyword word) fun _ => True := by
  intro s h
  refine (eat_gives (.keyword word) s h).bind ?_
  intro there s' moved _
  split
  · exact .pure moved.sound trivial
  · exact (note_reads moved.sound _).mono fun _ _ _ _ => trivial

lemma nameOrMissing_gives : Gives source nameOrMissing (Ident.Placed source) := by
  intro s h
  refine (name?_gives s h).bind ?_
  intro name s' moved placed
  split
  · exact .pure moved.sound (placed _ rfl)
  · refine (note_reads moved.sound _).bind ?_
    intro _ s' moved _
    exact .look rfl (.pure moved.sound ⟨.point moved.sound.current.span.start, .inl rfl⟩)

lemma skipLineAtMost_gives (n : ℕ) : Gives source (skipLineAtMost n) fun _ => True := by
  induction n with
  | zero => exact fun s h => .pure h trivial
  | succ n ih =>
    intro s h
    refine .look rfl (.look rfl ?_)
    split
    · exact .pure h trivial
    · refine (bump_reads h).bind ?_
      intro _ s' moved _
      exact ih s' moved.sound

lemma skipLine_gives : Gives source skipLine fun _ => True :=
  fun s h => .look rfl (skipLineAtMost_gives _ s h)

/-! ## Loops -/

section Loops

variable {P : α → Prop}

lemma collectAtMost_gives {step : Parser (Option α)}
    (h : Gives source step fun o => ∀ a ∈ o, P a) (n : ℕ) :
    Gives source (collectAtMost step n) fun as => ∀ a ∈ as, P a := by
  induction n with
  | zero => exact fun s hs => .pure hs nofun
  | succ n ih =>
    intro s hs
    refine (h s hs).bind ?_
    intro o s' moved found
    cases o with
    | none => exact .pure moved.sound nofun
    | some a =>
      refine (ih s' moved.sound).bind ?_
      intro as s' moved later
      exact .pure moved.sound (List.forall_mem_cons.2 ⟨found a rfl, later⟩)

/-- A loop whose first step gives nothing leaves the state as it is, if such a step does. -/
lemma collect_reads {step : Parser (Option α)} (hs : s.Sound source)
    (h : ∀ s, s.Sound source → Reads source step s fun o s' =>
      (∀ a ∈ o, P a) ∧ (o = none → s' = s)) :
    Reads source (collect step) s fun as s' => (∀ a ∈ as, P a) ∧ (as = [] → s' = s) := by
  have gives : Gives source step fun o => ∀ a ∈ o, P a :=
    fun s hs => (h s hs).mono fun _ _ _ found => found.1
  refine .look rfl ((h s hs).bind ?_)
  rintro o s' moved ⟨found, same⟩
  cases o with
  | none => exact .pure moved.sound ⟨nofun, fun _ => same rfl⟩
  | some a =>
    refine (collectAtMost_gives gives _ s' moved.sound).bind ?_
    intro as s' moved later
    exact .pure moved.sound ⟨List.forall_mem_cons.2 ⟨found a rfl, later⟩, nofun⟩

lemma collect_gives {step : Parser (Option α)} (h : Gives source step fun o => ∀ a ∈ o, P a) :
    Gives source (collect step) fun as => ∀ a ∈ as, P a :=
  fun s hs => .look rfl (collectAtMost_gives h _ s hs)

/-- Where there is no first thing, there is no other one either. -/
lemma separated_reads {separator : Symbol} {item : Parser (Option α)}
    (h : Gives source item fun o => ∀ a ∈ o, P a) (hs : s.Sound source) :
    Reads source (separated separator item) s fun as s' => (∀ a ∈ as, P a)
      ∧ (as = [] → s' = (item.run s).2 ∧ (item.run s).1 = none) := by
  have step : Gives source
      (do if ← eatSymbol separator then item else return none : Parser (Option α))
      fun o => ∀ a ∈ o, P a := by
    intro s hs
    refine (eat_gives _ s hs).bind ?_
    intro there s' moved _
    split
    · exact h s' moved.sound
    · exact .pure moved.sound nofun
  have first : Reads source item s fun o s' => (∀ a ∈ o, P a)
      ∧ s' = (item.run s).2 ∧ (item.run s).1 = o := ⟨(h s hs).1, (h s hs).2, rfl, rfl⟩
  refine first.bind ?_
  rintro o s' moved ⟨found, state, result⟩
  cases o with
  | none => exact .pure moved.sound ⟨nofun, fun _ => ⟨state, result⟩⟩
  | some a =>
    refine (collect_gives step s' moved.sound).bind ?_
    intro others s' moved later
    exact .pure moved.sound ⟨List.forall_mem_cons.2 ⟨found a rfl, later⟩, nofun⟩

lemma separated_gives {separator : Symbol} {item : Parser (Option α)}
    (h : Gives source item fun o => ∀ a ∈ o, P a) :
    Gives source (separated separator item) fun as => ∀ a ∈ as, P a :=
  fun _ hs => (separated_reads h hs).mono fun _ _ _ found => found.1

lemma elementsAtMost_gives {close : Symbol} {item : Parser α} (h : Gives source item P) (n : ℕ) :
    Gives source (elementsAtMost close item n) fun as => ∀ a ∈ as, P a := by
  induction n with
  | zero => exact fun s hs => .pure hs nofun
  | succ n ih =>
    intro s hs
    refine (eat_gives _ s hs).bind ?_
    intro there s' moved _
    split
    · exact .pure moved.sound nofun
    refine .look rfl ?_
    split
    · exact .pure moved.sound nofun
    refine .look rfl ((h s' moved.sound).bind ?_)
    intro a s' moved found
    refine .look rfl ?_
    split
    · exact .pure moved.sound (List.forall_mem_singleton.2 found)
    refine (ih s' moved.sound).bind ?_
    intro as s' moved later
    exact .pure moved.sound (List.forall_mem_cons.2 ⟨found, later⟩)

lemma elements_gives {close : Symbol} {item : Parser α} (h : Gives source item P) :
    Gives source (elements close item) fun as => ∀ a ∈ as, P a :=
  fun s hs => .look rfl (elementsAtMost_gives h _ s hs)

/-- Extending a value keeps what is known of a value and the state after it, if each extension does
and a step that gives none leaves the state as it is. -/
lemma extendAtMost_reads {step : α → Parser (Option α)} {post : α → ParserState → Prop}
    (h : ∀ a s, s.Sound source → post a s → Reads source (step a) s fun o s' =>
      (o = none → s' = s) ∧ ∀ b ∈ o, post b s') (n : ℕ) {a : α} (hs : s.Sound source)
    (hp : post a s) : Reads source (extendAtMost step n a) s post := by
  induction n generalizing a s with
  | zero => exact .pure hs hp
  | succ n ih =>
    refine (h a s hs hp).bind ?_
    rintro o s' moved ⟨same, found⟩
    cases o with
    | none =>
      obtain rfl := same rfl
      exact .pure hs hp
    | some b => exact ih moved.sound (found b rfl)

lemma extend_reads {step : α → Parser (Option α)} {post : α → ParserState → Prop}
    (h : ∀ a s, s.Sound source → post a s → Reads source (step a) s fun o s' =>
      (o = none → s' = s) ∧ ∀ b ∈ o, post b s') {a : α} (hs : s.Sound source)
    (hp : post a s) : Reads source (extend step a) s post :=
  .look rfl (extendAtMost_reads h _ hs hp)

/-- How deep reading is nested does not matter for where things stand. -/
lemma nested_reads {p : Parser α} {post : α → ParserState → Prop}
    (h : ∀ depth, Reads source p { s with depth } post)
    (depth : ∀ a s' d, post a s' → post a { s' with depth := d }) :
    Reads source (nested p) s post := by
  obtain ⟨moved, result⟩ := h (s.depth + 1)
  have sound := moved.sound
  exact ⟨⟨⟨sound.text, sound.tokens, sound.lastEnd, sound.problems, sound.unused⟩, moved.forward⟩,
    depth _ _ _ result⟩

lemma Sound.withDepth (h : s.Sound source) (depth : ℕ) :
    ParserState.Sound source { s with depth } :=
  ⟨h.text, h.tokens, h.lastEnd, h.problems, h.unused⟩

lemma nested_gives {p : Parser α} (h : Gives source p P) : Gives source (nested p) P :=
  fun _ hs => nested_reads (fun depth => h _ (Sound.withDepth hs depth)) fun _ _ _ hp => hp

lemma nested_readsExpr {p : Parser Expr} (h : ReadsExpr source p) :
    ReadsExpr source (nested p) := by
  intro s hs
  refine nested_reads (fun depth => ?_) fun _ _ _ read => ⟨read.placed, read.lower, read.upper,
    read.closing⟩
  exact (h _ (Sound.withDepth hs depth)).mono fun _ _ _ read =>
    ⟨read.placed, read.lower, read.upper, read.closing⟩

/-- A step for each thing of a list. -/
lemma mapM_gives {f : β → Parser α} {xs : List β} (h : ∀ x ∈ xs, Gives source (f x) P) :
    Gives source (xs.mapM f) fun as => ∀ a ∈ as, P a := by
  induction xs with
  | nil =>
    intro s hs
    rw [List.mapM_nil]
    exact .pure hs nofun
  | cons x xs ih =>
    intro s hs
    rw [List.mapM_cons]
    refine (h x List.mem_cons_self s hs).bind ?_
    intro a s' moved found
    refine (ih (fun y hy => h y (List.mem_cons_of_mem _ hy)) s' moved.sound).bind ?_
    intro as s' moved later
    exact .pure moved.sound (List.forall_mem_cons.2 ⟨found, later⟩)

lemma filterMapM_gives {f : β → Parser (Option α)} {xs : List β}
    (h : ∀ x ∈ xs, Gives source (f x) fun o => ∀ a ∈ o, P a) :
    Gives source (xs.filterMapM f) fun as => ∀ a ∈ as, P a := by
  induction xs with
  | nil =>
    intro s hs
    rw [List.filterMapM_nil]
    exact .pure hs nofun
  | cons x xs ih =>
    intro s hs
    rw [List.filterMapM_cons]
    refine (h x List.mem_cons_self s hs).bind ?_
    intro o s' moved found
    have later := ih (fun y hy => h y (List.mem_cons_of_mem _ hy)) s' moved.sound
    cases o with
    | none => exact later
    | some a =>
      refine later.bind ?_
      intro as s' moved later
      exact .pure moved.sound (List.forall_mem_cons.2 ⟨found a rfl, later⟩)

end Loops

/-! ## Completing nodes -/

lemma spanFrom_placed (h : s.Sound source) {start : ℕ} (boundary : Boundary source start) :
    Text.Placed source ⟨start, max s.lastEnd start⟩ :=
  ⟨boundary, h.lastEnd.max boundary, Nat.le_max_right _ _⟩

/-- A node of an expression other than a call is built from parts that stand in the text. -/
def Builds (source : List Char) (build : Mark → Expr) : Prop :=
  ∀ m, (build m).mark = m ∧ (build m).Inside source ∧ (build m).isBareCall = false

lemma complete_reads {s₀ : ParserState} (h : s.Sound source) {span : Span}
    (placed : Text.Placed source span) (lower : s₀.position ≤ span.start)
    (upper : span.start ≤ s.position) {build : Mark → Expr} (builds : Builds source build) :
    Reads source (complete span build) s (ExprRead source s₀) := by
  set m : Mark := ⟨s.exprCount, span⟩ with hm
  obtain ⟨mark, inside, noCall⟩ := builds m
  have at_ : (build m).span = span := by rw [Expr.span, mark]
  refine ⟨⟨⟨h.text, h.tokens, h.lastEnd, h.problems, h.unused⟩, Nat.le_refl _⟩, ?_⟩
  show ExprRead source s₀ (build m) _
  refine ⟨inside.placed (at_ ▸ placed) ?_, at_ ▸ lower, at_ ▸ upper, ?_⟩
  · rw [noCall]
    exact fun is => absurd is Bool.false_ne_true
  · rw [noCall]
    exact fun is => absurd is Bool.false_ne_true

/-- An expression that starts with the token that was looked at first. -/
lemma completeFromToken_reads {s' : ParserState} (h : s.Sound source) (moved : Moves source s s')
    {build : Mark → Expr} (builds : Builds source build) :
    Reads source (completeFrom s.current.span.start build) s' (ExprRead source s) :=
  .look rfl (complete_reads moved.sound (spanFrom_placed moved.sound h.current.span.start)
    (Nat.le_refl _) moved.forward builds)

/-- An expression that starts with another one. -/
lemma completeFromExpr_reads {s₁ s₂ : ParserState} {first : Expr}
    (read : ExprRead source s first s₁) (moved : Moves source s₁ s₂) {build : Mark → Expr}
    (builds : Builds source build) :
    Reads source (completeFrom first.span.start build) s₂ (ExprRead source s) :=
  .look rfl (complete_reads moved.sound (spanFrom_placed moved.sound read.placed.span.start)
    read.lower (Nat.le_trans read.upper moved.forward) builds)

/-- A node of a statement is built from parts and statements that stand in the text. -/
def BuildsStmt (source : List Char) (build : Mark → Stmt) : Prop :=
  ∀ m, (build m).mark = m ∧ (build m).Inside source ∧ ∀ c ∈ (build m).children, c.Placed source

lemma completeStmt_reads (h : s.Sound source) {span : Span} (placed : Text.Placed source span)
    {build : Mark → Stmt} (builds : BuildsStmt source build) :
    Reads source (completeStmt span build) s fun stmt _ => stmt.Placed source := by
  set m : Mark := ⟨s.stmtCount, span⟩ with hm
  obtain ⟨mark, inside, children⟩ := builds m
  have at_ : (build m).span = span := by rw [Stmt.span, mark]
  refine ⟨⟨⟨h.text, h.tokens, h.lastEnd, h.problems, h.unused⟩, Nat.le_refl _⟩, ?_⟩
  show (build m).Placed source
  exact .node ⟨inside, at_ ▸ placed⟩ children

lemma completeStmtFrom_reads (h : s.Sound source) {start : ℕ} (boundary : Boundary source start)
    {build : Mark → Stmt} (builds : BuildsStmt source build) :
    Reads source (completeStmtFrom start build) s fun stmt _ => stmt.Placed source :=
  .look rfl (completeStmt_reads h (spanFrom_placed h boundary) builds)

lemma discard_gives {es : List Expr} (placed : ∀ e ∈ es, e.Placed source) :
    Gives source (discard es) fun _ => True := by
  intro s h
  refine ⟨⟨⟨h.text, h.tokens, h.lastEnd, h.problems, ?_⟩, Nat.le_refl _⟩, trivial⟩
  refine List.forall_mem_append.2 ⟨?_, h.unused⟩
  intro e he
  exact placed e (List.mem_reverse.1 he)

/-! ## Targets -/

lemma noteAll_reads {cause : Problem.Cause} {spans : List Span} (h : s.Sound source)
    (placed : ∀ span ∈ spans, Text.Placed source span) :
    Reads source (spans.forM (noteAt cause ·)) s fun _ s' => s'.current = s.current
      ∧ s'.lastEnd = s.lastEnd := by
  induction spans generalizing s with
  | nil => exact .pure h ⟨rfl, rfl⟩
  | cons span spans ih =>
    rw [List.forM_eq_forM, List.forM_cons]
    refine (noteAt_reads h cause (placed span List.mem_cons_self)).bind ?_
    rintro _ s' moved ⟨current, lastEnd⟩
    refine (ih moved.sound fun x hx => placed x (List.mem_cons_of_mem _ hx)).mono ?_
    rintro _ s'' - ⟨current', lastEnd'⟩
    exact ⟨current'.trans current, lastEnd'.trans lastEnd⟩

/-- A target stands where the expression stood. -/
lemma target_reads {ctx : Context} {e : Expr} (h : s.Sound source) (placed : e.Placed source) :
    Reads source (target ctx e) s fun t s' => t.Placed source ∧ t.span = e.span
      ∧ s'.current = s.current := by
  refine (noteAll_reads h placed.untargetable).bind ?_
  rintro _ s' moved ⟨current, -⟩
  exact .pure moved.sound ⟨placed.retarget, Expr.span_retarget ctx e, current⟩

lemma target_gives {ctx : Context} {e : Expr} (placed : e.Placed source) :
    Gives source (target ctx e) (Expr.Placed source) :=
  fun _ h => (target_reads h placed).mono fun _ _ _ done => done.1

end Parser

end MethodLift.Syntax
