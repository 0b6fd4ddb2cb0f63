import MethodLift.Proofs.Syntax.SpelledStatements

/-!
# How deep brackets are nested

Reading counts how deep it is nested and gives up at a limit, but it counts at expressions only, and
not everything in brackets is one.  A bracket is guarded as long as no star and no `for` has come in
it.  What is read while there is no problem keeps the number of guarded brackets within the limit:
`Nests` says so of a step that leaves the brackets as they were, `Closes` of one that closes the
innermost bracket.

How many guarded brackets there may be already depends on where a step is used (`Room`).  In brackets
their number may be one more than the nesting that was counted, because the bracket was just taken
and the expression in it has not begun.  Among operators it is at most the nesting.  Where brackets
can open it is also below the limit.
-/

namespace MethodLift.Syntax

open Syntax.Parser (maxNesting)

/-! ## Brackets that are open -/

namespace TokenKind

/-- Whether a token opens a bracket. -/
def opens : TokenKind → Bool
  | .symbol s => s.opens
  | _ => false

/-- Whether a token closes a bracket. -/
def closes : TokenKind → Bool
  | .symbol s => s.closes
  | _ => false

/-- Whether a token is a bracket. -/
def isBracket (k : TokenKind) : Bool := k.opens || k.closes

/-- Whether what follows a token in its brackets may be no expression: the operand of a star, or a
clause of a comprehension. -/
def loosens : TokenKind → Bool
  | .symbol .star | .symbol .doubleStar | .keyword .kFor => true
  | _ => false

end TokenKind

/-- The brackets that are open, the innermost first: whether they are guarded. -/
abbrev Brackets := List Bool

namespace Brackets

/-- The innermost bracket is guarded no more. -/
def loosen : Brackets → Brackets
  | [] => []
  | _ :: outer => false :: outer

/-- The brackets that are open behind a token. -/
def behind (b : Brackets) (kind : TokenKind) : Brackets :=
  if kind.opens then true :: b else if kind.closes then b.tail
  else if kind.loosens then b.loosen else b

/-- The brackets that are open behind some tokens. -/
def past (b : Brackets) (ts : List Token) : Brackets := ts.foldl (fun b t => b.behind t.kind) b

/-- How many of them are guarded. -/
def guarded (b : Brackets) : ℕ := b.count true

variable {b c d : Brackets} {ts us : List Token}

lemma past_append (b : Brackets) (ts us : List Token) : b.past (ts ++ us) = (b.past ts).past us :=
  List.foldl_append

lemma tail_loosen (b : Brackets) : b.loosen.tail = b.tail := by cases b <;> rfl

lemma loosen_loosen (b : Brackets) : b.loosen.loosen = b.loosen := by cases b <;> rfl

lemma guarded_cons (g : Bool) (b : Brackets) : guarded (g :: b) ≤ b.guarded + 1 := by
  cases g <;> simp [guarded]

lemma guarded_tail_le (b : Brackets) : guarded b.tail ≤ b.guarded :=
  (List.tail_sublist b).count_le true

lemma guarded_loosen (b : Brackets) : b.loosen.guarded = guarded b.tail := by
  cases b <;> rfl

/-- The same brackets, of which the innermost may be guarded no more. -/
def Below (c b : Brackets) : Prop := c = b ∨ c = b.loosen

lemma Below.refl (b : Brackets) : b.Below b := .inl rfl

lemma Below.trans (h : d.Below c) (h' : c.Below b) : d.Below b := by
  rcases h' with rfl | rfl
  · exact h
  · rw [Below, loosen_loosen, or_self] at h
    exact .inr h

lemma Below.tail (h : c.Below b) : c.tail = b.tail := by
  rcases h with rfl | rfl
  · rfl
  · exact tail_loosen b

lemma Below.guarded_le (h : c.Below b) : c.guarded ≤ b.guarded := by
  rcases h with rfl | rfl
  · exact Nat.le_refl _
  · exact guarded_loosen b ▸ guarded_tail_le b

lemma below_nil : c.Below [] ↔ c = [] := or_self_iff

/-- Tokens lead from some brackets to others, and on the way there are never too many that are
guarded. -/
structure Leads (b : Brackets) (ts : List Token) (c : Brackets) : Prop where
  below : (b.past ts).Below c
  bounded : ∀ front, front <+: ts → (b.past front).guarded ≤ maxNesting

lemma Leads.nothing (bounded : b.guarded ≤ maxNesting) : b.Leads [] b := by
  refine ⟨.refl b, fun front is => ?_⟩
  obtain rfl := List.prefix_nil.1 is
  exact bounded

lemma Leads.token {t : Token} (before : b.guarded ≤ maxNesting)
    (behind : (b.behind t.kind).guarded ≤ maxNesting) : b.Leads [t] (b.behind t.kind) := by
  refine ⟨.refl _, fun front is => ?_⟩
  rcases List.prefix_cons_iff.1 is with rfl | ⟨rest, rfl, within⟩
  · exact before
  · obtain rfl := List.prefix_nil.1 within
    exact behind

/-- Tokens behind others. -/
lemma Leads.append (h : b.Leads ts c) (h' : (b.past ts).Leads us d) : b.Leads (ts ++ us) d := by
  refine ⟨past_append b ts us ▸ h'.below, fun front is => ?_⟩
  rcases List.prefix_or_prefix_of_prefix is (List.prefix_append ts us) with is' | ⟨rest, rfl⟩
  · exact h.bounded front is'
  · rw [past_append]
    exact h'.bounded rest ((List.prefix_append_right_inj ts).1 is)

end Brackets

/-! ## Room for brackets -/

/-- What is known of the brackets that are open where a step is used. -/
inductive Room
  /-- In brackets that were just taken: they may be one more than the nesting. -/
  | inside
  /-- Among operators. -/
  | operand
  /-- Where a bracket can open. -/
  | primary
  /-- Outside of brackets. -/
  | top

/-- The brackets that a room has space for, at a depth of nesting. -/
def Room.Fits : Room → Brackets → ℕ → Prop
  | inside, b, depth => Brackets.guarded b.tail ≤ depth ∧ b.guarded ≤ maxNesting
  | operand, b, depth => b.guarded ≤ depth ∧ b.guarded ≤ maxNesting
  | primary, b, depth => b.guarded ≤ depth ∧ b.guarded < maxNesting
  | top, b, _ => b = []

namespace Room

variable {r : Room} {b c : Brackets} {depth : ℕ}

lemma Fits.below (h : r.Fits b depth) (le : c.Below b) : r.Fits c depth := by
  have fewer := le.guarded_le
  cases r with
  | inside => exact ⟨le.tail ▸ h.1, fewer.trans h.2⟩
  | operand => exact ⟨fewer.trans h.1, fewer.trans h.2⟩
  | primary => exact ⟨fewer.trans h.1, fewer.trans_lt h.2⟩
  | top =>
    obtain rfl : b = [] := h
    exact Brackets.below_nil.1 le

lemma Fits.bounded (h : r.Fits b depth) : b.guarded ≤ maxNesting := by
  cases r with
  | inside => exact h.2
  | operand => exact h.2
  | primary => exact h.2.le
  | top =>
    obtain rfl : b = [] := h
    exact Nat.zero_le _

/-- Everywhere the brackets are as many as they may be in brackets. -/
lemma Fits.inside (h : r.Fits b depth) : inside.Fits b depth := by
  refine ⟨?_, h.bounded⟩
  cases r with
  | inside => exact h.1
  | operand => exact (Brackets.guarded_tail_le b).trans h.1
  | primary => exact (Brackets.guarded_tail_le b).trans h.1
  | top =>
    obtain rfl : b = [] := h
    exact Nat.zero_le _

/-- Outside of the innermost bracket. -/
lemma Fits.outside (h : Fits .inside b depth) (le : c.Below b.tail) : Fits .operand c depth :=
  ⟨le.guarded_le.trans h.1, le.guarded_le.trans ((Brackets.guarded_tail_le b).trans h.2)⟩

end Room

/-! ## States -/

variable {source : List Char} {α β : Type}

/-- Between two states without problems the nesting is the same again, and the tokens lead from
brackets that there is room for to the brackets that `out` gives. -/
structure Bounds (source : List Char) (r : Room) (out : Brackets → Brackets)
    (s s' : ParserState) : Prop where
  clean : s'.problems = [] → s.problems = []
  depth : s'.problems = [] → s'.depth = s.depth
  leads : s'.problems = [] → s.Ready source → s'.Ready source
    ∧ ∃ ts, Taken s s' ts ∧ ∀ b, r.Fits b s.depth → b.Leads ts (out b)

namespace Bounds

variable {s s' s'' : ParserState} {r r' r'' : Room} {out out' out'' : Brackets → Brackets}

/-- One step after the other. -/
theorem trans (h : Bounds source r out s s') (h' : Bounds source r' out' s' s'')
    (join : ∀ b c depth, r.Fits b depth → c.Below (out b) →
      r'.Fits c depth ∧ ∀ d : Brackets, d.Below (out' c) → d.Below (out'' b)) :
    Bounds source r out'' s s'' := by
  have depth (clean : s''.problems = []) : s'.depth = s.depth := h.depth (h'.clean clean)
  refine ⟨fun clean => h.clean (h'.clean clean), fun clean => (h'.depth clean).trans (depth clean),
    fun clean ready => ?_⟩
  obtain ⟨ready', ts, taken, leads⟩ := h.leads (h'.clean clean) ready
  obtain ⟨ready'', us, taken', leads'⟩ := h'.leads clean ready'
  refine ⟨ready'', ts ++ us, taken.trans taken', fun b fits => ?_⟩
  have first := leads b fits
  obtain ⟨fits', below⟩ := join b _ s.depth fits first.below
  have second := leads' _ (depth clean ▸ fits')
  have both := first.append second
  exact ⟨below _ both.below, both.bounded⟩

/-- There is room in one place if there is in another one. -/
lemma within (h : Bounds source r out s s') (le : ∀ b, r'.Fits b s.depth → r.Fits b s.depth) :
    Bounds source r' out s s' := by
  refine ⟨h.clean, h.depth, fun clean ready => ?_⟩
  obtain ⟨ready', ts, taken, leads⟩ := h.leads clean ready
  exact ⟨ready', ts, taken, fun b fits => leads b (le b fits)⟩

/-- Brackets can open outside of brackets. -/
lemma top (h : Bounds source .primary out s s') : Bounds source .top out s s' := by
  refine h.within ?_
  rintro _ rfl
  exact ⟨Nat.zero_le _, by decide⟩

/-- No token is taken. -/
lemma still (r : Room) (clean : s'.problems = [] → s.problems = [])
    (text : s'.source = s.source) (current : s'.current = s.current) (later : s'.later = s.later)
    (lastEnd : s'.lastEnd = s.lastEnd) (depth : s'.depth = s.depth) : Bounds source r id s s' :=
  ⟨clean, fun _ => depth, fun _ ready => ⟨ready.same text current later, [],
    .nothing current later lastEnd, fun _ fits => .nothing fits.bounded⟩⟩

/-- Where a problem was noted nothing is claimed. -/
lemma spoilt (r : Room) (out : Brackets → Brackets) (problem : s'.problems ≠ []) :
    Bounds source r out s s' :=
  ⟨fun clean => absurd clean problem, fun clean => absurd clean problem,
    fun clean => absurd clean problem⟩

/-- Two stretches that leave the brackets as they are. -/
lemma append (h : Bounds source r id s s') (h' : Bounds source r id s' s'') :
    Bounds source r id s s'' :=
  h.trans h' fun _ _ _ fits below => ⟨fits.below below, fun _ below' => below'.trans below⟩

/-- What is in a bracket, and its end. -/
lemma close (h : Bounds source .inside id s s') (h' : Bounds source .inside List.tail s' s'') :
    Bounds source .inside List.tail s s'' :=
  h.trans h' fun _ _ _ fits below => ⟨fits.below below, fun _ below' => below.tail ▸ below'⟩

/-- The end of a bracket, and what follows it. -/
lemma leave (h : Bounds source .inside List.tail s s') (h' : Bounds source .operand id s' s'') :
    Bounds source .inside List.tail s s'' :=
  h.trans h' fun _ _ _ fits below => ⟨fits.outside below, fun _ below' => below'.trans below⟩

/-- What follows a star in a bracket need not be guarded. -/
lemma release (h : Bounds source .inside Brackets.loosen s s')
    (h' : Bounds source .operand id s' s'') : Bounds source .inside id s s'' :=
  h.trans h' fun b _ _ fits below =>
    ⟨⟨below.guarded_le.trans (Brackets.guarded_loosen b ▸ fits.1),
      below.guarded_le.trans ((Brackets.Below.guarded_le (.inr rfl)).trans fits.2)⟩,
      fun _ below' => (below'.trans below).trans (.inr rfl)⟩

end Bounds

/-- From a state, a step leaves the brackets as they are. -/
abbrev Nests (source : List Char) (r : Room) (p : Parser α) (s : ParserState) : Prop :=
  Ends p s fun _ s' => Bounds source r id s s'

/-- From a state in brackets, a step closes the innermost bracket. -/
abbrev Closes (source : List Char) (p : Parser α) (s : ParserState) : Prop :=
  Ends p s fun _ s' => Bounds source .inside List.tail s s'

/-- From a state in brackets, a step leaves the innermost bracket without guard. -/
abbrev Loosens (source : List Char) (p : Parser α) (s : ParserState) : Prop :=
  Ends p s fun _ s' => Bounds source .inside Brackets.loosen s s'

/-- From a state, a step does not take problems back. -/
abbrev Remembers (p : Parser α) (s : ParserState) : Prop :=
  Ends p s fun _ s' => s'.problems = [] → s.problems = []

/-! ## Taking tokens -/

namespace Bounds

variable {s : ParserState}

/-- A token leads to the brackets behind it. -/
lemma token {r : Room} {out : Brackets → Brackets}
    (behind : ∀ b depth, r.Fits b depth → (b.behind s.current.kind).guarded ≤ maxNesting
      ∧ (b.behind s.current.kind).Below (out b)) :
    Bounds source r out s (Parser.advance s) := by
  have problems := (Parser.advance_counts s).1
  have depth : (Parser.advance s).depth = s.depth := by
    unfold Parser.advance
    split <;> rfl
  refine ⟨fun clean => problems ▸ clean, fun _ => depth, fun _ ready => ?_⟩
  by_cases ended : s.current.kind = .endOfFile
  · have same : Parser.advance s = s := by
      rw [Parser.advance, ended]
      rfl
    rw [same]
    refine ⟨ready, [], .nothing rfl rfl rfl, fun b fits => ⟨?_, ?_⟩⟩
    · have below := (behind b _ fits).2
      rw [ended] at below
      exact below
    · exact (Brackets.Leads.nothing fits.bounded).bounded
  · obtain ⟨ready', taken⟩ := Parser.advance_taken ready ended
    refine ⟨ready', _, taken, fun b fits => ?_⟩
    obtain ⟨fewer, below⟩ := behind b _ fits
    exact ⟨below, (Brackets.Leads.token fits.bounded fewer).bounded⟩

lemma plain (r : Room) (plain : s.current.kind.isBracket = false) :
    Bounds source r id s (Parser.advance s) := by
  rw [TokenKind.isBracket, Bool.or_eq_false_iff] at plain
  refine token fun b depth fits => ?_
  have below : (b.behind s.current.kind).Below b := by
    rw [Brackets.behind, plain.1, plain.2, if_neg Bool.false_ne_true, if_neg Bool.false_ne_true]
    split
    · exact .inr rfl
    · exact .refl b
  exact ⟨below.guarded_le.trans fits.bounded, below⟩

lemma opening (opens : s.current.kind.opens = true) :
    Bounds source .primary (true :: ·) s (Parser.advance s) := by
  refine token fun b depth fits => ?_
  rw [Brackets.behind, if_pos opens]
  exact ⟨(Brackets.guarded_cons true b).trans fits.2, .refl _⟩

/-- A bracket and what is in it, with its end. -/
lemma bracket {s' : ParserState} (opens : s.current.kind.opens = true)
    (h : Bounds source .inside List.tail (Parser.advance s) s') : Bounds source .primary id s s' := by
  refine (opening opens).trans h fun b c _ fits below => ?_
  have tail : c.tail = b := below.tail
  refine ⟨⟨tail ▸ fits.1, below.guarded_le.trans ?_⟩, fun _ below' => tail ▸ below'⟩
  exact (Brackets.guarded_cons true b).trans fits.2

lemma closing (opens : s.current.kind.opens = false) (closes : s.current.kind.closes = true) :
    Bounds source .inside List.tail s (Parser.advance s) := by
  refine token fun b depth fits => ?_
  rw [Brackets.behind, opens, if_neg Bool.false_ne_true, if_pos closes]
  exact ⟨(Brackets.guarded_tail_le b).trans fits.2, .refl _⟩

lemma loosening (plain : s.current.kind.isBracket = false)
    (loosens : s.current.kind.loosens = true) :
    Bounds source .inside Brackets.loosen s (Parser.advance s) := by
  rw [TokenKind.isBracket, Bool.or_eq_false_iff] at plain
  refine token fun b depth fits => ?_
  rw [Brackets.behind, plain.1, plain.2, if_neg Bool.false_ne_true, if_neg Bool.false_ne_true,
    if_pos loosens]
  exact ⟨(Brackets.Below.guarded_le (.inr rfl)).trans fits.2, .refl _⟩

end Bounds

/-! ## Rules for sequences of steps -/

namespace Nests

variable {r : Room} {p : Parser α} {f : α → Parser β} {s : ParserState}

/-- What leaves the brackets in brackets as they are does so everywhere. -/
lemma anywhere (h : Nests source .inside p s) (r : Room) : Nests source r p s :=
  Bounds.within h fun _ => Room.Fits.inside

lemma primary (h : Nests source .operand p s) : Nests source .primary p s :=
  Bounds.within h fun _ fits => ⟨fits.1, fits.bounded⟩

lemma top (h : Nests source .primary p s) : Nests source .top p s := Bounds.top h

/-- Below the limit, brackets can open among operators. -/
lemma operand (h : Nests source .primary p s) (shallow : s.depth < maxNesting) :
    Nests source .operand p s :=
  Bounds.within h fun _ fits => ⟨fits.1, fits.1.trans_lt shallow⟩

/-- One step after the other, from the state that the first one gives. -/
lemma step (first : Nests source r p s) (rest : Nests source r (f (p.run s).1) (p.run s).2) :
    Nests source r (p >>= f) s := Bounds.append first rest

/-- One step after the other. -/
theorem bind (first : Nests source r p s) (rest : ∀ a s', Nests source r (f a) s') :
    Nests source r (p >>= f) s := first.step (rest _ _)

/-- A step in brackets, and then one that closes them. -/
lemma closes (first : Nests source .inside p s) (rest : ∀ a s', Closes source (f a) s') :
    Closes source (p >>= f) s := Bounds.close first (rest _ _)

/-- A step that only looks leaves the state as it is. -/
lemma look (same : (p.run s).2 = s) (h : Nests source r (f (p.run s).1) s) :
    Nests source r (p >>= f) s := Ends.look same h

lemma give (a : α) : Nests source r (pure a) s := .still r id rfl rfl rfl rfl rfl

/-- One of two steps, and then the same step after either. -/
lemma choice {c : Prop} [Decidable c] {q : Parser α} (hp : Nests source r p s)
    (hq : Nests source r q s) (rest : ∀ a s', Nests source r (f a) s') :
    Nests source r (if c then p >>= f else q >>= f) s := by
  split
  · exact hp.bind rest
  · exact hq.bind rest

lemma remembers (h : Nests source r p s) : Remembers p s := Bounds.clean h

end Nests

lemma Closes.look {p : Parser α} {f : α → Parser β} {s : ParserState} (same : (p.run s).2 = s)
    (h : Closes source (f (p.run s).1) s) : Closes source (p >>= f) s := Ends.look same h

/-- What follows a closing bracket. -/
theorem Closes.bind {p : Parser α} {f : α → Parser β} {s : ParserState}
    (first : Closes source p s) (rest : ∀ a s', Nests source .operand (f a) s') :
    Closes source (p >>= f) s := Bounds.leave first (rest _ _)

/-- What follows a star in brackets need not be guarded. -/
theorem Loosens.bind {p : Parser α} {f : α → Parser β} {s : ParserState}
    (first : Loosens source p s) (rest : ∀ a s', Nests source .operand (f a) s') :
    Nests source .inside (p >>= f) s := Bounds.release first (rest _ _)

lemma Remembers.bind {p : Parser α} {f : α → Parser β} {s : ParserState} (first : Remembers p s)
    (rest : ∀ a s', Remembers (f a) s') : Remembers (p >>= f) s :=
  fun clean => first (rest _ _ clean)

lemma Skips.remembers {p : Parser α} (h : ∀ source, Skips source p) (s : ParserState) :
    Remembers p s := (h [] s).clean

namespace Nests

variable {r : Room} {g : Token → Parser β} {s : ParserState}

/-- A token other than a bracket is taken. -/
lemma take {k : TokenKind} (there : s.current.kind = k) (plain : k.isBracket = false)
    (rest : Nests source r (g s.current) (Parser.advance s)) :
    Nests source r (Parser.bump >>= g) s := (Bounds.plain r (there ▸ plain)).append rest

/-- A bracket is taken, and what follows closes it. -/
lemma takeOpen {k : TokenKind} (there : s.current.kind = k) (opens : k.opens = true)
    (rest : Closes source (g s.current) (Parser.advance s)) :
    Nests source .primary (Parser.bump >>= g) s :=
  .bracket (there ▸ opens) rest

end Nests

/-- A bracket is closed. -/
lemma Closes.take {k : TokenKind} {g : Token → Parser β} {s : ParserState}
    (there : s.current.kind = k) (opens : k.opens = false) (closes : k.closes = true)
    (rest : Nests source .operand (g s.current) (Parser.advance s)) :
    Closes source (Parser.bump >>= g) s :=
  (Bounds.closing (there ▸ opens) (there ▸ closes)).leave rest

/-! ## Tokens that may be there -/

section

variable {r : Room} {k : TokenKind} {g : Bool → Parser β} {s : ParserState}

lemma Nests.eat (plain : k.isBracket = false)
    (yes : s.current.kind = k → Nests source r (g true) (Parser.advance s))
    (no : s.current.kind ≠ k → Nests source r (g false) s) :
    Nests source r (Parser.eat k >>= g) s :=
  Parser.eat_cases k s (fun there => Nests.take (g := fun _ => g true) there plain (yes there)) no

/-- A bracket that may be there. -/
lemma Nests.eatOpen (opens : k.opens = true) (yes : ∀ s', Closes source (g true) s')
    (no : Nests source .primary (g false) s) : Nests source .primary (Parser.eat k >>= g) s :=
  Parser.eat_cases k s (fun there => Nests.takeOpen (g := fun _ => g true) there opens (yes _))
    fun _ => no

/-- The end of a bracket that may be there. -/
lemma Closes.eat (opens : k.opens = false) (closes : k.closes = true)
    (yes : ∀ s', Nests source .operand (g true) s') (no : Closes source (g false) s) :
    Closes source (Parser.eat k >>= g) s :=
  Parser.eat_cases k s (fun there => Closes.take (g := fun _ => g true) there opens closes (yes _))
    fun _ => no

end

/-- Where a problem is noted nothing is claimed. -/
lemma Bounds.noteAt {r : Room} {out : Brackets → Brackets} {cause : Problem.Cause} {span : Span}
    {g : Unit → Parser β} {s : ParserState} (rest : ∀ s', Remembers (g ()) s') :
    Ends (Parser.noteAt cause span >>= g) s fun _ s' => Bounds source r out s s' :=
  .spoilt r out fun clean =>
    nomatch rest { s with problems := ⟨cause, span⟩ :: s.problems } clean

lemma Bounds.note {r : Room} {out : Brackets → Brackets} {cause : Problem.Cause}
    {g : Unit → Parser β} {s : ParserState} (rest : ∀ s', Remembers (g ()) s') :
    Ends (Parser.note cause >>= g) s fun _ s' => Bounds source r out s s' := .noteAt rest

/-- A symbol that has to be there, and what follows if it is and if it is not. -/
lemma Nests.expect {r : Room} {symbol : Symbol} {g : Bool → Parser β} {s : ParserState}
    (plain : (TokenKind.symbol symbol).isBracket = false) (yes : ∀ s', Nests source r (g true) s')
    (no : ∀ s', Remembers (g false) s') :
    Nests source r (Parser.expectSymbol symbol >>= g) s := by
  have expected : Ends (Parser.expectSymbol symbol) s fun there s' =>
      if there then Bounds source r id s s' else s'.problems ≠ [] :=
    Parser.eat_cases (.symbol symbol) s (fun there => Bounds.plain r (there ▸ plain)) fun _ => nofun
  refine expected.bind fun there s₁ known => ?_
  cases there with
  | true => exact Bounds.append known (yes s₁)
  | false => exact .spoilt r id fun clean => known (no s₁ clean)

namespace Parser

variable {r : Room}

lemma eat_nests {k : TokenKind} (plain : k.isBracket = false) (s : ParserState) :
    Nests source r (eat k) s :=
  Nests.eat (g := pure) plain (fun _ => .give true) fun _ => .give false

lemma expectSymbol_nests {symbol : Symbol} (plain : (TokenKind.symbol symbol).isBracket = false)
    (s : ParserState) : Nests source r (expectSymbol symbol) s :=
  .eat plain (fun _ => .give true) fun _ => .note fun _ => id

lemma expectKeyword_nests (word : Keyword) (s : ParserState) :
    Nests source r (expectKeyword word) s :=
  .eat rfl (fun _ => .give ()) fun _ => .note fun _ => id

/-- A closing bracket that has to be there. -/
lemma expectSymbol_closes {symbol : Symbol} (opens : symbol.opens = false)
    (closes : symbol.closes = true) (s : ParserState) : Closes source (expectSymbol symbol) s :=
  .eat opens closes (fun _ => .give true) (.note fun _ => id)

/-- A star that has to be there. -/
lemma expectSymbol_loosens {symbol : Symbol} (plain : (TokenKind.symbol symbol).isBracket = false)
    (loosens : (TokenKind.symbol symbol).loosens = true) (s : ParserState) :
    Loosens source (expectSymbol symbol) s :=
  eat_cases (.symbol symbol) s
    (fun there => Bounds.loosening (there ▸ plain) (there ▸ loosens)) fun _ => .note fun _ => id

/-- A star that is taken. -/
lemma bump_loosens {k : TokenKind} {s : ParserState} (there : s.current.kind = k)
    (plain : k.isBracket = false) (loosens : k.loosens = true) : Loosens source bump s :=
  Bounds.loosening (there ▸ plain) (there ▸ loosens)

lemma eat?_nests {k : TokenKind} (plain : k.isBracket = false) (s : ParserState) :
    Nests source r (eat? k) s := by
  refine .look rfl ?_
  split
  next there => exact .take (eq_of_beq there) plain (.give _)
  · exact .give none

lemma name?_nests (s : ParserState) : Nests source r name? s :=
  (eat?_nests rfl s).bind fun _ _ => .give _

lemma nameOrMissing_nests (s : ParserState) : Nests source r nameOrMissing s := by
  refine (name?_nests s).bind fun name s₁ => ?_
  split
  · exact .give _
  · exact .note fun _ => id

/-! ## Completing nodes -/

lemma complete_nests (span : Span) (build : Mark → Expr) (s : ParserState) :
    Nests source r (complete span build) s := .still r id rfl rfl rfl rfl rfl

lemma completeFrom_nests (start : ℕ) (build : Mark → Expr) (s : ParserState) :
    Nests source r (completeFrom start build) s := .still r id rfl rfl rfl rfl rfl

lemma completeStmt_nests (span : Span) (build : Mark → Stmt) (s : ParserState) :
    Nests source r (completeStmt span build) s := .still r id rfl rfl rfl rfl rfl

lemma completeStmtFrom_nests (start : ℕ) (build : Mark → Stmt) (s : ParserState) :
    Nests source r (completeStmtFrom start build) s := .still r id rfl rfl rfl rfl rfl

lemma discard_nests (es : List Expr) (s : ParserState) : Nests source r (discard es) s :=
  .still r id rfl rfl rfl rfl rfl

/-! ## Repeating and nesting -/

section

variable {step : Parser (Option α)} (h : ∀ s, Nests source r step s)
include h

lemma collectAtMost_nests (n : ℕ) (s : ParserState) : Nests source r (collectAtMost step n) s := by
  induction n generalizing s with
  | zero => exact .give []
  | succ n ih =>
    refine (h s).bind fun o s₁ => ?_
    cases o with
    | none => exact .give []
    | some a => exact (ih s₁).bind fun as s₂ => .give (a :: as)

lemma collect_nests (s : ParserState) : Nests source r (collect step) s :=
  .look rfl (collectAtMost_nests h _ s)

/-- What follows a token, if the token is there. -/
lemma afterEaten_nests {k : TokenKind} (plain : k.isBracket = false) (s : ParserState) :
    Nests source r (do if ← eat k then step else return none : Parser (Option α)) s :=
  .eat plain (fun _ => h _) fun _ => .give none

lemma separated_nests {separator : Symbol}
    (plain : (TokenKind.symbol separator).isBracket = false) (s : ParserState) :
    Nests source r (separated separator step) s := by
  refine (h s).bind fun o s₁ => ?_
  cases o with
  | none => exact .give []
  | some first =>
    exact (collect_nests (afterEaten_nests h plain) s₁).bind fun others s₂ => .give _

end

section

variable {item : Parser α} (h : ∀ s, Nests source r item s)
include h

lemma elementsAtMost_nests (close : Symbol) (n : ℕ) (s : ParserState) :
    Nests source r (elementsAtMost close item n) s := by
  induction n generalizing s with
  | zero => exact .give []
  | succ n ih =>
    refine (eat_nests rfl s).bind fun there s₁ => ?_
    split
    · exact .give []
    refine .look rfl ?_
    split
    · exact .give []
    refine .look rfl ((h s₁).bind fun a s₂ => .look rfl ?_)
    split
    · exact .give [a]
    · exact (ih s₂).bind fun as s₃ => .give (a :: as)

lemma elements_nests (close : Symbol) (s : ParserState) :
    Nests source r (elements close item) s := .look rfl (elementsAtMost_nests h close _ s)

lemma some_nests (s : ParserState) : Nests source r (some <$> item) s := h s

end

lemma extend_nests {step : α → Parser (Option α)} (h : ∀ a s, Nests source r (step a) s) (a : α)
    (s : ParserState) : Nests source r (extend step a) s := by
  have loop (n : ℕ) (a : α) (s : ParserState) : Nests source r (extendAtMost step n a) s := by
    induction n generalizing a s with
    | zero => exact .give a
    | succ n ih =>
      refine (h a s).bind fun o s₁ => ?_
      cases o with
      | none => exact .give a
      | some b => exact ih b s₁
  exact .look rfl (loop _ a s)

lemma filterMapM_nests {f : β → Parser (Option α)} (h : ∀ x s, Nests source r (f x) s)
    (xs : List β) (s : ParserState) : Nests source r (xs.filterMapM f) s := by
  induction xs generalizing s with
  | nil =>
    rw [List.filterMapM_nil]
    exact .give []
  | cons x xs ih =>
    rw [List.filterMapM_cons]
    refine (h x s).bind fun o s₁ => ?_
    cases o with
    | none => exact ih s₁
    | some a => exact (ih s₁).bind fun as s₂ => .give (a :: as)

/-- Reading one level deeper, there is room for as many brackets as the new depth has. -/
lemma nested_bounds (r' : Room) {p : Parser α} {s : ParserState}
    (deeper : ∀ b, r.Fits b s.depth → r'.Fits b (s.depth + 1)) (h : ∀ s, Nests source r' p s) :
    Nests source r (nested p) s := by
  have inner := h { s with depth := s.depth + 1 }
  refine ⟨fun clean => inner.clean clean, fun clean => ?_, fun clean ready => ?_⟩
  · show (p.run { s with depth := s.depth + 1 }).2.depth - 1 = s.depth
    rw [inner.depth clean]
    exact Nat.add_sub_cancel _ _
  · obtain ⟨ready', ts, taken, leads⟩ := inner.leads clean (ready.same rfl rfl rfl)
    exact ⟨ready'.same rfl rfl rfl, ts, ⟨taken.tokens, taken.lastEnd⟩,
      fun b fits => leads b (deeper b fits)⟩

/-- In brackets, the bracket that is not counted yet is when reading goes one level deeper. -/
lemma nested_nests {p : Parser α} (h : ∀ s, Nests source .operand p s) (s : ParserState) :
    Nests source .inside (nested p) s := by
  refine nested_bounds .operand (fun b fits => ⟨?_, fits.2⟩) h
  cases b with
  | nil => exact Nat.zero_le _
  | cons g outer => exact (Brackets.guarded_cons g outer).trans (Nat.succ_le_succ fits.1)

/-! ## Targets -/

lemma targets_nests (ctx : Context) (es : List Expr) (s : ParserState) :
    Nests source r (es.mapM (target ctx)) s := by
  obtain ⟨-, problems, after⟩ := targets_run ctx es s
  show Bounds source r id s ((es.mapM (target ctx)).run s).2
  rw [after]
  exact .still r (fun clean => (List.append_eq_nil_iff.1 clean).2) rfl rfl rfl rfl rfl

lemma target_nests (ctx : Context) (e : Expr) (s : ParserState) :
    Nests source r (target ctx e) s := by
  show Bounds source r id s ((target ctx e).run s).2
  rw [target_run]
  exact .still r (fun clean => (List.append_eq_nil_iff.1 clean).2) rfl rfl rfl rfl rfl

end Parser

end MethodLift.Syntax
