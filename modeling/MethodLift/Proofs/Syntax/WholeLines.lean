import MethodLift.Proofs.Syntax.LaidStatements
import MethodLift.Proofs.Text.Spans

/-!
# Compound statements take whole lines

In a text without problems the tokens of a compound statement are those of some logical lines: before
its first token and behind its last one stands layout, unless the tokens begin or end there
(`parse_lined`).  Its span reaches from the first of these tokens that takes space to the last one,
so a semicolon at its end belongs to it.

The walk through the grammar keeps track of two things only, where a logical line begins
(`ParserState.AtLine`), and that a statement has taken its first token (`Begun`).  What is between
them is passed by what is known of each step already (`Passes`).
-/

namespace MethodLift.Syntax

variable {source : List Char} {rules : Rules} {blocks : Blocks} {all : List Token} {α β : Type}

/-! ## Lines of tokens -/

/-- Between the front of some tokens and the rest of them no logical line goes on: the front ends in
layout, or there is nothing on one of the two sides. -/
def Seam (front rest : List Token) : Prop :=
  front = [] ∨ (∃ t ∈ front.getLast?, t.kind.isLayout = true)
    ∨ ∀ t ∈ rest, t.kind.takesSpace = false

/-- Tokens of a statement among all tokens, which are those of whole logical lines. -/
structure WholeLines (all : List Token) (span : Span) (before own after : List Token) : Prop where
  tokens : all = before ++ own ++ after
  front : Seam before (own ++ after)
  behind : Seam (before ++ own) after
  earlier : ∀ t ∈ before, t.span.stop ≤ span.start
  later : ∀ t ∈ after, span.stop ≤ t.span.start
  within : ∀ t ∈ own, t.kind.takesSpace = true → span.contains t.span = true
  first : ∃ t ∈ own, t.kind.takesSpace = true ∧ t.span.start = span.start
  last : ∃ t ∈ own, t.kind.takesSpace = true ∧ t.span.stop = span.stop

namespace Stmt

/-- Whether a statement has blocks. -/
def isCompound : Stmt → Bool
  | functionDef .. | classDef .. | forLoop .. | whileLoop .. | ifElse .. | withBlock ..
  | tryBlock .. => true
  | _ => false

lemma children_of_not_isCompound {d : Stmt} (h : d.isCompound = false) : d.children = [] := by
  cases d <;> first | rfl | nomatch h

/-- A compound statement takes whole lines of the tokens, and so do those in it. -/
def Lined (all : List Token) (d : Stmt) : Prop :=
  d.Everywhere fun d => d.isCompound = true →
    ∃ before own after, WholeLines all d.span before own after

lemma lined_of_not_isCompound {d : Stmt} (h : d.isCompound = false) : d.Lined all := by
  refine .node (fun compound => ?_) ?_
  · rw [h] at compound
    nomatch compound
  · rw [children_of_not_isCompound h]
    nofun

end Stmt

/-! ## States between lines -/

namespace ParserState

/-- A state in the middle of reading the tokens of a text. -/
structure Amid (source : List Char) (all : List Token) (s : ParserState) : Prop where
  live : s.Live source
  ended : s.Ended
  settled : s.Settled
  rest : ∃ taken, all = taken ++ (s.current :: s.later)

/-- Where a logical line begins, or the text ends. -/
def AtLine (all : List Token) (s : ParserState) : Prop :=
  ∃ taken, all = taken ++ (s.current :: s.later) ∧ Seam taken (s.current :: s.later)

variable {s s' : ParserState}

lemma Amid.passes (h : s.Amid source all) (passes : Passes source s s') : s'.Amid source all := by
  obtain ⟨ts, took⟩ := passes.took h.ended h.settled
  obtain ⟨taken, whole⟩ := h.rest
  refine ⟨passes.live, took.ended h.ended, passes.settled h.settled, taken ++ ts, ?_⟩
  rw [whole, took.tokens, List.append_assoc]

/-- A logical line begins behind layout. -/
lemma Amid.atLine_advance (h : s.Amid source all) (layout : s.current.kind.isLayout = true) :
    (Parser.advance s).AtLine all := by
  obtain ⟨taken, whole⟩ := h.rest
  have more : s.current.kind ≠ .endOfFile := fun is => by rw [is] at layout; nomatch layout
  refine ⟨taken ++ [s.current], ?_, .inr (.inl ⟨s.current, ?_, layout⟩)⟩
  · rw [List.append_assoc, List.singleton_append, ← Parser.later_eq_advance h.ended more]
    exact whole
  · rw [List.getLast?_append, List.getLast?_singleton]
    rfl

/-- At the end of the text no line goes on. -/
lemma Amid.atLine_of_endOfFile (h : s.Amid source all) (is : s.current.kind = .endOfFile) :
    s.AtLine all := by
  obtain ⟨taken, whole⟩ := h.rest
  obtain ⟨front, e, parts, isEnd, others⟩ := h.ended
  have none : front = [] := by
    cases front with
    | nil => rfl
    | cons t ts =>
      obtain ⟨rfl, -⟩ := List.cons.inj parts
      exact absurd is (others _ List.mem_cons_self)
  subst none
  refine ⟨taken, whole, .inr (.inr ?_)⟩
  rw [parts]
  exact List.forall_mem_singleton.2 (by rw [isEnd]; rfl)

end ParserState

open ParserState (Amid AtLine)

/-- If reading comes to another token, it has taken the current one. -/
lemma Passes.took_current {s s' : ParserState} (h : Passes source s s') (amid : s.Amid source all)
    (moved : s.position < s'.position) : ∃ ts, Took s s' (s.current :: ts) := by
  obtain ⟨ts, took⟩ := h.took amid.ended amid.settled
  cases ts with
  | nil =>
    have same : s.current = s'.current := (List.cons.inj took.tokens).1
    rw [ParserState.position, same] at moved
    exact absurd moved (Nat.lt_irrefl _)
  | cons t ts =>
    obtain ⟨rfl, -⟩ := List.cons.inj took.tokens
    exact ⟨ts, took⟩

/-- Another token comes behind the current one. -/
lemma Passes.moved {s s' : ParserState} (h : Passes source s s') (amid : s.Amid source all)
    (takes : s.current.kind.takesSpace = true) (other : s'.current ≠ s.current) :
    s.position < s'.position := by
  obtain ⟨ts, took⟩ := h.took amid.ended amid.settled
  cases ts with
  | nil => exact absurd (List.cons.inj took.tokens).1.symm other
  | cons t ts =>
    obtain ⟨rfl, later⟩ := List.cons.inj took.tokens
    have behind : s'.current ∈ s.later := by
      rw [later]
      exact List.mem_append_right _ List.mem_cons_self
    exact (amid.live.solid _ List.mem_cons_self takes).trans_le
      ((List.pairwise_cons.1 amid.live.tokens.apart).1 _ behind)

/-! ## What steps give -/

/-- From one state to another one, at the start of a line, statements were read. -/
structure Lining (source : List Char) (all : List Token) (s s' : ParserState) (body : List Stmt) :
    Prop where
  passes : Passes source s s'
  atLine : s'.problems = [] → s'.AtLine all
  lined : s'.problems = [] → ∀ d ∈ body, d.Lined all

namespace Lining

variable {s s' s'' : ParserState} {body body' : List Stmt}

lemma start (h : s.Amid source all) (atLine : s.problems = [] → s.AtLine all) :
    Lining source all s s [] := ⟨.refl h.live, atLine, nofun⟩

lemma trans (h : Lining source all s s' body) (h' : Lining source all s' s'' body') :
    Lining source all s s'' (body ++ body') := by
  refine ⟨h.passes.trans h'.passes, h'.atLine, fun clean => ?_⟩
  exact List.forall_mem_append.2 ⟨h.lined (h'.passes.clean clean), h'.lined clean⟩

/-- Statements that are read after something else. -/
lemma after (h : Lining source all s' s'' body) (passes : Passes source s s') :
    Lining source all s s'' body := ⟨passes.trans h.passes, h.atLine, h.lined⟩

/-- Nothing is claimed of a text with problems. -/
lemma spoilt (h : Spoilt source s s') : Lining source all s s' body :=
  ⟨h.passes, fun clean => absurd clean h.problems, fun clean => absurd clean h.problems⟩

end Lining

/-- From the start of a line, a step reads statements up to the start of a line. -/
def Lines (source : List Char) (all : List Token) (p : Parser α) (f : α → List Stmt) : Prop :=
  ∀ s : ParserState, s.Amid source all → (s.problems = [] → s.AtLine all) →
    Ends p s fun a s' => Lining source all s s' (f a)

/-- What statements go back to: a block begins within a line, a branch at the start of one. -/
structure Blocks.OnLines (source : List Char) (all : List Token) (blocks : Blocks) : Prop where
  block : ∀ s : ParserState, s.Amid source all →
    Ends blocks.block s fun body s' => Lining source all s s' body
  branch : ∀ s : ParserState, s.Amid source all → (s.problems = [] → s.AtLine all) →
    s.current.kind.takesSpace = true →
    Ends blocks.branch s fun d s' => Lining source all s s' [d]

/-! ## In the middle of a statement -/

/-- A statement began at one state, and its first token was taken.  The statements in it were read so
far. -/
structure Begun (source : List Char) (all : List Token) (s₀ s : ParserState) (body : List Stmt) :
    Prop where
  passes : Passes source s₀ s
  moved : s.problems = [] → s₀.position < s.position
  lined : s.problems = [] → ∀ d ∈ body, d.Lined all

namespace Begun

variable {s₀ s s' : ParserState} {body inner : List Stmt} {p : Parser α} {g : α → Parser β}
  {post : β → ParserState → Prop}

lemma take (h : s.Amid source all) (takes : s.current.kind.takesSpace = true) :
    Begun source all s (Parser.advance s) [] := by
  refine ⟨Parser.advance_passes h.live, fun _ => ?_, nofun⟩
  have solid := h.live.solid _ List.mem_cons_self takes
  rw [TokenKind.takesSpace, Bool.and_eq_true, bne_iff_ne] at takes
  exact solid.trans_le (Parser.stop_le_position_advance h.live takes.2)

lemma pass (h : Begun source all s₀ s body) (passes : Passes source s s') :
    Begun source all s₀ s' body :=
  ⟨h.passes.trans passes, fun clean => (h.moved (passes.clean clean)).trans_le passes.forward,
    fun clean => h.lined (passes.clean clean)⟩

lemma append (h : Begun source all s₀ s body) (h' : Lining source all s s' inner) :
    Begun source all s₀ s' (body ++ inner) := by
  have passed := h.pass h'.passes
  exact ⟨passed.passes, passed.moved,
    fun clean => List.forall_mem_append.2 ⟨passed.lined clean, h'.lined clean⟩⟩

/-- The word that a statement begins with. -/
lemma bump {g : Token → Parser β} (amid : s.Amid source all)
    (takes : s.current.kind.takesSpace = true)
    (rest : Begun source all s (Parser.advance s) [] →
      Ends (g s.current) (Parser.advance s) post) : Ends (Parser.bump >>= g) s post :=
  rest (take amid takes)

/-- A step that reads no statements. -/
lemma skip (h : Begun source all s₀ s body) (first : Keeps source p)
    (rest : ∀ a s', Begun source all s₀ s' body → Ends (g a) s' post) :
    Ends (p >>= g) s post := rest _ _ (h.pass (first s h.passes.live))

/-- A block. -/
lemma block {f : α → List Stmt} (h : Begun source all s₀ s body) (amid : s₀.Amid source all)
    (first : ∀ s : ParserState, s.Amid source all →
      Ends p s fun a s' => Lining source all s s' (f a))
    (rest : ∀ a s', Begun source all s₀ s' (body ++ f a) → (s'.problems = [] → s'.AtLine all) →
      Ends (g a) s' post) : Ends (p >>= g) s post := by
  have read := first s (amid.passes h.passes)
  exact rest _ _ (h.append read) read.atLine

/-- What follows a block. -/
lemma lines {f : α → List Stmt} (h : Begun source all s₀ s body) (amid : s₀.Amid source all)
    (atLine : s.problems = [] → s.AtLine all) (first : Lines source all p f)
    (rest : ∀ a s', Begun source all s₀ s' (body ++ f a) → (s'.problems = [] → s'.AtLine all) →
      Ends (g a) s' post) : Ends (p >>= g) s post := by
  have read := first s (amid.passes h.passes) atLine
  exact rest _ _ (h.append read) read.atLine

/-- The word of a statement, unless the statement begins with a token that was taken before. -/
lemma word {g : Token → Parser β} (amid : s₀.Amid source all)
    (takes : s₀.current.kind.takesSpace = true)
    (begins : s = s₀ ∨ Begun source all s₀ s [])
    (rest : Begun source all s₀ (Parser.advance s) [] →
      Ends (g s.current) (Parser.advance s) post) : Ends (Parser.bump >>= g) s post := by
  rcases begins with rfl | begun
  · exact bump amid takes rest
  · exact rest (begun.pass (Parser.advance_passes begun.passes.live))

/-- A word that has to be there: in a text without problems it is. -/
lemma keyword {word : Keyword} {g : Unit → Parser β} (amid : s₀.Amid source all)
    (takes : s₀.current.kind.takesSpace = true)
    (begins : s = s₀ ∨ Begun source all s₀ s [])
    (rest : ∀ s', Begun source all s₀ s' [] → Ends (g ()) s' post) :
    Ends (Parser.expectKeyword word >>= g) s post := by
  rcases begins with rfl | begun
  · have taken : Ends (Parser.expectKeyword word) s fun _ s' => Begun source all s s' [] := by
      refine Parser.eat_cases _ s (fun _ => take amid takes) fun _ => ?_
      refine (Leaves.start amid.live).note (g := Pure.pure) fun s' spoilt => ?_
      exact ⟨spoilt.passes, fun clean => absurd clean spoilt.problems, nofun⟩
    exact taken.bind fun _ => rest
  · exact begun.skip (Parser.expectKeyword_quiet _).keeps fun _ => rest

/-- A compound statement is complete between two lines. -/
theorem complete (h : Begun source all s₀ s body) (placed : TokensPlaced source all)
    (amid : s₀.Amid source all) (takes : s₀.current.kind.takesSpace = true)
    (front : s₀.problems = [] → s₀.AtLine all) (behind : s.problems = [] → s.AtLine all)
    (build : Mark → Stmt) (shape : ∀ m, (build m).mark = m ∧ (build m).children = body) :
    Ends (Parser.completeStmtFrom s₀.position build) s
      fun d s' => Lining source all s₀ s' [d] := by
  set span : Span := ⟨s₀.position, max s.lastEnd s₀.position⟩ with span_eq
  obtain ⟨mark, children⟩ := shape ⟨s.stmtCount, span⟩
  show Lining source all s₀ { s with stmtCount := s.stmtCount + 1 } [build ⟨s.stmtCount, span⟩]
  refine ⟨h.passes.trans (Leaves.countedStmt h.passes.live), behind, fun clean => ?_⟩
  have clean : s.problems = [] := clean
  refine List.forall_mem_singleton.2 (.node (fun _ => ?_) (children ▸ h.lined clean))
  have is : (build ⟨s.stmtCount, span⟩).span = span := congrArg Mark.span mark
  rw [is]
  obtain ⟨ts, took⟩ := h.passes.took_current amid (h.moved clean)
  obtain ⟨before, whole, frontSeam⟩ := front (h.passes.clean clean)
  obtain ⟨taken, whole', behindSeam⟩ := behind clean
  have same : taken = before ++ s₀.current :: ts := by
    rw [took.tokens, ← List.append_assoc] at whole
    exact List.append_cancel_right (whole'.symm.trans whole)
  subst same
  have solid := amid.live.solid _ List.mem_cons_self takes
  have reach : s₀.current.span.stop ≤ s.lastEnd := took.within _ List.mem_cons_self takes
  have stop : span.stop = s.lastEnd := Nat.max_eq_left (solid.le.trans reach)
  have apart := placed.apart
  rw [whole] at apart
  obtain ⟨-, own, earlier⟩ := List.pairwise_append.1 apart
  have settled : s.lastEnd ≤ s.position := h.passes.settled amid.settled
  refine ⟨before, s₀.current :: ts, s.current :: s.later, whole', ?_, behindSeam,
    fun t ht => earlier t ht _ List.mem_cons_self, ?_, fun t ht takes => ?_,
    ⟨_, List.mem_cons_self, takes, rfl⟩, ?_⟩
  · rw [← took.tokens]
    exact frontSeam
  · rw [stop]
    refine List.forall_mem_cons.2 ⟨settled, fun t ht => settled.trans ?_⟩
    exact h.passes.live.forward.trans
      ((List.pairwise_cons.1 h.passes.live.tokens.apart).1 t ht)
  · refine Span.contains_iff.2 ⟨?_, stop ▸ took.within t ht takes⟩
    have left : t ∈ s₀.current :: s₀.later := took.tokens ▸ List.mem_append_left _ ht
    rcases List.mem_cons.1 left with rfl | later
    · exact Nat.le_refl _
    · exact amid.live.forward.trans ((List.pairwise_cons.1 own).1 t later)
  · rw [stop]
    rcases took.last with none | last
    · -- the first token ends behind where the last one before it did
      have earlier : s₀.lastEnd ≤ s₀.position := amid.settled
      have first : s₀.position < s₀.current.span.stop := solid
      omega
    · exact last

end Begun

namespace Parser

variable {s s₀ : ParserState} {body : List Stmt}

/-! ## Simple statements -/

/-- A step that gives a statement without blocks. -/
abbrev GivesSimple (p : Parser Stmt) : Prop :=
  ∀ s : ParserState, Ends p s fun d _ => d.isCompound = false

/-- Whatever comes first, the result is that of what comes last. -/
lemma last_gives {p : Parser α} {g : α → Parser β} {P : β → Prop} {s : ParserState}
    (h : ∀ a s, Ends (g a) s fun b _ => P b) : Ends (p >>= g) s fun b _ => P b := h _ _

lemma completeStmtFrom_simple {start : ℕ} {build : Mark → Stmt}
    (simple : ∀ m, (build m).isCompound = false) : GivesSimple (completeStmtFrom start build) :=
  fun _ => simple _

lemma exprStmt_simple : GivesSimple (exprStmt rules) := by
  intro s
  refine last_gives fun start s => last_gives fun begins s => last_gives fun word s => ?_
  split
  · exact last_gives fun _ s => last_gives fun _ => completeStmtFrom_simple fun _ => rfl
  refine last_gives fun first s => last_gives fun colon s => ?_
  split
  · exact last_gives fun _ s => last_gives fun _ s => last_gives fun _ =>
      completeStmtFrom_simple fun _ => rfl
  refine last_gives fun kind s => ?_
  split
  · exact last_gives fun _ s => last_gives fun _ s => last_gives fun _ =>
      completeStmtFrom_simple fun _ => rfl
  refine last_gives fun equal s => ?_
  split
  · exact last_gives fun _ s => last_gives fun _ => completeStmtFrom_simple fun _ => rfl
  · exact completeStmtFrom_simple (fun _ => rfl) s

/-- One of two steps, and then what gives a statement without blocks. -/
lemma either_simple {c : Prop} [Decidable c] {p q : Parser α} {g : α → Parser Stmt}
    (h : ∀ a, GivesSimple (g a)) : GivesSimple (if c then p >>= g else q >>= g) := by
  intro s
  split
  · exact last_gives h
  · exact last_gives h

lemma deleteStmt_simple : GivesSimple (deleteStmt rules) := by
  intro s
  refine last_gives fun _ s => last_gives fun _ s => last_gives fun e s => ?_
  split
  · exact last_gives fun _ s => last_gives fun _ => completeStmtFrom_simple fun _ => rfl
  · exact last_gives fun _ => completeStmtFrom_simple fun _ => rfl

lemma importFromStmt_simple : GivesSimple importFromStmt := by
  intro s
  refine last_gives fun _ s => last_gives fun _ s => last_gives fun _ s => ?_
  dsimp only
  split
  · exact last_gives fun _ s => last_gives fun _ s => last_gives fun _ =>
      either_simple fun _ => completeStmtFrom_simple fun _ => rfl
  · exact last_gives fun _ s => last_gives fun _ =>
      either_simple fun _ => completeStmtFrom_simple fun _ => rfl

lemma raiseStmt_simple : GivesSimple (raiseStmt rules) := by
  intro s
  refine last_gives fun _ s => last_gives fun begins s => ?_
  split
  · exact last_gives fun _ s => last_gives fun _ =>
      either_simple fun _ => completeStmtFrom_simple fun _ => rfl
  · exact completeStmtFrom_simple (fun _ => rfl) s

lemma smallStmt_simple : GivesSimple (smallStmt rules) := by
  intro s
  refine last_gives fun kind s => ?_
  split
  · exact last_gives fun _ s => rfl
  · exact last_gives fun _ s => rfl
  · exact last_gives fun _ s => rfl
  · exact last_gives fun _ s => last_gives fun _ =>
      either_simple fun _ => completeStmtFrom_simple fun _ => rfl
  · exact deleteStmt_simple s
  · exact last_gives fun _ s => last_gives fun _ => completeStmtFrom_simple fun _ => rfl
  · exact last_gives fun _ s => last_gives fun _ => completeStmtFrom_simple fun _ => rfl
  · exact last_gives fun _ s => last_gives fun _ => completeStmtFrom_simple fun _ => rfl
  · exact importFromStmt_simple s
  · exact raiseStmt_simple s
  · exact last_gives fun _ s => last_gives fun _ s => last_gives fun _ =>
      completeStmtFrom_simple fun _ => rfl
  · exact exprStmt_simple s

lemma progressing_simple {step : Parser Stmt} (h : GivesSimple step) :
    GivesSimple (progressing step) := by
  intro s
  refine .look rfl ((h s).bind ?_)
  intro d s₁ simple
  refine .look rfl ?_
  split
  · exact last_gives fun _ _ => simple
  · exact simple

/-- The statements of a line have no blocks, and there is one. -/
lemma simpleStmts_simple (s : ParserState) : Ends (simpleStmts rules) s fun body _ =>
    body ≠ [] ∧ ∀ d ∈ body, d.isCompound = false := by
  have step (s : ParserState) : Ends (nextSmallStmt? rules) s
      fun o _ => ∀ d ∈ o, Stmt.isCompound d = false := by
    have nothing (s : ParserState) : Ends (pure none : Parser (Option Stmt)) s
        fun o _ => ∀ d ∈ o, Stmt.isCompound d = false := nofun
    refine last_gives fun there s => ?_
    split
    · refine last_gives fun _ s => last_gives fun _ s => ?_
      split
      · exact nothing s
      · refine (progressing_simple smallStmt_simple s).bind ?_
        rintro d s₁ simple _ ⟨⟩
        exact simple
    · exact nothing s
  refine (progressing_simple smallStmt_simple s).bind ?_
  intro first s₁ simple
  refine (collect_yields step s₁).bind ?_
  intro others s₂ simples
  have done (s : ParserState) : Ends (pure (first :: others) : Parser (List Stmt)) s
      fun body _ => body ≠ [] ∧ ∀ d ∈ body, d.isCompound = false :=
    ⟨List.cons_ne_nil _ _, List.forall_mem_cons.2 ⟨simple, simples⟩⟩
  refine last_gives fun ended s => ?_
  dsimp only
  split
  · refine last_gives fun _ s => ?_
    split
    · exact last_gives fun _ s => last_gives fun _ s => last_gives fun _ => done
    · exact done s
  · exact done s

section

variable (hr : rules.Laying source)
include hr

/-- The statements of a line are read up to the start of the next one. -/
lemma simpleStmts_lining (h : s.Amid source all) :
    Ends (simpleStmts rules) s fun body s' => Lining source all s s' body := by
  have passes : Ends (simpleStmts rules) s fun _ s' => Passes source s s' :=
    (simpleStmts_lays hr).keeps s h.live
  have atLine : Ends (simpleStmts rules) s fun _ s' => s'.problems = [] → s'.AtLine all := by
    refine Ends.bind ((progressing_lays (smallStmt_lays hr)).keeps s h.live) ?_
    intro first s₁ passed
    have amid := h.passes passed
    refine Ends.bind ((collect_lays (nextSmallStmt?_lays hr)).keeps s₁ amid.live) ?_
    intro others s₂ passed
    have amid := amid.passes passed
    refine eat_cases .newline s₂ (fun is => ?_) fun _ => .look rfl ?_
    · exact fun _ => amid.atLine_advance (by rw [is]; rfl)
    dsimp only
    split
    · refine (Leaves.start amid.live).note ?_
      intro s₃ spoilt
      refine spoilt.bind skipLine_quiet.keeps fun _ s₄ spoilt => ?_
      exact spoilt.bind (eat_quiet _).keeps fun _ s₅ spoilt clean => absurd clean spoilt.problems
    next there =>
      have there : ¬ (!s₂.current.kind == .endOfFile) = true := there
      exact fun _ => amid.atLine_of_endOfFile (by simpa using there)
  have simple : Ends (simpleStmts rules) s _ := simpleStmts_simple s
  exact ⟨passes, atLine, fun _ d hd => Stmt.lined_of_not_isCompound (simple.2 d hd)⟩

/-! ## Compound statements -/

variable (hb : blocks.OnLines source all)
include hb

omit hr in
lemma blockAfter_lines (word : Keyword) : Lines source all (blockAfter blocks word) id := by
  intro s amid atLine
  refine eat_cases _ s (fun is => ?_) fun _ => Lining.start amid atLine
  have passed := advance_passes amid.live
  exact (hb.block _ (amid.passes passed)).after passed

variable (placed : TokensPlaced source all)
include placed

lemma ifStmt_lining (amid : s.Amid source all) (atLine : s.problems = [] → s.AtLine all)
    (takes : s.current.kind.takesSpace = true) :
    Ends (ifStmt rules blocks) s fun d s' => Lining source all s s' [d] := by
  refine Begun.bump amid takes fun begun => ?_
  refine begun.skip (namedExpression_lays hr).keeps fun test s₁ begun => ?_
  refine begun.block amid hb.block fun body s₂ begun behind => ?_
  have whole : ∀ orelse s₃, Begun source all s s₃ ([] ++ body ++ orelse) →
      (s₃.problems = [] → s₃.AtLine all) → Ends (completeStmtFrom s.current.span.start
        (.ifElse · (s.current.kind == .keyword .kElif) test body orelse)) s₃
        fun d s' => Lining source all s s' [d] := by
    intro orelse s₃ begun behind
    exact begun.complete placed amid takes atLine behind (.ifElse · _ test body orelse)
      fun _ => ⟨rfl, rfl⟩
  refine .look rfl ?_
  dsimp only
  split
  next word =>
    have branch := hb.branch s₂ (amid.passes begun.passes) behind (takesSpace_of_isAt word rfl)
    exact Ends.bind branch fun inner s₃ read => whole [inner] s₃ (begun.append read) read.atLine
  · exact begun.lines amid behind (blockAfter_lines hb .kElse) whole

lemma whileStmt_lining (amid : s.Amid source all) (atLine : s.problems = [] → s.AtLine all)
    (takes : s.current.kind.takesSpace = true) :
    Ends (whileStmt rules blocks) s fun d s' => Lining source all s s' [d] := by
  refine Begun.bump amid takes fun begun => ?_
  refine begun.skip (namedExpression_lays hr).keeps fun test s₁ begun => ?_
  refine begun.block amid hb.block fun body s₂ begun behind => ?_
  refine begun.lines amid behind (blockAfter_lines hb .kElse) fun orelse s₃ begun behind => ?_
  exact begun.complete placed amid takes atLine behind (.whileLoop · test body orelse)
    fun _ => ⟨rfl, rfl⟩

/-- A loop begins with its word, or with an `async` that was taken before. -/
lemma forStmt_lining {s₀ s₁ : ParserState} (amid : s₀.Amid source all)
    (atLine : s₀.problems = [] → s₀.AtLine all) (takes : s₀.current.kind.takesSpace = true)
    (async? : Option ℕ) (start : async?.getD s₁.position = s₀.position)
    (begins : s₁ = s₀ ∨ Begun source all s₀ s₁ []) :
    Ends (forStmt rules blocks async?) s₁ fun d s' => Lining source all s₀ s' [d] := by
  refine Begun.word amid takes begins fun begun => ?_
  refine begun.skip (operands_lays hr).keeps fun e s₂ begun => ?_
  refine begun.skip (target_keeps .store e) fun target s₃ begun => ?_
  refine begun.skip (expectKeyword_quiet _).keeps fun _ s₄ begun => ?_
  refine begun.skip (expressions_lays hr).keeps fun iter s₅ begun => ?_
  refine begun.block amid hb.block fun body s₆ begun behind => ?_
  refine begun.lines amid behind (blockAfter_lines hb .kElse) fun orelse s₇ begun behind => ?_
  rw [start]
  exact begun.complete placed amid takes atLine behind
    (.forLoop · async?.isSome target iter body orelse) fun _ => ⟨rfl, rfl⟩

omit placed in
lemma handler?_lines : Lines source all (handler? rules blocks) fun o =>
    o.toList.flatMap (·.body) := by
  intro s amid atLine
  refine .look rfl ?_
  split
  · exact Lining.start amid atLine
  refine Ends.bind (bump_quiet.keeps s amid.live) fun _ s₁ first => ?_
  refine Ends.bind ((eat_quiet _).keeps s₁ first.live) fun _ s₂ second => ?_
  refine Ends.bind ((handlerHead_lays hr).keeps s₂ second.live) ?_
  rintro ⟨type, name⟩ s₃ third
  have passed := (first.trans second).trans third
  refine Ends.bind (hb.block s₃ (amid.passes passed)) fun body s₄ read => ?_
  refine .look rfl ?_
  have done := read.after passed
  rw [← List.append_nil body] at done
  exact done

omit hr hb placed in
/-- A loop whose steps go from line to line. -/
lemma collect_lines {step : Parser (Option α)} {f : α → List Stmt}
    (h : Lines source all step fun o => o.toList.flatMap f) :
    Lines source all (collect step) fun as => as.flatMap f := by
  have loop (n : ℕ) : Lines source all (collectAtMost step n) fun as => as.flatMap f := by
    induction n with
    | zero => exact fun s amid atLine => Lining.start amid atLine
    | succ n ih =>
      intro s amid atLine
      refine Ends.bind (h s amid atLine) fun o s₁ read => ?_
      cases o with
      | none => exact read
      | some a =>
        refine Ends.bind (ih s₁ (amid.passes read.passes) read.atLine) fun as s₂ later => ?_
        have both := read.trans later
        dsimp only at both
        rw [Option.toList_some, List.flatMap_singleton] at both
        exact both
  exact fun s amid atLine => .look rfl (loop _ s amid atLine)

lemma tryStmt_lining (amid : s.Amid source all) (atLine : s.problems = [] → s.AtLine all)
    (takes : s.current.kind.takesSpace = true) :
    Ends (tryStmt rules blocks) s fun d s' => Lining source all s s' [d] := by
  refine Begun.bump amid takes fun begun => ?_
  refine begun.block amid hb.block fun body s₁ begun behind => ?_
  refine begun.lines amid behind (collect_lines (handler?_lines hr hb))
    fun handlers s₂ begun behind => ?_
  refine begun.lines amid behind (blockAfter_lines hb .kElse) fun orelse s₃ begun behind => ?_
  refine begun.lines amid behind (blockAfter_lines hb .kFinally) fun final s₄ begun behind => ?_
  have whole : ∀ s₅, Begun source all s s₅
      ([] ++ body ++ handlers.flatMap (·.body) ++ orelse ++ final) →
      (s₅.problems = [] → s₅.AtLine all) →
      Ends (completeStmtFrom s.current.span.start (.tryBlock · body handlers orelse final)) s₅
        fun d s' => Lining source all s s' [d] := by
    intro s₅ begun behind
    exact begun.complete placed amid takes atLine behind (.tryBlock · body handlers orelse final)
      fun _ => ⟨rfl, rfl⟩
  dsimp only
  split
  · refine (Leaves.start begun.passes.live).note fun s₅ spoilt => ?_
    exact whole s₅ (begun.pass spoilt.passes) fun clean => absurd clean spoilt.problems
  · exact whole s₄ begun behind

lemma withStmt_lining {s₀ s₁ : ParserState} (amid : s₀.Amid source all)
    (atLine : s₀.problems = [] → s₀.AtLine all) (takes : s₀.current.kind.takesSpace = true)
    (async? : Option ℕ) (start : async?.getD s₁.position = s₀.position)
    (begins : s₁ = s₀ ∨ Begun source all s₀ s₁ []) :
    Ends (withStmt rules blocks async?) s₁ fun d s' => Lining source all s₀ s' [d] := by
  refine Begun.word amid takes begins fun begun => ?_
  have item : Lays source (some <$> withItem rules) fun o => o.toList.flatMap Node.ofWithItem :=
    Lays.map ((withItem_lays hr).congr fun _ => (List.flatMap_singleton _ _).symm)
  refine begun.skip (separated_lays item).keeps fun items s₂ begun => ?_
  refine begun.block amid hb.block fun body s₃ begun behind => ?_
  have at_ : async?.getD s₁.current.span.start = s₀.position := start
  rw [at_]
  exact begun.complete placed amid takes atLine behind (.withBlock · async?.isSome items body)
    fun _ => ⟨rfl, rfl⟩

/-- A function, from its word on. -/
lemma functionStmt_lining {s₀ s₁ : ParserState} (amid : s₀.Amid source all)
    (atLine : s₀.problems = [] → s₀.AtLine all) (takes : s₀.current.kind.takesSpace = true)
    (decorators : List Expr) (isAsync : Bool)
    (begins : s₁ = s₀ ∨ Begun source all s₀ s₁ []) :
    Ends (functionStmt rules blocks decorators s₀.position isAsync) s₁
      fun d s' => Lining source all s₀ s' [d] := by
  refine Begun.keyword amid takes begins fun s₂ begun => ?_
  refine begun.skip nameOrMissing_quiet.keeps fun name s₃ begun => ?_
  refine begun.skip (parametersOrMissing_lays hr).keeps fun params s₄ begun => ?_
  refine begun.skip (after?_lays hr.expression).keeps fun returns s₅ begun => ?_
  refine begun.block amid hb.block fun body s₆ begun behind => ?_
  exact begun.complete placed amid takes atLine behind
    (fun mark => .functionDef ⟨mark, name, decorators, params, returns, body, isAsync⟩)
    fun _ => ⟨rfl, rfl⟩

/-- A class, from its word on. -/
lemma classStmt_lining {s₀ s₁ : ParserState} (amid : s₀.Amid source all)
    (atLine : s₀.problems = [] → s₀.AtLine all) (takes : s₀.current.kind.takesSpace = true)
    (decorators : List Expr) (begins : s₁ = s₀ ∨ Begun source all s₀ s₁ []) :
    Ends (classStmt rules blocks decorators s₀.position) s₁
      fun d s' => Lining source all s₀ s' [d] := by
  refine Begun.word amid takes begins fun begun => ?_
  refine begun.skip nameOrMissing_quiet.keeps fun name s₂ begun => ?_
  refine begun.skip (eat_quiet _).keeps fun there s₃ begun => ?_
  have whole : ∀ bases s₄, Begun source all s₀ s₄ [] → Ends (do
      let body ← blocks.block
      completeStmtFrom s₀.position fun mark => .classDef ⟨mark, name, decorators, bases, body⟩) s₄
      fun d s' => Lining source all s₀ s' [d] := by
    intro bases s₄ begun
    refine begun.block amid hb.block fun body s₅ begun behind => ?_
    exact begun.complete placed amid takes atLine behind
      (fun mark => .classDef ⟨mark, name, decorators, bases, body⟩) fun _ => ⟨rfl, rfl⟩
  dsimp only
  split
  · refine begun.skip (args_lays hr).keeps fun bases s₄ begun => ?_
    exact begun.skip (expectSymbol_quiet _).keeps fun _ s₅ begun => whole bases s₅ begun
  · exact whole [] s₃ begun

lemma decorated_lining (amid : s.Amid source all) (atLine : s.problems = [] → s.AtLine all)
    (is : s.current.kind = .symbol .atSign) :
    Ends (decorated rules blocks) s fun d s' => Lining source all s s' [d] := by
  have takes : s.current.kind.takesSpace = true := by rw [is]; rfl
  refine .look rfl (Ends.bind ((collect_lays (decorator?_lays hr)).keeps s amid.live) ?_)
  intro decorators s₁ passed
  have begun (other : s₁.current.kind ≠ .symbol .atSign) : Begun source all s s₁ [] := by
    refine ⟨passed, fun _ => passed.moved amid takes fun same => other ?_, nofun⟩
    rw [same, is]
  refine .look rfl ?_
  split
  next word =>
    have kind : s₁.current.kind = .keyword .kDef := word
    exact functionStmt_lining hr hb placed amid atLine takes decorators false
      (.inr (begun (by rw [kind]; nofun)))
  next word =>
    have kind : s₁.current.kind = .keyword .kClass := word
    exact classStmt_lining hr hb placed amid atLine takes decorators
      (.inr (begun (by rw [kind]; nofun)))
  refine .look rfl ?_
  split
  next word =>
    have kind : s₁.current.kind = .keyword .kAsync := eq_of_beq (Bool.and_eq_true_iff.1 word).1
    refine (begun (by rw [kind]; nofun)).skip bump_quiet.keeps fun _ s₂ begun => ?_
    exact functionStmt_lining hr hb placed amid atLine takes decorators true (.inr begun)
  · refine Leaves.note (.start passed.live) fun s₂ spoilt => ?_
    refine spoilt.discard.bind fun _ s₃ spoilt => .look rfl ?_
    exact (Lining.spoilt (spoilt.after (Leaves.countedStmt spoilt.passes.live))).after passed

lemma asyncStmt_lining (amid : s.Amid source all) (atLine : s.problems = [] → s.AtLine all)
    (takes : s.current.kind.takesSpace = true) :
    Ends (asyncStmt rules blocks) s fun d s' => Lining source all s s' [d] := by
  refine Begun.bump amid takes fun begun => .look rfl ?_
  split
  · exact functionStmt_lining hr hb placed amid atLine takes [] true (.inr begun)
  · exact forStmt_lining hr hb placed amid atLine takes (some s.position) rfl (.inr begun)
  · exact withStmt_lining hr hb placed amid atLine takes (some s.position) rfl (.inr begun)

lemma statement_lines : Lines source all (statement rules blocks) id := by
  intro s amid atLine
  have takes {k : TokenKind} (is : s.current.kind = k) (h : k.takesSpace = true) :
      s.current.kind.takesSpace = true := is ▸ h
  have single {step : Parser Stmt} (h : Ends step s fun d s' => Lining source all s s' [d]) :
      Ends (statement.single step) s fun body s' => Lining source all s s' body :=
    Ends.bind h fun _ _ read => read
  refine .look rfl ?_
  split
  next is => exact single (ifStmt_lining hr hb placed amid atLine (takes is rfl))
  next is => exact single (whileStmt_lining hr hb placed amid atLine (takes is rfl))
  next is => exact single (forStmt_lining hr hb placed amid atLine (takes is rfl) none rfl (.inl rfl))
  next is => exact single (tryStmt_lining hr hb placed amid atLine (takes is rfl))
  next is =>
    exact single (withStmt_lining hr hb placed amid atLine (takes is rfl) none rfl (.inl rfl))
  next is =>
    exact .look rfl (single
      (functionStmt_lining hr hb placed amid atLine (takes is rfl) [] false (.inl rfl)))
  next is =>
    exact .look rfl (single
      (classStmt_lining hr hb placed amid atLine (takes is rfl) [] (.inl rfl)))
  next is => exact single (decorated_lining hr hb placed amid atLine is)
  next is =>
    refine .look rfl ?_
    split
    · exact single (asyncStmt_lining hr hb placed amid atLine (takes is rfl))
    · exact simpleStmts_lining hr amid
  · exact simpleStmts_lining hr amid

omit hr hb placed in
/-- There is a statement wherever statements are read. -/
lemma statement_ne_nil (s : ParserState) :
    Ends (statement rules blocks) s fun body _ => body ≠ [] := by
  have single (step : Parser Stmt) (s : ParserState) :
      Ends (statement.single step) s fun body _ => body ≠ [] :=
    last_gives fun _ _ => List.cons_ne_nil _ _
  have simple (s : ParserState) : Ends (simpleStmts rules) s fun body _ => body ≠ [] :=
    (simpleStmts_simple s).1
  refine last_gives fun kind s => ?_
  split
  · exact single _ s
  · exact single _ s
  · exact single _ s
  · exact single _ s
  · exact single _ s
  · exact last_gives fun _ => single _
  · exact last_gives fun _ => single _
  · exact single _ s
  · refine last_gives fun next s => ?_
    split
    · exact single _ s
    · exact simple s
  · exact simple s

/-! ## Blocks and modules -/

variable (hl : blocks.Laying source)
include hl

/-- A statement takes a token, so that none has to be passed over. -/
lemma progressing_lines : Lines source all (progressing (statement rules blocks)) id := by
  intro s amid atLine
  have moves : Ends (statement rules blocks) s fun _ s' =>
      s'.problems = [] → s.position < s'.position := by
    have read := statement_lays hr hl s amid.live
    have some : Ends (statement rules blocks) s _ := statement_ne_nil s
    intro clean
    have begun := read.begun (.inr fun none => some (List.map_eq_nil_iff.1 none)) clean
    exact begun.1.trans_le (Nat.min_le_right _ _)
  have reads : Ends (statement rules blocks) s fun body s' =>
      Lining source all s s' body ∧ (s'.problems = [] → s.position < s'.position) :=
    ⟨statement_lines hr hb placed s amid atLine, moves⟩
  refine .look rfl (reads.bind ?_)
  rintro body s₁ ⟨read, moved⟩
  refine .look rfl ?_
  split
  next same =>
    have spoilt : Spoilt source s s₁ := by
      refine ⟨read.passes, fun clean => ?_⟩
      obtain ⟨ts, took⟩ := read.passes.took_current amid (moved clean)
      have shorter := congrArg List.length (List.cons.inj took.tokens).2
      have same : s₁.later.length = s.later.length := eq_of_beq same
      have more : s.later.length = ts.length + (s₁.later.length + 1) :=
        shorter.trans List.length_append
      omega
    exact Ends.bind (bump_quiet.keeps s₁ read.passes.live) fun _ s₂ passed =>
      .spoilt (spoilt.after passed)
  · exact read

/-- What a block and a module have in common: nothing is read from layout. -/
lemma blockStep?_lines : Lines source all (blockStep? rules blocks) fun o =>
    o.toList.flatMap id := by
  intro s amid atLine
  have layout (is : s.current.kind.isLayout = true) :
      Lining source all s (advance s) ([].flatMap id) :=
    ⟨advance_passes amid.live, fun _ => amid.atLine_advance is, nofun⟩
  refine .look rfl ?_
  split
  · exact Lining.start amid atLine
  · exact Lining.start amid atLine
  next is =>
    have is : s.current.kind = .newline := is
    exact layout (by rw [is]; rfl)
  · refine Leaves.note (.start amid.live) fun s₁ spoilt => ?_
    exact spoilt.bind bump_quiet.keeps fun _ s₂ spoilt => Lining.spoilt spoilt
  · refine Ends.bind (progressing_lines hr hb placed hl s amid atLine) fun body s₁ read => ?_
    rw [← List.append_nil (id body)] at read
    exact read

lemma moduleStep?_lines : Lines source all (moduleStep? rules blocks) fun o =>
    o.toList.flatMap id := by
  intro s amid atLine
  have layout (is : s.current.kind.isLayout = true) :
      Lining source all s (advance s) ([].flatMap id) :=
    ⟨advance_passes amid.live, fun _ => amid.atLine_advance is, nofun⟩
  refine .look rfl ?_
  split
  · exact Lining.start amid atLine
  next is =>
    have is : s.current.kind = .newline := is
    exact layout (by rw [is]; rfl)
  next is =>
    have is : s.current.kind = .dedent := is
    exact layout (by rw [is]; rfl)
  · refine Leaves.note (.start amid.live) fun s₁ spoilt => ?_
    exact spoilt.bind bump_quiet.keeps fun _ s₂ spoilt => Lining.spoilt spoilt
  · refine Ends.bind (progressing_lines hr hb placed hl s amid atLine) fun body s₁ read => ?_
    rw [← List.append_nil (id body)] at read
    exact read

/-- The statements of an indented block. -/
lemma nested_lines : Lines source all (nested (collect (blockStep? rules blocks)))
    fun bodies => bodies.flatMap id := by
  intro s amid atLine
  have inner := collect_lines (blockStep?_lines hr hb placed hl) { s with depth := s.depth + 1 }
    ⟨⟨amid.live.text, amid.live.tokens, amid.live.solid, amid.ended⟩, amid.ended, amid.settled, amid.rest⟩
    atLine
  have passes := (nested_lays (collect_lays (blockStep?_lays hr hl))).keeps s amid.live
  exact ⟨passes, inner.atLine, inner.lined⟩

omit hr hb placed hl in
/-- A symbol that has to be there: where it is not, there is a problem. -/
lemma expectSymbol_tells (symbol : Symbol) (hs : s.Live source) :
    Ends (expectSymbol symbol) s fun there s' =>
      Passes source s s' ∧ (there = false → s'.problems ≠ []) := by
  refine eat_cases _ s (fun _ => ⟨advance_passes hs, nofun⟩) fun _ => ?_
  exact (Leaves.start hs).note (g := fun _ => Pure.pure false) fun s₁ spoilt =>
    ⟨spoilt.passes, fun _ => spoilt.problems⟩

/-- A block begins anywhere and ends at the start of a line. -/
lemma block_lining (amid : s.Amid source all) :
    Ends (block rules blocks) s fun body s' => Lining source all s s' body := by
  refine Ends.bind (expectSymbol_tells .colon amid.live) ?_
  rintro colon s₁ ⟨passed, tells⟩
  have amid₁ := amid.passes passed
  split
  next missing =>
    have spoilt : Spoilt source s s₁ := ⟨passed, tells (by simpa using missing)⟩
    refine spoilt.bind skipLine_quiet.keeps fun _ s₂ spoilt => ?_
    refine spoilt.bind (eat_quiet _).keeps fun _ s₃ spoilt => ?_
    refine spoilt.bind (eat_quiet _).keeps fun indented s₄ spoilt => ?_
    split
    · exact spoilt.bind skipBlock_quiet.keeps fun _ s₅ spoilt => Lining.spoilt spoilt
    · exact Lining.spoilt spoilt
  refine eat_cases _ s₁ (fun ended => ?_) fun _ => (simpleStmts_lining hr amid₁).after passed
  have passed := passed.trans (advance_passes amid₁.live)
  have amid₂ := amid.passes passed
  refine eat_cases _ (advance s₁) (fun indented => ?_) fun _ => ?_
  · have passed := passed.trans (advance_passes amid₂.live)
    have amid₃ := amid.passes passed
    have atLine := amid₂.atLine_advance (by rw [indented]; rfl)
    refine .look rfl ?_
    split
    · refine Leaves.note (.start amid₃.live) fun s₄ spoilt => ?_
      exact spoilt.bind skipBlock_quiet.keeps fun _ s₅ spoilt => (Lining.spoilt spoilt).after passed
    refine Ends.bind (nested_lines hr hb placed hl (advance (advance s₁)) amid₃ fun _ => atLine) ?_
    intro bodies s₄ read
    have read := read.after passed
    dsimp only at read
    rw [List.flatMap_id] at read
    refine eat_cases _ s₄ (fun dedented => ?_) fun _ => read
    have amid₄ := amid.passes read.passes
    have ended := amid₄.atLine_advance (by rw [dedented]; rfl)
    have clean := (advance_passes amid₄.live).clean
    exact ⟨read.passes.trans (advance_passes amid₄.live), fun _ => ended,
      fun none => read.lined (clean none)⟩
  · exact Leaves.note (.start amid₂.live) fun s₃ spoilt => (Lining.spoilt spoilt).after passed

lemma moduleBody_lines : Lines source all (moduleBody rules blocks) id := by
  intro s amid atLine
  refine Ends.bind (collect_lines (moduleStep?_lines hr hb placed hl) s amid atLine) ?_
  intro bodies s₁ read
  dsimp only at read
  rw [List.flatMap_id] at read
  exact read

end

end Parser

/-! ## The circle of the blocks -/

lemma Blocks.none_onLines : Blocks.none.OnLines source all := by
  have spoilt (s : ParserState) (amid : s.Amid source all) :
      Ends Parser.exhaustedStmt s fun _ s' => Spoilt source s s' := by
    refine (Leaves.start amid.live).note fun s₁ spoilt => .look rfl ?_
    exact spoilt.after (Leaves.countedStmt spoilt.passes.live)
  refine ⟨fun s amid => ?_, fun s amid _ _ => Lining.spoilt (spoilt s amid)⟩
  exact Ends.bind (spoilt s amid) fun d s₁ spoilt => Lining.spoilt spoilt

/-- However often the circle of the blocks is tied, they are read up to the start of a line. -/
theorem Blocks.upTo_onLines (hr : rules.Laying source) (placed : TokensPlaced source all) (n : ℕ) :
    (Blocks.upTo rules n).OnLines source all := by
  induction n with
  | zero => exact none_onLines
  | succ n ih =>
    rw [upTo_succ]
    exact ⟨fun s amid => Parser.block_lining hr ih placed (upTo_laying hr n) amid,
      fun s amid atLine takes => Parser.ifStmt_lining hr ih placed amid atLine takes⟩

/-! ## A whole text -/

lemma start_amid (text : String) : (ParserState.start text).Amid text.toList (lex text).tokens := by
  exact ⟨start_live text, start_ended text, Nat.zero_le _, [], (start_tokens text).symm⟩

/-- In a text without problems, compound statements take whole lines of the tokens. -/
theorem parse_lined {text : String} (valid : (parse text).problems = []) :
    ∀ d ∈ (parse text).module.body, d.Lined (lex text).tokens := by
  set size := Text.width text.toList
  have rules : (Rules.upTo (2 * size + 8)).Laying text.toList := Rules.upTo_laying _
  have placed := (lex_placed text).tokens
  have read := Parser.moduleBody_lines rules (Blocks.upTo_onLines rules placed (size + 8)) placed
    (Blocks.upTo_laying rules (size + 8)) _ (start_amid text)
    fun _ => ⟨[], (start_tokens text).symm, .inl rfl⟩
  exact read.lined (final_problems valid)

end MethodLift.Syntax
