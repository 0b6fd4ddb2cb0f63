import MethodLift.Proofs.Syntax.Laying
import MethodLift.Proofs.Syntax.Segments

/-!
# Tokens that spell a node

`Spelled` says of tokens that they are what segments ask for.  It describes what a text has to look
like for a tree to be its tree, without saying how the text is read: each word and each symbol of a
node is a token, in the order of the text, and between them stand the tokens of what is inside the
node.  An expression may stand in parentheses, which are no part of the tree but widen its span.

An expression in a replacement field takes no token of its own.  It is inside the token of its string
and is spelled by tokens that are read from there (`Spelled.field`).
-/

namespace MethodLift.Syntax

variable {source : List Char}

/-! ## The ends of tokens -/

/-- Where the last one of some tokens ends, those aside that take no space. -/
def lastStop? (ts : List Token) : Option ℕ :=
  ((ts.filter (·.kind.takesSpace)).getLast?).map (·.span.stop)

lemma lastStop?_append (ts ts' : List Token) :
    lastStop? (ts ++ ts') = (lastStop? ts').or (lastStop? ts) := by
  simp only [lastStop?, List.filter_append, List.getLast?_append]
  cases (ts'.filter (·.kind.takesSpace)).getLast? <;> rfl

/-- Tokens that end somewhere have one that ends there. -/
lemma exists_of_lastStop? {ts : List Token} {stop : ℕ} (h : lastStop? ts = some stop) :
    ∃ t ∈ ts, t.kind.takesSpace = true ∧ t.span.stop = stop := by
  obtain ⟨t, last, rfl⟩ := Option.map_eq_some_iff.1 h
  have mem := List.mem_of_getLast? last
  exact ⟨t, List.mem_of_mem_filter mem, (List.mem_filter.1 mem).2, rfl⟩

lemma lastStop?_singleton {t : Token} (takes : t.kind.takesSpace = true) :
    lastStop? [t] = some t.span.stop := by
  simp [lastStop?, takes]

/-- A span reaches from the first one of some tokens to the last one that takes space. -/
structure Covers (span : Span) (ts : List Token) : Prop where
  start : ∃ t ∈ ts.head?, t.span.start = span.start
  stop : lastStop? ts = some span.stop

/-! ## Segments -/

/-- Names with dots between them. -/
inductive IsPath : String → List Token → Prop
  | one {t : Token} (name : t.kind = .name) : IsPath t.text [t]
  | more {path : String} {ts : List Token} {dot t : Token} (front : IsPath path ts)
      (isDot : dot.kind = .symbol .dot) (name : t.kind = .name) :
      IsPath (path ++ ("." ++ t.text)) (ts ++ [dot, t])

/-- How many levels a token goes up at the front of a relative import. -/
def Token.levels (t : Token) : ℕ :=
  if t.kind = .symbol .dot then 1 else if t.kind = .symbol .ellipsis then 3 else 0

/-- The kind of a constant that adjacent strings make; none if they make a formatted string. -/
def stringsKind (ts : List Token) : Option ConstantKind :=
  if (ts.filter (·.kind == .fstring)).isEmpty then
    some (if ts.any (Parser.isBytesLiteral ·.text) then .bytes else .string)
  else none

/-- Tokens are what a segment asks for that holds no node. -/
def Segment.Leaf : Segment → List Token → Prop
  | token k, ts => ∃ t, ts = [t] ∧ t.kind = k
  | optional ks, ts => ts = [] ∨ ts.map (·.kind) = ks
  | id text, ts => ∃ t, ts = [t] ∧ t.kind = .name ∧ t.text = text
  | name ident, ts => ∃ t, ts = [t] ∧ t.kind = .name ∧ ident = ⟨t.text, t.span⟩
  | path dotted, ts => IsPath dotted ts
  | dots level, ts =>
    (∀ t ∈ ts, t.kind = .symbol .dot ∨ t.kind = .symbol .ellipsis)
      ∧ (ts.map Token.levels).sum = level
  | gap, ts => ∀ t ∈ ts, t.kind.isLayout = true ∨ t.kind = .symbol .semicolon
  | strings kind, ts =>
    ts ≠ [] ∧ (∀ t ∈ ts, t.kind = .string ∨ t.kind = .fstring) ∧ stringsKind ts = kind
  | field _, _ | part _ _, _ | stmt _, _ => False

/-- Tokens are what segments ask for, one after the other. -/
inductive Spelled (source : List Char) : List Segment → List Token → Prop
  | nil : Spelled source [] []
  | leaf {x : Segment} {xs : List Segment} {ts ts' : List Token} (here : x.Leaf ts)
      (rest : Spelled source xs ts') : Spelled source (x :: xs) (ts ++ ts')
  /-- An expression as it is. -/
  | bare {p : Position} {e : Expr} {xs : List Segment} {ts ts' : List Token}
      (admits : p.admits e.shape = true) (covers : Covers e.span ts)
      (inside : Spelled source (e.segments p.inner) ts) (rest : Spelled source xs ts') :
      Spelled source (.part p e :: xs) (ts ++ ts')
  /-- An expression in parentheses; they belong to its span. -/
  | paren {p : Position} {d e : Expr} {xs : List Segment} {opening closing : Token}
      {ts ts' : List Token} (opens : opening.kind = .symbol .leftParen)
      (closes : closing.kind = .symbol .rightParen)
      (widened : d = e.withSpan ⟨opening.span.start, closing.span.stop⟩)
      (inside : Spelled source [.part .enclosed e] ts) (rest : Spelled source xs ts') :
      Spelled source (.part p d :: xs) (opening :: ts ++ closing :: ts')
  /-- An expression that is read from a part of the text, in one of the forms of a line. -/
  | field {e : Expr} {span : Span} {ending : Token} {xs : List Segment} {ts ts' : List Token}
      (tokens : (lexBracketed span.start (Text.slice source span)).tokens = ts ++ [ending])
      (ends : ending.kind = .endOfFile) (inside : Spelled source [.part .value e] ts)
      (rest : Spelled source xs ts') : Spelled source (.field e :: xs) ts'
  | stmt {s : Stmt} {xs : List Segment} {ts ts' : List Token} (covers : Covers s.span ts)
      (inside : Spelled source s.segments ts) (rest : Spelled source xs ts') :
      Spelled source (.stmt s :: xs) (ts ++ ts')

namespace Spelled

variable {xs ys : List Segment} {x : Segment} {ts ts' : List Token} {p q : Position} {e : Expr}

/-- One thing behind the other. -/
theorem append (h : Spelled source xs ts) (h' : Spelled source ys ts') :
    Spelled source (xs ++ ys) (ts ++ ts') := by
  induction h with
  | nil => exact h'
  | leaf here _ ih =>
    rw [List.append_assoc]
    exact .leaf here ih
  | bare admits covers inside _ _ ih =>
    rw [List.append_assoc]
    exact .bare admits covers inside ih
  | paren opens closes widened inside _ _ ih =>
    simp only [List.cons_append, List.append_assoc]
    exact .paren opens closes widened inside ih
  | field tokens ends inside _ _ ih => exact .field tokens ends inside ih
  | stmt covers inside _ _ ih =>
    rw [List.append_assoc]
    exact .stmt covers inside ih

/-- Segments one behind the other are spelled so. -/
theorem split (h : Spelled source (xs ++ ys) ts) :
    ∃ front back, ts = front ++ back ∧ Spelled source xs front ∧ Spelled source ys back := by
  induction xs generalizing ts with
  | nil => exact ⟨[], ts, rfl, .nil, h⟩
  | cons x xs ih =>
    cases h with
    | leaf here rest =>
      obtain ⟨front, back, rfl, first, second⟩ := ih rest
      exact ⟨_, back, (List.append_assoc _ _ _).symm, .leaf here first, second⟩
    | bare admits covers inside rest =>
      obtain ⟨front, back, rfl, first, second⟩ := ih rest
      exact ⟨_, back, (List.append_assoc _ _ _).symm, .bare admits covers inside first, second⟩
    | paren opens closes widened inside rest =>
      obtain ⟨front, back, rfl, first, second⟩ := ih rest
      refine ⟨_, back, ?_, .paren opens closes widened inside first, second⟩
      simp
    | field tokens ends inside rest =>
      obtain ⟨front, back, rfl, first, second⟩ := ih rest
      exact ⟨front, back, rfl, .field tokens ends inside first, second⟩
    | stmt covers inside rest =>
      obtain ⟨front, back, rfl, first, second⟩ := ih rest
      exact ⟨_, back, (List.append_assoc _ _ _).symm, .stmt covers inside first, second⟩

/-- The first segment, and what is behind it. -/
lemma uncons (h : Spelled source (x :: xs) ts) :
    ∃ own behind, ts = own ++ behind ∧ Spelled source [x] own ∧ Spelled source xs behind := by
  have parts : Spelled source ([x] ++ xs) ts := h
  exact parts.split

/-- One segment that holds no node. -/
lemma single (here : x.Leaf ts) : Spelled source [x] ts := by
  have whole : Spelled source [x] (ts ++ []) := .leaf here .nil
  rwa [List.append_nil] at whole

lemma eq_nil (h : Spelled source [] ts) : ts = [] := by
  cases h
  rfl

/-- A segment of a kind of its own is spelled by tokens as it asks for. -/
lemma leaf_of_single (h : Spelled source [x] ts) (noNode : ∀ p e, x ≠ .part p e)
    (noField : ∀ e, x ≠ .field e) (noStmt : ∀ s, x ≠ .stmt s) : x.Leaf ts := by
  cases h with
  | leaf here rest =>
    rw [rest.eq_nil, List.append_nil]
    exact here
  | bare => exact absurd rfl (noNode _ _)
  | paren => exact absurd rfl (noNode _ _)
  | field => exact absurd rfl (noField _)
  | stmt => exact absurd rfl (noStmt _)

/-- The tokens of an expression begin where the expression does, and end where it does. -/
lemma covers_part (h : Spelled source [.part p e] ts) : Covers e.span ts := by
  cases h with
  | leaf here _ => nomatch here
  | bare _ covers _ rest =>
    rw [rest.eq_nil, List.append_nil]
    exact covers
  | @paren _ _ _ _ opening _ _ _ _ closes widened _ rest =>
    rw [widened, Expr.span_withSpan]
    refine ⟨⟨opening, rfl, rfl⟩, ?_⟩
    rw [rest.eq_nil, lastStop?_append, lastStop?_singleton (by rw [closes]; rfl)]
    rfl

lemma covers_stmt {s : Stmt} (h : Spelled source [.stmt s] ts) : Covers s.span ts := by
  cases h with
  | leaf here _ => nomatch here
  | stmt covers _ rest =>
    rw [rest.eq_nil, List.append_nil]
    exact covers

end Spelled

/-! ## Other forms of an expression -/

namespace Expr

@[simp] lemma shape_withSpan (span : Span) (e : Expr) : (e.withSpan span).shape = e.shape := by
  cases e with
  | comprehension _ kind => cases kind <;> rfl
  | tuple _ _ _ parenthesized => cases parenthesized <;> rfl
  | _ => rfl

@[simp] lemma segments_withSpan (inner : Position) (span : Span) (e : Expr) :
    (e.withSpan span).segments inner = e.segments inner := by
  cases e with
  | comprehension _ kind => cases kind <;> rfl
  | tuple _ _ _ parenthesized => cases parenthesized <;> rfl
  | _ => rfl

@[simp] lemma shape_retarget (ctx : Context) (e : Expr) : (e.retarget ctx).shape = e.shape := by
  cases e with
  | tuple _ _ _ parenthesized =>
    unfold retarget
    cases parenthesized <;> rfl
  | _ => unfold retarget; rfl

lemma retarget_withSpan (ctx : Context) (span : Span) (e : Expr) :
    (e.withSpan span).retarget ctx = (e.retarget ctx).withSpan span := by
  cases e <;> (unfold retarget; rfl)

/-- Only a bare tuple is written in another way in another position. -/
lemma segments_congr {e : Expr} (h : e.shape ≠ .bareTuple) (p q : Position) :
    e.segments p = e.segments q := by
  cases e with
  | tuple _ _ _ parenthesized =>
    cases parenthesized with
    | false => exact absurd rfl h
    | true => rfl
  | comprehension _ kind => cases kind <;> rfl
  | _ => rfl

end Expr

namespace Spelled

variable {xs ys : List Segment} {x : Segment} {ts ts' : List Token} {p q : Position} {e : Expr}

/-- What is spelled in one position is spelled in a wider one. -/
lemma within (h : Spelled source (.part p e :: xs) ts) (le : p.Within q) :
    Spelled source (.part q e :: xs) ts := by
  cases h with
  | leaf here _ => nomatch here
  | bare admits covers inside rest =>
    have same : e.segments p.inner = e.segments q.inner := by
      by_cases tuple : e.shape = .bareTuple
      · rw [le.inner (tuple ▸ admits)]
      · exact Expr.segments_congr tuple _ _
    exact .bare (le.admits _ admits) covers (same ▸ inside) rest
  | paren opens closes widened inside rest => exact .paren opens closes widened inside rest

/-- In parentheses no tuple is bare. -/
lemma not_bareTuple (h : Spelled source [.part .enclosed e] ts) : e.shape ≠ .bareTuple := by
  generalize same : [Segment.part .enclosed e] = xs at h
  induction h generalizing e with
  | nil => nomatch same
  | leaf here =>
    obtain ⟨rfl, -⟩ := List.cons.inj same
    nomatch here
  | bare admits =>
    obtain ⟨is, -⟩ := List.cons.inj same
    obtain ⟨rfl, rfl⟩ := Segment.part.inj is
    intro tuple
    rw [tuple] at admits
    nomatch admits
  | paren _ _ widened _ _ ih _ =>
    obtain ⟨is, -⟩ := List.cons.inj same
    obtain ⟨-, rfl⟩ := Segment.part.inj is
    rw [widened, Expr.shape_withSpan]
    exact ih rfl
  | field => nomatch same
  | stmt => nomatch same

/-- The elements of a bare tuple stand there without it. -/
lemma opened {m : Mark} {elements : List Expr} {ctx : Context}
    (h : Spelled source [.part p (.tuple m elements ctx false)] ts) :
    Spelled source (Segment.parts p.inner elements) ts := by
  cases h with
  | leaf here _ => nomatch here
  | bare _ _ inside rest =>
    rw [rest.eq_nil, List.append_nil]
    exact inside
  | paren _ _ widened inside =>
    have shape := congrArg Expr.shape widened
    rw [Expr.shape_withSpan] at shape
    exact absurd shape.symm inside.not_bareTuple

end Spelled

/-! ## Targets -/

/-- A segment whose expression may have become a target. -/
inductive Segment.Retargeted (ctx : Context) : Segment → Segment → Prop
  | same (x : Segment) : Retargeted ctx x x
  | part (p : Position) (e : Expr) : Retargeted ctx (.part p e) (.part p (e.retarget ctx))

section

variable {ctx : Context}

lemma Segment.retargeted_refl (xs : List Segment) : List.Forall₂ (Retargeted ctx) xs xs :=
  List.forall₂_same.2 fun x _ => .same x

lemma Segment.retargeted_parts (p : Position) (es : List Expr) :
    List.Forall₂ (Retargeted ctx) (parts p es) (parts p (es.map fun e => e.retarget ctx)) := by
  cases es with
  | nil => exact .nil
  | cons e es =>
    have others : List.Forall₂ (Retargeted ctx) (es.flatMap fun e => [sign .comma, .part p e])
        ((es.map fun e => e.retarget ctx).flatMap fun e => [sign .comma, .part p e]) := by
      induction es with
      | nil => exact .nil
      | cons e es ih => exact .cons (.same _) (.cons (.part p e) ih)
    simp only [parts, list, List.map_cons, List.flatMap_map, List.cons_append, List.nil_append,
      List.map_map, Function.comp_def] at others ⊢
    exact .cons (.part p e) (List.rel_append others (retargeted_refl _))

/-- What is written of a target is what was written of the expression. -/
lemma Expr.segments_retarget (inner : Position) (e : Expr) :
    List.Forall₂ (Segment.Retargeted ctx) (e.segments inner) ((e.retarget ctx).segments inner) := by
  cases e with
  | starred m value c =>
    rw [retarget]
    exact .cons (.same _) (.cons (.part _ _) .nil)
  | tuple m elements c parenthesized =>
    rw [retarget]
    cases parenthesized with
    | false => exact Segment.retargeted_parts _ _
    | true =>
      exact .cons (.same _) (List.rel_append (Segment.retargeted_parts _ _)
        (Segment.retargeted_refl _))
  | list m elements c =>
    rw [retarget]
    exact .cons (.same _) (List.rel_append (Segment.retargeted_parts _ _)
      (Segment.retargeted_refl _))
  | _ =>
    unfold retarget
    exact Segment.retargeted_refl _

/-- The tokens of an expression spell the target that it becomes. -/
theorem Spelled.retarget {xs ys : List Segment} {ts : List Token} (h : Spelled source xs ts)
    (changed : List.Forall₂ (Segment.Retargeted ctx) xs ys) : Spelled source ys ts := by
  induction h generalizing ys with
  | nil =>
    cases changed
    exact .nil
  | leaf here _ ih =>
    cases changed with
    | cons head tail =>
      cases head with
      | same => exact .leaf here (ih tail)
      | part => nomatch here
  | bare admits covers inside _ ihInside ih =>
    cases changed with
    | cons head tail =>
      cases head with
      | same => exact .bare admits covers inside (ih tail)
      | part p e =>
        refine .bare ?_ ?_ (ihInside (Expr.segments_retarget _ _)) (ih tail)
        · rw [Expr.shape_retarget]
          exact admits
        · rw [Expr.span_retarget]
          exact covers
  | paren opens closes widened inside _ ihInside ih =>
    cases changed with
    | cons head tail =>
      cases head with
      | same => exact .paren opens closes widened inside (ih tail)
      | part p d =>
        refine .paren opens closes ?_ (ihInside (.cons (.part _ _) .nil)) (ih tail)
        rw [widened, Expr.retarget_withSpan]
  | field tokens ends inside _ _ ih =>
    cases changed with
    | cons head tail =>
      cases head with
      | same => exact .field tokens ends inside (ih tail)
  | stmt covers inside _ _ ih =>
    cases changed with
    | cons head tail =>
      cases head with
      | same => exact .stmt covers inside (ih tail)

end

end MethodLift.Syntax
