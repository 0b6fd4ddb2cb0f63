import MethodLift.Proofs.Syntax.Branching
import MethodLift.Proofs.Syntax.SpelledStatements
import MethodLift.Proofs.Text.Spans

/-!
# Where nodes stand among the tokens

The tokens that spell a node have a stretch for each node in it.  So every node that is outside of
strings has a stretch of the tokens of its text, from where it begins to where it ends, and all
other tokens lie apart from it (`Covers.contains`, `Covers.apart`).

What a node is written as holds its parts in their positions, and it holds names only as such
(`Segment.Plain`).  The two exceptions, names that are expressions and formatted strings, are looked
at on their own.
-/

namespace MethodLift.Syntax

variable {source : List Char}

/-! ## Plain segments -/

/-- A segment that holds nothing from inside a string, and that holds a name only where it says
which. -/
def Segment.Plain : Segment → Prop
  | token k => k ≠ .name
  | optional ks => .name ∉ ks
  | id _ | field _ => False
  | _ => True

namespace Segment

/-- Segments that are all plain. -/
def Plains (xs : List Segment) : Prop := ∀ x ∈ xs, x.Plain

variable {α : Type} {x : Segment} {xs ys : List Segment}

@[simp] lemma plains_nil : Plains [] := nofun
@[simp] lemma plains_cons : Plains (x :: xs) ↔ x.Plain ∧ Plains xs := List.forall_mem_cons
@[simp] lemma plains_append : Plains (xs ++ ys) ↔ Plains xs ∧ Plains ys := List.forall_mem_append
@[simp] lemma plains_map {as : List α} {f : α → Segment} :
    Plains (as.map f) ↔ ∀ a ∈ as, (f a).Plain := List.forall_mem_map
@[simp] lemma plains_flatMap {as : List α} {f : α → List Segment} :
    Plains (as.flatMap f) ↔ ∀ a ∈ as, Plains (f a) := List.forall_mem_flatMap
@[simp] lemma plain_token {k : TokenKind} : (token k).Plain ↔ k ≠ .name := Iff.rfl
@[simp] lemma plain_optional {ks : List TokenKind} : (optional ks).Plain ↔ .name ∉ ks := Iff.rfl
@[simp] lemma plain_name {i : Ident} : (name i).Plain := trivial
@[simp] lemma plain_path {dotted : String} : (path dotted).Plain := trivial
@[simp] lemma plain_dots {level : ℕ} : (dots level).Plain := trivial
@[simp] lemma plain_gap : gap.Plain := trivial
@[simp] lemma plain_strings {kind : Option ConstantKind} : (strings kind).Plain := trivial
@[simp] lemma plain_part {p : Position} {e : Expr} : (part p e).Plain := trivial
@[simp] lemma plain_stmt {s : Stmt} : (stmt s).Plain := trivial

@[simp] lemma plains_list {items : List (List Segment)} :
    Plains (list items) ↔ ∀ item ∈ items, Plains item := by
  cases items with
  | nil => simp [list]
  | cons item items => simp [list]

@[simp] lemma plains_parts (p : Position) (es : List Expr) : Plains (parts p es) := by
  simp [parts]

@[simp] lemma plains_joined {kind : TokenKind} (other : kind ≠ .name) (p : Position)
    (es : List Expr) : Plains (joined kind p es) := by
  cases es <;> simp [joined, other]

@[simp] lemma plains_compared (ops : List CompareOp) (es : List Expr) :
    Plains (compared ops es) := by
  have words (op : CompareOp) : Plains (op.words.map .token) := by
    cases op <;> simp [CompareOp.words]
  fun_induction compared ops es with
  | case1 op ops e es ih => simp [words, ih]
  | case2 => simp
  | case3 => simp

@[simp] lemma plains_after (s : Symbol) (p : Position) (o : Option Expr) :
    Plains (after s p o) := by
  cases o <;> simp [after]

@[simp] lemma plains_afterWord (k : Keyword) (p : Position) (o : Option Expr) :
    Plains (afterWord k p o) := by
  cases o <;> simp [afterWord]

@[simp] lemma plains_maybe (p : Position) (o : Option Expr) : Plains (maybe p o) := by
  simp [maybe]

@[simp] lemma plains_lines (ss : List Stmt) : Plains (lines ss) := by simp [lines]

@[simp] lemma plains_block (ss : List Stmt) : Plains (block ss) := by simp [block]

@[simp] lemma plains_blockAfter (k : Keyword) (ss : List Stmt) : Plains (blockAfter k ss) := by
  simp [blockAfter]

end Segment

open Segment (Plains)

@[simp] lemma Arg.plains_segments (a : Arg Expr) : Plains a.segments := by
  rw [segments]
  split <;> simp

@[simp] lemma Param.plains_segments (p : Param Expr) : Plains p.segments := by
  have kind : Plains p.kind.segments := by cases p.kind <;> simp [ParamKind.segments]
  simp [segments, kind]

@[simp] lemma Generator.plains_segments (g : Generator Expr) : Plains g.segments := by
  cases isAsync : g.isAsync <;> simp [segments, isAsync]

@[simp] lemma DictItem.plains_segments (item : DictItem Expr) : Plains item.segments := by
  rw [segments]
  split <;> simp

@[simp] lemma Alias.plains_segments (a : Alias) : Plains a.segments := by simp [segments]

@[simp] lemma WithItem.plains_segments (item : WithItem) : Plains item.segments := by
  simp [segments]

@[simp] lemma Handler.plains_segments (h : Handler Stmt) : Plains h.segments := by simp [segments]

/-- An expression that is no name and no formatted string is written in plain segments. -/
lemma Expr.plains_segments {e : Expr} (noName : e.asName = none) (noString : ¬ e.IsFormatted)
    (inner : Position) : Plains (e.segments inner) := by
  cases e with
  | name => nomatch noName
  | fstring => exact absurd trivial noString
  | constant _ kind => cases kind <;> simp [segments, ConstantKind.segment]
  | tuple _ _ _ parenthesized => cases parenthesized <;> simp [segments]
  | unary _ op => cases op <;> simp [segments, UnaryOp.word]
  | comprehension _ kind => cases kind <;> simp [segments, clauseSegments]
  | _ => simp [segments]

/-- Statements are written in plain segments. -/
lemma Stmt.plains_segments (s : Stmt) : Plains s.segments := by
  have async (isAsync : Bool) : Plains (asyncSegments isAsync) := by
    cases isAsync <;> simp [asyncSegments]
  have bases (bs : List (Arg Expr)) : Plains (baseSegments bs) := by
    cases bs <;> simp [baseSegments]
  cases s with
  | importFrom _ _ _ _ isStar => cases isStar <;> simp [segments]
  | _ => simp [segments, async, bases, decoratorSegments]

/-! ## Tokens in order -/

/-- Tokens that stand one behind the other. -/
structure InOrder (ts : List Token) : Prop where
  forward : ∀ t ∈ ts, t.span.start ≤ t.span.stop
  apart : ts.Pairwise fun a b => a.span.stop ≤ b.span.start

lemma TokensPlaced.inOrder {ts : List Token} (h : TokensPlaced source ts) : InOrder ts :=
  ⟨fun t ht => (h.each t ht).span.forward, h.apart⟩

lemma InOrder.sublist {ts ts' : List Token} (h : InOrder ts) (part : ts'.Sublist ts) :
    InOrder ts' := ⟨fun t ht => h.forward t (part.subset ht), h.apart.sublist part⟩

namespace Covers

variable {span : Span} {ts : List Token} {t : Token}

/-- The tokens that a span covers lie in it. -/
lemma contains (h : Covers span ts) (inOrder : InOrder ts) (ht : t ∈ ts)
    (takes : t.kind.takesSpace = true) : span.contains t.span = true := by
  refine Span.contains_iff.2 ⟨?_, ?_⟩
  · obtain ⟨first, is, starts⟩ := h.start
    rw [← starts]
    obtain ⟨others, rfl⟩ := List.head?_eq_some_iff.1 is
    rcases List.mem_cons.1 ht with rfl | ht
    · exact Nat.le_refl _
    · exact Nat.le_trans (inOrder.forward first List.mem_cons_self)
        (List.rel_of_pairwise_cons inOrder.apart ht)
  · obtain ⟨last, is, stops⟩ := Option.map_eq_some_iff.1 h.stop
    rw [← stops]
    obtain ⟨others, whole⟩ := List.getLast?_eq_some_iff.1 is
    have apart := inOrder.apart.filter (·.kind.takesSpace)
    have mem : t ∈ ts.filter (·.kind.takesSpace) := List.mem_filter.2 ⟨ht, takes⟩
    have final : last ∈ ts := List.mem_of_mem_filter (List.mem_of_getLast? is)
    rw [whole] at apart mem
    rcases List.mem_append.1 mem with mem | mem
    · exact Nat.le_trans ((List.pairwise_append.1 apart).2.2 t mem last (List.mem_singleton.2 rfl))
        (inOrder.forward last final)
    · rw [List.mem_singleton.1 mem]

/-- Other tokens lie outside of the span. -/
lemma apart {before after : List Token} (h : Covers span ts)
    (inOrder : InOrder (before ++ ts ++ after)) (ht : t ∈ before ++ ts ++ after) (other : t ∉ ts) :
    t.span.Apart span := by
  obtain ⟨front, -, behind⟩ := List.pairwise_append.1 inOrder.apart
  rcases List.mem_append.1 ht with ht | ht
  · rcases List.mem_append.1 ht with ht | ht
    · obtain ⟨first, is, starts⟩ := h.start
      exact .inl (starts ▸ (List.pairwise_append.1 front).2.2 t ht first (List.mem_of_mem_head? is))
    · exact absurd ht other
  · obtain ⟨last, mem, -, stops⟩ := exists_of_lastStop? h.stop
    exact .inr (stops ▸ behind last (List.mem_append_right _ mem) t ht)

end Covers

/-! ## Segments among tokens -/

/-- Of the segments that tokens spell, each is spelled by a stretch of them. -/
lemma Spelled.of_mem {xs : List Segment} {x : Segment} {ts : List Token}
    (h : Spelled source xs ts) (mem : x ∈ xs) : ∃ ts', ts' <:+: ts ∧ Spelled source [x] ts' := by
  obtain ⟨before, after, rfl⟩ := List.append_of_mem mem
  obtain ⟨front, back, rfl, -, h⟩ := h.split
  obtain ⟨here, rest, rfl, single, -⟩ := h.uncons
  exact ⟨here, ⟨front, rest, List.append_assoc _ _ _⟩, single⟩

/-- What the tokens of an expression spell inside the parentheses that it stands in, if any. -/
lemma Spelled.exists_segments {p : Position} {e : Expr} {ts : List Token}
    (h : Spelled source [.part p e] ts) :
    ∃ ts', ts' <:+: ts ∧ Spelled source (e.segments p.inner) ts' := by
  generalize same : [Segment.part p e] = xs at h
  induction h generalizing p e with
  | nil => nomatch same
  | leaf here =>
    obtain ⟨rfl, -⟩ := List.cons.inj same
    nomatch here
  | bare _ _ inside =>
    obtain ⟨is, -⟩ := List.cons.inj same
    obtain ⟨rfl, rfl⟩ := Segment.part.inj is
    exact ⟨_, (List.prefix_append _ _).isInfix, inside⟩
  | @paren _ _ e' _ opening closing ts ts' _ _ widened inside _ ih _ =>
    obtain ⟨is, -⟩ := List.cons.inj same
    obtain ⟨rfl, rfl⟩ := Segment.part.inj is
    obtain ⟨inner, stretch, spelled⟩ := ih rfl
    refine ⟨inner, stretch.trans ⟨[opening], closing :: ts', ?_⟩, ?_⟩
    · simp
    · rw [widened, Expr.segments_withSpan, Expr.segments_congr inside.not_bareTuple p.inner]
      exact spelled
  | field => nomatch same
  | stmt => nomatch same

lemma Spelled.exists_segments_stmt {s : Stmt} {ts : List Token} (h : Spelled source [.stmt s] ts) :
    ∃ ts', ts' <:+: ts ∧ Spelled source s.segments ts' := by
  cases h with
  | leaf here _ => nomatch here
  | stmt _ inside _ => exact ⟨_, (List.prefix_append _ _).isInfix, inside⟩

/-- Tokens have a stretch that spells an expression, as it is or in parentheses. -/
def HasStretch (source : List Char) (ts : List Token) (e : Expr) : Prop :=
  ∃ p ts', ts' <:+: ts ∧ Spelled source [.part p e] ts'

lemma HasStretch.mono {ts ts' : List Token} {e : Expr} (h : HasStretch source ts e)
    (within : ts <:+: ts') : HasStretch source ts' e := by
  obtain ⟨p, inner, stretch, spelled⟩ := h
  exact ⟨p, inner, stretch.trans within, spelled⟩

namespace Segment

variable {xs : List Segment}

/-- The nodes of plain segments are no fields. -/
lemma exists_part (plain : Plains xs) {e : Expr} (he : e ∈ (nodes xs).filterMap Node.expr?) :
    ∃ p, part p e ∈ xs := by
  obtain ⟨n, hn, is⟩ := List.mem_filterMap.1 he
  obtain ⟨x, hx, isNode⟩ := List.mem_filterMap.1 hn
  cases x with
  | part p d =>
    obtain rfl := Option.some.inj isNode
    obtain rfl := Option.some.inj is
    exact ⟨p, hx⟩
  | field => exact (plain _ hx).elim
  | stmt =>
    obtain rfl := Option.some.inj isNode
    nomatch is
  | _ => nomatch isNode

lemma stmt_mem {s : Stmt} (hs : s ∈ (nodes xs).filterMap Node.stmt?) : stmt s ∈ xs := by
  obtain ⟨n, hn, is⟩ := List.mem_filterMap.1 hs
  obtain ⟨x, hx, isNode⟩ := List.mem_filterMap.1 hn
  cases x with
  | stmt d =>
    obtain rfl := Option.some.inj isNode
    obtain rfl := Option.some.inj is
    exact hx
  | part | field =>
    obtain rfl := Option.some.inj isNode
    nomatch is
  | _ => nomatch isNode

end Segment

/-- What is directly inside an expression and outside of strings is a part of its written form. -/
lemma Expr.exists_part {e c : Expr} (hc : c ∈ e.unquotedChildren) (inner : Position) :
    ∃ p, .part p c ∈ e.segments inner := by
  cases name : e.asName with
  | some id =>
    cases e with
    | name => nomatch hc
    | _ => nomatch name
  | none =>
    by_cases string : e.IsFormatted
    · cases e with
      | fstring => nomatch hc
      | _ => exact absurd string id
    · refine Segment.exists_part (plains_segments name string inner) ?_
      rw [nodes_segments, Node.filterMap_expr?_reads]
      exact unquotedChildren_subset e hc

/-- An expression outside of strings stands among the tokens of what it is inside of. -/
theorem Spelled.hasStretch {e d : Expr} {p : Position} {ts : List Token}
    (h : Spelled source [.part p e] ts) (hd : d ∈ e.unquoted) : HasStretch source ts d := by
  induction e using Expr.unquotedBranching.induction generalizing p ts with
  | step e ih =>
    rcases Expr.unquotedBranching.mem_descendants.1 hd with rfl | ⟨c, hc, hd⟩
    · exact ⟨p, ts, List.infix_refl ts, h⟩
    · obtain ⟨inner, stretch, spelled⟩ := h.exists_segments
      obtain ⟨q, mem⟩ := Expr.exists_part hc p.inner
      obtain ⟨own, stretch', spelled⟩ := spelled.of_mem mem
      exact (ih c hc spelled hd).mono (stretch'.trans stretch)

/-- A statement stands among the tokens of what it is inside of. -/
theorem Spelled.stretch_stmt {s d : Stmt} {ts : List Token} (h : Spelled source [.stmt s] ts)
    (hd : d ∈ s.descendants) : ∃ ts', ts' <:+: ts ∧ Spelled source [.stmt d] ts' := by
  induction s using Stmt.branching.induction generalizing ts with
  | step s ih =>
    rcases Stmt.branching.mem_descendants.1 hd with rfl | ⟨c, hc, hd⟩
    · exact ⟨ts, List.infix_refl ts, h⟩
    · obtain ⟨-, children⟩ := s.nodes_segments
      obtain ⟨inner, stretch, inside⟩ := h.exists_segments_stmt
      change c ∈ s.children at hc
      obtain ⟨own, stretch', spelled⟩ := inside.of_mem (Segment.stmt_mem (children ▸ hc))
      obtain ⟨ts', stretch'', spelled⟩ := ih c hc spelled hd
      exact ⟨ts', stretch''.trans (stretch'.trans stretch), spelled⟩

/-- A statement of a module stands among the tokens of the text. -/
theorem exists_stretch_stmt {text : String} (valid : (parse text).problems = []) {s : Stmt}
    (hs : s ∈ (parse text).module.reachableStmts) :
    ∃ ts, ts <:+: (lex text).tokens ∧ Spelled text.toList [.stmt s] ts := by
  obtain ⟨all, ending, whole, -, spelled⟩ := parse_spelled valid
  obtain ⟨b, hb, hs⟩ := List.mem_flatMap.1 hs
  have line : Segment.stmt b ∈ Segment.gap :: Segment.lines (parse text).module.body :=
    List.mem_cons_of_mem _ (List.mem_flatMap.2 ⟨b, hb, List.mem_cons_self⟩)
  obtain ⟨own, stretch, spelled⟩ := spelled.of_mem line
  obtain ⟨ts, stretch', spelled⟩ := spelled.stretch_stmt hs
  refine ⟨ts, (stretch'.trans stretch).trans ?_, spelled⟩
  rw [whole]
  exact (List.prefix_append _ _).isInfix

/-- An expression of a module that is outside of strings stands among the tokens of the text. -/
theorem exists_stretch {text : String} (valid : (parse text).problems = []) {s : Stmt} {e d : Expr}
    (hs : s ∈ (parse text).module.reachableStmts) (he : e ∈ s.exprs) (hd : d ∈ e.unquoted) :
    HasStretch text.toList (lex text).tokens d := by
  obtain ⟨ts, stretch, spelled⟩ := exists_stretch_stmt valid hs
  obtain ⟨inner, stretch', inside⟩ := spelled.exists_segments_stmt
  obtain ⟨q, mem⟩ := Segment.exists_part s.plains_segments (s.nodes_segments.1 ▸ he)
  obtain ⟨own, stretch'', spelled⟩ := inside.of_mem mem
  exact (spelled.hasStretch hd).mono (stretch''.trans (stretch'.trans stretch))

end MethodLift.Syntax
