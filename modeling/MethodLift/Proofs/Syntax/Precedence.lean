import MethodLift.Proofs.Syntax.Computing
import MethodLift.Proofs.Syntax.SpelledStatements
import MethodLift.Proofs.Syntax.Stretches

/-!
# Operators bind as their table says

In the tree of a text without problems, an expression is read from a stretch of tokens, word by word
and symbol by symbol, and each of its operands either binds at least as tightly as its position
requires or stands in parentheses (`operators_bind`).  What is required in which position is told by
`Expr.segments`, how tightly an expression binds by `Expr.shape`.

An expression in a replacement field is read from tokens of its own, those of the part of the text
that the field holds (`Stream.field`).
-/

namespace MethodLift.Syntax

/-- Tokens that spell an expression in parentheses; its span includes them. -/
def Parenthesized (source : List Char) (e : Expr) (ts : List Token) : Prop :=
  ∃ opening closing inside d, ts = opening :: inside ++ [closing]
    ∧ opening.kind = .symbol .leftParen ∧ closing.kind = .symbol .rightParen
    ∧ e = d.withSpan ⟨opening.span.start, closing.span.stop⟩
    ∧ Spelled source [.part .enclosed d] inside

/-- Where an operand stands without parentheses, it is one that the position admits. -/
lemma Spelled.admits_or_parenthesized {source : List Char} {p : Position} {e : Expr}
    {ts : List Token} (h : Spelled source [.part p e] ts) :
    p.admits e.shape = true ∨ Parenthesized source e ts := by
  cases h with
  | leaf here _ => nomatch here
  | bare admits _ _ _ => exact .inl admits
  | @paren _ _ d _ opening closing inner _ opens closes widened inside rest =>
    rw [rest.eq_nil]
    exact .inr ⟨opening, closing, inner, d, rfl, opens, closes, widened, inside⟩

/-- The tokens that a text is read from: its own, and for each replacement field in its tree those
of the part of the text that the field holds, which spell the expression in the field. -/
inductive Stream (text : String) : List Token → Prop
  | whole : Stream text (lex text).tokens
  | field {f e : Expr} {span : Span} {ts : List Token} {ending : Token}
      (inTree : f ∈ (parse text).module.reachableExprs) (formatted : f.IsFormatted)
      (inField : e ∈ f.children)
      (tokens : (lexBracketed span.start (Text.slice text.toList span)).tokens = ts ++ [ending])
      (ends : ending.kind = .endOfFile) (spelled : Spelled text.toList [.part .value e] ts) :
      Stream text (ts ++ [ending])

/-- An expression in a position as it is read from some of the tokens of a text. -/
structure ReadFrom (text : String) (all : List Token) (e : Expr) (p : Position) (ts : List Token) :
    Prop where
  stream : Stream text all
  stretch : ts <:+: all
  covers : Covers e.span ts
  /-- Its words, symbols and operands in the order of the text. -/
  spelled : Spelled text.toList [.part p e] ts
  /-- Each operand is tight enough for its position, or in parentheses. -/
  operands : ∀ q d, .part q d ∈ e.segments p.inner → ∃ ts', ts' <:+: ts ∧ Covers d.span ts'
    ∧ (q.admits d.shape = true ∨ Parenthesized text.toList d ts')

variable {text : String} {e d : Expr} {p : Position} {all ts : List Token}

lemma Spelled.readFrom (h : Spelled text.toList [.part p e] ts) (stream : Stream text all)
    (stretch : ts <:+: all) : ReadFrom text all e p ts := by
  refine ⟨stream, stretch, h.covers_part, h, fun q d mem => ?_⟩
  obtain ⟨inner, within, inside⟩ := h.exists_segments
  obtain ⟨own, within', operand⟩ := inside.of_mem mem
  exact ⟨own, within'.trans within, operand.covers_part, operand.admits_or_parenthesized⟩

/-- The expression in a replacement field has a stream of its own. -/
lemma Spelled.exists_stream (h : Spelled text.toList [.part p e] ts)
    (inTree : e ∈ (parse text).module.reachableExprs) (formatted : e.IsFormatted)
    (hd : d ∈ e.children) : ∃ all' ts', Stream text all' ∧ ts' <:+: all'
      ∧ Spelled text.toList [.part .value d] ts' := by
  obtain ⟨inner, -, inside⟩ := h.exists_segments
  have mem : Segment.field d ∈ e.segments p.inner := by
    cases e with
    | fstring => exact List.mem_cons_of_mem _ (List.mem_map_of_mem hd)
    | _ => exact absurd formatted id
  obtain ⟨own, -, field⟩ := inside.of_mem mem
  cases field with
  | leaf here _ => nomatch here
  | field tokens ends spelled _ =>
    exact ⟨_, _, .field inTree formatted hd tokens ends spelled,
      (List.prefix_append _ _).isInfix, spelled⟩

/-- With an expression, everything inside it is read from the tokens of the text. -/
theorem Spelled.readFrom_descendants (h : Spelled text.toList [.part p e] ts)
    (stream : Stream text all) (stretch : ts <:+: all)
    (inTree : ∀ x ∈ e.descendants, x ∈ (parse text).module.reachableExprs)
    (hd : d ∈ e.descendants) : ∃ all p ts, ReadFrom text all d p ts := by
  induction e using Expr.branching.induction generalizing p all ts with
  | step e ih =>
    rcases Expr.branching.mem_descendants.1 hd with rfl | ⟨c, hc, hd⟩
    · exact ⟨all, p, ts, h.readFrom stream stretch⟩
    have inside : ∀ x ∈ c.descendants, x ∈ (parse text).module.reachableExprs := fun x hx =>
      inTree x (Expr.branching.mem_descendants.2 (.inr ⟨c, hc, hx⟩))
    by_cases formatted : e.IsFormatted
    · have here := inTree e (Expr.branching.mem_descendants.2 (.inl rfl))
      obtain ⟨all', ts', stream', stretch', spelled⟩ := h.exists_stream here formatted hc
      exact ih c hc spelled stream' stretch' inside hd
    · obtain ⟨inner, within, segments⟩ := h.exists_segments
      have unquoted : c ∈ e.unquotedChildren := by
        rw [Expr.unquotedChildren_of_not formatted]
        exact hc
      obtain ⟨q, mem⟩ := Expr.exists_part unquoted p.inner
      obtain ⟨own, within', spelled⟩ := segments.of_mem mem
      exact ih c hc spelled stream ((within'.trans within).trans stretch) inside hd

/-- In the tree of a text without problems every expression is read from tokens of the text, in
their order, and every operand of it binds at least as tightly as its position requires or stands in
parentheses. -/
theorem operators_bind {text : String} (valid : (parse text).problems = []) :
    ∀ e ∈ (parse text).module.reachableExprs, ∃ all p ts, ReadFrom text all e p ts := by
  intro e he
  obtain ⟨s, hs, he'⟩ := List.mem_flatMap.1 he
  obtain ⟨r, hr, he'⟩ := List.mem_flatMap.1 he'
  obtain ⟨p, ts, stretch, spelled⟩ := exists_stretch valid hs hr
    (Expr.unquotedBranching.mem_descendants.2 (.inl rfl))
  refine spelled.readFrom_descendants .whole stretch (fun x hx => ?_) he'
  exact List.mem_flatMap.2 ⟨s, hs, List.mem_flatMap.2 ⟨r, hr, hx⟩⟩

set_option maxRecDepth 100000 in
/-- A sum whose second term is a product, with a power under a sign and a sum in parentheses. -/
theorem sum_binds :
    let text := "a + b * -c ** (d + 1)\n"
    (parse text).problems = []
      ∧ ∀ e ∈ (parse text).module.reachableExprs, ∃ all p ts, ReadFrom text all e p ts := by
  intro text
  have valid : (parse text).problems = [] := by
    unfold text
    simp only [parseComputed.eq]
    decide +kernel
  exact ⟨valid, operators_bind valid⟩

end MethodLift.Syntax
