import MethodLift.Proofs.Syntax.Identifiers
import MethodLift.Proofs.Syntax.LineBreaks
import MethodLift.Proofs.Syntax.Nesting
import MethodLift.Proofs.Syntax.Parentheses
import MethodLift.Proofs.Text.Lines

/-!
# Statements that begin on a line of their own

A statement begins with a token that takes space (`Spelled.head_takesSpace`).  So if it is the first
thing on its line, that line does not begin before what stands in front of the statement has ended: a
compound statement ends on an earlier line (`stop_lt_lineStart`), and so does an import
(`import_stop_le_lineStart`); a function whose body the statement is in begins on one
(`start_lt_lineStart`), and no access to an attribute begins in the blanks (`access_beside`).
-/

namespace MethodLift.Syntax

variable {source : List Char} {text : String}

/-! ## First tokens -/

/-- An expression begins with a token that takes space. -/
lemma Expr.isSolid_of_head (e : Expr) (inner : Position) :
    ∀ x ∈ (e.segments inner).head?, x.isSolid = true := by
  intro x hx
  cases e with
  | constant _ kind =>
    obtain rfl := Option.some.inj hx
    cases kind <;> rfl
  | boolean _ _ values =>
    cases values with
    | nil => nomatch hx
    | cons =>
      obtain rfl := Option.some.inj hx
      rfl
  | tuple _ elements _ parenthesized =>
    cases parenthesized with
    | true =>
      obtain rfl := Option.some.inj hx
      rfl
    | false =>
      cases elements with
      | nil => nomatch hx
      | cons =>
        obtain rfl := Option.some.inj hx
        rfl
  | unary _ op =>
    obtain rfl := Option.some.inj hx
    cases op <;> rfl
  | comprehension _ kind =>
    cases kind <;> (obtain rfl := Option.some.inj hx; rfl)
  | slice _ lower =>
    cases lower <;> (obtain rfl := Option.some.inj hx; rfl)
  | missing => nomatch hx
  | _ =>
    obtain rfl := Option.some.inj hx
    rfl

lemma Stmt.isSolid_of_decorated {decorators : List Expr} {xs : List Segment} {x : Segment}
    (solid : ∀ x ∈ xs.head?, x.isSolid = true)
    (hx : x ∈ (decoratorSegments decorators ++ xs).head?) : x.isSolid = true := by
  cases decorators with
  | nil => exact solid x hx
  | cons =>
    obtain rfl := Option.some.inj hx
    rfl

/-- A statement begins with a token that takes space. -/
lemma Stmt.isSolid_of_head (s : Stmt) : ∀ x ∈ s.segments.head?, x.isSolid = true := by
  have async {isAsync : Bool} {k : Keyword} {xs : List Segment} :
      ∀ x ∈ (asyncSegments isAsync ++ Segment.word k :: xs).head?, x.isSolid = true := by
    intro x hx
    cases isAsync <;> (obtain rfl := Option.some.inj hx; rfl)
  intro x hx
  cases s with
  | functionDef d =>
    simp only [segments, List.append_assoc, List.cons_append] at hx
    exact isSolid_of_decorated async hx
  | classDef d =>
    rw [segments, List.append_assoc] at hx
    refine isSolid_of_decorated (fun x hx => ?_) hx
    obtain rfl := Option.some.inj hx
    rfl
  | assign _ targets => cases targets <;> (obtain rfl := Option.some.inj hx; rfl)
  | forLoop =>
    rw [segments, List.append_assoc] at hx
    exact async x hx
  | withBlock =>
    rw [segments, List.append_assoc] at hx
    exact async x hx
  | ifElse _ isElif =>
    obtain rfl := Option.some.inj hx
    cases isElif <;> rfl
  | error => cases hx
  | _ =>
    obtain rfl := Option.some.inj hx
    rfl

/-- What begins with a token that takes space is spelled so. -/
theorem Spelled.head_takesSpace {x : Segment} {xs : List Segment} {ts : List Token}
    (h : Spelled source (x :: xs) ts) (solid : x.isSolid = true) :
    ∃ t ∈ ts.head?, t.kind.takesSpace = true := by
  generalize same : x :: xs = ys at h
  -- a node begins where the first thing in it does
  have node {ys : List Segment} {ts : List Token} {span : Span} (covers : Covers span ts)
      (inside : Spelled source ys ts) (first : ∀ y ∈ ys.head?, y.isSolid = true)
      (ih : ∀ {y : Segment} {zs : List Segment}, y.isSolid = true → y :: zs = ys →
        ∃ t ∈ ts.head?, t.kind.takesSpace = true) : ∃ t ∈ ts.head?, t.kind.takesSpace = true := by
    cases ys with
    | nil =>
      obtain ⟨t, is, -⟩ := covers.start
      rw [inside.eq_nil] at is
      nomatch is
    | cons y zs => exact ih (first y rfl) rfl
  have behind {ts ts' : List Token} (here : ∃ t ∈ ts.head?, t.kind.takesSpace = true) :
      ∃ t ∈ (ts ++ ts').head?, t.kind.takesSpace = true := by
    obtain ⟨t, first, takes⟩ := here
    exact ⟨t, List.mem_head?_append_of_mem_head? first, takes⟩
  induction h generalizing x xs with
  | nil => nomatch same
  | @leaf _ _ ts _ here =>
    obtain ⟨rfl, rfl⟩ := List.cons.inj same
    refine behind ?_
    cases x with
    | token k =>
      obtain ⟨t, rfl, is⟩ := here
      exact ⟨t, rfl, is ▸ solid⟩
    | id | name =>
      obtain ⟨t, rfl, is, -⟩ := here
      exact ⟨t, rfl, is ▸ rfl⟩
    | strings =>
      obtain ⟨some, each, -⟩ := here
      obtain ⟨t, ts, rfl⟩ := List.exists_cons_of_ne_nil some
      refine ⟨t, rfl, ?_⟩
      rcases each t List.mem_cons_self with is | is <;> (rw [is]; rfl)
    | part | stmt => nomatch here
    | optional | path | dots | gap | field => nomatch solid
  | bare _ covers inside _ ih => exact behind (node covers inside (Expr.isSolid_of_head _ _) ih)
  | paren opens => exact ⟨_, rfl, opens ▸ rfl⟩
  | field =>
    obtain ⟨rfl, rfl⟩ := List.cons.inj same
    nomatch solid
  | stmt covers inside _ ih => exact behind (node covers inside (Stmt.isSolid_of_head _) ih)

/-! ## Last characters -/

/-- Whether tokens of a kind are words or symbols. -/
def TokenKind.isWordOrSymbol : TokenKind → Bool
  | .symbol _ => true
  | k => k.isWord

/-- A word or a symbol ends in a character that is not blank. -/
lemma exists_last_char {t : Token} (ht : t ∈ (lex text).tokens)
    (solid : t.kind.isWordOrSymbol = true) :
    ∃ c, (Text.slice text.toList t.span).getLast? = some c ∧ Text.isIndent c = false := by
  have ofWord (isWord : t.kind.isWord = true) :
      ∃ c, (Text.slice text.toList t.span).getLast? = some c ∧ Text.isIndent c = false := by
    obtain ⟨c, cs, spelled, start, later⟩ := (isWord_of_mem_lex ht isWord).spelled
    have slice : t.text = String.ofList (Text.slice text.toList t.span) := by
      rcases ((lex_placed text).tokens.each t ht).text with none | slice
      · rw [none] at spelled
        cases spelled
      · rw [slice, String.ofList_toList]
    rw [slice, String.toList_ofList] at spelled
    obtain ⟨d, last⟩ : ∃ d, (c :: cs).getLast? = some d :=
      ⟨_, List.getLast?_eq_some_getLast (List.cons_ne_nil c cs)⟩
    have wordChar : Text.isWordChar d = true := by
      rcases List.mem_cons.1 (List.mem_of_getLast? last) with rfl | mem
      · exact Text.isWordChar_of_isNameStart start
      · exact later d mem
    refine ⟨d, spelled ▸ last, Bool.eq_false_iff.2 fun blank => ?_⟩
    rw [Text.isIndent, Bool.or_eq_true, beq_iff_eq, beq_iff_eq] at blank
    rcases blank with rfl | rfl <;> simp [Text.isWordChar] at wordChar
  cases kind : t.kind with
  | symbol sign =>
    rw [Stream.whole.slice_symbol ht kind]
    cases sign <;> exact ⟨_, rfl, rfl⟩
  | name | keyword => exact ofWord (by rw [kind]; rfl)
  | _ =>
    rw [kind] at solid
    cases solid

/-- A segment of words and symbols. -/
def Segment.IsWords : Segment → Prop
  | token k => k.isWordOrSymbol = true
  | optional ks => ∀ k ∈ ks, k.isWordOrSymbol = true
  | name _ | path _ | dots _ => True
  | id _ | gap | strings _ | field _ | part _ _ | stmt _ => False

lemma IsPath.words {dotted : String} {ts : List Token} (h : IsPath dotted ts) :
    ∀ t ∈ ts, t.kind.isWordOrSymbol = true := by
  induction h with
  | one name => exact List.forall_mem_singleton.2 (name ▸ rfl)
  | more _ isDot name ih =>
    refine List.forall_mem_append.2 ⟨ih, List.forall_mem_cons.2 ⟨isDot ▸ rfl, ?_⟩⟩
    exact List.forall_mem_singleton.2 (name ▸ rfl)

lemma Segment.Leaf.words {x : Segment} {ts : List Token} (h : x.Leaf ts) (plain : x.IsWords) :
    ∀ t ∈ ts, t.kind.isWordOrSymbol = true := by
  cases x with
  | token k =>
    obtain ⟨t, rfl, rfl⟩ := h
    exact List.forall_mem_singleton.2 plain
  | optional ks =>
    rcases h with rfl | rfl
    · exact List.forall_mem_nil _
    · exact fun t ht => plain _ (List.mem_map_of_mem ht)
  | name ident =>
    obtain ⟨t, rfl, is, -⟩ := h
    exact List.forall_mem_singleton.2 (is ▸ rfl)
  | path dotted => exact IsPath.words h
  | dots level =>
    intro t ht
    rcases h.1 t ht with is | is <;> (rw [is]; rfl)
  | id | gap | strings | field | part | stmt => exact plain.elim

lemma Spelled.words {xs : List Segment} {ts : List Token} (h : Spelled source xs ts)
    (plain : ∀ x ∈ xs, x.IsWords) : ∀ t ∈ ts, t.kind.isWordOrSymbol = true := by
  induction h with
  | nil => exact List.forall_mem_nil _
  | leaf here _ ih =>
    obtain ⟨first, others⟩ := List.forall_mem_cons.1 plain
    exact List.forall_mem_append.2 ⟨here.words first, ih others⟩
  | bare | paren | field | stmt => exact (plain _ List.mem_cons_self).elim

/-- An import of names is written with words and symbols. -/
lemma Stmt.words_importFrom (mark : Mark) (module : Option String) (level : ℕ) (names : List Alias) :
    ∀ x ∈ (importFrom mark module level names false).segments, x.IsWords := by
  have ofName (a : Alias) : ∀ x ∈ a.segments, x.IsWords := by
    refine List.forall_mem_cons.2 ⟨trivial, fun x hx => ?_⟩
    obtain ⟨ident, -, hx⟩ := List.mem_flatMap.1 hx
    rcases List.mem_cons.1 hx with rfl | hx
    · exact rfl
    · exact List.mem_singleton.1 hx ▸ trivial
  have list (items : List Alias) : ∀ x ∈ Segment.list (items.map (·.segments)), x.IsWords := by
    cases items with
    | nil => exact List.forall_mem_nil _
    | cons first others =>
      refine List.forall_mem_append.2 ⟨List.forall_mem_append.2 ⟨ofName first, fun x hx => ?_⟩, ?_⟩
      · obtain ⟨_, mem, hx⟩ := List.mem_flatMap.1 hx
        obtain ⟨a, -, rfl⟩ := List.mem_map.1 mem
        exact (List.mem_cons.1 hx).elim (· ▸ rfl) (ofName a x)
      · exact List.forall_mem_singleton.2 (List.forall_mem_singleton.2 rfl)
  intro x hx
  simp only [segments, Bool.false_eq_true, if_false, List.cons_append, List.mem_cons,
    List.mem_append, List.mem_map, Option.mem_toList, List.not_mem_nil, or_false] at hx
  rcases hx with rfl | rfl | ⟨_, _, rfl⟩ | rfl | rfl | hx | rfl
  · rfl
  · trivial
  · trivial
  · rfl
  · exact List.forall_mem_singleton.2 rfl
  · exact list names x hx
  · exact List.forall_mem_singleton.2 rfl

/-! ## Lines -/

/-- A cut with only blanks in front of it on its line is on a later line than what stands in front of
a line break. -/
lemma Break.lt_lineStart {m n : ℕ} (h : Break source m n) (cut : Text.Boundary source n)
    (starts : Text.startsLine source n = true) : m < Text.lineStart source n := by
  obtain ⟨u, c, v, rfl, lineEnd, left, right⟩ := h
  obtain ⟨one, solid⟩ : Text.width [c] = 1 ∧ Text.isIndent c = false := by
    rw [isLineEnd, Bool.or_eq_true, beq_iff_eq, beq_iff_eq] at lineEnd
    rcases lineEnd with rfl | rfl <;> decide
  have mark := Text.slice_append u [c] v
  rw [Text.width_append, one, List.append_assoc, List.singleton_append] at mark
  rw [Text.width_append, Text.width_cons] at right
  rw [Text.width_cons, Text.width_nil] at one
  have line := cut.le_lineStart starts mark solid (by omega)
  omega

variable (valid : (parse text).problems = [])
include valid

/-- A statement begins with a token that takes space. -/
lemma exists_first_token {s : Stmt} (hs : s ∈ (parse text).module.reachableStmts) :
    ∃ t ∈ (lex text).tokens, t.kind.takesSpace = true ∧ t.span.start = s.span.start := by
  obtain ⟨ts, stretch, spelled⟩ := exists_stretch_stmt valid hs
  obtain ⟨t, first, takes⟩ := spelled.head_takesSpace rfl
  obtain ⟨t', first', starts⟩ := spelled.covers_stmt.start
  obtain rfl := Option.some.inj (first.symm.trans first')
  exact ⟨t, stretch.subset (List.mem_of_mem_head? first), takes, starts⟩

/-- A statement that is the first thing on its line is on a later line than a compound statement
that stands in front of it. -/
theorem stop_lt_lineStart {d s : Stmt} (hd : d ∈ (parse text).module.reachableStmts)
    (compound : d.isCompound = true) (hs : s ∈ (parse text).module.reachableStmts)
    (starts : Text.startsLine text.toList s.span.start = true) (behind : d.span.stop ≤ s.span.start) :
    d.span.stop < Text.lineStart text.toList s.span.start := by
  have laid := parse_laid valid
  obtain ⟨b, hb, inside⟩ := List.mem_flatMap.1 hd
  obtain ⟨before, own, after, lines⟩ := ((parse_lined valid b hb).descendant inside).here compound
  obtain ⟨first, mem, takes, begins⟩ := exists_first_token valid hs
  have nonempty := lexFrom_solid _ _ _ first mem takes
  have some : d.span.start < d.span.stop := (laid.node (Module.stmt_mem_nodes.2 hd)).here.nonempty
  have later : first ∈ after := by
    rw [lines.tokens] at mem
    refine (List.mem_append.1 mem).resolve_left fun early => ?_
    rcases List.mem_append.1 early with early | early
    · have := lines.earlier first early
      omega
    · have := (Span.contains_iff.1 (lines.within first early takes)).2
      omega
  obtain ⟨last, mem', takes', stops⟩ := lines.last
  have broken := lex_break lines.tokens lines.behind (List.mem_append_right _ mem') takes' later takes
  rw [stops, begins] at broken
  exact broken.lt_lineStart ((parse_sound text).1.stmts s hs).here.span.start starts

omit valid in
/-- Nothing is inside an import of names. -/
lemma Module.Laid.beside_import {m : Module} (laid : m.Laid) {mark : Mark} {module : Option String}
    {level : ℕ} {names : List Alias} {star : Bool}
    (hi : .importFrom mark module level names star ∈ m.reachableStmts) {n : Node} (hn : n ∈ m.nodes) :
    .stmt (.importFrom mark module level names star) ∈ n.all ∨ n.span.stop ≤ mark.span.start
      ∨ mark.span.stop ≤ n.span.start := by
  rcases laid.nested_or_apart hn (Module.stmt_mem_nodes.2 hi) with (inside | within) | apart
  · exact .inl inside
  · rcases Node.mem_all.1 within with rfl | ⟨c, hc, -⟩
    · exact .inl (Node.self_mem_all _)
    · cases hc
  · exact .inr apart

/-- A statement that is the first thing on its line is on a later line than an import of names that
stands in front of it ends on. -/
theorem import_stop_le_lineStart {mark : Mark} {module : Option String} {level : ℕ}
    {names : List Alias} {s : Stmt}
    (hi : .importFrom mark module level names false ∈ (parse text).module.reachableStmts)
    (hs : s ∈ (parse text).module.reachableStmts)
    (starts : Text.startsLine text.toList s.span.start = true)
    (behind : mark.span.stop ≤ s.span.start) :
    mark.span.stop ≤ Text.lineStart text.toList s.span.start := by
  obtain ⟨ts, stretch, spelled⟩ := exists_stretch_stmt valid hi
  cases spelled with
  | leaf here => nomatch here
  | stmt covers inside =>
    obtain ⟨t, ht, -, stop⟩ := exists_of_lastStop? covers.stop
    have solid := inside.words (Stmt.words_importFrom mark module level names) t ht
    obtain ⟨c, last, notBlank⟩ :=
      exists_last_char (stretch.subset (List.mem_append_left _ ht)) solid
    have cut := ((parse_sound text).1.stmts s hs).here.span.start
    change t.span.stop = mark.span.stop at stop
    rw [← stop] at behind ⊢
    exact cut.stop_le_lineStart starts last notBlank behind

/-- The parameters of a function stand in parentheses in front of its body. -/
lemma exists_parenthesis {d : FunctionDef Stmt}
    (hd : .functionDef d ∈ (parse text).module.reachableStmts) :
    ∃ q, d.mark.span.start ≤ q ∧ Text.slice text.toList ⟨q, q + 1⟩ = ['(']
      ∧ ∀ c ∈ d.body, q + 1 ≤ c.span.start := by
  obtain ⟨ts, stretch, spelled⟩ := exists_stretch_stmt valid hd
  have covers := spelled.covers_stmt
  obtain ⟨own, stretch', segments⟩ := spelled.exists_segments_stmt
  have shape : (Stmt.functionDef d).segments = (Stmt.decoratorSegments d.decorators
      ++ Stmt.asyncSegments d.isAsync ++ [.word .kDef, .name d.name]) ++ Segment.sign .leftParen
        :: (Segment.list (d.params.params.map (·.segments)) ++ Segment.sign .rightParen
        :: Segment.after .arrow (.operand 1) d.returns ++ Segment.block d.body) := by
    simp [Stmt.segments]
  rw [shape] at segments
  obtain ⟨front, _, rfl, -, behind⟩ := segments.split
  obtain ⟨_, back, rfl, single, rest⟩ := behind.uncons
  obtain ⟨opening, rfl, opens⟩ := single.leaf_of_single (by simp) (by simp) (by simp)
  have placed := (lex_placed text).tokens
  have mem : opening ∈ ts := stretch'.subset (by simp)
  have here := covers.contains (placed.inOrder.sublist stretch.sublist) mem (opens ▸ rfl)
  have mark := Stream.whole.slice_symbol (stretch.subset mem) opens
  have stop : opening.span.stop = opening.span.start + 1 :=
    Stream.whole.symbol_stop (stretch.subset mem) opens
  refine ⟨opening.span.start, (Span.contains_iff.1 here).1, stop ▸ mark, fun c hc => ?_⟩
  have listed : Segment.stmt c ∈ Segment.block d.body :=
    List.mem_cons_of_mem _ (List.mem_cons_of_mem _
      (List.mem_flatMap.2 ⟨c, hc, List.mem_cons_self⟩))
  obtain ⟨_, ⟨u, v, rfl⟩, spelled'⟩ := rest.of_mem (List.mem_append_right _ listed)
  obtain ⟨first, head, starts⟩ := spelled'.covers_stmt.start
  have inOrder := (placed.inOrder.sublist (stretch'.trans stretch).sublist).apart
  rw [← starts, ← stop]
  exact List.rel_of_pairwise_cons (List.pairwise_append.1 inOrder).2.1
    (by simp [List.mem_of_mem_head? head])

/-- The statements in the body of a function that are the first ones on their lines are behind the
line in which the function begins. -/
theorem start_lt_lineStart {d : FunctionDef Stmt} {s : Stmt}
    (hd : .functionDef d ∈ (parse text).module.reachableStmts)
    (inside : .stmt s ∈ (Node.stmt (.functionDef d)).all) (other : s ≠ .functionDef d)
    (starts : Text.startsLine text.toList s.span.start = true) :
    d.mark.span.start < Text.lineStart text.toList s.span.start := by
  have mem := Module.stmt_mem_nodes.2 hd
  have laid := (parse_laid valid).node mem
  obtain ⟨c, hc, begins⟩ : ∃ c ∈ d.body, c.span.start ≤ s.span.start := by
    rcases Node.mem_all.1 inside with same | ⟨n, hn, inside⟩
    · exact absurd (Node.stmt.inj same) other
    cases n with
    | stmt c =>
      have hc : c ∈ (Stmt.functionDef d).children := Node.mem_children_of_mem_ofStmt hn
      exact ⟨c, hc, ((laid.part hn).descendant inside).2.1⟩
    | read e =>
      obtain ⟨_, isExpr⟩ := Node.exists_expr?_of_mem_all (Node.expr?_read e) inside
      nomatch isExpr
    | target e =>
      obtain ⟨_, isExpr⟩ := Node.exists_expr?_of_mem_all (Node.expr?_target e) inside
      nomatch isExpr
  obtain ⟨q, start, mark, body⟩ := exists_parenthesis valid hd
  have hs : s ∈ (parse text).module.reachableStmts :=
    Module.stmt_mem_nodes.1 (Module.mem_nodes_of_mem_all mem inside)
  have cut := ((parse_sound text).1.stmts s hs).here.span.start
  have line := cut.le_lineStart starts mark rfl ((body c hc).trans begins)
  omega

/-- No access to an attribute begins in the blanks in front of a statement. -/
theorem access_beside {n : Node} {mark : Mark} {value : Expr} {member : Ident} {ctx : Context}
    {s : Stmt} (hn : n ∈ (parse text).module.nodes)
    (access : n.expr? = some (.attr mark value member ctx))
    (hs : s ∈ (parse text).module.reachableStmts)
    (starts : Text.startsLine text.toList s.span.start = true) :
    n.span.start < Text.lineStart text.toList s.span.start ∨ s.span.start ≤ n.span.start := by
  have laid := parse_laid valid
  have mem := Module.stmt_mem_nodes.2 hs
  rcases laid.nested_or_apart mem hn with (inside | around) | before | behind
  · exact .inr ((laid.node mem).descendant inside).2.1
  · obtain ⟨_, isExpr⟩ := Node.exists_expr?_of_mem_all access around
    nomatch isExpr
  · exact .inr ((laid.node mem).here.nonempty.le.trans before)
  · -- the dot is not blank
    have he : .attr mark value member ctx ∈ (parse text).module.reachableExprs :=
      Module.filterMap_expr?_nodes.mem_iff.1 (List.mem_filterMap.2 ⟨n, hn, access⟩)
    obtain ⟨all, p, ts, read⟩ := operators_bind valid _ he
    obtain ⟨own, stretch, segments⟩ := read.spelled.exists_segments
    obtain ⟨_, stretch', single⟩ := segments.of_mem (x := Segment.sign .dot)
      (List.mem_cons_of_mem _ List.mem_cons_self)
    obtain ⟨dot, rfl, is⟩ := single.leaf_of_single nofun nofun nofun
    have inside : dot ∈ ts := (stretch'.trans stretch).subset (List.mem_singleton_self dot)
    have inOrder := read.stream.placed.inOrder.sublist read.stretch.sublist
    have contains := Span.contains_iff.1 (read.covers.contains inOrder inside (is ▸ rfl))
    have mark := read.stream.slice_symbol (read.stretch.subset inside) is
    have stop : dot.span.stop = dot.span.start + 1 :=
      read.stream.symbol_stop (read.stretch.subset inside) is
    rw [← Node.span_of_expr? access] at contains
    rw [show dot.span = ⟨dot.span.start, dot.span.start + 1⟩ by rw [← stop]] at mark
    have cut := ((parse_sound text).1.stmts s hs).here.span.start
    have ends : n.span.stop ≤ s.span.start := behind
    have line := cut.le_lineStart starts mark rfl (by omega)
    omega

end MethodLift.Syntax
