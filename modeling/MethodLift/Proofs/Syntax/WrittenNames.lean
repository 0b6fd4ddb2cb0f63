import MethodLift.Proofs.Syntax.Containment
import MethodLift.Proofs.Syntax.Identifiers
import MethodLift.Proofs.Syntax.Stretches

/-!
# No name is lost

In the tree of a text without problems each name of the text is written down once: as an expression,
as the name of a definition, of an attribute, of a parameter and so on, or as a component of the
path of an import (`names_kept`).  And apart from the layout, the end of the text and semicolons,
every token is in one statement of the module's body.

The names in replacement fields are no tokens of the text, since a string is one token with all that
is in it.  They are left out, and where they are is no name (`Module.Keeps.quoted`).

That names and tokens agree follows from how nodes are written, segment by segment: `Accounted` says
it of some names and some tokens.  The tree lists its names in another order than the text (the
paths of an import stand apart from the names that it gives), so they agree up to a permutation.
-/

namespace MethodLift.Syntax

variable {source : List Char}

/-! ## The names of a tree -/

/-- A place in a tree where a name is written down. -/
inductive NameUse
  /-- A name that is an expression. -/
  | expr (e : Expr)
  /-- The name of a definition, an attribute, a parameter, an argument, an imported thing, a caught
  exception, or a variable of another scope. -/
  | ident (i : Ident)
  /-- A component of a dotted path in an import. -/
  | component (import_ : Stmt) (text : String)

/-- A name in a tree is the one that a token is, at the place where the token is.  Parentheses around
a name belong to the expression, and the path of an import has no place of its own. -/
def NameUse.At : NameUse → Token → Prop
  | expr e, t => e.asName = some t.text ∧ e.span.contains t.span = true
  | ident i, t => i = ⟨t.text, t.span⟩
  | component s text, t => text = t.text ∧ s.span.contains t.span = true

/-- The names in a dotted path. -/
def components (dotted : String) : List String := (dotted.toList.splitOn '.').map String.ofList

/-- The names that an expression writes down itself. -/
def Expr.ownNames (e : Expr) : List NameUse :=
  match e.asName with
  | some _ => [.expr e]
  | none => e.idents.map .ident

/-- The names in an expression outside of strings. -/
def Expr.nameUses (e : Expr) : List NameUse := e.unquoted.flatMap ownNames

/-- The dotted paths in an import. -/
def Stmt.paths : Stmt → List String
  | importModules _ names => names.map (·.name)
  | importFrom _ module _ names _ => module.toList ++ names.map (·.name)
  | _ => []

/-- The names that a statement writes down itself. -/
def Stmt.ownNames (s : Stmt) : List NameUse :=
  s.idents.map .ident ++ (s.paths.flatMap components).map (.component s)

/-- The names in a statement outside of strings. -/
def Stmt.nameUses (s : Stmt) : List NameUse :=
  s.descendants.flatMap fun d => d.ownNames ++ d.exprs.flatMap Expr.nameUses

/-- The names in a module outside of strings. -/
def Module.nameUses (m : Module) : List NameUse :=
  m.reachableStmts.flatMap fun s => s.ownNames ++ s.exprs.flatMap Expr.nameUses

lemma Module.nameUses_eq (m : Module) : m.nameUses = m.body.flatMap Stmt.nameUses :=
  List.flatMap_assoc

lemma Expr.nameUses_eq (e : Expr) :
    e.nameUses = e.ownNames ++ e.unquotedChildren.flatMap nameUses := by
  rw [nameUses, unquoted_eq, List.flatMap_cons, List.flatMap_assoc]
  rfl

lemma Stmt.nameUses_eq (s : Stmt) : s.nameUses
    = s.ownNames ++ s.exprs.flatMap Expr.nameUses ++ s.children.flatMap nameUses := by
  rw [nameUses, descendants_eq, List.flatMap_cons, List.flatMap_assoc]
  rfl

lemma Expr.nameUses_name (mark : Mark) (id : String) (ctx : Context) :
    (name mark id ctx).nameUses = [.expr (.name mark id ctx)] := by
  rw [nameUses_eq]
  rfl

/-- An expression that is no name has the same names in parentheses. -/
lemma Expr.nameUses_withSpan {e : Expr} (noName : e.asName = none) (span : Span) :
    (e.withSpan span).nameUses = e.nameUses := by
  have children : (e.withSpan span).unquotedChildren = e.unquotedChildren := by cases e <;> rfl
  have own : (e.withSpan span).ownNames = e.ownNames := by
    cases e with
    | name => nomatch noName
    | _ => rfl
  rw [nameUses_eq, nameUses_eq, children, own]

/-! ## The names of segments -/

namespace Segment

/-- The names in a segment of the written form of a statement or of what is inside it. -/
def nameUses (owner : Stmt) : Segment → List NameUse
  | name i => [.ident i]
  | path dotted => (components dotted).map (.component owner)
  | part _ e => e.nameUses
  | stmt s => s.nameUses
  | _ => []

/-- The names that segments write down themselves. -/
def written (owner : Stmt) (xs : List Segment) : List NameUse :=
  xs.flatMap fun
    | name i => [.ident i]
    | path dotted => (components dotted).map (.component owner)
    | _ => []

variable {α : Type} {owner : Stmt}

@[simp] lemma written_nil : written owner [] = [] := rfl
@[simp] lemma written_append (xs ys : List Segment) :
    written owner (xs ++ ys) = written owner xs ++ written owner ys := List.flatMap_append
@[simp] lemma written_token (k : TokenKind) (xs : List Segment) :
    written owner (.token k :: xs) = written owner xs := rfl
@[simp] lemma written_optional (ks : List TokenKind) (xs : List Segment) :
    written owner (.optional ks :: xs) = written owner xs := rfl
@[simp] lemma written_name (i : Ident) (xs : List Segment) :
    written owner (.name i :: xs) = .ident i :: written owner xs := rfl
@[simp] lemma written_path (dotted : String) (xs : List Segment) :
    written owner (.path dotted :: xs)
      = (components dotted).map (.component owner) ++ written owner xs := rfl
@[simp] lemma written_dots (level : ℕ) (xs : List Segment) :
    written owner (.dots level :: xs) = written owner xs := rfl
@[simp] lemma written_gap (xs : List Segment) :
    written owner (.gap :: xs) = written owner xs := rfl
@[simp] lemma written_strings (kind : Option ConstantKind) (xs : List Segment) :
    written owner (.strings kind :: xs) = written owner xs := rfl
@[simp] lemma written_part (p : Position) (e : Expr) (xs : List Segment) :
    written owner (.part p e :: xs) = written owner xs := rfl
@[simp] lemma written_stmt (s : Stmt) (xs : List Segment) :
    written owner (.stmt s :: xs) = written owner xs := rfl

lemma written_flatMap (as : List α) (f : α → List Segment) :
    written owner (as.flatMap f) = as.flatMap fun a => written owner (f a) := List.flatMap_assoc

@[simp] lemma written_map_part (p : Position) (es : List Expr) :
    written owner (es.map (.part p)) = [] := by
  simp [written, List.flatMap_map]

@[simp] lemma written_list (items : List (List Segment)) :
    written owner (list items) = items.flatMap (written owner) := by
  cases items with
  | nil => rfl
  | cons item items => simp [list, written_flatMap]

@[simp] lemma written_parts (p : Position) (es : List Expr) : written owner (parts p es) = [] := by
  simp [parts, List.flatMap_map]

@[simp] lemma written_joined (kind : TokenKind) (p : Position) (es : List Expr) :
    written owner (joined kind p es) = [] := by
  cases es <;> simp [joined, written_flatMap]

@[simp] lemma written_compared (ops : List CompareOp) (es : List Expr) :
    written owner (compared ops es) = [] := by
  fun_induction compared ops es with
  | case1 op ops e es ih => cases op <;> simp [CompareOp.words, ih]
  | case2 => simp
  | case3 => rfl

@[simp] lemma written_after (s : Symbol) (p : Position) (o : Option Expr) :
    written owner (after s p o) = [] := by
  cases o <;> rfl

@[simp] lemma written_afterWord (k : Keyword) (p : Position) (o : Option Expr) :
    written owner (afterWord k p o) = [] := by
  cases o <;> rfl

@[simp] lemma written_maybe (p : Position) (o : Option Expr) :
    written owner (maybe p o) = [] := written_map_part _ _

@[simp] lemma written_block (ss : List Stmt) : written owner (block ss) = [] := by
  simp [block, lines, written_flatMap]

@[simp] lemma written_blockAfter (k : Keyword) (ss : List Stmt) :
    written owner (blockAfter k ss) = [] := by
  simp [blockAfter, lines, written_flatMap]

end Segment

open Segment (written)

section

variable {owner : Stmt}

@[simp] lemma Arg.written_segments (a : Arg Expr) :
    written owner a.segments = a.kind.ident?.toList.map .ident := by
  unfold segments ArgKind.ident?
  cases a.kind <;> rfl

@[simp] lemma Param.written_segments (p : Param Expr) :
    written owner p.segments = p.name.toList.map .ident := by
  have kind : written owner p.kind.segments = [] := by cases p.kind <;> rfl
  cases name : p.name <;> simp [segments, kind, name]

@[simp] lemma Generator.written_segments (g : Generator Expr) :
    written owner g.segments = [] := by
  cases isAsync : g.isAsync <;> simp [segments, isAsync, Segment.written_flatMap]

@[simp] lemma DictItem.written_segments (item : DictItem Expr) :
    written owner item.segments = [] := by
  unfold segments
  split <;> rfl

@[simp] lemma WithItem.written_segments (item : WithItem) :
    written owner item.segments = [] := by simp [segments]

@[simp] lemma Alias.ownNames_segments (a : Alias) : written owner a.segments
    = (components a.name).map (.component owner) ++ a.asname.toList.map .ident := by
  cases asname : a.asname <;> simp [segments, asname]

@[simp] lemma Handler.written_segments (h : Handler Stmt) :
    written owner h.segments = h.name.toList.map .ident := by
  cases name : h.name <;> simp [segments, name]

end

/-- The names in the written form of an expression are those that it writes down itself. -/
lemma Expr.written_segments {e : Expr} (noName : e.asName = none) (owner : Stmt)
    (inner : Position) : written owner (e.segments inner) = e.ownNames := by
  rw [ownNames, noName]
  cases e with
  | name => nomatch noName
  | fstring => simp [segments, idents, Segment.written, List.flatMap_map]
  | constant _ kind => cases kind <;> rfl
  | call | lambda =>
    simp [segments, idents, Parameters.names, List.flatMap_map, List.filterMap_eq_flatMap_toList,
      List.map_flatMap]
  | tuple _ _ _ parenthesized => cases parenthesized <;> simp [segments, idents]
  | comprehension _ kind =>
    cases kind <;> simp [segments, clauseSegments, idents, Segment.written_flatMap]
  | _ => simp [segments, idents, List.flatMap_map]

/-- The same of statements, in another order. -/
lemma Stmt.written_segments (s : Stmt) : (written s s.segments).Perm s.ownNames := by
  have decorators (es : List Expr) : Segment.written s (decoratorSegments es) = [] := by
    simp [decoratorSegments, Segment.written_flatMap]
  have async (isAsync : Bool) : Segment.written s (asyncSegments isAsync) = [] := by
    cases isAsync <;> rfl
  have aliases (as : List Alias) : (written s (Segment.list (as.map (·.segments)))).Perm
      ((as.filterMap (·.asname)).map .ident
        ++ ((as.map (·.name)).flatMap components).map (.component s)) := by
    have apart := List.flatMap_append_perm as
      (fun a => (components a.name).map (NameUse.component s)) fun a => a.asname.toList.map .ident
    have swapped := apart.symm.trans List.perm_append_comm
    simpa [List.flatMap_map, List.map_flatMap, List.filterMap_eq_flatMap_toList] using swapped
  have names (is : List Ident) : is.flatMap (fun i => [NameUse.ident i]) = is.map .ident :=
    List.map_eq_flatMap.symm
  rw [ownNames]
  cases s with
  | functionDef d =>
    simp [segments, decorators, async, idents, paths, Parameters.names, List.flatMap_map,
      List.filterMap_eq_flatMap_toList, List.map_flatMap]
  | classDef d =>
    have bases : written (.classDef d) (baseSegments d.bases)
        = (d.bases.filterMap (·.kind.ident?)).map .ident := by
      cases d.bases <;>
        simp [baseSegments, List.flatMap_map, List.filterMap_eq_flatMap_toList, List.map_flatMap]
    simp [segments, decorators, bases, idents, paths]
  | tryBlock =>
    simp [segments, idents, paths, Segment.written_flatMap, List.filterMap_eq_flatMap_toList,
      List.map_flatMap]
  | importModules => simpa [segments, idents, paths] using aliases _
  | importFrom m module level as isStar =>
    have paths (o : Option String) (s : Stmt) : written s (o.toList.map .path)
        = (o.toList.flatMap components).map (.component s) := by
      cases o <;> simp
    have behind := ((aliases as).append_left ((module.toList.flatMap components).map
      (.component (.importFrom m module level as isStar)))).trans
        (List.perm_append_comm_assoc _ _ _)
    cases isStar <;> simpa [segments, idents, Stmt.paths, paths] using behind
  | global | nonlocal => simp [segments, idents, paths, List.flatMap_map, names]
  | _ => simp [segments, idents, paths, async, List.flatMap_map, Segment.written_flatMap]

/-- The names in plain segments, and in what they hold. -/
lemma Segment.nameUses_perm {owner : Stmt} {xs : List Segment} (plain : Segment.Plains xs) :
    (xs.flatMap (nameUses owner)).Perm (written owner xs
      ++ (((nodes xs).filterMap Node.expr?).flatMap Expr.nameUses
        ++ ((nodes xs).filterMap Node.stmt?).flatMap Stmt.nameUses)) := by
  induction xs with
  | nil => exact .refl _
  | cons x xs ih =>
    obtain ⟨here, rest⟩ := Segment.plains_cons.1 plain
    rw [List.flatMap_cons]
    cases x with
    | id | field => exact here.elim
    | name i => exact (ih rest).cons (.ident i)
    | path =>
      rw [written_path, List.append_assoc]
      exact (ih rest).append_left _
    | part p e =>
      refine ((ih rest).append_left e.nameUses).trans ?_
      simp only [written_part, nodes_part, List.filterMap_cons_some (Node.expr?_read e),
        List.filterMap_cons_none (Node.stmt?_read e), List.flatMap_cons, List.append_assoc]
      exact List.perm_append_comm_assoc _ _ _
    | stmt s =>
      refine ((ih rest).append_left s.nameUses).trans ?_
      simp only [written_stmt, nodes_stmt, List.filterMap_cons_none (Node.expr?_stmt s),
        List.filterMap_cons_some (Node.stmt?_stmt s), List.flatMap_cons]
      refine (List.perm_append_comm_assoc _ _ _).trans (List.Perm.append_left _ ?_)
      exact List.perm_append_comm_assoc _ _ _
    | _ => exact ih rest

/-! ## Names and tokens -/

/-- The tokens that are names. -/
def nameTokens (ts : List Token) : List Token := ts.filter (·.kind == .name)

@[simp] lemma nameTokens_append (ts ts' : List Token) :
    nameTokens (ts ++ ts') = nameTokens ts ++ nameTokens ts' := List.filter_append ts ts'

lemma mem_nameTokens {ts : List Token} {t : Token} :
    t ∈ nameTokens ts ↔ t ∈ ts ∧ t.kind = .name := by
  rw [nameTokens, List.mem_filter, beq_iff_eq]

lemma nameTokens_eq_nil {ts : List Token} (h : ∀ t ∈ ts, t.kind ≠ .name) : nameTokens ts = [] :=
  List.filter_eq_nil_iff.2 fun t ht => by simpa using h t ht

/-- The names are those of the tokens, each once. -/
def Accounted (us : List NameUse) (ts : List Token) : Prop :=
  ∃ us' : List NameUse, us'.Perm us ∧ List.Forall₂ NameUse.At us' (nameTokens ts)

namespace Accounted

variable {us vs : List NameUse} {ts ts' : List Token}

lemma nil (h : ∀ t ∈ ts, t.kind ≠ .name) : Accounted [] ts :=
  ⟨[], .refl _, by rw [nameTokens_eq_nil h]; exact .nil⟩

lemma perm (h : Accounted us ts) (same : us.Perm vs) : Accounted vs ts := by
  obtain ⟨us', perm, at_⟩ := h
  exact ⟨us', perm.trans same, at_⟩

lemma append (h : Accounted us ts) (h' : Accounted vs ts') : Accounted (us ++ vs) (ts ++ ts') := by
  obtain ⟨us', perm, at_⟩ := h
  obtain ⟨vs', perm', at'⟩ := h'
  exact ⟨us' ++ vs', perm.append perm', by rw [nameTokens_append]; exact List.rel_append at_ at'⟩

lemma single {u : NameUse} {t : Token} (name : t.kind = .name) (here : u.At t) :
    Accounted [u] [t] := by
  refine ⟨[u], .refl _, ?_⟩
  rw [nameTokens, List.filter_singleton, name]
  exact .cons here .nil

end Accounted

/-- Tokens in a statement: they stand one behind the other, the names among them stand in the
statement, and no name has a dot in it. -/
structure TokensOf (owner : Stmt) (ts : List Token) : Prop where
  inOrder : InOrder ts
  within : ∀ t ∈ nameTokens ts, owner.span.contains t.span = true
  undotted : ∀ t ∈ nameTokens ts, '.' ∉ t.text.toList

lemma TokensOf.sublist {owner : Stmt} {ts ts' : List Token} (h : TokensOf owner ts)
    (part : ts'.Sublist ts) : TokensOf owner ts' := by
  have names : (nameTokens ts').Sublist (nameTokens ts) := part.filter _
  exact ⟨h.inOrder.sublist part, fun t ht => h.within t (names.subset ht),
    fun t ht => h.undotted t (names.subset ht)⟩

/-- The tokens that a statement covers are tokens in it. -/
lemma Covers.tokensOf {s : Stmt} {ts : List Token} (h : Covers s.span ts) (inOrder : InOrder ts)
    (undotted : ∀ t ∈ nameTokens ts, '.' ∉ t.text.toList) : TokensOf s ts := by
  refine ⟨inOrder, fun t ht => ?_, undotted⟩
  obtain ⟨mem, name⟩ := mem_nameTokens.1 ht
  exact h.contains inOrder mem (by rw [name]; rfl)

/-! ## Names of dotted paths -/

lemma components_of_not_mem {name : String} (h : '.' ∉ name.toList) : components name = [name] := by
  rw [components, List.splitOn_eq_singleton h, List.map_singleton, String.ofList_toList]

lemma components_append {path name : String} (h : '.' ∉ name.toList) :
    components (path ++ ("." ++ name)) = components path ++ [name] := by
  have parts : (path ++ ("." ++ name)).toList = path.toList ++ '.' :: name.toList := by simp
  rw [components, parts, List.splitOn_append_cons_self, List.splitOn_eq_singleton h,
    List.map_append, List.map_singleton, String.ofList_toList]
  rfl

/-- The components of a path are the names that it was read from. -/
lemma IsPath.accounted {dotted : String} {ts : List Token} {owner : Stmt} (h : IsPath dotted ts)
    (tokens : TokensOf owner ts) : Accounted ((components dotted).map (.component owner)) ts := by
  have one {ts : List Token} {t : Token} (tokens : TokensOf owner ts) (name : t.kind = .name)
      (ht : t ∈ ts) : Accounted [.component owner t.text] [t] :=
    .single name ⟨rfl, tokens.within t (mem_nameTokens.2 ⟨ht, name⟩)⟩
  induction h with
  | @one t name =>
    have here := List.mem_singleton.2 (rfl : t = t)
    rw [components_of_not_mem (tokens.undotted t (mem_nameTokens.2 ⟨here, name⟩))]
    exact one tokens name here
  | @more path ts dot t front isDot name ih =>
    have last : t ∈ ts ++ [dot, t] := by simp
    rw [components_append (tokens.undotted t (mem_nameTokens.2 ⟨last, name⟩)), List.map_append]
    have silent : Accounted [] [dot] :=
      .nil (List.forall_mem_singleton.2 (by rw [isDot]; nofun))
    exact (ih (tokens.sublist (List.sublist_append_left _ _))).append
      (silent.append (one tokens name last))

/-! ## Names of nodes -/

/-- Tokens that are no names. -/
lemma Accounted.silent {ts : List Token} {k k' : TokenKind}
    (kinds : ∀ t ∈ ts, t.kind = k ∨ t.kind = k') (ne : k ≠ .name) (ne' : k' ≠ .name) :
    Accounted [] ts :=
  .nil fun t ht is => (kinds t ht).elim (fun kind => ne (kind ▸ is)) fun kind => ne' (kind ▸ is)

/-- Between statements there are no names. -/
lemma Accounted.gap {ts : List Token} (h : Segment.gap.Leaf ts) : Accounted [] ts := by
  refine .nil fun t ht is => ?_
  have kind := h t ht
  rw [is] at kind
  rcases kind with kind | kind <;> nomatch kind

/-- The names of a segment without a node are those of its tokens. -/
lemma Segment.Leaf.accounted {x : Segment} {ts : List Token} {owner : Stmt} (h : x.Leaf ts)
    (plain : x.Plain) (tokens : TokensOf owner ts) : Accounted (x.nameUses owner) ts := by
  cases x with
  | token k =>
    obtain ⟨t, rfl, rfl⟩ := h
    exact .nil (List.forall_mem_singleton.2 plain)
  | optional ks =>
    rcases h with rfl | rfl
    · exact .nil (List.forall_mem_nil _)
    · exact .nil fun t ht is => plain (is ▸ List.mem_map_of_mem (f := (·.kind)) ht)
  | name i =>
    obtain ⟨t, rfl, name, is⟩ := h
    exact .single name is
  | path => exact IsPath.accounted h tokens
  | dots => exact .silent h.1 nofun nofun
  | gap => exact .gap h
  | strings => exact .silent h.2.1 nofun nofun
  | id | field => exact plain.elim
  | part | stmt => exact h.elim

/-- Replacement fields have no tokens of their own. -/
lemma Spelled.fields {values : List Expr} {ts : List Token}
    (h : Spelled source (values.map .field) ts) : ts = [] := by
  induction values generalizing ts with
  | nil => exact h.eq_nil
  | cons value values ih =>
    cases h with
    | leaf here _ => exact here.elim
    | field _ _ _ rest => exact ih rest

/-- The tokens of a formatted string are strings. -/
lemma Spelled.strings {values : List Expr} {ts : List Token}
    (h : Spelled source (.strings none :: values.map .field) ts) :
    ∀ t ∈ ts, t.kind = .string ∨ t.kind = .fstring := by
  cases h with
  | leaf here rest =>
    rw [rest.fields, List.append_nil]
    exact here.2.1

/-- The same with parentheses around it. -/
lemma Spelled.formatted {p : Position} {e : Expr} {ts : List Token}
    (h : Spelled source [.part p e] ts) (formatted : e.IsFormatted) : ∀ t ∈ ts, t.kind ≠ .name := by
  generalize same : [Segment.part p e] = xs at h
  induction h generalizing p e with
  | nil => nomatch same
  | leaf here =>
    obtain ⟨rfl, -⟩ := List.cons.inj same
    nomatch here
  | bare _ _ inside rest =>
    obtain ⟨is, rfl⟩ := List.cons.inj same
    obtain ⟨rfl, rfl⟩ := Segment.part.inj is
    rw [rest.eq_nil, List.append_nil]
    cases e with
    | fstring =>
      intro t ht name
      have kind := inside.strings t ht
      rw [name] at kind
      rcases kind with kind | kind <;> nomatch kind
    | _ => exact absurd formatted id
  | @paren _ _ d _ opening closing ts ts' opens closes widened inside rest ih _ =>
    obtain ⟨is, rfl⟩ := List.cons.inj same
    obtain ⟨rfl, rfl⟩ := Segment.part.inj is
    have inner : d.IsFormatted := by
      rw [widened] at formatted
      cases d <;> first | exact trivial | exact absurd formatted id
    rw [rest.eq_nil]
    refine List.forall_mem_append.2 ⟨List.forall_mem_cons.2 ⟨?_, ih inner rfl⟩,
      List.forall_mem_singleton.2 ?_⟩
    · rw [opens]
      nofun
    · rw [closes]
      nofun
  | field => nomatch same
  | stmt => nomatch same

/-- Parentheses add no name; a name that is an expression is one with them. -/
lemma Accounted.paren {e : Expr} {opening closing : Token} {ts : List Token}
    (h : Accounted e.nameUses ts) (opens : opening.kind ≠ .name) (closes : closing.kind ≠ .name)
    (inOrder : InOrder (opening :: ts ++ [closing])) :
    Accounted (e.withSpan ⟨opening.span.start, closing.span.stop⟩).nameUses
      (opening :: ts ++ [closing]) := by
  have tokens : nameTokens (opening :: ts ++ [closing]) = nameTokens ts := by
    rw [List.cons_append, ← List.singleton_append, nameTokens_append, nameTokens_append,
      nameTokens_eq_nil (List.forall_mem_singleton.2 opens),
      nameTokens_eq_nil (List.forall_mem_singleton.2 closes), List.nil_append, List.append_nil]
  obtain ⟨us, perm, at_⟩ := h
  cases name : e.asName with
  | none =>
    rw [Expr.nameUses_withSpan name]
    exact ⟨us, perm, by rw [tokens]; exact at_⟩
  | some id =>
    cases e with
    | name mark id ctx =>
      rw [Expr.nameUses_name] at perm
      obtain rfl := List.perm_singleton.1 perm
      obtain ⟨t, ts', here, none, names⟩ := List.forall₂_cons_left_iff.1 at_
      obtain rfl := List.forall₂_nil_left_iff.1 none
      have mem : t ∈ ts := (mem_nameTokens.1 (names ▸ List.mem_singleton.2 rfl)).1
      have behind := List.rel_of_pairwise_cons inOrder.apart (List.mem_append_left _ mem)
      have before := (List.pairwise_append.1 inOrder.apart).2.2 t (List.mem_cons_of_mem _ mem)
        closing (List.mem_singleton.2 rfl)
      have first := inOrder.forward opening List.mem_cons_self
      have last := inOrder.forward closing (List.mem_append_right _ (List.mem_singleton.2 rfl))
      have around : Span.contains ⟨opening.span.start, closing.span.stop⟩ t.span = true :=
        Span.contains_iff.2 ⟨first.trans behind, before.trans last⟩
      refine ⟨[.expr (.name { mark with span := ⟨opening.span.start, closing.span.stop⟩ } id ctx)],
        .of_eq (Expr.nameUses_name _ id ctx).symm, ?_⟩
      rw [tokens, names]
      exact .cons ⟨here.1, around⟩ .nil
    | _ => nomatch name

/-- An expression that stands without parentheses: a name is one token, a formatted string has no
names of its own, and any other expression has the names in its written form. -/
lemma accounted_bare {e : Expr} {inner : Position} {ts : List Token} {owner : Stmt}
    (covers : Covers e.span ts) (inside : Spelled source (e.segments inner) ts)
    (tokens : TokensOf owner ts) (byForm : Segment.Plains (e.segments inner) →
      Accounted ((e.segments inner).flatMap (Segment.nameUses owner)) ts) :
    Accounted e.nameUses ts := by
  cases name : e.asName with
  | some id =>
    cases e with
    | name mark id ctx =>
      obtain ⟨t, rfl, name, text⟩ := inside.leaf_of_single nofun nofun nofun
      have around := covers.contains tokens.inOrder (List.mem_singleton.2 rfl) (by rw [name]; rfl)
      rw [Expr.nameUses_name]
      exact .single name ⟨congrArg some text.symm, around⟩
    | _ => nomatch name
  | none =>
    by_cases formatted : e.IsFormatted
    · cases e with
      | fstring mark values =>
        rw [Expr.nameUses_eq]
        exact .silent inside.strings nofun nofun
      | _ => exact absurd formatted id
    · have plain := Expr.plains_segments name formatted inner
      refine (byForm plain).perm ((Segment.nameUses_perm plain).trans ?_)
      rw [Expr.written_segments name, Expr.nodes_segments, Node.filterMap_expr?_reads,
        Node.filterMap_stmt?_reads, Expr.nameUses_eq, Expr.unquotedChildren_of_not formatted,
        List.flatMap_nil, List.append_nil]

/-- The names in plain segments are those of their tokens. -/
theorem Spelled.accounted {xs : List Segment} {ts : List Token} {owner : Stmt}
    (h : Spelled source xs ts) (plain : Segment.Plains xs) (tokens : TokensOf owner ts) :
    Accounted (xs.flatMap (Segment.nameUses owner)) ts := by
  induction h generalizing owner with
  | nil => exact .nil (List.forall_mem_nil _)
  | @leaf x xs ts ts' here rest ih =>
    obtain ⟨isPlain, plain⟩ := Segment.plains_cons.1 plain
    exact (here.accounted isPlain (tokens.sublist (List.sublist_append_left _ _))).append
      (ih plain (tokens.sublist (List.sublist_append_right _ _)))
  | @bare p e xs ts ts' admits covers inside rest ihInside ih =>
    have first := tokens.sublist (List.sublist_append_left _ _)
    refine Accounted.append ?_ (ih (Segment.plains_cons.1 plain).2
      (tokens.sublist (List.sublist_append_right _ _)))
    exact accounted_bare covers inside first fun plain => ihInside plain first
  | @paren p d e xs opening closing ts ts' opens closes widened inside rest ihInside ih =>
    have parts : opening :: ts ++ closing :: ts' = (opening :: ts ++ [closing]) ++ ts' := by simp
    rw [parts] at tokens ⊢
    have first := tokens.sublist (List.sublist_append_left _ _)
    have within : ts.Sublist (opening :: ts ++ [closing]) :=
      ((List.sublist_append_left ts [closing]).cons opening)
    have here := ihInside (by simp) (first.sublist within)
    rw [List.flatMap_singleton] at here
    refine Accounted.append ?_ (ih (Segment.plains_cons.1 plain).2
      (tokens.sublist (List.sublist_append_right _ _)))
    rw [widened]
    exact Accounted.paren here (by rw [opens]; nofun) (by rw [closes]; nofun) first.inOrder
  | field => exact (Segment.plains_cons.1 plain).1.elim
  | @stmt s xs ts ts' covers inside rest ihInside ih =>
    have first := tokens.sublist (List.sublist_append_left _ _)
    refine Accounted.append ?_ (ih (Segment.plains_cons.1 plain).2
      (tokens.sublist (List.sublist_append_right _ _)))
    have within : TokensOf s ts := covers.tokensOf first.inOrder first.undotted
    have same : (s.segments.flatMap (Segment.nameUses s)).Perm s.nameUses := by
      obtain ⟨exprs, children⟩ := s.nodes_segments
      refine (Segment.nameUses_perm s.plains_segments).trans ?_
      rw [exprs, children, ← List.append_assoc, s.nameUses_eq]
      exact (s.written_segments.append_right _).append_right _
    exact (ihInside s.plains_segments within).perm same

/-- The names in statements on lines of their own are those of their tokens. -/
lemma Spelled.accounted_lines {ss : List Stmt} {ts : List Token}
    (h : Spelled source (Segment.lines ss) ts) (inOrder : InOrder ts)
    (undotted : ∀ t ∈ nameTokens ts, '.' ∉ t.text.toList) :
    Accounted (ss.flatMap Stmt.nameUses) ts := by
  induction ss generalizing ts with
  | nil =>
    rw [h.eq_nil]
    exact .nil (List.forall_mem_nil _)
  | cons s ss ih =>
    obtain ⟨own, behind, rfl, first, rest⟩ := h.uncons
    obtain ⟨between, others, rfl, gap, rest⟩ := rest.uncons
    simp only [nameTokens_append, List.forall_mem_append] at undotted
    have inStmt := first.covers_stmt.tokensOf (inOrder.sublist (List.sublist_append_left _ _))
      undotted.1
    have later := inOrder.sublist (List.sublist_append_right own _)
    have here := first.accounted (by simp) inStmt
    rw [List.flatMap_singleton] at here
    have silent := Accounted.gap (gap.leaf_of_single nofun nofun nofun)
    exact here.append (silent.append
      (ih rest (later.sublist (List.sublist_append_right between _)) undotted.2.2))

/-! ## Names as they are read -/

/-- The names of a text have no dots. -/
lemma lex_undotted (text : String) : ∀ t ∈ nameTokens (lex text).tokens, '.' ∉ t.text.toList := by
  intro t ht dot
  obtain ⟨mem, name⟩ := mem_nameTokens.1 ht
  have word := (isWordChar_of_isIdentifier (isIdentifier_of_mem_lex mem name)).2
  exact absurd (word '.' dot) (by decide)

/-! ## Names of a text -/

/-- Each token that spells segments spells one of them. -/
lemma Spelled.exists_mem {xs : List Segment} {ts : List Token} (h : Spelled source xs ts)
    {t : Token} (ht : t ∈ ts) : ∃ x ∈ xs, ∃ ts', ts' <:+: ts ∧ t ∈ ts' ∧ Spelled source [x] ts' := by
  induction xs generalizing ts with
  | nil =>
    rw [h.eq_nil] at ht
    nomatch ht
  | cons x xs ih =>
    obtain ⟨front, back, rfl, first, rest⟩ := h.uncons
    rcases List.mem_append.1 ht with ht | ht
    · exact ⟨x, List.mem_cons_self, front, (List.prefix_append _ _).isInfix, ht, first⟩
    · obtain ⟨y, hy, ts', stretch, mem, single⟩ := ih rest ht
      exact ⟨y, List.mem_cons_of_mem _ hy, ts', stretch.trans (List.suffix_append _ _).isInfix, mem,
        single⟩

/-- A tree keeps the tokens of its text. -/
structure Module.Keeps (m : Module) (ts : List Token) : Prop where
  /-- Each name of the text is one name of the tree outside of strings, and there are no others. -/
  names : Accounted m.nameUses ts
  /-- What the tree holds inside of strings is not where a name is. -/
  quoted : ∀ e ∈ m.reachableExprs, (∃ s ∈ m.reachableStmts, ∃ r ∈ s.exprs, e ∈ r.unquoted)
    ∨ ∀ t ∈ nameTokens ts, t.span.Apart e.span
  /-- Each token is in one statement of the body, but for layout, the end of the text and
  semicolons. -/
  statements : ∀ t ∈ ts, t.kind.takesSpace = true → t.kind ≠ .symbol .semicolon →
    ∃! i : ℕ, ∃ s : Stmt, m.body[i]? = some s ∧ s.span.contains t.span = true

section

variable {text : String} (valid : (parse text).problems = [])
include valid

lemma parse_accounted : Accounted (parse text).module.nameUses (lex text).tokens := by
  obtain ⟨ts, ending, whole, ends, spelled⟩ := parse_spelled valid
  have inOrder := (lex_placed text).tokens.inOrder
  have undotted := lex_undotted text
  rw [whole] at inOrder undotted ⊢
  rw [Module.nameUses_eq, ← List.append_nil (List.flatMap _ _)]
  refine Accounted.append ?_ (.nil (List.forall_mem_singleton.2 (by rw [ends]; nofun)))
  obtain ⟨gap, lines, rfl, before, rest⟩ := spelled.uncons
  simp only [nameTokens_append, List.forall_mem_append] at undotted
  have part : lines.Sublist (gap ++ lines ++ [ending]) := by simp
  have silent := Accounted.gap (before.leaf_of_single nofun nofun nofun)
  exact silent.append (rest.accounted_lines (inOrder.sublist part) undotted.1.2)

lemma quoted_apart : ∀ e ∈ (parse text).module.reachableExprs,
    (∃ s ∈ (parse text).module.reachableStmts, ∃ r ∈ s.exprs, e ∈ r.unquoted)
    ∨ ∀ t ∈ nameTokens (lex text).tokens, t.span.Apart e.span := by
  intro e he
  obtain ⟨s, hs, he⟩ := List.mem_flatMap.1 he
  obtain ⟨r, hr, he⟩ := List.mem_flatMap.1 he
  rcases Expr.unquoted_or_quoted he with unquoted | ⟨f, hf, formatted, c, hc, he⟩
  · exact .inl ⟨s, hs, r, hr, unquoted⟩
  refine .inr fun t ht => ?_
  obtain ⟨mem, name⟩ := mem_nameTokens.1 ht
  obtain ⟨p, ts, ⟨before, after, whole⟩, spelled⟩ := exists_stretch valid hs hr hf
  have inOrder := (lex_placed text).tokens.inOrder
  rw [← whole] at inOrder mem
  have apart := spelled.covers_part.apart inOrder mem fun inside =>
    spelled.formatted formatted t inside name
  have inTree : f ∈ (parse text).module.reachableExprs :=
    List.mem_flatMap.2 ⟨s, hs, List.mem_flatMap.2 ⟨r, hr, Expr.unquoted_subset r hf⟩⟩
  exact apart.of_contains ((parse_laid valid).expr_contains inTree
    (Expr.branching.mem_descendants.2 (.inr ⟨c, hc, he⟩)))

lemma exists_statement : ∀ t ∈ (lex text).tokens, t.kind.takesSpace = true →
    t.kind ≠ .symbol .semicolon →
    ∃! i : ℕ, ∃ s : Stmt, (parse text).module.body[i]? = some s ∧ s.span.contains t.span = true := by
  intro t ht takes other
  obtain ⟨ts, ending, whole, ends, spelled⟩ := parse_spelled valid
  have inOrder := (lex_placed text).tokens.inOrder
  have solid := lexFrom_solid .module 0 text.toList t ht takes
  rw [whole] at inOrder ht
  have mem : t ∈ ts := by
    refine (List.mem_append.1 ht).resolve_right fun last => ?_
    rw [List.mem_singleton.1 last, ends] at takes
    cases takes
  obtain ⟨x, hx, own, stretch, mem, single⟩ := spelled.exists_mem mem
  have noGap : ¬ Segment.gap.Leaf own := fun gap => by
    rcases gap t mem with layout | semicolon
    · rw [TokenKind.takesSpace, layout] at takes
      cases takes
    · exact other semicolon
  rcases List.mem_cons.1 hx with rfl | hx
  · exact absurd (single.leaf_of_single (by simp) (by simp) (by simp)) noGap
  obtain ⟨s, hs, hx⟩ := List.mem_flatMap.1 hx
  simp only [List.mem_cons, List.not_mem_nil, or_false] at hx
  rcases hx with rfl | rfl
  · obtain ⟨i, at_⟩ := List.getElem?_of_mem hs
    have ordered := inOrder.sublist (stretch.sublist.trans (List.sublist_append_left ts [ending]))
    have contains := single.covers_stmt.contains ordered mem takes
    refine ⟨i, ⟨s, at_, contains⟩, ?_⟩
    rintro j ⟨s', at', contains'⟩
    exact (parse_laid valid).position_unique solid at' contains' at_ contains
  · exact absurd (single.leaf_of_single (by simp) (by simp) (by simp)) noGap

end

/-- The tree of a text without problems keeps the tokens of the text. -/
theorem names_kept {text : String} (valid : (parse text).problems = []) :
    (parse text).module.Keeps (lex text).tokens :=
  ⟨parse_accounted valid, quoted_apart valid, exists_statement valid⟩

set_option maxRecDepth 100000 in
/-- A dotted import, a method, an attribute and a name in parentheses; the name in the field of the
string is none of the text. -/
theorem class_keeps_names :
    let text := "import a.b as c\nclass D:\n def m(self, x=1):\n  return (x) + c.y(f'\x7bx\x7d')\n"
    (parse text).problems = [] ∧ (parse text).module.Keeps (lex text).tokens := by
  intro text
  have valid : (parse text).problems = [] := by
    unfold text
    cbv
  exact ⟨valid, names_kept valid⟩

end MethodLift.Syntax
