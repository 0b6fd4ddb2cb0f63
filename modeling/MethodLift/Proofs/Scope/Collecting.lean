import MethodLift.Method.Safety
import MethodLift.Proofs.Lift.Computing
import MethodLift.Proofs.Scope.Headers
import MethodLift.Proofs.Scope.Methods
import MethodLift.Proofs.Syntax.Parents

/-!
# Names that are collected and names that are walked over

What a scope binds is found out twice.  Of a scope around a method the names are collected from the
statements of its body (`namesOfScope?`); of the scopes inside a method they are among the events of
the walk (`methodEvents`), where a name is bound under the key of a scope.

The walk goes everywhere, and the collector does not: it stops at nested functions and classes, whose
names it takes and nothing else, and at lambdas.  What assignment expressions bind in the headers of
these, the walk binds in the scope around, and the collector leaves out.  That is all that the two
differ in (`walk_agrees`): of every function and every class in a function, they have the same
globals and the same nonlocals, and the walk binds what the collector has and what the headers bind.

So a function that binds a name in a header only does not show up around a closure that reads the
name (`default_not_collected`).
-/

namespace MethodLift.Scope

open MethodLift.Syntax

variable {f : Frame} {base : ScopeKey} {s : Stmt} {st : Standing} {name : String} {k : ℕ}

/-! ## Statements -/

/-- What the walk binds and declares around a statement: what the collector has, and what is bound in
headers. -/
def walkedInStmt (s : Stmt) : Names :=
  (namesOfStmt s).append (.ofBound (s.headers.flatMap (boundByExpr true)))

/-- What the walk binds and declares in the scope of a function or a class; other statements have no
scope. -/
def walkedInScope (s : Stmt) : Names :=
  match namesOfScope? s with
  | some names =>
    names.append (.ofBound ((s.children.flatMap Stmt.headers).flatMap (boundByExpr true)))
  | none => .none

/-- A function or a class binds its name and what is bound in its header. -/
lemma mem_walkedInStmt_scope {own : String} {exprs : List Expr}
    (names : namesOfStmt s = .ofBound [own])
    (headers : s.headers = exprs ++ exprs.flatMap Expr.headers) :
    name ∈ st.among (walkedInStmt s)
      ↔ st = .bound ∧ (name = own ∨ ∃ e ∈ exprs, name ∈ walkedInExpr true e) := by
  rw [walkedInStmt, names, headers, List.flatMap_append, Standing.mem_among_append,
    Standing.mem_among_ofBound, Standing.mem_among_ofBound, mem_flatMap_walkedInExpr,
    List.mem_singleton, and_or_left]

/-- Any other statement has what it binds and declares itself, what its expressions bind, and what
the statements in it have. -/
lemma mem_walkedInStmt_plain (notFunction : ∀ d, s ≠ .functionDef d)
    (notClass : ∀ d, s ≠ .classDef d) :
    name ∈ st.among (walkedInStmt s)
      ↔ name ∈ st.among (ownNames s)
        ∨ (st = .bound ∧ ∃ e ∈ s.exprs, name ∈ walkedInExpr false e)
        ∨ ∃ c ∈ s.children, name ∈ st.among (walkedInStmt c) := by
  rw [walkedInStmt, namesOfStmt_eq notFunction notClass, Stmt.headers_eq notFunction notClass, ← mem_flatMap_walkedInExpr]
  simp only [walkedInStmt, Standing.mem_among_append, Standing.mem_among_ofBound,
    Standing.mem_among_flatten, List.flatMap_append, List.mem_append, List.mem_map,
    exists_exists_and_eq_and, List.mem_flatMap]
  grind

lemma mem_walkedInScope_function {d : FunctionDef Stmt} :
    name ∈ st.among (walkedInScope (.functionDef d))
      ↔ (st = .bound ∧ name ∈ d.params.names.map (·.name))
        ∨ ∃ c ∈ d.body, name ∈ st.among (walkedInStmt c) := by
  simp only [walkedInScope, namesOfScope?, namesOfBody, walkedInStmt, Stmt.children,
    Standing.mem_among_append, Standing.mem_among_ofBound, Standing.mem_among_flatten,
    List.mem_map, exists_exists_and_eq_and, List.mem_flatMap]
  grind

lemma mem_walkedInScope_class {d : ClassDef Stmt} :
    name ∈ st.among (walkedInScope (.classDef d))
      ↔ ∃ c ∈ d.body, name ∈ st.among (walkedInStmt c) := by
  simp only [walkedInScope, namesOfScope?, namesOfBody, walkedInStmt, Stmt.children,
    Standing.mem_among_append, Standing.mem_among_ofBound, Standing.mem_among_flatten,
    List.mem_map, exists_exists_and_eq_and, List.mem_flatMap]
  grind

lemma walkedInScope_plain (notFunction : ∀ d, s ≠ .functionDef d) (notClass : ∀ d, s ≠ .classDef d) :
    walkedInScope s = .none := by
  cases s with
  | functionDef d => exact absurd rfl (notFunction d)
  | classDef d => exact absurd rfl (notClass d)
  | _ => rfl

/-! ### Walking over statements -/

/-- What a statement itself does to names, in the scope that it is directly in. -/
lemma mem_traceOwn (stands : f.StandsIn base false) :
    st.event (.stmt k) name ∈ traceOwn f s ↔ base = .stmt k ∧ name ∈ st.among (ownNames s) := by
  have aliases (names : List Alias) : st.event (.stmt k) name
      ∈ names.flatMap (fun a => f.store a.boundName ((a.asname.map (·.span)).getD a.span))
      ↔ base = .stmt k ∧ name ∈ st.among (.ofBound (names.map (·.boundName))) := by
    rw [mem_flatMap_iff fun a _ => mem_store, stands.key_eq, Standing.mem_among_ofBound]
    simp only [List.mem_map, eq_comm]
    tauto
  cases s with
  | importModules m names => exact aliases names
  | importFrom m module level names isStar => exact aliases names
  | global m names =>
    refine (mem_idents .global).trans ?_
    rw [stands.key_eq]
    cases st <;> simp [ownNames, Standing.among]
  | nonlocal m names =>
    refine (mem_idents .nonlocal).trans ?_
    rw [stands.key_eq]
    cases st <;> simp [ownNames, Standing.among]
  | tryBlock m body handlers orelse finalbody =>
    have each (h : Handler Stmt) : st.event (.stmt k) name
        ∈ h.name.toList.flatMap (fun ident => f.store ident.name ident.span)
        ↔ (st = .bound ∧ base = .stmt k) ∧ name ∈ (h.name.map (·.name)).toList := by
      rw [mem_flatMap_iff fun ident _ => mem_store, stands.key_eq]
      cases h.name <;> simp
    rw [traceOwn, mem_flatMap_iff fun h _ => each h, ownNames, Standing.mem_among_ofBound,
      List.mem_flatMap]
    tauto
  | _ => simp [traceOwn, ownNames]

/-- A function binds its parameters, what its body binds, and if something is around it, what its
header binds. -/
lemma mem_traceFunction (header : Frame) {d : FunctionDef Stmt} {kind : ScopeKind}
    {report : Option ScopeKey} {body : Frame → List Event}
    (reported : report.getD (.stmt d.mark.serial) = header.report) :
    st.event (.stmt k) name ∈ traceFunction d kind header.chain report body
      ↔ (header.chain ≠ [] ∧ st.event (.stmt k) name
          ∈ (Stmt.functionDef d).exprs.flatMap (traceExpr header .plain))
        ∨ ((st = .bound ∧ d.mark.serial = k) ∧ name ∈ d.params.names.map (·.name))
        ∨ st.event (.stmt k) name ∈ body (header.enter (.stmt d.mark.serial) kind) := by
  have key : (header.enter (.stmt d.mark.serial) kind).key = .stmt k ↔ d.mark.serial = k := by
    simp [Frame.enter, Frame.key]
  have guarded (es : List Event) : st.event (.stmt k) name
      ∈ (if header.chain.isEmpty then [] else es)
      ↔ header.chain ≠ [] ∧ st.event (.stmt k) name ∈ es := by
    cases header.chain <;> simp
  rw [traceFunction, reported, List.mem_append, List.mem_append, List.mem_cons, mem_binds,
    or_assoc, key, guarded]
  simp only [Standing.event_ne_opened, false_or]

/-- The expressions of a statement that is directly in a scope. -/
lemma mem_traceExprs {es : List Expr} (stands : f.StandsIn base false)
    (fits : ∀ e ∈ es, e.Everywhere Expr.Fitting) :
    st.event (.stmt k) name ∈ es.flatMap (traceExpr f .plain)
      ↔ (st = .bound ∧ base = .stmt k) ∧ ∃ e ∈ es, name ∈ walkedInExpr false e :=
  mem_flatMap_iff fun e he => mem_traceExpr stands (fits e he)

/-- The header of a function or a class, which is only read. -/
lemma mem_traceHeader (stands : f.StandsIn base false) (fits : s.Fitting)
    (read : s.reads = s.exprs) :
    st.event (.stmt k) name ∈ s.exprs.flatMap (traceExpr f .plain)
      ↔ (st = .bound ∧ base = .stmt k) ∧ ∃ e ∈ s.exprs, name ∈ walkedInExpr true e := by
  refine mem_flatMap_iff fun e he => ?_
  have load : e.For .load := fits.reads e (read ▸ he)
  rw [mem_traceExpr stands load.inside, walkedInExpr_of_load load]

/-- How a name goes with the scope of a statement among the events of statements directly in
`base`. -/
def Walked (st : Standing) (name : String) (k : ℕ) (base : ScopeKey) (ss : List Stmt) : Prop :=
  (base = .stmt k ∧ ∃ c ∈ ss, name ∈ st.among (walkedInStmt c))
    ∨ ∃ t ∈ ss.flatMap Stmt.descendants, t.serial = k ∧ name ∈ st.among (walkedInScope t)

lemma mem_traceStmts {ss : List Stmt}
    (each : ∀ c ∈ ss, (st.event (.stmt k) name ∈ traceStmt f c ↔ Walked st name k base [c])) :
    st.event (.stmt k) name ∈ ss.flatMap (traceStmt f) ↔ Walked st name k base ss := by
  rw [List.mem_flatMap, Walked]
  simp only [Walked, List.flatMap_singleton, List.mem_singleton, exists_eq_left] at each
  simp only [List.mem_flatMap]
  constructor
  · rintro ⟨c, hc, there⟩
    rcases (each c hc).1 there with ⟨here, there⟩ | ⟨t, ht, there⟩
    · exact .inl ⟨here, c, hc, there⟩
    · exact .inr ⟨t, ⟨c, hc, ht⟩, there⟩
  · rintro (⟨here, c, hc, there⟩ | ⟨t, ⟨c, hc, ht⟩, there⟩)
    · exact ⟨c, hc, (each c hc).2 (.inl ⟨here, there⟩)⟩
    · exact ⟨c, hc, (each c hc).2 (.inr ⟨t, ht, there⟩)⟩

/-- A statement, and what is in it. -/
lemma walked_singleton : Walked st name k base [s]
    ↔ (base = .stmt k ∧ name ∈ st.among (walkedInStmt s))
      ∨ (s.serial = k ∧ name ∈ st.among (walkedInScope s))
      ∨ ∃ t ∈ s.children.flatMap Stmt.descendants,
        t.serial = k ∧ name ∈ st.among (walkedInScope t) := by
  rw [Walked, List.flatMap_singleton, s.descendants_eq]
  simp

/-- In and around the scopes of a statement, names go as the collector has them, and headers bind
besides. -/
theorem mem_traceStmt : ∀ {base : ScopeKey}, f.StandsIn base false → s.Everywhere Stmt.Fitting →
    (st.event (.stmt k) name ∈ traceStmt f s ↔ Walked st name k base [s]) := by
  fun_induction traceStmt f s with
  | case1 frame d body_events =>
    intro base stands fits
    have inside : st.event (.stmt k) name ∈ d.body.flatMap
        (traceStmt (frame.enter (.stmt d.mark.serial) .function))
        ↔ Walked st name k (.stmt d.mark.serial) d.body :=
      mem_traceStmts fun c hc => body_events _ ⟨c, hc⟩ (.enter (by simp) _) (fits.child hc)
    simp only [List.flatMap_subtype, List.unattach_attach]
    rw [List.mem_append, mem_store, stands.key_eq, mem_traceFunction frame rfl, inside,
      mem_traceHeader stands fits.here rfl, walked_singleton, Walked,
      mem_walkedInStmt_scope (by rw [namesOfStmt]) (by rw [Stmt.headers]),
      mem_walkedInScope_function]
    have around := stands.around
    simp only [ScopeKey.stmt.injEq, Stmt.serial, Stmt.mark, Stmt.children]
    grind
  | case2 frame d key inner =>
    rename_i body_events
    intro base stands fits
    have inside : st.event (.stmt k) name ∈ d.body.flatMap (traceStmt inner)
        ↔ Walked st name k key d.body :=
      mem_traceStmts fun c hc => body_events ⟨c, hc⟩ (.enter (by simp) _) (fits.child hc)
    simp only [List.flatMap_subtype, List.unattach_attach]
    rw [List.mem_append, List.mem_append, List.mem_cons, mem_store, stands.key_eq, inside,
      mem_traceHeader stands fits.here rfl, walked_singleton, Walked,
      mem_walkedInStmt_scope (by rw [namesOfStmt]) (by rw [Stmt.headers]),
      mem_walkedInScope_class]
    simp only [key, ScopeKey.stmt.injEq, Stmt.serial, Stmt.mark, Stmt.children,
      Standing.event_ne_opened]
    grind
  | case3 frame s notFunction notClass children_events =>
    intro base stands fits
    have inside : st.event (.stmt k) name ∈ s.children.flatMap (traceStmt frame)
        ↔ Walked st name k base s.children :=
      mem_traceStmts fun c hc => children_events ⟨c, hc⟩ stands (fits.child hc)
    simp only [List.flatMap_subtype, List.unattach_attach]
    rw [List.mem_append, List.mem_append, mem_traceOwn stands,
      mem_traceExprs stands fun e he => fits.here.everywhere he, inside, walked_singleton, Walked,
      mem_walkedInStmt_plain notFunction notClass, walkedInScope_plain notFunction notClass,
      Standing.mem_among_none]
    grind

end MethodLift.Scope

/-! ## Scopes around a method and scopes in it -/

namespace MethodLift.Syntax.Module

variable {m : Module} {s t : Stmt}

lemma descendant_mem_reachableStmts (hs : s ∈ m.reachableStmts) (ht : t ∈ s.descendants) :
    t ∈ m.reachableStmts := by
  induction s using Stmt.branching.induction with
  | step s ih =>
    rcases Stmt.branching.mem_descendants.1 ht with rfl | ⟨c, hc, ht⟩
    · exact hs
    · exact ih c hc (child_mem_reachableStmts hs hc) ht

namespace Linked

variable (linked : m.Linked)
include linked

/-- What is around a statement was completed after it. -/
lemma lt_of_mem_stmtAncestors (hs : s ∈ m.reachableStmts) (ht : t ∈ m.stmtAncestors s.serial) :
    s.serial < t.serial := by
  have upwards (n : ℕ) : ∀ s ∈ m.reachableStmts, ∀ t ∈ stmtAncestors.go m n s.serial,
      s.serial < t.serial := by
    induction n with
    | zero => exact fun _ _ _ none => by cases none
    | succ n ih =>
      intro s hs t ht
      rw [stmtAncestors.go] at ht
      cases parent : m.parentOfStmt? s.serial with
      | none =>
        rw [parent] at ht
        cases ht
      | some p =>
        rw [parent] at ht
        obtain ⟨hp, child⟩ := (linked.stmt_parent s (List.mem_mergeSort.2 hs) p).1 parent
        have smaller := linked.stmt_smaller p hp s child
        rcases List.mem_cons.1 ht with rfl | ht
        · exact smaller
        · exact smaller.trans (ih p hp t ht)
  exact upwards _ s hs t ht

/-- What is in a statement was completed before it. -/
lemma serial_le_of_mem_descendants (hs : s ∈ m.reachableStmts) (ht : t ∈ s.descendants) :
    t.serial ≤ s.serial := by
  induction s using Stmt.branching.induction with
  | step s ih =>
    rcases Stmt.branching.mem_descendants.1 ht with rfl | ⟨c, hc, ht⟩
    · exact le_rfl
    · have inside := ih c hc (child_mem_reachableStmts hs hc) ht
      exact inside.trans (linked.stmt_smaller s hs c hc).le

/-- A statement is known by its number. -/
lemma eq_of_serial (hs : s ∈ m.reachableStmts) (ht : t ∈ m.reachableStmts)
    (same : s.serial = t.serial) : s = t :=
  List.inj_on_of_nodup_map linked.stmt_serials (List.mem_mergeSort.2 hs) (List.mem_mergeSort.2 ht)
    same

end Linked

end MethodLift.Syntax.Module

namespace MethodLift.Scope

open MethodLift.Syntax

variable {m : Module} {d : FunctionDef Stmt} {s : Stmt} {st : Standing} {name : String}

/-- The header of a method is in the scope of a statement around the method. -/
lemma exists_header_stands (notTop : around m d ≠ []) :
    ∃ a ∈ m.stmtAncestors d.mark.serial,
      Frame.StandsIn (.stmt a.serial) false ⟨around m d, .stmt d.mark.serial⟩ := by
  obtain ⟨link, rest, chain⟩ := List.exists_cons_of_ne_nil notTop
  have mem : link ∈ around m d := chain ▸ List.mem_cons_self
  obtain ⟨a, ha, is⟩ := List.mem_filterMap.1 mem
  have key : link.key = .stmt a.serial := by
    unfold enclosingLink? at is
    split at is
    · obtain rfl := Option.some.inj is
      rfl
    · obtain rfl := Option.some.inj is
      rfl
    · cases is
  have own : Frame.withoutComprehensions (around m d) = link :: rest := by
    rw [chain]
    cases rest with
    | nil => rfl
    | cons => rw [Frame.withoutComprehensions, if_neg (by simpa using (of_mem_around mem).1)]
  refine ⟨a, ha, notTop, ?_, ?_⟩
  · rw [Frame.forWalrus, own]
    exact key
  · rw [Frame.key, chain]
    exact key

/-- What is collected around a method goes with the scopes there. -/
lemma of_event_mem_enclosing {k : ℕ}
    (h : st.event (.stmt k) name ∈ (m.stmtAncestors d.mark.serial).flatMap enclosingEvents) :
    ∃ a ∈ m.stmtAncestors d.mark.serial, a.serial = k := by
  obtain ⟨a, ha, h⟩ := List.mem_flatMap.1 h
  refine ⟨a, ha, ?_⟩
  unfold enclosingEvents at h
  split at h
  · nomatch h
  · dsimp only at h
    simp only [List.mem_append, List.mem_map] at h
    rcases h with (⟨n, -, same⟩ | ⟨n, -, same⟩) | ⟨n, -, same⟩
    all_goals cases st <;> simp_all [Standing.event]

/-- Among the events of a method, names go with a scope in the method as the walk binds and declares
them there, and in no other way. -/
theorem event_mem_methodEvents (linked : m.Linked) (fits : (Stmt.functionDef d).Everywhere Stmt.Fitting)
    (defined : .functionDef d ∈ m.reachableStmts) (inside : s ∈ (Stmt.functionDef d).descendants) :
    st.event (.stmt s.serial) name ∈ methodEvents m d ↔ name ∈ st.among (walkedInScope s) := by
  -- no scope around the method has the number of a scope in it
  have apart : ∀ a ∈ m.stmtAncestors d.mark.serial, a.serial ≠ s.serial := by
    intro a ha same
    have above : d.mark.serial < a.serial := linked.lt_of_mem_stmtAncestors defined ha
    have below := linked.serial_le_of_mem_descendants defined inside
    exact absurd (same ▸ below) (Nat.not_le.2 above)
  have elsewhere : st.event (.stmt s.serial) name
      ∉ (m.stmtAncestors d.mark.serial).flatMap enclosingEvents := by
    intro there
    obtain ⟨a, ha, same⟩ := of_event_mem_enclosing there
    exact apart a ha same
  have header : ¬(around m d ≠ [] ∧ st.event (.stmt s.serial) name
      ∈ (Stmt.functionDef d).exprs.flatMap
        (traceExpr ⟨around m d, .stmt d.mark.serial⟩ .plain)) := by
    rintro ⟨notTop, there⟩
    obtain ⟨a, ha, stands⟩ := exists_header_stands notTop
    rw [mem_traceHeader stands fits.here rfl] at there
    exact apart a ha (ScopeKey.stmt.inj there.1.2)
  have body : st.event (.stmt s.serial) name ∈ d.body.flatMap (traceStmt
      (Frame.enter ⟨around m d, .stmt d.mark.serial⟩ (.stmt d.mark.serial) .method))
      ↔ Walked st name s.serial (.stmt d.mark.serial) d.body :=
    mem_traceStmts fun c hc => mem_traceStmt (.enter (by simp) _) (fits.child hc)
  have scopes : st.event (.stmt s.serial) name ∈ methodTrace m d
      ↔ ∃ t ∈ (Stmt.functionDef d).descendants,
        t.serial = s.serial ∧ name ∈ st.among (walkedInScope t) := by
    rw [methodTrace, mem_traceFunction ⟨around m d, .stmt d.mark.serial⟩ rfl, or_iff_right header,
      body, Walked, (Stmt.functionDef d).descendants_eq, List.exists_mem_cons_iff,
      mem_walkedInScope_function]
    simp only [ScopeKey.stmt.injEq, Stmt.serial, Stmt.mark, Stmt.children]
    grind
  rw [methodEvents_eq, List.mem_append, or_iff_right elsewhere, scopes]
  constructor
  · rintro ⟨t, ht, same, there⟩
    obtain rfl := linked.eq_of_serial (Module.descendant_mem_reachableStmts defined ht)
      (Module.descendant_mem_reachableStmts defined inside) same
    exact there
  · exact fun there => ⟨s, inside, rfl, there⟩

/-! ## What both find -/

/-- Whether a name goes with a scope is asked of the events. -/
lemma event_mem_iff {events : List Event} {key : ScopeKey} :
    st.event key name ∈ events
      ↔ match st with
        | .bound => boundIn events key name = true
        | .global => globalIn events key name = true
        | .nonlocal => nonlocalIn events key name = true := by
  cases st <;> simp only [boundIn, globalIn, nonlocalIn, List.any_eq_true] <;> constructor
  all_goals first
    | exact fun there => ⟨_, there, by simp [Standing.event]⟩
    | rintro ⟨event, there, is⟩
      cases event <;> simp_all [Standing.event]

/-- Events bind and declare in a scope what was collected of it, and what is bound in headers. -/
structure Agrees (events : List Event) (key : ScopeKey) (names : Names) (headers : List Expr) :
    Prop where
  globals (name : String) : globalIn events key name = true ↔ name ∈ names.globals
  nonlocals (name : String) : nonlocalIn events key name = true ↔ name ∈ names.nonlocals
  bound (name : String) : boundIn events key name = true
    ↔ name ∈ names.bound ∨ ∃ h ∈ headers, name ∈ boundByExpr true h

/-- **Walking and collecting agree but for headers.**  Of each function and each class in a function
of a text, the walk through the function and the collector find the same globals and nonlocals, and
the walk finds the bound names that the collector finds and those that assignment expressions bind in
the headers of functions and classes and in the defaults of lambdas. -/
theorem walk_agrees (text : String) {d : FunctionDef Stmt} {s : Stmt} {names : Names}
    (defined : .functionDef d ∈ (parse text).module.reachableStmts)
    (inside : s ∈ (Stmt.functionDef d).descendants) (collected : namesOfScope? s = some names) :
    Agrees (methodEvents (parse text).module d) (.stmt s.serial) names
      (s.children.flatMap Stmt.headers) := by
  obtain ⟨top, ht, reached⟩ := List.mem_flatMap.1 defined
  have fits := (parse_fitting text top ht).descendant reached
  have found (st : Standing) (name : String) :=
    @event_mem_methodEvents _ d s st name (parse_linked text) fits defined inside
  simp only [walkedInScope, collected, Standing.mem_among_append, Standing.mem_among_ofBound]
    at found
  refine ⟨fun name => ?_, fun name => ?_, fun name => ?_⟩
  · exact event_mem_iff.symm.trans ((found .global name).trans (or_iff_left (by simp)))
  · exact event_mem_iff.symm.trans ((found .nonlocal name).trans (or_iff_left (by simp)))
  · rw [← List.mem_flatMap]
    exact event_mem_iff.symm.trans ((found .bound name).trans (or_congr_right (and_iff_right rfl)))

/-- The assignment expression in the default is the only binding of `y`. -/
theorem default_walked_over :
    let m := (parse "def f():\n g = lambda x=(y := 1): x\n").module
    ∃ d names, .functionDef d ∈ m.reachableStmts ∧ namesOfScope? (.functionDef d) = some names
      ∧ names.bound = ["g"]
      ∧ Agrees (methodEvents m d) (.stmt d.mark.serial) names (d.body.flatMap Stmt.headers)
      ∧ boundIn (methodEvents m d) (.stmt d.mark.serial) "y" = true := by
  intro m
  have found : (m.reachableStmts.filterMap Stmt.asFunction).map (fun d =>
      ((namesOfScope? (.functionDef d)).map (·.bound),
        boundIn (methodEvents m d) (.stmt d.mark.serial) "y")) = [(some ["g"], true)] := by
    unfold m
    simp only [parseComputed.eq]
    decide +kernel
  obtain ⟨d, hd, same⟩ := List.mem_map.1 (found ▸ List.mem_singleton_self _)
  obtain ⟨s, hs, is⟩ := List.mem_filterMap.1 hd
  cases s with
  | functionDef d' =>
    obtain rfl := Option.some.inj is
    obtain ⟨bound, walked⟩ := Prod.mk.inj same
    refine ⟨d', _, hs, rfl, Option.some.inj bound, ?_, walked⟩
    exact walk_agrees _ hs (Stmt.branching.mem_descendants.2 (.inl rfl)) rfl
  | _ => nomatch is

set_option maxRecDepth 100000 in
/-- The collector does not see the assignment expression in the default, which binds `y` in `o`.  The
walk through `o` does, and finds that `m` reads a name of a scope around; the walk through `m` alone
does not, and `m` is accepted. -/
theorem default_not_collected :
    let text := "def o():\n lambda x=(y:=1):0\n class A:\n  def m(s):y\n"
    let m := (parse text).module
    let functions := m.reachableStmts.filterMap Stmt.asFunction
    (parse text).problems.isEmpty = true
      ∧ functions.map (fun d => (d.name.name, (namesOfScope? (.functionDef d)).map (·.bound),
            boundIn (methodEvents m d) (.stmt d.mark.serial) "y"))
        = [("o", some ["A"], true), ("m", some ["s"], false)]
      ∧ functions.map (fun d => (analyze m (.functionDef d)).scopes.map fun scope =>
          (scope.1.name, scope.2.outerReads.map (·.name)))
        = [[("o", []), ("<lambda>", []), ("A", []), ("m", ["y"])], [("m", [])]]
      ∧ functions.map (fun d => (Safety.validate (analyze m (.functionDef d))).toOption)
        = [none, some []] := by
  intro text m functions
  unfold functions m text
  refine ⟨?_, ?_, ?_, ?_⟩
  · simp only [parseComputed.eq]
    decide +kernel
  · simp only [parseComputed.eq]
    decide +kernel
  · simp only [parseComputed.eq, analyzeComputed.eq]
    decide +kernel
  · simp only [parseComputed.eq, analyzeComputed.eq]
    decide +kernel

end MethodLift.Scope
