import MethodLift.Proofs.Scope.Uses

/-!
# Frames of references

Each reference of a method is mentioned in the report of a scope that the walk opens, and if it is
evaluated directly in such a scope, then in the report of that scope.
-/

namespace MethodLift.Scope

open MethodLift.Syntax

/-- The keys of the scopes that open. -/
def openedKeys (events : List Event) : List ScopeKey := (openedScopes events).map (·.1)

@[simp] lemma openedKeys_append (a b : List Event) :
    openedKeys (a ++ b) = openedKeys a ++ openedKeys b := by
  simp [openedKeys, openedScopes]

lemma mem_openedKeys {events : List Event} {key : ScopeKey} :
    key ∈ openedKeys events ↔ ∃ owner, .opened key owner ∈ events := by
  simp only [openedKeys, openedScopes, List.mem_map, List.mem_filterMap]
  constructor
  · rintro ⟨⟨key, owner⟩, ⟨event, he, is⟩, rfl⟩
    cases event with
    | opened k o =>
      obtain ⟨rfl, rfl⟩ := Prod.mk.inj (Option.some.inj is)
      exact ⟨_, he⟩
    | _ => nomatch is
  · rintro ⟨owner, he⟩
    exact ⟨(key, owner), ⟨_, he, rfl⟩, rfl⟩

lemma mem_references {events : List Event} {r : Reference} :
    r ∈ references events ↔ .referenced r ∈ events := by
  rw [references, List.mem_filterMap]
  constructor
  · rintro ⟨event, he, is⟩
    cases event with
    | referenced r' =>
      obtain rfl := Option.some.inj is
      exact he
    | _ => nomatch is
  · intro h
    exact ⟨_, h, rfl⟩

/-! ## What holds of all frames -/

section Frames

variable {P : Frame → Prop} {opened : List ScopeKey}

/-- The references among events are evaluated in frames with a property, if the scopes that open
among the events are among the given ones. -/
def Keeps (P : Frame → Prop) (opened : List ScopeKey) (events : List Event) : Prop :=
  (∀ owner key, .opened key owner ∈ events → key ∈ opened)
    → ∀ r, .referenced r ∈ events → P r.frame

lemma Keeps.append {a b : List Event} (ha : Keeps P opened a) (hb : Keeps P opened b) :
    Keeps P opened (a ++ b) := by
  intro known r hr
  rcases List.mem_append.1 hr with hr | hr
  · exact ha (fun owner key h => known owner key (List.mem_append_left _ h)) r hr
  · exact hb (fun owner key h => known owner key (List.mem_append_right _ h)) r hr

lemma Keeps.flatMap {α : Type} {xs : List α} {f : α → List Event}
    (each : ∀ x ∈ xs, Keeps P opened (f x)) : Keeps P opened (xs.flatMap f) := by
  intro known r hr
  obtain ⟨x, hx, hr⟩ := List.mem_flatMap.1 hr
  exact each x hx (fun owner key h => known owner key (List.mem_flatMap.2 ⟨x, hx, h⟩)) r hr

/-- Events none of which is a reference. -/
lemma Keeps.map {α : Type} {xs : List α} {f : α → Event} (silent : ∀ x r, f x ≠ .referenced r) :
    Keeps P opened (xs.map f) := by
  intro known r hr
  obtain ⟨x, -, same⟩ := List.mem_map.1 hr
  exact absurd same (silent x r)

lemma Keeps.store {f : Frame} (h : P f) (name : String) (span : Span) :
    Keeps P opened (f.store name span) := by
  intro known r hr
  rcases List.mem_cons.1 hr with same | hr
  · nomatch same
  · obtain rfl := Event.referenced.inj (List.mem_singleton.1 hr)
    exact h

/-- A scope that opens, and what happens in it. -/
lemma Keeps.openedScope {key : ScopeKey} {owner : ScopeOwner} {es : List Event}
    (inside : key ∈ opened → Keeps P opened es) : Keeps P opened (.opened key owner :: es) := by
  intro known r hr
  rcases List.mem_cons.1 hr with same | hr
  · nomatch same
  · refine inside (known owner key List.mem_cons_self) ?_ r hr
    exact fun owner key h => known owner key (List.mem_cons_of_mem _ h)

variable (enter : ∀ f key kind, key ∈ opened → P f → P (f.enter key kind))
  (walrus : ∀ f, P f → P f.forWalrus)
include enter walrus

/-- A property that frames inside keep holds of all frames of an expression. -/
theorem keeps_traceExpr {f : Frame} {use : Use} {e : Expr} (h : P f) :
    Keeps P opened (traceExpr f use e) := by
  fun_induction traceExpr f use e with
  | case1 frame use m id ctx =>
    intro known r hr
    rcases List.mem_append.1 hr with hr | hr
    · split at hr
      · nomatch hr
      · nomatch List.mem_singleton.1 hr
    · obtain rfl := Event.referenced.inj (List.mem_singleton.1 hr)
      exact h
  | case2 frame use m target value value_keeps target_keeps =>
    refine (value_keeps h).append ?_
    split
    · exact .store (walrus _ h) _ _
    next other =>
      split at target_keeps
      next id m ctx => exact absurd rfl (other id m ctx)
      next => exact target_keeps h
  | case3 frame use m params body key inner defaults_keep body_keeps =>
    rw [List.append_assoc]
    refine Keeps.append (.flatMap fun d _ => defaults_keep d h) (.openedScope fun mem => ?_)
    exact Keeps.append (.map nofun) (body_keeps (enter _ _ _ mem h))
  | case4 frame use m kind element value generators key inner iterable_keeps parts_keep =>
    refine Keeps.append (.flatMap fun c _ => iterable_keeps c h) (.openedScope fun mem => ?_)
    exact .flatMap fun c _ => parts_keep c (enter _ _ _ mem h)
  | case5 frame use e _ _ _ _ children_keep => exact .flatMap fun c _ => children_keep c h

/-- The same for the header, the parameters and the body of a function. -/
lemma keeps_traceFunction {d : FunctionDef Stmt} {kind : ScopeKind} {chain : List ScopeLink}
    {report : Option ScopeKey} {body : Frame → List Event}
    (header : .stmt d.mark.serial ∈ opened → P ⟨chain, report.getD (.stmt d.mark.serial)⟩)
    (inside : ∀ inner, P inner → Keeps P opened (body inner)) :
    Keeps P opened (traceFunction d kind chain report body) := by
  unfold traceFunction
  refine .openedScope fun mem => Keeps.append (Keeps.append ?_ (.map nofun)) ?_
  · split
    · exact fun _ r hr => nomatch hr
    · exact .flatMap fun e _ => keeps_traceExpr enter walrus (header mem)
  · exact inside _ (enter _ _ _ mem (header mem))

omit enter walrus in
lemma keeps_traceOwn {f : Frame} {s : Stmt} (h : P f) : Keeps P opened (traceOwn f s) := by
  unfold traceOwn
  split
  · exact .flatMap fun a _ => .store h _ _
  · exact .flatMap fun a _ => .store h _ _
  · exact .map nofun
  · exact .map nofun
  · exact .flatMap fun h' _ => .flatMap fun ident _ => .store h _ _
  · exact fun _ r hr => nomatch hr

/-- A property that frames inside keep holds of all frames of a statement. -/
theorem keeps_traceStmt {f : Frame} {s : Stmt} (h : P f) : Keeps P opened (traceStmt f s) := by
  fun_induction traceStmt f s with
  | case1 frame d body_keeps =>
    refine Keeps.append (.store h _ _) (keeps_traceFunction enter walrus (fun _ => h) ?_)
    exact fun inner hi => .flatMap fun c _ => body_keeps inner c hi
  | case2 frame d key inner body_keeps =>
    refine Keeps.append (Keeps.append ?_ (.store h _ _)) (.openedScope fun mem => ?_)
    · exact .flatMap fun e _ => keeps_traceExpr enter walrus h
    · exact .flatMap fun c _ => body_keeps c (enter _ _ _ mem h)
  | case3 frame s _ _ children_keep =>
    refine Keeps.append (Keeps.append (keeps_traceOwn h) ?_) ?_
    · exact .flatMap fun e _ => keeps_traceExpr enter walrus h
    · exact .flatMap fun c _ => children_keep c h

end Frames

/-! ## Frames of a method -/

/-- A frame that belongs to scopes that open: its report is of one of them, and of the innermost
scope if that is one. -/
structure Owned (opened : List ScopeKey) (f : Frame) : Prop where
  report : f.report ∈ opened
  keys : ∀ l ∈ f.chain, l.own = true → l.key ∈ opened
  here : ∀ l ∈ f.chain.head?, l.own = true → f.report = l.key

lemma Owned.enter {opened : List ScopeKey} {f : Frame} {key : ScopeKey} {kind : ScopeKind}
    (mem : key ∈ opened) (h : Owned opened f) : Owned opened (f.enter key kind) := by
  refine ⟨mem, List.forall_mem_cons.2 ⟨fun _ => mem, h.keys⟩, ?_⟩
  rintro l ⟨⟩ -
  rfl

lemma mem_of_mem_withoutComprehensions {chain : List ScopeLink} {l : ScopeLink}
    (h : l ∈ Frame.withoutComprehensions chain) : l ∈ chain := by
  fun_induction Frame.withoutComprehensions chain with
  | case1 link next rest is ih => exact List.mem_cons_of_mem _ (ih h)
  | case2 | case3 => exact h

lemma Owned.forWalrus {opened : List ScopeKey} {f : Frame} (h : Owned opened f) :
    Owned opened f.forWalrus := by
  have subset {l : ScopeLink} (hl : l ∈ Frame.withoutComprehensions f.chain) (own : l.own = true) :
      l.key ∈ opened := h.keys l (mem_of_mem_withoutComprehensions hl) own
  unfold Frame.forWalrus
  generalize Frame.withoutComprehensions f.chain = chain at subset
  cases chain with
  | nil => exact h
  | cons link rest =>
    refine ⟨?_, fun l hl => subset hl, ?_⟩
    · dsimp only
      split
      next own => exact subset List.mem_cons_self own
      · exact h.report
    · rintro l ⟨⟩ own
      exact if_pos own

end MethodLift.Scope
