import MethodLift.Lift.Target
import MethodLift.Method.Function
import MethodLift.Call.Change
import MethodLift.Proofs.Call.Arguments
import MethodLift.Proofs.Method.Parameter

/-!
# New parameters and new arguments agree

The parameter list of the new function and the arguments of its calls are made apart from each
other, and what they have in common is the plan and one question, asked of the old parameter list
alone: whether new parameters are passed by position or by name.  This is where both are held
against the rule by which arguments are bound.

As the method's signature loses the instance, its calls lose the receiver, and all else stays bound
as it was.  New parameters come behind the positions or behind the names, wherever the answer to the
question puts them, and every call passes to them what it should, with one exception: a method that
takes arbitrary keywords may be called with one that a new parameter is named like
(`lifted_call_binds_iff`).
-/

namespace MethodLift

open MethodLift.Syntax

/-! ## Trees as signatures and calls -/

/-- A parameter as an entry of a parameter list. -/
def Syntax.Param.formal (p : Param Expr) : Formal :=
  ⟨p.kind, p.name.map (·.name), p.default.isSome⟩

/-- An argument that is no unpacking, with the expression that it passes. -/
def Syntax.Arg.actual (a : Arg Expr) : Actual (Expr ⊕ String) :=
  match a.kind with
  | .keyword ident => ⟨some ident.name, .inl a.value⟩
  | _ => ⟨none, .inl a.value⟩

/-- A new argument, with the text that it passes. -/
def NewArgument.actual (a : NewArgument) : Actual (Expr ⊕ String) := ⟨a.keyword, .inr a.value⟩

/-- What positions end at, whether names follow or not. -/
def Formal.isStar (f : Formal) : Bool := f.kind == .varPositional || f.kind == .keywordOnlyMark

/-- What makes it impossible to add parameters that are passed by position. -/
def Formal.needsKeywords (f : Formal) : Bool :=
  f.optional || f.kind == .varPositional || f.kind == .keywordOnlyMark || f.kind == .varKeyword

namespace NewFunction

/-- The entries of the parameter list of the new function. -/
def ParameterList.formals (ps : ParameterList) : List Formal :=
  ps.before.map Param.formal ++ (if ps.star then [⟨.keywordOnlyMark, none, false⟩] else [])
    ++ (Signature.required ps.names).map Slot.formal ++ ps.behind.map Param.formal

variable {sig : Signature} {ps : List (Param Expr)}

/-! ## The instance leaves -/

lemma keptParams_cons_formals (p : Param Expr) :
    (keptParams (p :: ps)).map Param.formal = Signature.withoutMark (ps.map Param.formal) := by
  cases ps with
  | nil => rfl
  | cons q ps =>
    show (if q.kind == .positionalOnlyMark then ps else q :: ps).map Param.formal
      = if q.kind == .positionalOnlyMark then ps.map Param.formal
        else (q :: ps).map Param.formal
    split
    · rfl
    · rfl

/-- The parameters that stay are those of the signature without the instance. -/
lemma keptParams_formals {first : Slot} {later : List Slot}
    (list : ps.map Param.formal = sig.formals) (shape : sig.places = first :: later) :
    (keptParams ps).map Param.formal = sig.withoutFirst.formals := by
  obtain ⟨tail, all, rest, -⟩ := Signature.formals_eq_cons shape
  rw [all] at list
  obtain ⟨p, others, rfl, -, others_eq⟩ := List.map_eq_cons_iff.1 list
  rw [keptParams_cons_formals, others_eq, rest]

/-! ## New parameters join in -/

lemma map_takeWhile_kind (kept : List (Param Expr)) (kind : ParamKind) :
    (kept.takeWhile (·.kind != kind)).map Param.formal
      = (kept.map Param.formal).takeWhile (·.kind != kind) := by
  rw [List.takeWhile_map]
  rfl

lemma map_dropWhile_kind (kept : List (Param Expr)) (kind : ParamKind) :
    (kept.dropWhile (·.kind != kind)).map Param.formal
      = (kept.map Param.formal).dropWhile (·.kind != kind) := by
  rw [List.dropWhile_map]
  rfl

/-- A parameter list has a `*` exactly if its signature needs one. -/
lemma hasStar_eq (list : ps.map Param.formal = sig.formals) :
    hasStar ps = !sig.separator.isEmpty := by
  have seen : hasStar ps = sig.formals.any Formal.isStar := by
    rw [← list, List.any_map]
    rfl
  have front : sig.front.any Formal.isStar = false := by
    refine List.any_eq_false.2 ?_
    intro f hf
    rw [Formal.isStar]
    rcases Signature.kind_of_mem_front f hf with kind | kind
    · rw [kind]; nofun
    · rw [kind]; nofun
  have separator : sig.separator.any Formal.isStar = !sig.separator.isEmpty := by
    rw [Signature.separator]
    split
    · rfl
    · rfl
    · rfl
  have named : (sig.named.map Slot.formal).any Formal.isStar = false := by
    refine List.any_eq_false.2 ?_
    intro f hf
    rw [Formal.isStar, Signature.kind_of_mem_slots f hf]
    nofun
  have last : sig.lastFormals.any Formal.isStar = false := by
    rw [Signature.lastFormals]
    cases sig.others with
    | none => rfl
    | some name => rfl
  rw [seen, Signature.formals_eq_append, Signature.earlierFormals, List.any_append,
    List.any_append, List.any_append, front, separator, named, last, Bool.false_or, Bool.or_false,
    Bool.or_false]

/-- Parameters that are passed by position come last, where positions are all there is. -/
lemma ofKept_positional (names : List String) (list : ps.map Param.formal = sig.formals)
    (closed : sig.closing = []) :
    (ParameterList.ofKept ps names .positional).formals = (sig.withRegular names).formals := by
  have closed' : (sig.withRegular names).closing = [] := closed
  rw [Signature.formals, Signature.withRegular_front, closed', ParameterList.formals,
    ParameterList.ofKept, list, Signature.formals, closed]
  simp only [Bool.false_eq_true, if_false, List.append_nil, List.map_nil]

/-- Parameters that are passed by name come behind the others that are, before those that take
arbitrary names, and behind a `*` if there is nothing else that positions end at. -/
lemma ofKept_keyword (names : List String) (list : ps.map Param.formal = sig.formals) :
    (ParameterList.ofKept ps names .keyword).formals = (sig.withNamed names).formals := by
  have last : (sig.withNamed names).lastFormals = sig.lastFormals := rfl
  have star : (!names.isEmpty && !hasStar ps) = (!names.isEmpty && sig.separator.isEmpty) := by
    rw [hasStar_eq list, Bool.not_not]
  rw [Signature.formals_eq_append, last, Signature.withNamed_earlierFormals, ← star,
    ← Signature.takeWhile_formals, ← Signature.dropWhile_formals, ← list, ← map_takeWhile_kind,
    ← map_dropWhile_kind]
  rfl

/-! ## What the style says -/

lemma needsKeywords_of_mem_closing_head : ∀ f ∈ sig.closing.head?, f.needsKeywords = true := by
  obtain ⟨_, _, rest, named, others⟩ := sig
  cases rest <;> cases named <;> cases others <;>
    simp [Signature.closing, Signature.separator, Formal.needsKeywords]

/-- New parameters are passed by position only if positions are all there is, and all of them have
to be passed. -/
lemma of_argumentStyle_positional {params : Parameters Expr} {first : Slot} {later : List Slot}
    (list : params.params.map Param.formal = sig.formals) (shape : sig.places = first :: later)
    (style : argumentStyle params = .positional) :
    sig.closing = [] ∧ ∀ s ∈ later, s.optional = false := by
  obtain ⟨tail, all, -, slots, closed⟩ := Signature.formals_eq_cons shape
  have others : (params.params.drop 1).map Param.formal = tail := by
    rw [List.map_drop, list, all]
    rfl
  have bare : ∀ f ∈ tail, f.needsKeywords = false := by
    intro f hf
    rw [← others] at hf
    obtain ⟨p, hp, rfl⟩ := List.mem_map.1 hf
    rw [argumentStyle] at style
    split at style
    · nomatch style
    next none =>
      rw [List.any_eq_true] at none
      exact Bool.not_eq_true _ ▸ fun needs => none ⟨p, hp, needs⟩
  refine ⟨?_, ?_⟩
  · cases behind : sig.closing with
    | nil => rfl
    | cons f fs =>
      have isHead : f ∈ sig.closing.head? := by
        rw [behind]
        rfl
      have needs := needsKeywords_of_mem_closing_head f isHead
      rw [bare f (closed f (List.mem_of_mem_head? isHead))] at needs
      nomatch needs
  · intro s hs
    have free := bare s.formal (slots s hs)
    rw [Formal.needsKeywords, Bool.or_eq_false_iff, Bool.or_eq_false_iff,
      Bool.or_eq_false_iff] at free
    exact free.1.1.1

/-- A method with an instance has a first position. -/
lemma places_of_hasInstance {d : FunctionDef Stmt}
    (list : d.params.params.map Param.formal = sig.formals)
    (h : LiftTarget.hasInstance d = true) : ∃ first later, sig.places = first :: later := by
  cases shape : sig.places with
  | cons first later => exact ⟨first, later, rfl⟩
  | nil =>
    obtain ⟨only, regular⟩ := List.append_eq_nil_iff.1 shape
    have bare : sig.formals = sig.closing := by
      rw [Signature.formals, Signature.front, only, regular]
      rfl
    rw [LiftTarget.hasInstance] at h
    cases params : d.params.params with
    | nil =>
      rw [params] at h
      exact absurd h Bool.false_ne_true
    | cons p ps =>
      rw [params] at h list
      have regularFirst : p.kind = .regular := by
        have both : (p.kind == .regular && p.name.isSome) = true := h
        rw [Bool.and_eq_true] at both
        exact eq_of_beq both.1
      have isHead : p.formal ∈ sig.closing.head? := by
        rw [← bare, ← list]
        rfl
      exact absurd regularFirst (Signature.closing_head p.formal isHead)

end NewFunction

/-! ## The arguments of a call -/

namespace CallChanges

variable {args : List (Arg Expr)}

/-- Without unpackings, new arguments are passed by name where new parameters are, or where the call
has a name. -/
lemma passesByName_iff {style : ArgumentStyle}
    (plain : ∀ a ∈ args, a.kind ≠ .star ∧ a.kind ≠ .doubleStar) :
    passesByName style args = true ↔
      style = .keyword ∨ keywords (args.map Arg.actual) ≠ [] := by
  rw [passesByName, Bool.or_eq_true, beq_iff_eq]
  refine or_congr_right ?_
  induction args with
  | nil => exact ⟨nofun, fun named => absurd rfl named⟩
  | cons a args ih =>
    obtain ⟨noStar, noDoubleStar⟩ := plain a List.mem_cons_self
    have later := ih fun a ha => plain a (List.mem_cons_of_mem _ ha)
    rw [List.any_cons, Bool.or_eq_true, later]
    cases kind : a.kind with
    | positional =>
      have unnamed : a.actual = ⟨none, .inl a.value⟩ := by rw [Arg.actual, kind]
      rw [List.map_cons, unnamed]
      exact or_iff_right nofun
    | keyword ident =>
      have named : a.actual = ⟨some ident.name, .inl a.value⟩ := by rw [Arg.actual, kind]
      rw [List.map_cons, named]
      exact ⟨fun _ => nofun, fun _ => .inl rfl⟩
    | star => exact absurd kind noStar
    | doubleStar => exact absurd kind noDoubleStar

/-- What is passed to the new parameters. -/
def newValues (plan : ParameterPlan) (receiver : String) : List (String × (Expr ⊕ String)) :=
  plan.map fun p => (p.parameter, .inr (receiver ++ "." ++ p.member))

lemma map_fst_newValues (plan : ParameterPlan) (receiver : String) :
    (newValues plan receiver).map (·.1) = plan.parameters := by
  rw [newValues, List.map_map]
  rfl

lemma newArguments_byNames {ctx : CallContext} {receiver : String}
    (named : passesByName ctx.style args = true) :
    (newArguments ctx args receiver).map NewArgument.actual
      = byNames (newValues ctx.plan receiver) := by
  rw [newArguments, newValues, byNames, List.map_map, List.map_map, named]
  rfl

lemma newArguments_byPositions {ctx : CallContext} {receiver : String}
    (positional : passesByName ctx.style args = false) :
    (newArguments ctx args receiver).map NewArgument.actual
      = byPositions (newValues ctx.plan receiver) := by
  rw [newArguments, newValues, byPositions, List.map_map, List.map_map, positional]
  rfl

end CallChanges

/-! ## Names of parameters -/

/-- The names of a signature are names of parameters. -/
lemma Signature.exists_ident_of_mem_names {sig : Signature} {ps : Parameters Expr}
    (list : ps.params.map Param.formal = sig.formals) {name : String} (h : name ∈ sig.names) :
    ∃ ident ∈ ps.names, ident.name = name := by
  obtain ⟨f, hf, named⟩ := Signature.exists_formal_of_mem_names h
  rw [← list] at hf
  obtain ⟨p, hp, rfl⟩ := List.mem_map.1 hf
  obtain ⟨ident, is, same⟩ := Option.map_eq_some_iff.1 named
  exact ⟨ident, List.mem_filterMap.2 ⟨p, hp, is⟩, same⟩

/-- New parameters are named unlike those that stay. -/
lemma ParameterPlan.not_mem_names_of_ofReads (m : Module) {d : FunctionDef Stmt}
    (reads : List AttributeRead) {sig : Signature}
    (list : d.params.params.map Param.formal = sig.formals) :
    ∀ name ∈ (ofReads reads
        (d.name.name :: (Scope.analyze m (.functionDef d)).usedNames)).parameters,
      name ∉ sig.names := by
  intro name new old
  obtain ⟨ident, mem, rfl⟩ := Signature.exists_ident_of_mem_names list old
  have fresh := ofReads_fresh reads (d.name.name :: (Scope.analyze m (.functionDef d)).usedNames)
  exact fresh.free _ new (List.mem_cons_of_mem _ (Scope.mem_usedNames_of_mem_names m mem))

/-! ## Old and new calls -/

section
variable {sig lifted : Signature} {ctx : CallContext} {args : List (Arg Expr)}
  {b : Binding (Expr ⊕ String)} (written : String)

/-- What the new parameters get, as it stands in a binding. -/
lemma map_some_newValues (plan : ParameterPlan) :
    (CallChanges.newValues plan written).map (fun v => (v.1, some v.2))
      = plan.map fun p => (p.parameter, some (.inr (written ++ "." ++ p.member))) :=
  List.map_map

/-- Where new arguments are passed by name, the call must not have these names already. -/
lemma binds_iff_of_byName (byName : CallChanges.passesByName ctx.style args = true)
    (longer : Signature.Extends sig lifted (positionals (args.map Arg.actual)).length
      ctx.plan.parameters)
    (distinct : ctx.plan.parameters.Nodup) (fresh : ∀ name ∈ ctx.plan.parameters, name ∉ sig.names)
    (old : sig.Binds (args.map Arg.actual) b) (b' : Binding (Expr ⊕ String)) :
    lifted.Binds (args.map Arg.actual
        ++ (CallChanges.newArguments ctx args written).map NewArgument.actual) b' ↔
      (∀ p ∈ ctx.plan, p.parameter ∉ (keywords (args.map Arg.actual)).map (·.1))
        ∧ b' = ⟨b.slots ++ ctx.plan.map fun p =>
            (p.parameter, some (.inr (written ++ "." ++ p.member))), b.rest, b.others⟩ := by
  set values := CallChanges.newValues ctx.plan written
  have parameters : ctx.plan.parameters = values.map (·.1) :=
    (CallChanges.map_fst_newValues ctx.plan written).symm
  rw [parameters] at longer distinct fresh
  have unnamed : ∀ name ∈ values.map (·.1), name ∉ sig.byName.map (·.name) :=
    fun name new named => fresh name new (Signature.mem_names_of_mem_byName named)
  have apart : (∀ p ∈ ctx.plan, p.parameter ∉ (keywords (args.map Arg.actual)).map (·.1))
      ↔ ∀ name ∈ values.map (·.1), name ∉ (keywords (args.map Arg.actual)).map (·.1) := by
    rw [← parameters, ParameterPlan.parameters, List.forall_mem_map]
  rw [CallChanges.newArguments_byNames byName, apart, ← map_some_newValues]
  exact longer.binds_iff unnamed distinct old b'

/-- Where new arguments are passed by position, nothing can go wrong: the call has no names. -/
lemma binds_iff_of_byPosition (noKeywords : keywords (args.map Arg.actual) = [])
    (byPosition : CallChanges.passesByName ctx.style args = false) (bare : sig.named = [])
    (full : sig.rest = none) (needed : ∀ s ∈ sig.places, s.optional = false)
    (old : sig.Binds (args.map Arg.actual) b) (b' : Binding (Expr ⊕ String)) :
    (sig.withRegular ctx.plan.parameters).Binds (args.map Arg.actual
        ++ (CallChanges.newArguments ctx args written).map NewArgument.actual) b' ↔
      (∀ p ∈ ctx.plan, p.parameter ∉ (keywords (args.map Arg.actual)).map (·.1))
        ∧ b' = ⟨b.slots ++ ctx.plan.map fun p =>
            (p.parameter, some (.inr (written ++ "." ++ p.member))), b.rest, b.others⟩ := by
  set values := CallChanges.newValues ctx.plan written
  have binds : (sig.withRegular (values.map (·.1))).Binds (args.map Arg.actual ++ byPositions values)
      ⟨b.slots ++ values.map (fun v => (v.1, some v.2)), b.rest, b.others⟩ :=
    old.positional bare full needed noKeywords
  rw [CallChanges.map_fst_newValues, map_some_newValues] at binds
  rw [CallChanges.newArguments_byPositions byPosition, noKeywords]
  constructor
  · intro binds'
    exact ⟨fun _ _ => nofun, binds'.unique binds⟩
  · rintro ⟨-, rfl⟩
    exact binds

end

/-- A call of the method as a call of the new function.  Whatever was bound to a parameter stays
bound to it, the new parameters get the attributes of the receiver, and this goes wrong exactly if
the call already has the name of a new parameter. -/
theorem lifted_call_binds_iff (m : Module) (d : FunctionDef Stmt) (reads : List AttributeRead)
    (className temporaryName : String) (sig : Signature) (valid : sig.WellFormed)
    (list : d.params.params.map Param.formal = sig.formals)
    (hasInstance : LiftTarget.hasInstance d = true) (args : List (Arg Expr))
    (plain : ∀ a ∈ args, a.kind ≠ .star ∧ a.kind ≠ .doubleStar) (receiver : Expr)
    (written : String) (b : Binding (Expr ⊕ String))
    (bound : sig.Binds (⟨none, .inl receiver⟩ :: args.map Arg.actual) b) :
    let plan := ParameterPlan.ofReads reads
      (d.name.name :: (Scope.analyze m (.functionDef d)).usedNames)
    let style := argumentStyle d.params
    let ctx : CallContext := ⟨className, d.name.name, plan, style, temporaryName⟩
    ∃ lifted : Signature, lifted.WellFormed
      ∧ (NewFunction.ParameterList.ofKept (NewFunction.keptParams d.params.params)
          plan.parameters style).formals = lifted.formals
      ∧ ∃ first slots, b.slots = (first, some (.inl receiver)) :: slots
        ∧ ∀ b', lifted.Binds (args.map Arg.actual
            ++ (CallChanges.newArguments ctx args written).map NewArgument.actual) b' ↔
          (∀ p ∈ plan, p.parameter ∉ (keywords (args.map Arg.actual)).map (·.1))
            ∧ b' = ⟨slots ++ plan.map fun p =>
                (p.parameter, some (.inr (written ++ "." ++ p.member))), b.rest, b.others⟩ := by
  intro plan style ctx
  obtain ⟨first, later, shape⟩ := NewFunction.places_of_hasInstance list hasInstance
  obtain ⟨slots, passed, old⟩ := bound.withoutFirst shape
  have kept := NewFunction.keptParams_formals list shape
  have valid' := valid.withoutFirst shape
  have distinct : plan.parameters.Nodup := (ParameterPlan.ofReads_fresh reads _).distinct
  have fresh : ∀ name ∈ plan.parameters, name ∉ sig.withoutFirst.names := by
    intro name new stays
    refine ParameterPlan.not_mem_names_of_ofReads m reads list name new ?_
    rw [Signature.withoutFirst_names shape]
    exact List.mem_cons_of_mem _ stays
  cases asked : style with
  | keyword =>
    have byName : CallChanges.passesByName ctx.style args = true :=
      (CallChanges.passesByName_iff plain).2 (.inl asked)
    refine ⟨sig.withoutFirst.withNamed plan.parameters, valid'.withNamed distinct fresh,
      NewFunction.ofKept_keyword _ kept, first.name, slots, passed, ?_⟩
    exact binds_iff_of_byName written byName (Signature.withNamed_extends _ _ _) distinct fresh old
  | positional =>
    obtain ⟨closed, needed⟩ := NewFunction.of_argumentStyle_positional list shape asked
    obtain ⟨full, bare⟩ := Signature.of_closing_eq_nil closed
    rw [← Signature.withoutFirst_closing] at closed
    rw [← Signature.withoutFirst_rest] at full
    rw [← Signature.withoutFirst_named] at bare
    rw [← Signature.withoutFirst_places shape] at needed
    refine ⟨sig.withoutFirst.withRegular plan.parameters, valid'.withRegular distinct fresh needed,
      NewFunction.ofKept_positional _ kept closed, first.name, slots, passed, ?_⟩
    by_cases noKeywords : keywords (args.map Arg.actual) = []
    · have byPosition : CallChanges.passesByName ctx.style args = false := by
        rw [← Bool.not_eq_true, CallChanges.passesByName_iff plain]
        rintro (named | named)
        · exact nomatch asked.symm.trans named
        · exact named noKeywords
      exact binds_iff_of_byPosition written noKeywords byPosition bare full needed old
    · have byName : CallChanges.passesByName ctx.style args = true :=
        (CallChanges.passesByName_iff plain).2 (.inr noKeywords)
      have longer := Signature.withRegular_extends bare (old.accepts.room full) plan.parameters
      exact binds_iff_of_byName written byName longer distinct fresh old

/-- The call `q.m(1, b=2, z=3)` of `def m(self, a, *, b=0, **kw)`, where `x` and `a` are read of the
instance, passes both. -/
theorem lifted_call_binds_mixed :
    let one : Expr := .constant default .number
    let d : FunctionDef Stmt :=
      { (default : FunctionDef Stmt) with
        params := ⟨[⟨.regular, some ⟨"self", default⟩, none, none, default⟩,
          ⟨.regular, some ⟨"a", default⟩, none, none, default⟩,
          ⟨.keywordOnlyMark, none, none, none, default⟩,
          ⟨.regular, some ⟨"b", default⟩, none, some one, default⟩,
          ⟨.varKeyword, some ⟨"kw", default⟩, none, none, default⟩], default⟩ }
    let args : List (Arg Expr) :=
      [⟨.positional, one, default⟩, ⟨.keyword ⟨"b", default⟩, one, default⟩,
        ⟨.keyword ⟨"z", default⟩, one, default⟩]
    let plan := ParameterPlan.ofReads [⟨"x", ⟨0, 1⟩⟩, ⟨"a", ⟨2, 3⟩⟩]
      (d.name.name :: (Scope.analyze default (.functionDef d)).usedNames)
    let ctx : CallContext := ⟨"A", d.name.name, plan, argumentStyle d.params, "tmp"⟩
    ∃ (lifted : Signature) (b : Binding (Expr ⊕ String)),
      (NewFunction.ParameterList.ofKept (NewFunction.keptParams d.params.params)
          plan.parameters (argumentStyle d.params)).formals = lifted.formals
        ∧ lifted.Binds (args.map Arg.actual
            ++ (CallChanges.newArguments ctx args "q").map NewArgument.actual) b
        ∧ b.slots = [("a", some (.inl one)), ("b", some (.inl one)), ("x", some (.inr "q.x")),
            ("a_1", some (.inr "q.a"))]
        ∧ b.others = [("z", .inl one)] := by
  intro one d args plan ctx
  set sig : Signature := ⟨[], [⟨"self", false⟩, ⟨"a", false⟩], none, [⟨"b", true⟩], some "kw"⟩
  have valid : sig.WellFormed := ⟨by decide, by decide⟩
  have plain : ∀ a ∈ args, a.kind ≠ .star ∧ a.kind ≠ .doubleStar := by
    simp [args]
  set old : Binding (Expr ⊕ String) := ⟨[("self", some (.inl one)), ("a", some (.inl one)),
    ("b", some (.inl one))], [], [("z", .inl one)]⟩
  have bound : sig.Binds (⟨none, .inl one⟩ :: args.map Arg.actual) old := ⟨by decide, rfl⟩
  have new : plan = [⟨"x", "x", [⟨0, 1⟩]⟩, ⟨"a", "a_1", [⟨2, 3⟩]⟩] := by
    unfold plan
    cbv
  have stored : ∀ p ∈ plan, p.parameter ∉ (keywords (args.map Arg.actual)).map (·.1) := by
    rw [new]
    decide
  obtain ⟨lifted, -, list, first, slots, same, binds⟩ :=
    lifted_call_binds_iff default d _ "A" "tmp" sig valid rfl rfl args plain one "q" old bound
  obtain ⟨-, rfl⟩ := List.cons.inj same
  refine ⟨lifted, _, list, (binds _).2 ⟨stored, rfl⟩, ?_, rfl⟩
  show _ ++ plan.map _ = _
  rw [new]
  rfl

/-- The call `q.m(x=1)` of `def m(self, **kw)` is fine, but where `x` is read of the instance,
`m(x=1, x=q.x)` has a name twice. -/
theorem not_accepts_keyword_twice :
    let one : Expr := .constant default .number
    let d : FunctionDef Stmt :=
      { (default : FunctionDef Stmt) with
        params := ⟨[⟨.regular, some ⟨"self", default⟩, none, none, default⟩,
          ⟨.varKeyword, some ⟨"kw", default⟩, none, none, default⟩], default⟩ }
    let args : List (Arg Expr) := [⟨.keyword ⟨"x", default⟩, one, default⟩]
    let plan := ParameterPlan.ofReads [⟨"x", ⟨0, 1⟩⟩]
      (d.name.name :: (Scope.analyze default (.functionDef d)).usedNames)
    let ctx : CallContext := ⟨"A", d.name.name, plan, argumentStyle d.params, "tmp"⟩
    let sig : Signature := ⟨[], [⟨"self", false⟩], none, [], some "kw"⟩
    d.params.params.map Param.formal = sig.formals
      ∧ sig.Accepts (⟨none, .inl one⟩ :: args.map Arg.actual)
      ∧ ∀ lifted : Signature, ¬lifted.Accepts (args.map Arg.actual
          ++ (CallChanges.newArguments ctx args "q").map NewArgument.actual) := by
  intro one d args plan ctx sig
  refine ⟨rfl, by decide, ?_⟩
  intro lifted accepts
  have twice : (keywords (args.map Arg.actual
      ++ (CallChanges.newArguments ctx args "q").map NewArgument.actual)).map (·.1)
        = ["x", "x"] := by cbv
  have once := accepts.once
  rw [twice] at once
  exact absurd once (by decide)

end MethodLift
