import MethodLift.Proofs.Call.Signature
import MethodLift.Proofs.Lists

/-!
# How arguments are bound to parameters

The rule by which a call passes its arguments.  Positional arguments fill the parameters in order;
an argument with a name goes to the parameter of that name; what nothing is passed to keeps its
default.  `Signature.Accepts` lists what makes a call an error otherwise, `Signature.binding` is
what the parameters get.

What was bound stays bound as it was if the first parameter leaves together with its argument
(`Signature.Binds.withoutFirst`), and if parameters without defaults join in, to which the call
passes something by name (`Signature.Extends.binds_iff`) or by position
(`Signature.Binds.positional`).  Names are where something can go wrong: a call may already use the
name of a new parameter.
-/

namespace MethodLift

/-! ## Calls -/

/-- An argument of a call. -/
structure Actual (α : Type) where
  keyword : Option String
  value : α
deriving DecidableEq

variable {α : Type}

/-- The arguments that are passed by position. -/
def positionals (args : List (Actual α)) : List α :=
  args.filterMap fun a => match a.keyword with
    | none => some a.value
    | some _ => none

/-- The arguments that are passed by name. -/
def keywords (args : List (Actual α)) : List (String × α) :=
  args.filterMap fun a => a.keyword.map (·, a.value)

/-- What the parameters of a function get: those with one argument in order, where nothing stands
for the default, then the rest of the positions and the rest of the names. -/
structure Binding (α : Type) where
  slots : List (String × Option α)
  rest : List α
  others : List (String × α)

namespace Signature

variable (sig : Signature)

/-- The parameters that `n` positional arguments fill although names reach them, too. -/
def filled (n : ℕ) : List Slot := sig.regular.take (n - sig.positionalOnly.length)

/-- The parameters that `n` positional arguments leave to the names. -/
def unfilled (n : ℕ) : List Slot := sig.regular.drop (n - sig.positionalOnly.length) ++ sig.named

/-- What a call has to be so that it is no error. -/
structure Accepts (args : List (Actual α)) : Prop where
  /-- No position after a name. -/
  inOrder : args.Pairwise fun a b => a.keyword.isSome = true → b.keyword.isSome = true
  /-- No name twice. -/
  once : ((keywords args).map (·.1)).Nodup
  /-- Not too many positions. -/
  room : sig.rest = none → (positionals args).length ≤ sig.places.length
  /-- No name of a parameter that a position fills. -/
  free : ∀ k ∈ (keywords args).map (·.1),
    k ∉ (sig.filled (positionals args).length).map (·.name)
  /-- No unknown name. -/
  known : sig.others = none → ∀ k ∈ (keywords args).map (·.1), k ∈ sig.byName.map (·.name)
  /-- No parameter without a default is left out. -/
  complete : ∀ s ∈ sig.positionalOnly.drop (positionals args).length, s.optional = true
  completeByName : ∀ s ∈ sig.unfilled (positionals args).length,
    s.optional = true ∨ s.name ∈ (keywords args).map (·.1)

instance (args : List (Actual α)) : Decidable (sig.Accepts args) :=
  decidable_of_iff
    ((args.Pairwise fun a b => a.keyword.isSome = true → b.keyword.isSome = true)
      ∧ ((keywords args).map (·.1)).Nodup
      ∧ (sig.rest = none → (positionals args).length ≤ sig.places.length)
      ∧ (∀ k ∈ (keywords args).map (·.1),
          k ∉ (sig.filled (positionals args).length).map (·.name))
      ∧ (sig.others = none →
          ∀ k ∈ (keywords args).map (·.1), k ∈ sig.byName.map (·.name))
      ∧ (∀ s ∈ sig.positionalOnly.drop (positionals args).length, s.optional = true)
      ∧ ∀ s ∈ sig.unfilled (positionals args).length,
          s.optional = true ∨ s.name ∈ (keywords args).map (·.1))
    ⟨fun ⟨inOrder, once, room, free, known, complete, byName⟩ =>
        ⟨inOrder, once, room, free, known, complete, byName⟩,
      fun ⟨inOrder, once, room, free, known, complete, byName⟩ =>
        ⟨inOrder, once, room, free, known, complete, byName⟩⟩

/-- What the parameters get. -/
def binding (args : List (Actual α)) : Binding α where
  slots := (sig.places.zip (positionals args)).map (fun (s, value) => (s.name, some value))
    ++ (sig.positionalOnly.drop (positionals args).length).map (fun s => (s.name, none))
    ++ (sig.unfilled (positionals args).length).map fun s =>
      (s.name, (keywords args).lookup s.name)
  rest := (positionals args).drop sig.places.length
  others := (keywords args).filter fun k => k.1 ∉ sig.byName.map (·.name)

/-- A call binds its arguments in a certain way. -/
structure Binds (args : List (Actual α)) (b : Binding α) : Prop where
  accepts : sig.Accepts args
  binding_eq : sig.binding args = b

/-- A call is bound in one way only. -/
lemma Binds.unique {sig : Signature} {args : List (Actual α)} {b b' : Binding α}
    (h : sig.Binds args b) (h' : sig.Binds args b') : b = b' :=
  h.binding_eq.symm.trans h'.binding_eq

end Signature

/-! ## Names and positions of a longer call -/

lemma positionals_append (args args' : List (Actual α)) :
    positionals (args ++ args') = positionals args ++ positionals args' := List.filterMap_append

lemma keywords_append (args args' : List (Actual α)) :
    keywords (args ++ args') = keywords args ++ keywords args' := List.filterMap_append

/-- Arguments that are passed by name. -/
def byNames (values : List (String × α)) : List (Actual α) :=
  values.map fun v => ⟨some v.1, v.2⟩

/-- Arguments that are passed by position. -/
def byPositions (values : List (String × α)) : List (Actual α) :=
  values.map fun v => ⟨none, v.2⟩

lemma positionals_byNames (values : List (String × α)) : positionals (byNames values) = [] := by
  induction values with
  | nil => rfl
  | cons v values ih => exact ih

lemma keywords_byNames (values : List (String × α)) : keywords (byNames values) = values := by
  induction values with
  | nil => rfl
  | cons v values ih => exact congrArg (v :: ·) ih

lemma positionals_byPositions (values : List (String × α)) :
    positionals (byPositions values) = values.map (·.2) := by
  induction values with
  | nil => rfl
  | cons v values ih => exact congrArg (v.2 :: ·) ih

lemma keywords_byPositions (values : List (String × α)) : keywords (byPositions values) = [] := by
  induction values with
  | nil => rfl
  | cons v values ih => exact ih

lemma lookup_eq_none {values : List (String × α)} {name : String}
    (h : name ∉ values.map (·.1)) : values.lookup name = none := by
  rw [List.lookup_eq_none_iff]
  intro v hv
  have mem : v.1 ∈ values.map (·.1) := List.mem_map_of_mem hv
  rw [bne_iff_ne]
  rintro rfl
  exact h mem

/-! ## The first parameter leaves -/

namespace Signature

variable {sig : Signature} {args : List (Actual α)} {b : Binding α}

section
variable {first : Slot} {later : List Slot} (shape : sig.places = first :: later) (n : ℕ)
include shape

lemma withoutFirst_drop :
    sig.withoutFirst.positionalOnly.drop n = sig.positionalOnly.drop (n + 1) := by
  rcases withoutFirst_cases shape with ⟨only, front, same⟩ | ⟨front, regular, back, same⟩
  · rw [same, front, List.drop_succ_cons]
  · rw [same, front, List.drop_nil, List.drop_nil]

lemma withoutFirst_unfilled : sig.withoutFirst.unfilled n = sig.unfilled (n + 1) := by
  rcases withoutFirst_cases shape with ⟨only, front, same⟩ | ⟨front, regular, back, same⟩
  · rw [same, unfilled, unfilled, front, List.length_cons, Nat.add_sub_add_right]
  · rw [same, unfilled, unfilled, front, back, List.length_nil, Nat.sub_zero, Nat.sub_zero,
      List.drop_succ_cons]

lemma withoutFirst_filled : ∀ s ∈ sig.withoutFirst.filled n, s ∈ sig.filled (n + 1) := by
  intro s hs
  rcases withoutFirst_cases shape with ⟨only, front, same⟩ | ⟨front, regular, back, same⟩
  · rw [same, filled] at hs
    rw [filled, front, List.length_cons, Nat.add_sub_add_right]
    exact hs
  · rw [same, filled, front, List.length_nil, Nat.sub_zero] at hs
    rw [filled, front, back, List.length_nil, Nat.sub_zero, List.take_succ_cons]
    exact List.mem_cons_of_mem _ hs

/-- Only the name of the first parameter is lost, which a position filled. -/
lemma withoutFirst_byName {name : String} (unfilled : name ∉ (sig.filled (n + 1)).map (·.name)) :
    name ∈ sig.withoutFirst.byName.map (·.name) ↔ name ∈ sig.byName.map (·.name) := by
  rcases withoutFirst_cases shape with ⟨only, front, same⟩ | ⟨front, regular, back, same⟩
  · rw [same]
    rfl
  · rw [filled, front, back, List.length_nil, Nat.sub_zero, List.take_succ_cons, List.map_cons,
      List.mem_cons, not_or] at unfilled
    rw [same, byName, byName, back, List.cons_append, List.map_cons, List.mem_cons]
    exact (or_iff_right unfilled.1).symm

end

/-- Of a call that passes something to the first parameter by position, the other arguments are
bound as before if that parameter leaves. -/
theorem Binds.withoutFirst {first : Slot} {later : List Slot} {value : α}
    (shape : sig.places = first :: later) (h : sig.Binds (⟨none, value⟩ :: args) b) :
    ∃ slots, b.slots = (first.name, some value) :: slots
      ∧ sig.withoutFirst.Binds args ⟨slots, b.rest, b.others⟩ := by
  obtain ⟨⟨inOrder, once, room, free, known, complete, completeByName⟩, rfl⟩ := h
  have positions : positionals (⟨none, value⟩ :: args) = value :: positionals args := rfl
  have names : keywords (⟨none, value⟩ :: args) = keywords args := rfl
  rw [positions, List.length_cons] at room free complete completeByName
  rw [names] at once free known completeByName
  have places := withoutFirst_places shape
  have drop := withoutFirst_drop shape (positionals args).length
  have unfilled := withoutFirst_unfilled shape (positionals args).length
  have byName : ∀ k ∈ (keywords args).map (·.1),
      (k ∈ sig.withoutFirst.byName.map (·.name) ↔ k ∈ sig.byName.map (·.name)) :=
    fun k hk => withoutFirst_byName shape _ (free k hk)
  have slots : (sig.binding (⟨none, value⟩ :: args)).slots
      = (first.name, some value) :: (sig.withoutFirst.binding args).slots := by
    rw [binding, binding, positions, names, shape, places, drop, unfilled, List.zip_cons_cons,
      List.length_cons]
    rfl
  have rest : (sig.binding (⟨none, value⟩ :: args)).rest = (sig.withoutFirst.binding args).rest := by
    show (positionals (⟨none, value⟩ :: args)).drop sig.places.length
      = (positionals args).drop sig.withoutFirst.places.length
    rw [positions, shape, places]
    rfl
  have others : (sig.binding (⟨none, value⟩ :: args)).others
      = (sig.withoutFirst.binding args).others := by
    refine List.filter_congr ?_
    intro k hk
    rw [decide_eq_decide]
    exact not_congr (byName k.1 (List.mem_map_of_mem hk)).symm
  refine ⟨_, slots, ⟨⟨(List.pairwise_cons.1 inOrder).2, once, ?_, ?_, ?_, ?_, ?_⟩, ?_⟩⟩
  · intro none
    rw [withoutFirst_rest] at none
    have enough := room none
    rw [shape] at enough
    rw [places]
    exact Nat.le_of_succ_le_succ enough
  · intro k hk reached
    obtain ⟨s, hs, rfl⟩ := List.mem_map.1 reached
    exact free s.name hk (List.mem_map_of_mem (withoutFirst_filled shape _ s hs))
  · intro none k hk
    rw [withoutFirst_others] at none
    exact (byName k hk).2 (known none k hk)
  · rw [drop]
    exact complete
  · rw [unfilled]
    exact completeByName
  · rw [rest, others]

/-! ## Parameters join in -/

lemma mem_byName_of_mem_filled {n : ℕ} {name : String}
    (h : name ∈ (sig.filled n).map (·.name)) : name ∈ sig.byName.map (·.name) := by
  obtain ⟨s, hs, rfl⟩ := List.mem_map.1 h
  exact List.mem_map_of_mem (List.mem_append_left _ (List.mem_of_mem_take hs))

lemma mem_byName_of_mem_unfilled {n : ℕ} {s : Slot} (h : s ∈ sig.unfilled n) :
    s.name ∈ sig.byName.map (·.name) := by
  refine List.mem_map_of_mem ?_
  rcases List.mem_append.1 h with h | h
  · exact List.mem_append_left _ (List.mem_of_mem_drop h)
  · exact List.mem_append_right _ h

lemma zip_take_length {β γ : Type} (xs : List β) (ys : List γ) :
    (xs.take ys.length).zip ys = xs.zip ys := by
  induction ys generalizing xs with
  | nil => rw [List.zip_nil_right, List.zip_nil_right]
  | cons y ys ih =>
    cases xs with
    | nil => rfl
    | cons x xs => rw [List.length_cons, List.take_succ_cons, List.zip_cons_cons, ih,
        List.zip_cons_cons]

/-- A signature with more parameters that names reach, seen by a call with `n` positional arguments:
these reach none of the new parameters. -/
structure Extends (sig sig' : Signature) (n : ℕ) (names : List String) : Prop where
  positionalOnly : sig'.positionalOnly = sig.positionalOnly
  places : sig'.places.take n = sig.places.take n
  reach : sig'.places.length = sig.places.length
    ∨ n ≤ sig.places.length ∧ n ≤ sig'.places.length
  filled : sig'.filled n = sig.filled n
  unfilled : sig'.unfilled n = sig.unfilled n ++ required names
  byName : ∀ name, name ∈ sig'.byName.map (·.name)
    ↔ name ∈ sig.byName.map (·.name) ∨ name ∈ names
  rest : sig'.rest = sig.rest
  others : sig'.others = sig.others

section
variable {sig' : Signature} {values : List (String × α)}

/-- A call that a function accepts is accepted with more arguments by name if no name comes
twice. -/
lemma Extends.accepts (h : Extends sig sig' (positionals args).length (values.map (·.1)))
    (fresh : ∀ name ∈ values.map (·.1), name ∉ sig.byName.map (·.name))
    (distinct : (values.map (·.1)).Nodup) (accepts : sig.Accepts args)
    (apart : ∀ name ∈ values.map (·.1), name ∉ (keywords args).map (·.1)) :
    sig'.Accepts (args ++ byNames values) := by
  have positions : positionals (args ++ byNames values) = positionals args := by
    rw [positionals_append, positionals_byNames, List.append_nil]
  have names : (keywords (args ++ byNames values)).map (·.1)
      = (keywords args).map (·.1) ++ values.map (·.1) := by
    rw [keywords_append, keywords_byNames, List.map_append]
  have named : ∀ a ∈ byNames values, a.keyword.isSome = true := by
    intro a ha
    obtain ⟨v, -, rfl⟩ := List.mem_map.1 ha
    rfl
  constructor
  case inOrder =>
    refine List.pairwise_append.2 ⟨accepts.inOrder, ?_, ?_⟩
    · exact List.pairwise_of_forall_mem_list fun a _ b hb _ => named b hb
    · exact fun a _ b hb _ => named b hb
  case once =>
    rw [names, List.nodup_append]
    refine ⟨accepts.once, distinct, ?_⟩
    rintro k hk _ new rfl
    exact apart k new hk
  case room =>
    intro none
    rw [h.rest] at none
    have enough := accepts.room none
    rw [positions]
    rcases h.reach with same | ⟨-, within⟩
    · rw [same]
      exact enough
    · exact within
  case free =>
    rw [names, positions, h.filled]
    refine List.forall_mem_append.2 ⟨accepts.free, ?_⟩
    intro k new reached
    exact fresh k new (mem_byName_of_mem_filled reached)
  case known =>
    intro none
    rw [h.others] at none
    rw [names]
    refine List.forall_mem_append.2 ⟨?_, ?_⟩
    · exact fun k hk => (h.byName k).2 (.inl (accepts.known none k hk))
    · exact fun k new => (h.byName k).2 (.inr new)
  case complete =>
    rw [positions, h.positionalOnly]
    exact accepts.complete
  case completeByName =>
    rw [positions, h.unfilled, names]
    refine List.forall_mem_append.2 ⟨?_, ?_⟩
    · exact fun s hs => (accepts.completeByName s hs).imp_right (List.mem_append_left _)
    · intro s hs
      obtain ⟨name, new, rfl⟩ := List.mem_map.1 hs
      exact .inr (List.mem_append_right _ new)

/-- What a call passes by name to the new parameters gets there, and nothing else changes. -/
lemma Extends.binding (h : Extends sig sig' (positionals args).length (values.map (·.1)))
    (fresh : ∀ name ∈ values.map (·.1), name ∉ sig.byName.map (·.name))
    (distinct : (values.map (·.1)).Nodup)
    (apart : ∀ name ∈ values.map (·.1), name ∉ (keywords args).map (·.1)) :
    sig'.binding (args ++ byNames values)
      = ⟨(sig.binding args).slots ++ values.map (fun v => (v.1, some v.2)),
        (sig.binding args).rest, (sig.binding args).others⟩ := by
  have positions : positionals (args ++ byNames values) = positionals args := by
    rw [positionals_append, positionals_byNames, List.append_nil]
  have names : keywords (args ++ byNames values) = keywords args ++ values := by
    rw [keywords_append, keywords_byNames]
  have zipped : sig'.places.zip (positionals args) = sig.places.zip (positionals args) := by
    rw [← zip_take_length, h.places, zip_take_length]
  have old : ∀ s ∈ sig.unfilled (positionals args).length,
      (keywords args ++ values).lookup s.name = (keywords args).lookup s.name := by
    intro s hs
    have absent : values.lookup s.name = none :=
      lookup_eq_none fun new => fresh s.name new (mem_byName_of_mem_unfilled hs)
    rw [List.lookup_append, absent, Option.or_none]
  have new : (required (values.map (·.1))).map
      (fun s => (s.name, (keywords args ++ values).lookup s.name))
        = values.map fun v => (v.1, some v.2) := by
    rw [required, List.map_map, List.map_map]
    refine List.map_congr_left ?_
    intro v hv
    have absent : (keywords args).lookup v.1 = none :=
      lookup_eq_none (apart v.1 (List.mem_map_of_mem hv))
    show (v.1, (keywords args ++ values).lookup v.1) = _
    rw [List.lookup_append, absent, Option.none_or, (lookup_eq_some_iff_mem distinct).2 hv]
  have rest : (positionals args).drop sig'.places.length
      = (positionals args).drop sig.places.length := by
    rcases h.reach with same | ⟨within, within'⟩
    · rw [same]
    · rw [List.drop_eq_nil_of_le within, List.drop_eq_nil_of_le within']
  have others : (keywords args ++ values).filter (fun k => k.1 ∉ sig'.byName.map (·.name))
      = (keywords args).filter (fun k => k.1 ∉ sig.byName.map (·.name)) := by
    have taken : values.filter (fun k => k.1 ∉ sig'.byName.map (·.name)) = [] := by
      refine List.filter_eq_nil_iff.2 ?_
      intro v hv
      rw [decide_eq_true_iff, not_not]
      exact (h.byName v.1).2 (.inr (List.mem_map_of_mem hv))
    rw [List.filter_append, taken, List.append_nil]
    refine List.filter_congr ?_
    intro k hk
    have old : k.1 ∉ values.map (·.1) := fun new => apart k.1 new (List.mem_map_of_mem hk)
    rw [decide_eq_decide]
    exact not_congr ((h.byName k.1).trans (or_iff_left old))
  rw [Signature.binding, positions, names, zipped, h.positionalOnly, h.unfilled, List.map_append,
    List.map_congr_left fun s hs => congrArg (s.name, ·) (old s hs), new, rest, others,
    ← List.append_assoc]
  rfl

/-- If a call passes something by name to new parameters besides, then it goes wrong exactly if it
has one of the names already. -/
theorem Extends.binds_iff (h : Extends sig sig' (positionals args).length (values.map (·.1)))
    (fresh : ∀ name ∈ values.map (·.1), name ∉ sig.byName.map (·.name))
    (distinct : (values.map (·.1)).Nodup) (old : sig.Binds args b) (b' : Binding α) :
    sig'.Binds (args ++ byNames values) b' ↔
      (∀ name ∈ values.map (·.1), name ∉ (keywords args).map (·.1))
        ∧ b' = ⟨b.slots ++ values.map (fun v => (v.1, some v.2)), b.rest, b.others⟩ := by
  obtain ⟨accepts, rfl⟩ := old
  constructor
  · rintro ⟨accepts', rfl⟩
    have once := accepts'.once
    rw [keywords_append, keywords_byNames, List.map_append, List.nodup_append] at once
    have apart : ∀ name ∈ values.map (·.1), name ∉ (keywords args).map (·.1) :=
      fun name new old => once.2.2 name old name new rfl
    exact ⟨apart, h.binding fresh distinct apart⟩
  · rintro ⟨apart, rfl⟩
    exact ⟨h.accepts fresh distinct accepts apart, h.binding fresh distinct apart⟩

end

lemma withNamed_extends (sig : Signature) (n : ℕ) (names : List String) :
    Extends sig (sig.withNamed names) n names := by
  refine ⟨rfl, rfl, .inl rfl, rfl, ?_, ?_, rfl, rfl⟩
  · exact (List.append_assoc _ _ _).symm
  · intro name
    rw [withNamed, byName, byName, ← List.append_assoc, List.map_append, List.mem_append,
      map_name_required]

/-- Where only positions and names of regular parameters matter, new ones may be regular, too. -/
lemma withRegular_extends {n : ℕ} (bare : sig.named = []) (within : n ≤ sig.places.length)
    (names : List String) : Extends sig (sig.withRegular names) n names := by
  have reached : n - sig.positionalOnly.length ≤ sig.regular.length := by
    rw [places, List.length_append] at within
    omega
  refine ⟨rfl, ?_, .inr ⟨within, ?_⟩, ?_, ?_, ?_, rfl, rfl⟩
  · rw [withRegular_places, List.take_append_of_le_length within]
  · rw [withRegular_places, List.length_append]
    exact Nat.le_add_right_of_le within
  · exact List.take_append_of_le_length reached
  · show (sig.regular ++ required names).drop (n - sig.positionalOnly.length) ++ sig.named = _
    rw [unfilled, bare, List.drop_append_of_le_length reached, List.append_nil, List.append_nil]
  · intro name
    show name ∈ (sig.regular ++ required names ++ sig.named).map (·.name) ↔ _
    rw [byName, bare, List.append_nil, List.append_nil, List.map_append, List.mem_append,
      map_name_required]

/-- Where no parameter may be left out, a call that passes everything by position passes as much as
there are positions. -/
lemma Accepts.positionals_length (accepts : sig.Accepts args) (full : sig.rest = none)
    (needed : ∀ s ∈ sig.places, s.optional = false) (noKeywords : keywords args = []) :
    (positionals args).length = sig.places.length := by
  refine Nat.le_antisymm (accepts.room full) ?_
  have front : sig.positionalOnly.drop (positionals args).length = [] := by
    rw [List.eq_nil_iff_forall_not_mem]
    intro s hs
    have optional := accepts.complete s hs
    rw [needed s (List.mem_append_left _ (List.mem_of_mem_drop hs))] at optional
    nomatch optional
  have back : sig.regular.drop ((positionals args).length - sig.positionalOnly.length) = [] := by
    rw [List.eq_nil_iff_forall_not_mem]
    intro s hs
    have passed := accepts.completeByName s (List.mem_append_left _ hs)
    rw [needed s (List.mem_append_right _ (List.mem_of_mem_drop hs)), noKeywords] at passed
    rcases passed with optional | named
    · nomatch optional
    · nomatch named
  rw [List.drop_eq_nil_iff] at front back
  rw [places, List.length_append]
  omega

lemma positionalOnly_drop_places (sig : Signature) :
    sig.positionalOnly.drop sig.places.length = [] := by
  rw [places, List.length_append]
  exact List.drop_eq_nil_of_le (Nat.le_add_right _ _)

lemma unfilled_places (sig : Signature) : sig.unfilled sig.places.length = sig.named := by
  rw [unfilled, places, List.length_append, Nat.add_sub_cancel_left, List.drop_length,
    List.nil_append]

lemma keyword_eq_none (h : keywords args = []) : ∀ a ∈ args, a.keyword = none := by
  intro a ha
  cases passed : a.keyword with
  | none => rfl
  | some name =>
    have mem : (name, a.value) ∈ keywords args :=
      List.mem_filterMap.2 ⟨a, ha, by rw [passed]; rfl⟩
    rw [h] at mem
    nomatch mem

/-- A call that passes everything by position passes what is new by position, too, if no parameter
may be left out. -/
theorem Binds.positional {values : List (String × α)} (h : sig.Binds args b)
    (bare : sig.named = []) (full : sig.rest = none)
    (needed : ∀ s ∈ sig.places, s.optional = false) (noKeywords : keywords args = []) :
    (sig.withRegular (values.map (·.1))).Binds (args ++ byPositions values)
      ⟨b.slots ++ values.map (fun v => (v.1, some v.2)), b.rest, b.others⟩ := by
  obtain ⟨accepts, rfl⟩ := h
  have count := accepts.positionals_length full needed noKeywords
  set sig' := sig.withRegular (values.map (·.1))
  have bare' : sig'.named = [] := bare
  have positions : positionals (args ++ byPositions values)
      = positionals args ++ values.map (·.2) := by
    rw [positionals_append, positionals_byPositions]
  have names : keywords (args ++ byPositions values) = [] := by
    rw [keywords_append, keywords_byPositions, noKeywords, List.append_nil]
  have count' : (positionals (args ++ byPositions values)).length = sig'.places.length := by
    rw [positions, withRegular_places, List.length_append, List.length_append, count, required,
      List.length_map, List.length_map, List.length_map]
  constructor
  case accepts =>
    constructor
    case inOrder =>
      refine List.pairwise_append.2 ⟨accepts.inOrder, ?_, ?_⟩
      · refine List.pairwise_map.2 (List.pairwise_of_forall ?_)
        exact fun _ _ => id
      · intro a ha _ _ named
        rw [keyword_eq_none noKeywords a ha] at named
        exact absurd named Bool.false_ne_true
    case once => rw [names]; exact List.nodup_nil
    case room => exact fun _ => Nat.le_of_eq count'
    case free => rw [names]; exact List.forall_mem_nil _
    case known => rw [names]; exact fun _ => List.forall_mem_nil _
    case complete => rw [count', positionalOnly_drop_places]; exact List.forall_mem_nil _
    case completeByName => rw [count', unfilled_places, bare']; exact List.forall_mem_nil _
  case binding_eq =>
    have zipped : sig'.places.zip (positionals args ++ values.map (·.2))
        = sig.places.zip (positionals args)
          ++ values.map fun v => ((⟨v.1, false⟩ : Slot), v.2) := by
      rw [withRegular_places, List.zip_append count.symm, required, List.map_map, List.zip_map']
      rfl
    have left : (positionals args ++ values.map (·.2)).drop sig'.places.length = [] := by
      rw [← positions, ← count', List.drop_length]
    have left' : (positionals args).drop sig.places.length = [] := by
      rw [← count, List.drop_length]
    rw [binding, binding, count', count, positions, names, noKeywords, zipped, left, left',
      positionalOnly_drop_places, positionalOnly_drop_places, unfilled_places, unfilled_places,
      bare, bare', List.map_append, List.map_map]
    simp only [List.map_nil, List.append_nil, List.filter_nil]
    rfl

end Signature

end MethodLift
