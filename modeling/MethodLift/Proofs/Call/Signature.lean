import Mathlib
import MethodLift.Syntax.Tree

/-!
# Parameter lists as signatures

A parameter list is read as a `Signature`: parameters that only positions reach, parameters that
positions and names reach, the one that takes what is left of the positions, parameters that only
names reach, and the one that takes what is left of the names.  The entries of the list, marks
included, are determined by that (`Signature.formals`).

Two changes of a signature are studied, since they are what a lifted method undergoes: the first
parameter leaves (`Signature.withoutFirst`), and parameters without defaults join in, behind the
names (`Signature.withNamed`) or behind the positions (`Signature.withRegular`).  A list where no
name comes twice stays one.
-/

namespace MethodLift

open MethodLift.Syntax

/-! ## Signatures -/

/-- A parameter that gets one argument. -/
structure Slot where
  name : String
  /-- Whether it has a default. -/
  optional : Bool
deriving DecidableEq

/-- The parameters of a function, as far as its calls are concerned. -/
structure Signature where
  /-- The parameters before a `/`. -/
  positionalOnly : List Slot
  regular : List Slot
  /-- What takes the other positional arguments. -/
  rest : Option String
  /-- The parameters behind a `*`. -/
  named : List Slot
  /-- What takes the other arguments with names. -/
  others : Option String
deriving DecidableEq

/-- An entry of a parameter list, without what does not matter for calls. -/
structure Formal where
  kind : ParamKind
  name : Option String
  optional : Bool
deriving DecidableEq

/-- The entry of a parameter that gets one argument. -/
def Slot.formal (s : Slot) : Formal := ⟨.regular, some s.name, s.optional⟩

namespace Signature

variable (sig : Signature)

/-- What separates the parameters that only names reach from those before them. -/
def separator : List Formal :=
  match sig.rest, sig.named with
  | some name, _ => [⟨.varPositional, some name, false⟩]
  | none, [] => []
  | none, _ :: _ => [⟨.keywordOnlyMark, none, false⟩]

/-- The end of the parameter list, from where positions do not reach. -/
def closing : List Formal :=
  sig.separator ++ (sig.named.map Slot.formal
    ++ sig.others.toList.map fun name => ⟨.varKeyword, some name, false⟩)

/-- The beginning of the parameter list, as far as positions reach. -/
def front : List Formal :=
  match sig.positionalOnly with
  | [] => sig.regular.map Slot.formal
  | _ :: _ => sig.positionalOnly.map Slot.formal
    ++ ⟨.positionalOnlyMark, none, false⟩ :: sig.regular.map Slot.formal

/-- The parameter list of a signature. -/
def formals : List Formal := sig.front ++ sig.closing

/-- The parameters that positions reach, in order. -/
def places : List Slot := sig.positionalOnly ++ sig.regular

/-- The parameters that names reach. -/
def byName : List Slot := sig.regular ++ sig.named

/-- All names that are bound. -/
def names : List String :=
  sig.places.map (·.name) ++ sig.rest.toList ++ sig.named.map (·.name) ++ sig.others.toList

/-- What is asked of a parameter list: names are different, and after a default there are only
defaults. -/
structure WellFormed : Prop where
  distinct : sig.names.Nodup
  defaults : sig.places.Pairwise fun a b => a.optional = true → b.optional = true

/-! ### Where positions do not reach -/

variable {sig}

lemma closing_head : ∀ f ∈ sig.closing.head?, f.kind ≠ .regular := by
  obtain ⟨_, _, rest, named, others⟩ := sig
  cases rest <;> cases named <;> cases others <;> simp [closing, separator]

/-- Nothing follows what positions reach. -/
lemma of_closing_eq_nil (h : sig.closing = []) : sig.rest = none ∧ sig.named = [] := by
  obtain ⟨_, _, rest, named, others⟩ := sig
  cases rest <;> cases named <;> simp_all [closing, separator]

/-! ### Entries by their kinds -/

/-- What takes arbitrary names, as the end of a parameter list. -/
def lastFormals (sig : Signature) : List Formal :=
  sig.others.toList.map fun name => ⟨.varKeyword, some name, false⟩

/-- The parameter list before what takes arbitrary names. -/
def earlierFormals (sig : Signature) : List Formal :=
  sig.front ++ sig.separator ++ sig.named.map Slot.formal

lemma formals_eq_append : sig.formals = sig.earlierFormals ++ sig.lastFormals := by
  rw [formals, closing, earlierFormals, lastFormals, List.append_assoc, List.append_assoc]

lemma kind_of_mem_slots {slots : List Slot} : ∀ f ∈ slots.map Slot.formal, f.kind = .regular := by
  intro f hf
  obtain ⟨s, -, rfl⟩ := List.mem_map.1 hf
  rfl

lemma kind_of_mem_front : ∀ f ∈ sig.front, f.kind = .regular ∨ f.kind = .positionalOnlyMark := by
  rw [front]
  split
  · exact fun f hf => .inl (kind_of_mem_slots f hf)
  · refine List.forall_mem_append.2 ⟨fun f hf => .inl (kind_of_mem_slots f hf), ?_⟩
    refine List.forall_mem_cons.2 ⟨.inr rfl, fun f hf => .inl (kind_of_mem_slots f hf)⟩

lemma kind_of_mem_separator :
    ∀ f ∈ sig.separator, f.kind = .varPositional ∨ f.kind = .keywordOnlyMark := by
  rw [separator]
  split
  · exact List.forall_mem_singleton.2 (.inl rfl)
  · nofun
  · exact List.forall_mem_singleton.2 (.inr rfl)

/-- Nothing takes arbitrary names before the last entry. -/
lemma kind_of_mem_earlierFormals : ∀ f ∈ sig.earlierFormals, (f.kind != .varKeyword) = true := by
  intro f hf
  rcases List.mem_append.1 hf with hf | hf
  · rcases List.mem_append.1 hf with hf | hf
    · rcases kind_of_mem_front f hf with kind | kind
      · rw [kind]; rfl
      · rw [kind]; rfl
    · rcases kind_of_mem_separator f hf with kind | kind
      · rw [kind]; rfl
      · rw [kind]; rfl
  · rw [kind_of_mem_slots f hf]; rfl

lemma takeWhile_formals :
    sig.formals.takeWhile (·.kind != .varKeyword) = sig.earlierFormals := by
  rw [formals_eq_append, List.takeWhile_append_of_pos kind_of_mem_earlierFormals, lastFormals]
  cases sig.others with
  | none => exact List.append_nil _
  | some name => exact List.append_nil _

lemma dropWhile_formals :
    sig.formals.dropWhile (·.kind != .varKeyword) = sig.lastFormals := by
  rw [formals_eq_append, List.dropWhile_append_of_pos kind_of_mem_earlierFormals, lastFormals]
  cases sig.others with
  | none => rfl
  | some name => rfl

/-! ### Names of entries -/

lemma formal_mem_front {s : Slot} (h : s ∈ sig.places) : s.formal ∈ sig.front := by
  rw [front]
  split
  next none =>
    rw [places, none, List.nil_append] at h
    exact List.mem_map_of_mem h
  next =>
    rcases List.mem_append.1 h with h | h
    · exact List.mem_append_left _ (List.mem_map_of_mem h)
    · exact List.mem_append_right _ (List.mem_cons_of_mem _ (List.mem_map_of_mem h))

lemma exists_formal_of_mem_names {name : String} (h : name ∈ sig.names) :
    ∃ f ∈ sig.formals, f.name = some name := by
  rw [names] at h
  rcases List.mem_append.1 h with h | others
  · rcases List.mem_append.1 h with h | named
    · rcases List.mem_append.1 h with place | rest
      · obtain ⟨s, hs, rfl⟩ := List.mem_map.1 place
        exact ⟨s.formal, List.mem_append_left _ (formal_mem_front hs), rfl⟩
      · have is : sig.rest = some name := Option.mem_toList.1 rest
        have mem : (⟨.varPositional, some name, false⟩ : Formal) ∈ sig.separator := by
          rw [separator, is]
          exact List.mem_cons_self
        exact ⟨_, List.mem_append_right _ (List.mem_append_left _ mem), rfl⟩
    · obtain ⟨s, hs, rfl⟩ := List.mem_map.1 named
      have mem := List.mem_append_left
        (sig.others.toList.map fun name => (⟨.varKeyword, some name, false⟩ : Formal))
        (List.mem_map_of_mem hs (f := Slot.formal))
      exact ⟨s.formal, List.mem_append_right _ (List.mem_append_right _ mem), rfl⟩
  · have mem : (⟨.varKeyword, some name, false⟩ : Formal)
        ∈ sig.others.toList.map fun name => ⟨.varKeyword, some name, false⟩ :=
      List.mem_map.2 ⟨name, others, rfl⟩
    exact ⟨_, List.mem_append_right _ (List.mem_append_right _ (List.mem_append_right _ mem)), rfl⟩

lemma mem_names_of_mem_byName {name : String} (h : name ∈ sig.byName.map (·.name)) :
    name ∈ sig.names := by
  rw [byName, List.map_append] at h
  rw [names, places, List.map_append]
  simp only [List.mem_append] at h ⊢
  tauto

/-! ## The first parameter leaves -/

/-- The signature without its first parameter. -/
def withoutFirst (sig : Signature) : Signature :=
  match sig.positionalOnly with
  | _ :: only => { sig with positionalOnly := only }
  | [] => { sig with regular := sig.regular.tail }

lemma withoutFirst_closing : sig.withoutFirst.closing = sig.closing := by
  unfold withoutFirst
  split
  · rfl
  · rfl

lemma withoutFirst_rest : sig.withoutFirst.rest = sig.rest := by
  unfold withoutFirst
  split
  · rfl
  · rfl

lemma withoutFirst_others : sig.withoutFirst.others = sig.others := by
  unfold withoutFirst
  split
  · rfl
  · rfl

lemma withoutFirst_named : sig.withoutFirst.named = sig.named := by
  unfold withoutFirst
  split
  · rfl
  · rfl

section
variable {first : Slot} {later : List Slot} (shape : sig.places = first :: later)
include shape

/-- The first parameter is the first of those before a `/`, or of those behind it. -/
lemma withoutFirst_cases :
    (∃ only, sig.positionalOnly = first :: only
        ∧ sig.withoutFirst = { sig with positionalOnly := only })
      ∨ sig.positionalOnly = [] ∧ ∃ regular, sig.regular = first :: regular
        ∧ sig.withoutFirst = { sig with regular := regular } := by
  rw [places] at shape
  rw [withoutFirst]
  cases front : sig.positionalOnly with
  | cons slot only =>
    rw [front] at shape
    obtain ⟨rfl, -⟩ := List.cons.inj shape
    exact .inl ⟨only, rfl, rfl⟩
  | nil =>
    rw [front, List.nil_append] at shape
    exact .inr ⟨rfl, later, shape, by rw [shape]; rfl⟩

lemma withoutFirst_places : sig.withoutFirst.places = later := by
  rcases withoutFirst_cases shape with ⟨only, front, same⟩ | ⟨front, regular, back, same⟩
  · rw [places, front] at shape
    rw [same]
    exact (List.cons.inj shape).2
  · rw [places, front, back] at shape
    rw [same, places, front]
    exact (List.cons.inj shape).2

lemma withoutFirst_names : sig.names = first.name :: sig.withoutFirst.names := by
  rw [names, names, withoutFirst_places shape, withoutFirst_rest, withoutFirst_named,
    withoutFirst_others, shape]
  rfl

lemma WellFormed.withoutFirst (h : sig.WellFormed) : sig.withoutFirst.WellFormed := by
  have distinct := h.distinct
  have defaults := h.defaults
  rw [withoutFirst_names shape] at distinct
  rw [shape] at defaults
  refine ⟨(List.nodup_cons.1 distinct).2, ?_⟩
  rw [withoutFirst_places shape]
  exact (List.pairwise_cons.1 defaults).2

end

/-- The entries of a parameter list without a `/` in front of them. -/
def withoutMark : List Formal → List Formal
  | [] => []
  | f :: fs => if f.kind == .positionalOnlyMark then fs else f :: fs

lemma withoutMark_closing : withoutMark sig.closing = sig.closing := by
  cases shape : sig.closing with
  | nil => rfl
  | cons f fs =>
    obtain ⟨_, _, rest, named, others⟩ := sig
    rw [← shape]
    cases rest <;> cases named <;> cases others <;> rfl

/-- The first parameter is the first entry, and a `/` that leaves with it may follow. -/
lemma formals_eq_cons {first : Slot} {later : List Slot} (shape : sig.places = first :: later) :
    ∃ tail, sig.formals = first.formal :: tail
      ∧ sig.withoutFirst.formals = withoutMark tail
      ∧ (∀ s ∈ later, s.formal ∈ tail) ∧ ∀ f ∈ sig.closing, f ∈ tail := by
  have places := withoutFirst_places shape
  rw [formals, formals, withoutFirst_closing]
  rcases withoutFirst_cases shape with ⟨only, front, same⟩ | ⟨front, regular, back, same⟩
  · have both : later = only ++ sig.regular := by rw [← places, same, Signature.places]
    refine ⟨only.map Slot.formal
      ++ ⟨.positionalOnlyMark, none, false⟩ :: sig.regular.map Slot.formal ++ sig.closing, ?_, ?_,
      ?_, fun f hf => List.mem_append_right _ hf⟩
    · rw [Signature.front, front]
      rfl
    · rw [same, Signature.front]
      cases only with
      | nil => rfl
      | cons s only => rfl
    · intro s hs
      rw [both] at hs
      refine List.mem_append_left _ ?_
      rcases List.mem_append.1 hs with hs | hs
      · exact List.mem_append_left _ (List.mem_map_of_mem hs)
      · exact List.mem_append_right _ (List.mem_cons_of_mem _ (List.mem_map_of_mem hs))
  · have both : later = regular := by
      rw [← places, same, Signature.places, front, List.nil_append]
    refine ⟨regular.map Slot.formal ++ sig.closing, ?_, ?_, ?_,
      fun f hf => List.mem_append_right _ hf⟩
    · rw [Signature.front, front, back]
      rfl
    · rw [same, Signature.front, front]
      cases regular with
      | nil => exact withoutMark_closing.symm
      | cons s regular => rfl
    · intro s hs
      exact List.mem_append_left _ (List.mem_map_of_mem (both ▸ hs))

/-! ## Parameters join in -/

/-- New parameters without defaults. -/
def required (names : List String) : List Slot := names.map fun name => ⟨name, false⟩

lemma map_name_required (names : List String) : (required names).map (·.name) = names := by
  rw [required, List.map_map]
  exact List.map_id names

/-- The signature with new parameters behind those that names reach, positions or not. -/
def withNamed (sig : Signature) (names : List String) : Signature :=
  { sig with named := sig.named ++ required names }

/-- The signature with new parameters behind those that positions reach. -/
def withRegular (sig : Signature) (names : List String) : Signature :=
  { sig with regular := sig.regular ++ required names }

lemma withRegular_places (sig : Signature) (names : List String) :
    (sig.withRegular names).places = sig.places ++ required names :=
  (List.append_assoc _ _ _).symm

lemma withRegular_front (sig : Signature) (names : List String) :
    (sig.withRegular names).front = sig.front ++ (required names).map Slot.formal := by
  obtain ⟨only, regular, rest, named, others⟩ := sig
  cases only with
  | nil => exact List.map_append
  | cons s only =>
    show (s :: only).map Slot.formal
      ++ ⟨.positionalOnlyMark, none, false⟩ :: (regular ++ required names).map Slot.formal = _
    rw [List.map_append, ← List.cons_append, ← List.append_assoc]
    rfl

/-- New parameters behind the names need a `*` before them if nothing else ends the positions. -/
lemma withNamed_earlierFormals (sig : Signature) (names : List String) :
    (sig.withNamed names).earlierFormals
      = sig.earlierFormals
        ++ (if !names.isEmpty && sig.separator.isEmpty then [⟨.keywordOnlyMark, none, false⟩]
          else [])
        ++ (required names).map Slot.formal := by
  obtain ⟨only, regular, rest, named, others⟩ := sig
  cases rest with
  | some name => simp [earlierFormals, withNamed, separator, front]
  | none =>
    cases named with
    | cons s named => simp [earlierFormals, withNamed, separator, front]
    | nil =>
      cases names with
      | nil => simp [earlierFormals, withNamed, separator, front, required]
      | cons name names => simp [earlierFormals, withNamed, separator, front, required]

lemma withNamed_names (sig : Signature) (names : List String) :
    (sig.withNamed names).names.Perm (sig.names ++ names) := by
  show (sig.places.map (·.name) ++ sig.rest.toList
    ++ (sig.named ++ required names).map (·.name) ++ sig.others.toList).Perm _
  rw [List.map_append, map_name_required, ← List.append_assoc, Signature.names, List.append_assoc,
    List.append_assoc _ sig.others.toList]
  exact List.perm_append_comm.append_left _

lemma withRegular_names (sig : Signature) (names : List String) :
    (sig.withRegular names).names.Perm (sig.names ++ names) := by
  set later := sig.rest.toList ++ sig.named.map (·.name) ++ sig.others.toList with split
  have old : sig.names = sig.places.map (·.name) ++ later := by
    rw [Signature.names, split]
    simp only [List.append_assoc]
  have new : (sig.withRegular names).names = sig.places.map (·.name) ++ (names ++ later) := by
    rw [Signature.names, withRegular_places, List.map_append, map_name_required, split]
    simp only [List.append_assoc]
    rfl
  rw [old, new, List.append_assoc]
  exact List.perm_append_comm.append_left _

lemma nodup_append_names {names : List String} (h : sig.WellFormed) (distinct : names.Nodup)
    (fresh : ∀ name ∈ names, name ∉ sig.names) : (sig.names ++ names).Nodup := by
  refine List.nodup_append.2 ⟨h.distinct, distinct, ?_⟩
  rintro name old _ new rfl
  exact fresh name new old

lemma WellFormed.withNamed (h : sig.WellFormed) {names : List String} (distinct : names.Nodup)
    (fresh : ∀ name ∈ names, name ∉ sig.names) : (sig.withNamed names).WellFormed :=
  ⟨(withNamed_names sig names).nodup_iff.2 (nodup_append_names h distinct fresh), h.defaults⟩

lemma WellFormed.withRegular (h : sig.WellFormed) {names : List String} (distinct : names.Nodup)
    (fresh : ∀ name ∈ names, name ∉ sig.names)
    (needed : ∀ s ∈ sig.places, s.optional = false) : (sig.withRegular names).WellFormed := by
  refine ⟨(withRegular_names sig names).nodup_iff.2 (nodup_append_names h distinct fresh), ?_⟩
  have none : ∀ s ∈ (sig.withRegular names).places, s.optional = false := by
    rw [withRegular_places]
    refine List.forall_mem_append.2 ⟨needed, ?_⟩
    intro s hs
    obtain ⟨name, -, rfl⟩ := List.mem_map.1 hs
    rfl
  refine List.pairwise_of_forall_mem_list ?_
  intro s hs t _ optional
  rw [none s hs] at optional
  nomatch optional

end Signature

end MethodLift
