import MethodLift.Lift.Import
import MethodLift.Proofs.Lift.Computing
import MethodLift.Proofs.Scope.TopLevel

/-!
# Imports that are ensured

Making a name of a module available in a file comes out in one of three ways.  If the file imports
the name already, it stays as it is and nothing else is looked at.  If something at module level
binds the name, the import is refused.  Else there is an edit (`ensure_outcomes`).

So a file that gets an import binds the name nowhere at module level, whatever statements, clauses
and comprehensions the binding would stand in (`ensured_unbound`).  The bodies of functions and
classes are not looked into: an assignment to a name that a function declares global goes unseen, and
so does any other binding beside an import that is there already (`global_unseen`).  What assignment
expressions bind in headers is left open.
-/

namespace MethodLift.Import

open MethodLift.Syntax MethodLift.Scope

variable {m : Module} {text file path symbol : String}

/-- A statement of the module imports a name as itself from the module of a dotted path. -/
def IsImported (m : Module) (path symbol : String) : Prop :=
  ∃ mark names, .importFrom mark (some path) 0 names false ∈ m.body
    ∧ ∃ a ∈ names, a.name = symbol ∧ a.boundName = symbol

lemma namesFrom?_eq_some_iff {s : Stmt} {names : List Alias} :
    namesFrom? path s = some names ↔ ∃ mark, s = .importFrom mark (some path) 0 names false := by
  unfold namesFrom?
  split
  next mark other names' =>
    by_cases same : path = other
    · subst same
      simp
    · simp [Ne.symm same]
  next other =>
    constructor
    · exact nofun
    · rintro ⟨mark, rfl⟩
      exact absurd rfl (other mark path names)

lemma any_isPlain_iff :
    (m.body.filterMap (namesFrom? path)).any (·.any (isPlain symbol)) = true
      ↔ IsImported m path symbol := by
  simp only [List.any_eq_true, List.mem_filterMap, isPlain, Bool.and_eq_true, beq_iff_eq,
    IsImported, namesFrom?_eq_some_iff]
  constructor
  · rintro ⟨names, ⟨s, hs, mark, rfl⟩, plain⟩
    exact ⟨mark, names, hs, plain⟩
  · rintro ⟨mark, names, hs, plain⟩
    exact ⟨names, ⟨_, hs, mark, rfl⟩, plain⟩

/-- The three ways in which ensuring an import comes out. -/
theorem ensure_outcomes (m : Module) (text file path symbol : String) :
    (IsImported m path symbol ∧ ensure m text file path symbol = .ok none)
      ∨ (¬IsImported m path symbol ∧ moduleBindsName m symbol = true
        ∧ ensure m text file path symbol = .error (.nameConflict symbol file 0))
      ∨ (¬IsImported m path symbol ∧ moduleBindsName m symbol = false
        ∧ ∃ edit, ensure m text file path symbol = .ok (some edit)) := by
  rw [← any_isPlain_iff]
  unfold ensure
  dsimp only
  split
  next present => exact .inl ⟨present, rfl⟩
  next absent =>
    split
    next bound => exact .inr (.inl ⟨absent, bound, rfl⟩)
    next unbound =>
      refine .inr (.inr ⟨absent, Bool.eq_false_of_not_eq_true unbound, ?_⟩)
      split
      · exact ⟨_, rfl⟩
      · exact ⟨_, rfl⟩

/-- What it says of a module that an import was ensured in it: it is there already, or nothing at
module level binds the name. -/
structure Ensured (m : Module) (file path symbol : String) (result : Except LiftError (Option Edit)) :
    Prop where
  /-- An import that is there stays the only one. -/
  present : result = .ok none ↔ IsImported m path symbol
  /-- What binds the name at module level stands in a header. -/
  unbound (edit : Edit) (done : result = .ok (some edit)) : ∀ p ∈ m.scopedNodes, p.scopes = [] →
    symbol ∈ p.node.bound → ∃ h ∈ m.body.flatMap Stmt.headers, p.node ∈ (Node.read h).all
  /-- What binds the name at module level and stands in no header is a conflict. -/
  refused (missing : ¬IsImported m path symbol) : ∀ p ∈ m.scopedNodes, p.scopes = [] →
    symbol ∈ p.node.bound → (∀ h ∈ m.body.flatMap Stmt.headers, p.node ∉ (Node.read h).all) →
    result = .error (.nameConflict symbol file 0)

theorem ensured_unbound (valid : (parse text).problems = []) (file path symbol : String) :
    Ensured (parse text).module file path symbol
      (ensure (parse text).module text file path symbol) := by
  have collected {p : ScopedNode} := @collected_or_in_header p symbol _ (parse_laid valid)
    (parse_fitting text)
  rcases ensure_outcomes (parse text).module text file path symbol with
    ⟨imported, result⟩ | ⟨missing, bound, result⟩ | ⟨missing, unbound, edit, result⟩
  · rw [result]
    exact ⟨iff_of_true rfl imported, nofun, fun missing => absurd imported missing⟩
  · rw [result]
    exact ⟨iff_of_false nofun missing, nofun, fun _ _ _ _ _ _ => rfl⟩
  · rw [result]
    refine ⟨iff_of_false nofun missing, fun _ _ p hp top binds => ?_, fun _ p hp top binds out => ?_⟩
    · exact (collected hp top binds).resolve_left (by simp [unbound])
    · rcases collected hp top binds with bound | ⟨h, hh, there⟩
      · exact absurd bound (by simp [unbound])
      · exact absurd there (out h hh)

/-- The target of the loop is a conflict. -/
theorem loop_target_refused :
    let text := "for f in g: pass\n"
    (parse text).problems = []
      ∧ Ensured (parse text).module "use.py" "m" "f" (ensure (parse text).module text "use.py" "m" "f")
      ∧ ensure (parse text).module text "use.py" "m" "f" = .error (.nameConflict "f" "use.py" 0) := by
  intro text
  have valid : (parse text).problems = [] := by
    unfold text
    simp only [parseComputed.eq]
    decide +kernel
  have bound : moduleBindsName (parse text).module "f" = true := by
    unfold text
    simp only [parseComputed.eq]
    decide +kernel
  have missing : ((parse text).module.body.filterMap (namesFrom? "m")).any
      (·.any (isPlain "f")) = false := by
    unfold text
    simp only [parseComputed.eq]
    decide +kernel
  refine ⟨valid, ensured_unbound valid "use.py" "m" "f", ?_⟩
  rw [ensure, if_neg (by simp [missing]), if_pos bound]

/-- Where a module binds a name: each node that does, the scopes around it, and whether the innermost
of them declares the name global. -/
def bindings (m : Module) (name : String) : List (Span × List Span × Bool) :=
  (m.scopedNodes.filter (·.node.bound.contains name)).map fun p =>
    (p.node.span, p.scopes.map (·.span), p.scopes.head?.any (declaresGlobal m.scopedNodes · name))

set_option maxRecDepth 100000 in
/-- A function that assigns to a name that it declares global is not looked into, and nothing is where
the import is there. -/
theorem global_unseen :
    let assigned := "def g():\n global f\n f = 1\n"
    let imported := "from m import f\nf = 1\n"
    (parse assigned).problems.isEmpty = true ∧ (parse imported).problems.isEmpty = true
      ∧ bindings (parse assigned).module "f" = [(⟨20, 21⟩, [⟨0, 25⟩], true)]
      ∧ (ensure (parse assigned).module assigned "use.py" "m" "f").toOption
        = some (some ⟨"use.py", ⟨0, 0⟩, "from m import f\n"⟩)
      ∧ bindings (parse imported).module "f" = [(⟨0, 15⟩, [], false), (⟨16, 17⟩, [], false)]
      ∧ (ensure (parse imported).module imported "use.py" "m" "f").toOption = some none := by
  intro assigned imported
  unfold assigned imported
  refine ⟨?_, ?_, ?_, ?_, ?_, ?_⟩
  · simp only [parseComputed.eq]
    decide +kernel
  · simp only [parseComputed.eq]
    decide +kernel
  · cbv
  · simp only [parseComputed.eq]
    decide +kernel
  · cbv
  · simp only [parseComputed.eq]
    decide +kernel

/-! ## Where an import goes -/

set_option maxRecDepth 100000 in
/-- The line behind an import ends before what follows the import on it does: the new import goes
into the brackets that are open there, and the text can no longer be read. -/
theorem inserted_in_brackets :
    let text := "import os; x = (\n1)\n"
    let edit : Edit := ⟨"use.py", ⟨17, 17⟩, "from m import f\n"⟩
    let edited := "import os; x = (\nfrom m import f\n1)\n"
    (parse text).problems.isEmpty = true
      ∧ (ensure (parse text).module text "use.py" "m" "f").toOption = some (some edit)
      ∧ (Edit.apply text [edit]).toOption = some edited
      ∧ (parse edited).problems.isEmpty = false := by
  intro text edit edited
  unfold text edited edit
  refine ⟨?_, ?_, ?_, ?_⟩
  · simp only [parseComputed.eq]
    decide +kernel
  · simp only [parseComputed.eq]
    decide +kernel
  · simp only [Edit.applyComputed.eq]
    decide +kernel
  · simp only [parseComputed.eq]
    decide +kernel

end MethodLift.Import
