import MethodLift.Proofs.Call.Hoisting
import MethodLift.Proofs.Call.Landing
import MethodLift.Proofs.Lift.Computing
import MethodLift.Proofs.Syntax.WrittenNames

/-!
# Temporaries are fresh

A temporary gets a name that is not taken.  What is taken is read off the tokens of the text, and
what would be overwritten are names of the tree; the two agree, since each name of the tree that is
not in a string is a token and each such token is a name of the tree (`mem_takenNames_iff`).

A formatted string is one token with all its replacement fields, so names that stand in replacement
fields only are not taken.  A temporary can get such a name (`temporary_named_in_field`).
-/

namespace MethodLift

open MethodLift.Syntax

namespace Syntax

/-- A place where a name is written down writes down this name. -/
def NameUse.Names (name : String) : NameUse → Prop
  | expr e => e.asName = some name
  | ident i => i.name = name
  | component _ text => text = name

/-- A module writes a name down outside of strings: as an expression, as the name of a definition, an
attribute, a parameter and so on, or in the path of an import. -/
def Module.Writes (m : Module) (name : String) : Prop := ∃ use ∈ m.nameUses, use.Names name

/-- A name of a tree at a token is the token's text. -/
lemma NameUse.At.names_iff {use : NameUse} {t : Token} {name : String} (h : use.At t) :
    use.Names name ↔ t.text = name := by
  cases use with
  | expr e =>
    have is : e.asName = some t.text := h.1
    rw [Names, is, Option.some_inj]
  | ident i =>
    obtain rfl : i = ⟨t.text, t.span⟩ := h
    rfl
  | component s text =>
    obtain rfl : text = t.text := h.1
    rfl

/-- The names of accounted tokens are the names of the tree. -/
lemma Accounted.exists_names_iff {us : List NameUse} {ts : List Token} {name : String}
    (h : Accounted us ts) : (∃ use ∈ us, use.Names name) ↔ ∃ t ∈ nameTokens ts, t.text = name := by
  obtain ⟨us', perm, each⟩ := h
  simp only [← perm.mem_iff]
  clear perm
  generalize nameTokens ts = names at each
  induction each with
  | nil => simp only [List.not_mem_nil, false_and, exists_false]
  | cons here _ ih =>
    simp only [List.exists_mem_cons_iff]
    exact or_congr here.names_iff ih

end Syntax

namespace CallChanges

/-- The names that a temporary cannot have are the function's, those of the new parameters, and those
that the module writes down outside of strings. -/
theorem mem_takenNames_iff {text : String} (valid : (parse text).problems = []) (ctx : CallContext)
    (name : String) : name ∈ takenNames text ctx ↔ name = ctx.functionName
      ∨ name ∈ ParameterPlan.parameters ctx.plan ∨ (parse text).module.Writes name := by
  have written : (parse text).module.Writes name
      ↔ ∃ t ∈ nameTokens (lex text).tokens, t.text = name :=
    (parse_accounted valid).exists_names_iff
  change name ∈ (ctx.functionName :: ParameterPlan.parameters ctx.plan)
    ++ (nameTokens (lex text).tokens).map (·.text) ↔ _
  rw [List.mem_append, List.mem_cons, List.mem_map, or_assoc, written]

/-- The temporaries of a file are allocated one after the other, each with the least number that
makes it free.  They are distinct, and none of them is the function's name, a new parameter, or a name
that the module writes down outside of strings. -/
theorem temporaries_fresh {text : String} (valid : (parse text).problems = [])
    (sites : List CallSite) (ctx : CallContext) (reads : List ReplacedRead) {changed : CallChanges}
    (ok : ofSites (parse text).module text sites ctx reads = .ok changed) :
    ∃ hoistings lines, Kept (parse text).module text sites ctx changed hoistings lines
      ∧ (∀ name, name ∈ takenNames text ctx ↔ name = ctx.functionName
        ∨ name ∈ ParameterPlan.parameters ctx.plan ∨ (parse text).module.Writes name)
      ∧ (hoistings.map (·.name)).Nodup
      ∧ ∀ h ∈ hoistings, h.name ≠ ctx.functionName
        ∧ h.name ∉ ParameterPlan.parameters ctx.plan ∧ ¬ (parse text).module.Writes h.name := by
  obtain ⟨hoistings, lines, kept⟩ := ofSites_kept ok
  have taken := mem_takenNames_iff valid ctx
  refine ⟨hoistings, lines, kept, taken, kept.allocated.nodup, fun h mem => ?_⟩
  have free := kept.allocated.notMem h.name (List.mem_map_of_mem mem)
  rw [taken, not_or, not_or] at free
  exact free

set_option maxRecDepth 100000 in
/-- Where the name itself is taken, the first number makes it free. -/
theorem temporary_beside_name :
    let text := "tmp = get().area()\n"
    let ctx : CallContext :=
      ⟨"Shape", "area", [⟨"x", "x", []⟩, ⟨"y", "y", []⟩], .positional, "tmp"⟩
    let sites := CallSite.ofModule "main.py" "area" (parse text).module
    ∃ changed hoistings lines, ofSites (parse text).module text sites ctx [] = .ok changed
      ∧ Kept (parse text).module text sites ctx changed hoistings lines
      ∧ changed.changes.map (·.temporary) = [some "tmp1"]
      ∧ (hoistings.map (·.name)).Nodup
      ∧ ∀ h ∈ hoistings, h.name ≠ ctx.functionName ∧ ¬ (parse text).module.Writes h.name := by
  intro text ctx sites
  have valid : (parse text).problems = [] := by
    refine List.isEmpty_iff.1 ?_
    unfold text
    simp only [parseComputed.eq]
    decide +kernel
  obtain ⟨changed, ok⟩ :
      ∃ changed, ofSites (parse text).module text sites ctx [] = .ok changed := by
    refine exists_of_isOk ?_
    unfold sites text ctx
    simp only [parseComputed.eq, sitesComputed.eq, ofSitesComputed.eq]
    decide +kernel
  have named : (ofSites (parse text).module text sites ctx []).map
      (·.changes.map (·.temporary)) = .ok [some "tmp1"] := by
    unfold sites text ctx
    simp only [parseComputed.eq, sitesComputed.eq, ofSitesComputed.eq]
    decide +kernel
  rw [ok] at named
  obtain ⟨hoistings, lines, kept, -, nodup, fresh⟩ := temporaries_fresh valid sites ctx [] ok
  exact ⟨changed, hoistings, lines, ok, kept, Except.ok.inj named, nodup,
    fun h mem => ⟨(fresh h mem).1, (fresh h mem).2.2⟩⟩

set_option maxRecDepth 100000 in
/-- A name in a replacement field is an expression of the tree, and the temporary gets it: when the
string is evaluated, the field has the receiver's value. -/
theorem temporary_named_in_field :
    let text := "print(f\"\x7btmp\x7d\", get().area())\n"
    let ctx : CallContext :=
      ⟨"Shape", "area", [⟨"x", "x", []⟩, ⟨"y", "y", []⟩], .positional, "tmp"⟩
    (parse text).problems.isEmpty = true
      ∧ (parse text).module.reachableExprs.any (·.asName == some "tmp") = true
      ∧ textAfter "main.py" "area" text ctx []
        = some "tmp = get()\nprint(f\"\x7btmp\x7d\", area(tmp.x, tmp.y))\n" := by
  intro text ctx
  unfold text ctx
  refine ⟨?_, ?_, ?_⟩
  · cbv
  · cbv
  · cbv

end CallChanges

end MethodLift
