import MethodLift.Proofs.Lift.Imports
import MethodLift.Proofs.Syntax.ImportStatement
import MethodLift.Proofs.Workspace.ModuleNames

/-!
# The line of a new import

A line that makes a name available is text when it is written.  It is read back as what it is meant
to be: one statement, which imports this name from this module (`ensured_line_reads_back`).  The name
of the module comes from a path, and that of the function from a user, and neither has been near the
reader of the language before.  What carries the theorem is that all of them mean the same by an
identifier: the components of a module name are identifiers, and an identifier is read as one name.

A name that is added to an import that is there already is no line of its own and is left out here.
-/

namespace MethodLift.Import

open MethodLift.Syntax

variable {path symbol name : String} {text : List Char} {m : Module}

lemma isBreak_lineBreak (text : List Char) : IsBreak (Text.lineBreak text) := by
  unfold Text.lineBreak
  split
  · exact .inr (.inr rfl)
  · exact .inr (.inl rfl)

/-- A new line is the import between line breaks. -/
lemma toList_newLine (text : List Char) (offset : ℕ) (path symbol : String) : ∃ lead tail,
    IsBreak lead ∧ IsBreak tail ∧ (newLine text offset path symbol).toList
      = lead ++ (importLine path symbol).toList ++ tail := by
  have broken := isBreak_lineBreak text
  unfold newLine
  dsimp only
  split
  · exact ⟨_, _, broken, broken, by simp [importLine]⟩
  · exact ⟨[], _, .inl rfl, broken, by simp [importLine]⟩

/-- An edit that adds a name to an import of the same module. -/
def Extends (m : Module) (file path symbol : String) (edit : Edit) : Prop :=
  ∃ mark names a, .importFrom mark (some path) 0 names false ∈ m.body ∧ a ∈ names
    ∧ edit = .insert file a.span.stop (", " ++ symbol)

/-- An edit that is ensured extends an import or writes a new line. -/
lemma extends_or_newLine {text file : String} {edit : Edit}
    (h : ensure m text file path symbol = .ok (some edit)) :
    Extends m file path symbol edit
      ∨ ∃ offset, edit.text = newLine text.toList offset path symbol := by
  unfold ensure at h
  dsimp only at h
  split at h
  · simp at h
  split at h
  · simp at h
  split at h
  next a found =>
    left
    obtain rfl := Option.some.inj (Except.ok.inj h)
    obtain ⟨names, hn, last⟩ := List.exists_of_findSome?_eq_some found
    obtain ⟨d, hd, is⟩ := List.mem_filterMap.1 hn
    obtain ⟨mark, rfl⟩ := namesFrom?_eq_some_iff.1 is
    exact ⟨mark, names, a, hd, List.mem_of_getLast? last, rfl⟩
  next none =>
    right
    obtain rfl := Option.some.inj (Except.ok.inj h)
    exact ⟨_, rfl⟩

/-- A line that imports an identifier from a module name is read as the import, with line breaks
around it or without. -/
lemma readsAsImport {roots : List Path} {p : Path} (given : Path.moduleName? roots p = some name)
    (word : isIdentifier symbol = true) {lead tail : List Char} (before : IsBreak lead)
    (behind : IsBreak tail) {line : String}
    (is : line.toList = lead ++ (importLine name symbol).toList ++ tail) :
    ReadsAsImport line name symbol := by
  obtain ⟨root, -, parts, rfl, gives, -⟩ := Path.exists_of_moduleName? given
  obtain ⟨nonempty, words, -⟩ := Path.moduleParts?_eq_some_iff.1 gives
  obtain ⟨first, parts, rfl⟩ := List.exists_cons_of_ne_nil nonempty
  apply parse_importLine before behind _ word is
  intro part hp
  exact (Path.isModulePart_iff.1 (words part hp)).1

/-- **The line that is written for a new import is read back as that import**, whatever the module
and the identifier are and whatever file it is written to. -/
theorem ensured_line_reads_back (w : Workspace) {target name symbol : String}
    (given : w.moduleName? target = some name) (word : isIdentifier symbol = true) :
    ReadsAsImport ("from " ++ name ++ " import " ++ symbol) name symbol
      ∧ ∀ m text file edit, ensure m text file name symbol = .ok (some edit) →
        Extends m file name symbol edit ∨ ReadsAsImport edit.text name symbol := by
  constructor
  · exact readsAsImport given word (.inl rfl) (.inl rfl) (List.append_nil _).symm
  · intro m text file edit done
    rcases extends_or_newLine done with extended | ⟨offset, is⟩
    · exact .inl extended
    · right
      obtain ⟨lead, tail, before, behind, line⟩ := toList_newLine text.toList offset name symbol
      rw [is]
      exact readsAsImport given word before behind line

/-- The first line of an empty file. -/
theorem import_of_nested_module :
    let w := Workspace.ofSnapshot ⟨[]⟩ ["src"]
    let line : Edit := .insert "use.py" 0 "from pkg.rb import f\n"
    w.moduleName? "src/pkg/rb.py" = some "pkg.rb" ∧ isIdentifier "f" = true
      ∧ ensure ⟨[], [], ⟨0, 0⟩⟩ "" "use.py" "pkg.rb" "f" = .ok (some line)
      ∧ ReadsAsImport line.text "pkg.rb" "f" := by
  intro w line
  have given : w.moduleName? "src/pkg/rb.py" = some "pkg.rb" := by decide
  have word : isIdentifier "f" = true := by decide
  have done : ensure ⟨[], [], ⟨0, 0⟩⟩ "" "use.py" "pkg.rb" "f" = .ok (some line) := by decide
  have read := (ensured_line_reads_back w given word).2 _ _ _ _ done
  use given, word, done
  apply read.resolve_left
  rintro ⟨mark, names, a, nowhere, -⟩
  simp at nowhere

end MethodLift.Import
