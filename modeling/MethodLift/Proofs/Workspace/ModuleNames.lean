import MethodLift.Proofs.Syntax.WordTokens
import MethodLift.Proofs.Syntax.WrittenNames
import MethodLift.Workspace.Basic

/-!
# Module names and the files behind them

A dotted name that a workspace gives to a file is the name of that file and of hardly another one.
Its components say how the path goes on below a source root, and there are two ways to say it: the
last component is a file `name.py`, or all of them are directories and the file is `__init__.py`
(`Holds`).  Nothing is lost by writing the components with dots, since an identifier has none
(`components_dotted`), nor by leaving out the stem `__init__`, since a file of that stem is read
only in the second way.

Below one source root a name therefore belongs to two files at most, the module `name.py` and the
package `name/__init__.py` beside it (`Holds.unique`).
-/

namespace MethodLift.Path

open MethodLift.Syntax

variable {root path other : Path} {parts name : List String} {part stem fileName : String}

/-! ## Dotted names and their components -/

lemma toList_dotted (parts : List String) :
    (dotted parts).toList = ['.'].intercalate (parts.map String.toList) :=
  String.toList_intercalate

lemma components_dotted (nonempty : parts ≠ []) (plain : ∀ part ∈ parts, '.' ∉ part.toList) :
    components (dotted parts) = parts := by
  have words : ∀ word ∈ parts.map String.toList, '.' ∉ word := by simpa using plain
  rw [components, toList_dotted, List.splitOn_intercalate '.' words (by simpa using nonempty)]
  simp

lemma isModulePart_iff :
    isModulePart part = true ↔ isIdentifier part = true ∧ isKeyword part = false := by
  simp [isModulePart]

lemma dot_not_mem (h : isModulePart part = true) : '.' ∉ part.toList := by
  intro dot
  have word := (isWordChar_of_isIdentifier (isModulePart_iff.1 h).1).2 '.' dot
  simp [Text.isWordChar] at word

/-! ## Paths below a root -/

/-- The path that goes on from a root through further components. -/
def below (root : Path) (parts : List String) : Path := ⟨root.isAbsolute, root.parts ++ parts⟩

lemma partsBelow?_eq_some_iff : partsBelow? root path = some parts ↔ path = root.below parts := by
  obtain ⟨isAbsolute, all⟩ := path
  constructor
  · intro h
    unfold partsBelow? at h
    split at h
    · next inside =>
      simp only [Bool.and_eq_true, beq_iff_eq, List.isPrefixOf_iff_prefix] at inside
      obtain ⟨same, more, rfl⟩ := inside
      simp_all [below]
    · simp at h
  · rintro ⟨⟩
    simp [partsBelow?]

/-! ## The two ways to hold a module -/

/-- The file that holds the module of a stem. -/
def moduleFile (stem : String) : String := stem ++ ".py"

lemma reverse_toList_moduleFile (stem : String) :
    (moduleFile stem).toList.reverse = endingFromBack ++ stem.toList.reverse := by
  simp [moduleFile, endingFromBack]

lemma moduleStem?_eq_some_iff :
    moduleStem? fileName = some stem ↔ fileName = moduleFile stem ∧ stem ≠ "" := by
  constructor
  · intro h
    unfold moduleStem? at h
    dsimp only at h
    split at h
    · next ending =>
      simp only [Bool.and_eq_true, decide_eq_true_eq, List.isPrefixOf_iff_prefix] at ending
      obtain ⟨⟨front, is⟩, long⟩ := ending
      rw [← is, List.drop_left] at h
      obtain rfl := Option.some.inj h
      constructor
      · apply String.toList_inj.1
        apply List.reverse_inj.1
        rw [reverse_toList_moduleFile, ← is]
        simp
      · rw [← is, List.length_append] at long
        intro empty
        simp_all
    · simp at h
  · rintro ⟨rfl, nonblank⟩
    have long : 0 < stem.toList.length := List.length_pos_iff.2 (by simpa using nonblank)
    simp [moduleStem?, reverse_toList_moduleFile, List.isPrefixOf_iff_prefix]
    omega

/-- The components that directories and the stem of a file make. -/
def named (directories : List String) (stem : String) : List String :=
  directories ++ if stem == packageStem then [] else [stem]

lemma moduleParts?_below {directories : List String} (h : stem ≠ "") :
    moduleParts? root (root.below (directories ++ [moduleFile stem]))
      = if (named directories stem).isEmpty || !(named directories stem).all isModulePart then none
        else some (named directories stem) := by
  have below : root.partsBelow? (root.below (directories ++ [moduleFile stem]))
      = some (directories ++ [moduleFile stem]) := partsBelow?_eq_some_iff.2 rfl
  have read : moduleStem? (moduleFile stem) = some stem := moduleStem?_eq_some_iff.2 ⟨rfl, h⟩
  simp only [moduleParts?, below, read, List.getLast?_concat, List.dropLast_concat,
    Option.bind_eq_bind, Option.bind_some]
  rfl

lemma moduleParts?_eq_some {directories : List String} (h : stem ≠ "")
    (is : named directories stem = name) (nonempty : name ≠ [])
    (words : ∀ part ∈ name, isModulePart part = true) :
    moduleParts? root (root.below (directories ++ [moduleFile stem])) = some name := by
  rw [moduleParts?_below h, is]
  simpa [nonempty] using words

lemma exists_of_moduleParts? (h : moduleParts? root path = some name) :
    name ≠ [] ∧ (∀ part ∈ name, isModulePart part = true) ∧ ∃ directories stem,
      name = named directories stem ∧ path = root.below (directories ++ [moduleFile stem]) := by
  simp only [moduleParts?, Option.bind_eq_bind, Option.bind_eq_some_iff] at h
  obtain ⟨parts, below, fileName, last, stem, read, h⟩ := h
  obtain ⟨directories, rfl⟩ := List.getLast?_eq_some_iff.1 last
  obtain ⟨rfl, -⟩ := moduleStem?_eq_some_iff.1 read
  rw [List.dropLast_concat, ← named] at h
  split at h
  · simp at h
  next usable =>
    obtain rfl := Option.some.inj h
    simp only [Bool.or_eq_true, not_or, Bool.not_eq_true, List.isEmpty_eq_false_iff,
      Bool.not_eq_false', List.all_eq_true] at usable
    exact ⟨usable.1, usable.2, directories, stem, rfl, partsBelow?_eq_some_iff.1 below⟩

/-- A path holds the module of a name below a root: the last component of the name is a file, or all
of them are directories that lead to a file `__init__.py`. -/
inductive Holds (root : Path) (name : List String) (path : Path) : Prop
  | file (directories : List String) (last : String) (is : name = directories ++ [last])
    (proper : last ≠ packageStem) (spelled : path = root.below (directories ++ [moduleFile last]))
  | package (spelled : path = root.below (name ++ [moduleFile packageStem]))

/-- A name is given exactly to the paths that hold its module. -/
theorem moduleParts?_eq_some_iff :
    moduleParts? root path = some name
      ↔ name ≠ [] ∧ (∀ part ∈ name, isModulePart part = true) ∧ Holds root name path := by
  constructor
  · intro h
    obtain ⟨nonempty, words, directories, stem, rfl, spelled⟩ := exists_of_moduleParts? h
    use nonempty, words
    by_cases package : stem = packageStem
    · apply Holds.package
      simp [spelled, package, named]
    · apply Holds.file directories stem _ package spelled
      simp [package, named]
  · rintro ⟨nonempty, words, held⟩
    cases held with
    | file directories last is proper spelled =>
      have nonblank : last ≠ "" := by
        have word := words last (by simp [is])
        exact (isWordChar_of_isIdentifier (isModulePart_iff.1 word).1).1
      rw [spelled]
      apply moduleParts?_eq_some nonblank _ nonempty words
      simp [named, is, proper]
    | package spelled =>
      rw [spelled]
      apply moduleParts?_eq_some (by decide) _ nonempty words
      simp [named]

/-! ## The name that is taken -/

lemma length_le_of_isPreferred {a b : List String} (h : isPreferred a b = true) :
    a.length ≤ b.length := by
  simp only [isPreferred, Bool.or_eq_true, Bool.and_eq_true, decide_eq_true_eq, beq_iff_eq] at h
  omega

lemma length_le_of_not_isPreferred {a b : List String} (h : ¬isPreferred a b = true) :
    b.length ≤ a.length := by
  simp only [isPreferred, Bool.or_eq_true, not_or, decide_eq_true_eq] at h
  omega

lemma eq_nil_of_preferred? {names : List (List String)} (h : preferred? names = none) :
    names = [] := by
  cases names with
  | nil => rfl
  | cons first names =>
    rw [preferred?] at h
    split at h
    · split at h <;> simp at h
    · simp at h

/-- The name that is taken is one of several, and as short as any of them. -/
lemma preferred?_eq_some {names : List (List String)} (h : preferred? names = some name) :
    name ∈ names ∧ ∀ other ∈ names, name.length ≤ other.length := by
  induction names generalizing name with
  | nil => simp [preferred?] at h
  | cons first names ih =>
    rw [preferred?] at h
    split at h
    next later found =>
      obtain ⟨mem, least⟩ := ih found
      split at h
      next better =>
        obtain rfl := Option.some.inj h
        have shorter := length_le_of_isPreferred better
        exact ⟨List.mem_cons_of_mem _ mem, List.forall_mem_cons.2 ⟨shorter, least⟩⟩
      next worse =>
        obtain rfl := Option.some.inj h
        have shorter := length_le_of_not_isPreferred worse
        constructor
        · exact List.mem_cons_self
        · simp only [List.forall_mem_cons, le_refl, true_and]
          intro other ho
          exact shorter.trans (least other ho)
    next nothing =>
      obtain rfl := Option.some.inj h
      obtain rfl := eq_nil_of_preferred? nothing
      simp

lemma exists_of_moduleName? {roots : List Path} {text : String}
    (h : moduleName? roots path = some text) : ∃ root ∈ roots, ∃ name,
      text = dotted name ∧ moduleParts? root path = some name
        ∧ ∀ root ∈ roots, ∀ other, moduleParts? root path = some other →
          name.length ≤ other.length := by
  obtain ⟨name, taken, rfl⟩ := Option.map_eq_some_iff.1 h
  obtain ⟨mem, least⟩ := preferred?_eq_some taken
  obtain ⟨root, hroot, gives⟩ := List.mem_filterMap.1 mem
  use root, hroot, name, rfl, gives
  intro root hroot other gives
  exact least other (List.mem_filterMap.2 ⟨root, hroot, gives⟩)

/-- The components that were written with dots are read back. -/
lemma components_of_moduleParts? (h : moduleParts? root path = some name) :
    components (dotted name) = name := by
  obtain ⟨nonempty, words, -⟩ := moduleParts?_eq_some_iff.1 h
  exact components_dotted nonempty fun part mem => dot_not_mem (words part mem)

lemma moduleName?_singleton (root path : Path) :
    moduleName? [root] path = (moduleParts? root path).map dotted := by
  cases h : moduleParts? root path <;> simp [moduleName?, preferred?, h]

/-! ## Reading a name back -/

/-- A path read back from its name. -/
structure Decodes (roots : List Path) (path : Path) (name : String) : Prop where
  nonempty : name ≠ ""
  identifiers : ∀ part ∈ components name, isIdentifier part = true ∧ isKeyword part = false
  held : ∃ root ∈ roots, Holds root (components name) path
  shortest : ∀ root ∈ roots, ∀ other, moduleName? [root] path = some other →
    (components name).length ≤ (components other).length

lemma dotted_ne_empty (nonempty : name ≠ [])
    (words : ∀ part ∈ name, isModulePart part = true) : dotted name ≠ "" := by
  intro empty
  have read : components (dotted name) = name :=
    components_dotted nonempty fun part mem => dot_not_mem (words part mem)
  have blank : "" ∈ name := by
    rw [← read, empty]
    decide
  exact (isWordChar_of_isIdentifier (isModulePart_iff.1 (words _ blank)).1).1 rfl

theorem decodes_of_moduleName? {roots : List Path} {text : String}
    (h : moduleName? roots path = some text) : Decodes roots path text := by
  obtain ⟨root, hroot, name, rfl, gives, least⟩ := exists_of_moduleName? h
  obtain ⟨nonempty, words, held⟩ := moduleParts?_eq_some_iff.1 gives
  have read := components_of_moduleParts? gives
  constructor
  case nonempty => exact dotted_ne_empty nonempty words
  case identifiers =>
    intro part mem
    rw [read] at mem
    exact isModulePart_iff.1 (words part mem)
  case held =>
    rw [read]
    exact ⟨root, hroot, held⟩
  case shortest =>
    intro root' hroot' other alone
    rw [moduleName?_singleton] at alone
    obtain ⟨name', gives', rfl⟩ := Option.map_eq_some_iff.1 alone
    rw [read, components_of_moduleParts? gives']
    exact least root' hroot' name' gives'

/-! ## Two files of one name -/

/-- A module `name.py` and the package `name/__init__.py` beside it. -/
def Beside (module package : Path) : Prop :=
  ∃ directories last, module.parts = directories ++ [moduleFile last]
    ∧ package = ⟨module.isAbsolute, directories ++ [last, moduleFile packageStem]⟩

lemma beside_below (directories : List String) (last : String) :
    Beside (root.below (directories ++ [moduleFile last]))
      (root.below (directories ++ [last] ++ [moduleFile packageStem])) := by
  use root.parts ++ directories, last
  simp [below]

/-- Below one root a name belongs to a module and to the package beside it at most. -/
theorem Holds.unique (h : Holds root name path) (h' : Holds root name other) :
    path = other ∨ Beside path other ∨ Beside other path := by
  cases h with
  | file directories last is proper spelled =>
    cases h' with
    | file directories' last' is' proper' spelled' =>
      obtain ⟨rfl, same⟩ := List.append_inj' (is.symm.trans is') rfl
      obtain rfl := List.singleton_inj.1 same
      exact .inl (spelled.trans spelled'.symm)
    | package spelled' =>
      right; left
      rw [spelled, spelled', is]
      exact beside_below directories last
  | package spelled =>
    cases h' with
    | file directories' last' is' proper' spelled' =>
      right; right
      rw [spelled, spelled', is']
      exact beside_below directories' last'
    | package spelled' => exact .inl (spelled.trans spelled'.symm)

end MethodLift.Path

namespace MethodLift.Workspace

open MethodLift.Path

/-- **A module name says which file it is of**: its components are identifiers and lead from a root
to the file, no root gives a shorter name, and below one root only a module and the package beside
it share a name. -/
theorem moduleName?_decodes (snapshot : Snapshot) :
    (∀ roots file name, (ofSnapshot snapshot roots).moduleName? file = some name →
        Decodes (ofSnapshot snapshot roots).sourceRoots (Path.ofString file) name)
      ∧ ∀ root file other name, (ofSnapshot snapshot [root]).moduleName? file = some name →
        (ofSnapshot snapshot [root]).moduleName? other = some name →
        Path.ofString file = Path.ofString other
          ∨ Beside (Path.ofString file) (Path.ofString other)
          ∨ Beside (Path.ofString other) (Path.ofString file) := by
  constructor
  · intro roots file name h
    exact decodes_of_moduleName? h
  · intro root file other name h h'
    obtain ⟨-, -, ⟨base, only, held⟩, -⟩ := decodes_of_moduleName? h
    obtain ⟨-, -, ⟨base', only', held'⟩, -⟩ := decodes_of_moduleName? h'
    obtain rfl : base = Path.ofString root := by simpa [ofSnapshot] using only
    obtain rfl : base' = Path.ofString root := by simpa [ofSnapshot] using only'
    exact held.unique held'

/-- With the top and `src` as roots the shorter name is taken, and a module shares its name with the
package beside it. -/
theorem name_below_nested_root :
    (ofSnapshot ⟨[]⟩ ["./", "src"]).moduleName? "src//app/./main.py" = some "app.main"
      ∧ Decodes [Path.ofString "./", Path.ofString "src"] (Path.ofString "src//app/./main.py")
        "app.main"
      ∧ (ofSnapshot ⟨[]⟩ ["src"]).moduleName? "src/app.py" = some "app"
      ∧ (ofSnapshot ⟨[]⟩ ["src"]).moduleName? "./src/app/__init__.py" = some "app"
      ∧ (Path.ofString "src/app.py" = Path.ofString "./src/app/__init__.py"
        ∨ Beside (Path.ofString "src/app.py") (Path.ofString "./src/app/__init__.py")
        ∨ Beside (Path.ofString "./src/app/__init__.py") (Path.ofString "src/app.py")) := by
  have main :
      (ofSnapshot ⟨[]⟩ ["./", "src"]).moduleName? "src//app/./main.py" = some "app.main" := by
    decide
  have module : (ofSnapshot ⟨[]⟩ ["src"]).moduleName? "src/app.py" = some "app" := by
    decide
  have package : (ofSnapshot ⟨[]⟩ ["src"]).moduleName? "./src/app/__init__.py" = some "app" := by
    decide
  have decodes := (moduleName?_decodes ⟨[]⟩).1 _ _ _ main
  have shared := (moduleName?_decodes ⟨[]⟩).2 _ _ _ _ module package
  exact ⟨main, decodes, module, package, shared⟩

end MethodLift.Workspace
