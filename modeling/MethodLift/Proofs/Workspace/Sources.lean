import MethodLift.Lift.Plan
import MethodLift.Proofs.Edit.Apply
import MethodLift.Proofs.Syntax.Statements

/-!
# What the trees of a workspace belong to

A snapshot that is made of a list of files has each path once, in order.  So a tree that a workspace
keeps for a path is the tree of the one text of that path, and what is found in the tree stands in
that text.  Every edit of a plan is computed from such a tree; this is where its file and its text
come together.
-/

namespace MethodLift

open MethodLift.Syntax

/-! ## Snapshots of lists -/

namespace Snapshot

/-- Files in the order of their paths, each path once. -/
def Ordered (files : List (String × String)) : Prop := files.Pairwise fun f g => f.1 < g.1

lemma fst_of_mem_insertFile {path text : String} {files : List (String × String)}
    {f : String × String} (h : f ∈ insertFile path text files) : f.1 = path ∨ f ∈ files := by
  induction files with
  | nil =>
    obtain rfl := List.mem_singleton.1 h
    exact .inl rfl
  | cons file rest ih =>
    obtain ⟨p, t⟩ := file
    rw [insertFile] at h
    split at h
    · rcases List.mem_cons.1 h with rfl | h
      · exact .inl rfl
      · exact .inr h
    split at h
    · rcases List.mem_cons.1 h with rfl | h
      · exact .inl rfl
      · exact .inr (List.mem_cons_of_mem _ h)
    · rcases List.mem_cons.1 h with rfl | h
      · exact .inr List.mem_cons_self
      · exact (ih h).imp_right (List.mem_cons_of_mem _)

lemma Ordered.insertFile {path text : String} {files : List (String × String)}
    (h : Ordered files) : Ordered (insertFile path text files) := by
  induction files with
  | nil => exact List.pairwise_singleton _ _
  | cons file rest ih =>
    obtain ⟨p, t⟩ := file
    have before := (List.pairwise_cons.1 h).1
    have later := (List.pairwise_cons.1 h).2
    rw [Snapshot.insertFile]
    split
    next less =>
      refine List.pairwise_cons.2 ⟨List.forall_mem_cons.2 ⟨less, ?_⟩, h⟩
      exact fun f hf => lt_trans less (before f hf)
    next notLess =>
    split
    next same =>
      obtain rfl : path = p := by simpa using same
      exact List.pairwise_cons.2 ⟨before, later⟩
    next other =>
      have different : path ≠ p := by simpa using other
      have more : p < path := lt_of_le_of_ne (not_lt.1 notLess) different.symm
      refine List.pairwise_cons.2 ⟨?_, ih later⟩
      intro f hf
      rcases fst_of_mem_insertFile hf with is | old
      · exact is ▸ more
      · exact before f old

theorem ofList_ordered (files : List (String × String)) : Ordered (ofList files).files := by
  have keeps : ∀ (sorted : List (String × String)), Ordered sorted →
      Ordered (files.foldl (fun sorted file => insertFile file.1 file.2 sorted) sorted) := by
    induction files with
    | nil => exact fun sorted h => h
    | cons file rest ih => exact fun sorted h => ih _ h.insertFile
  exact keeps [] .nil

lemma Ordered.lookup {files : List (String × String)} (h : Ordered files) {path text : String}
    (mem : (path, text) ∈ files) : files.lookup path = some text := by
  induction files with
  | nil => nomatch mem
  | cons file rest ih =>
    rcases List.mem_cons.1 mem with rfl | mem
    · rw [List.lookup_cons, beq_self_eq_true]
    · have less : file.1 < path := (List.pairwise_cons.1 h).1 _ mem
      have skip : (path == file.1) = false := beq_false_of_ne less.ne'
      rw [List.lookup_cons, skip]
      exact ih (List.pairwise_cons.1 h).2 mem

end Snapshot

/-! ## The files of a workspace -/

namespace Workspace

variable {files : List (String × String)} {roots : List String} {s : Snapshot} {file : String}

/-- The tree that a workspace keeps for a path is that of the path's text. -/
lemma eq_parse_of_mem (h : Snapshot.Ordered s.files) {p : Parsed}
    (mem : (file, p) ∈ (ofSnapshot s roots).parsed) :
    ∃ text, s.text? file = some text ∧ p = parse text := by
  obtain ⟨⟨path, text⟩, kept, same⟩ := List.mem_map.1 mem
  obtain ⟨rfl, rfl⟩ := Prod.mk.inj same
  exact ⟨text, h.lookup (List.mem_filter.1 kept).1, rfl⟩

lemma mem_of_parsed? {w : Workspace} {p : Parsed} (h : w.parsed? file = some p) :
    (file, p) ∈ w.parsed := by
  obtain ⟨before, after, parts, -⟩ := List.lookup_eq_some_iff.1 h
  rw [parts]
  exact List.mem_append_right _ List.mem_cons_self

/-- A file that was read without problems has the text and the tree of its path. -/
theorem source_eq_ok (h : Snapshot.Ordered s.files) {source : SourceFile}
    (ok : (ofSnapshot s roots).source file = .ok source) :
    s.text? file = some source.text ∧ source.module = (parse source.text).module
      ∧ (parse source.text).problems = [] := by
  rw [Workspace.source] at ok
  split at ok
  next text p found parsed =>
    obtain ⟨text', found', rfl⟩ := eq_parse_of_mem h (mem_of_parsed? parsed)
    obtain rfl : text = text' := Option.some.inj (found.symm.trans found')
    split at ok
    next valid =>
      obtain rfl := Except.ok.inj ok
      exact ⟨found, rfl, valid⟩
    · nomatch ok
  · nomatch ok

end Workspace

/-! ## Call sites -/

/-- A call site stands in a text: the call does, with everything inside it. -/
def CallSite.Placed (source : List Char) (site : CallSite) : Prop :=
  (Expr.call site.mark site.func site.args).Placed source

lemma CallSite.ofExpr?_eq_some {file member : String} {e : Expr} {site : CallSite}
    (h : CallSite.ofExpr? file member e = some site) :
    site.file = file ∧ e = .call site.mark site.func site.args := by
  unfold CallSite.ofExpr? at h
  split at h
  · split at h
    · obtain rfl := Option.some.inj h
      exact ⟨rfl, rfl⟩
    · nomatch h
  · nomatch h

/-- Every expression of a tree that stands in a text stands in it. -/
lemma Syntax.Module.Placed.exprs {source : List Char} {m : Module} (h : m.Placed source) :
    ∀ e ∈ m.exprs, e.Placed source := by
  intro e he
  rcases List.mem_append.1 (List.mem_mergeSort.1 he) with he | he
  · obtain ⟨stmt, hs, he⟩ := List.mem_flatMap.1 he
    obtain ⟨top, ht, hs⟩ := List.mem_flatMap.1 hs
    obtain ⟨own, ho, he⟩ := List.mem_flatMap.1 he
    exact (((h.body top ht).descendant hs).here.exprs own ho).descendant he
  · exact h.unused e he

/-- The calls that are found in a workspace stand in its files. -/
theorem Workspace.callSites_placed {s : Snapshot} (h : Snapshot.Ordered s.files)
    {roots : List String} {member : String} {site : CallSite}
    (mem : site ∈ (Workspace.ofSnapshot s roots).callSites member) :
    ∃ text, s.text? site.file = some text ∧ site.Placed text.toList := by
  obtain ⟨⟨file, p⟩, hp, mem⟩ := List.mem_flatMap.1 mem
  obtain ⟨text, known, rfl⟩ := Workspace.eq_parse_of_mem h hp
  obtain ⟨e, he, is⟩ := List.mem_filterMap.1 (List.mem_mergeSort.1 mem)
  obtain ⟨rfl, rfl⟩ := CallSite.ofExpr?_eq_some is
  exact ⟨text, known, (parse_placed text).exprs _ he⟩

end MethodLift
