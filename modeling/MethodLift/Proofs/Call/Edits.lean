import MethodLift.Proofs.Workspace.Sources

/-!
# Where calls are edited

A call is edited at its callee, behind its last argument or before its closing parenthesis, around a
sole generator, and on a line before its statement.  All these places are cuts of the text: they are
ends of nodes, a beginning of a line, or the one place that is found by counting a byte back from the
end of a call without arguments.

The calls of a file are taken one after the other.  What is kept on the way (`Progress.Fits`) is that
every edit so far is one of the file and stands at such places; edits that a receiver takes over only
leave the list.
-/

namespace MethodLift

open MethodLift.Syntax

lemma liftEdit_eq_ok {α : Type} {x : Except EditError α} {a : α} :
    liftEdit x = .ok a ↔ x = .ok a := by
  cases x with
  | error e => exact ⟨nofun, nofun⟩
  | ok b => exact ⟨fun h => congrArg _ (Except.ok.inj h), fun h => congrArg _ (Except.ok.inj h)⟩

/-- An edit of a file that begins and ends at cuts of the file's text. -/
structure Edit.FitsIn (file : String) (source : List Char) (e : Edit) : Prop
    extends Edit.OnBoundaries source e where
  file : e.file = file

lemma Edit.FitsIn.of_placed {file text : String} {source : List Char} {span : Span}
    (h : Text.Placed source span) : Edit.FitsIn file source ⟨file, span, text⟩ :=
  ⟨⟨h.start, h.stop⟩, rfl⟩

lemma Edit.FitsIn.insert {file text : String} {source : List Char} {offset : ℕ}
    (h : Text.Boundary source offset) : Edit.FitsIn file source (.insert file offset text) :=
  .of_placed (.point h)

/-- Where new arguments are put: behind the last argument, or one byte before the end of a call that
has none. -/
def CallSite.place (site : CallSite) : ℕ :=
  match site.args.getLast? with
  | some last => last.span.stop
  | none => site.span.stop - 1

namespace CallChanges

variable {source : List Char} {site : CallSite}

/-- What is written behind the arguments of a call. -/
def appended (args : List (Arg Expr)) (arguments : List String) : String :=
  if arguments.isEmpty then ""
  else (if args.isEmpty then "" else ", ") ++ ", ".intercalate arguments

lemma appended_of_ne_nil {args : List (Arg Expr)} {arguments : List String} (others : args ≠ [])
    (some : arguments ≠ []) : appended args arguments = ", " ++ ", ".intercalate arguments := by
  rw [appended, if_neg (by rwa [List.isEmpty_iff]), if_neg (by rwa [List.isEmpty_iff])]

/-- Every edit so far is one of the file and fits its text. -/
structure Progress.Fits (file : String) (source : List Char) (progress : Progress) : Prop where
  temporaries : ∀ t ∈ progress.temporaries, t.edit.FitsIn file source
  pending : ∀ e ∈ progress.pending, e.FitsIn file source

/-- Parentheses are put around a sole argument that is a generator without any. -/
lemma mem_parenthesize {file : String} {args : List (Arg Expr)} {e : Edit}
    (he : e ∈ parenthesize file source args) :
    ∃ a, args = [a] ∧ isBareGenerator source a.value = true
      ∧ (e = .insert file a.value.span.start "(" ∨ e = .insert file a.value.span.stop ")") := by
  unfold parenthesize at he
  split at he
  next a =>
    split at he
    next bare => exact ⟨a, rfl, bare, by simpa using he⟩
    · nomatch he
  · nomatch he

/-- New arguments, with parentheses around a sole one that needs them. -/
lemma argumentEdits_eq {arguments : List String} (some : arguments ≠ []) :
    argumentEdits source site arguments = parenthesize site.file source site.args
      ++ [.insert site.file site.place (appended site.args arguments)] := by
  have given : ¬arguments.isEmpty = true := by rwa [List.isEmpty_iff]
  rw [argumentEdits, if_neg given, appended, if_neg given, CallSite.place]
  cases last : site.args.getLast? with
  | none =>
    rw [List.getLast?_eq_none_iff.1 last]
    simp [parenthesize]
  | some b =>
    have notEmpty : site.args ≠ [] := List.ne_nil_of_mem (List.mem_of_getLast? last)
    simp [notEmpty]

/-- What is put in behind the callee of a call. -/
lemma mem_argumentEdits {arguments : List String} {e : Edit}
    (he : e ∈ argumentEdits source site arguments) : arguments ≠ []
      ∧ (e ∈ parenthesize site.file source site.args
        ∨ e = .insert site.file site.place (appended site.args arguments)) := by
  have some : arguments ≠ [] := by
    rintro rfl
    nomatch he
  rw [argumentEdits_eq some, List.mem_append, List.mem_singleton] at he
  exact ⟨some, he⟩

/-- New arguments go behind the last one, or one byte before the end of a call that has none. -/
lemma place_boundary (h : site.Placed source) : Text.Boundary source site.place := by
  unfold CallSite.place
  split
  next last found =>
    have mem : last.span ∈ site.args.map (·.span) :=
      List.mem_map_of_mem (List.mem_of_getLast? found)
    exact (h.here.parts _ mem).stop
  next none =>
    refine h.here.closing ?_
    rw [List.getLast?_eq_none_iff.1 none]
    rfl

lemma argumentEdits_fits (h : site.Placed source) (arguments : List String) :
    ∀ e ∈ argumentEdits source site arguments, e.FitsIn site.file source := by
  intro e he
  obtain ⟨-, wraps | rfl⟩ := mem_argumentEdits he
  · obtain ⟨a, sole, -, is⟩ := mem_parenthesize wraps
    have mem : a.value ∈ site.args.map (·.value) :=
      List.mem_map_of_mem (sole ▸ List.mem_singleton_self a)
    have span := (h.child (List.mem_cons_of_mem _ mem)).here.span
    rcases is with rfl | rfl
    · exact .insert span.start
    · exact .insert span.stop
  · exact .insert (place_boundary h)

/-- The statement before which a receiver is kept is one of the tree, and it begins its line. -/
lemma anchorOf_ok {m : Module} {stmt : Stmt} (h : anchorOf m source site = .ok stmt) :
    stmt ∈ m.reachableStmts ∧ Text.startsLine source stmt.span.start = true := by
  unfold anchorOf at h
  split at h
  next s anchor =>
    obtain rfl := Except.ok.inj h
    unfold CallSite.anchor at anchor
    dsimp only at anchor
    split at anchor
    · nomatch anchor
    split at anchor
    · nomatch anchor
    next found =>
    split at anchor
    · nomatch anchor
    split at anchor
    · nomatch anchor
    split at anchor
    next starts =>
      obtain rfl := Except.ok.inj anchor
      exact ⟨List.mem_of_find?_eq_some found, starts⟩
    · nomatch anchor
  · nomatch h

/-- What one call adds fits the text, and what it takes over is only left out. -/
theorem step_fits {m : Module} {text : String} {ctx : CallContext} {reads : List ReplacedRead}
    {progress after : Progress} (tree : m.Placed text.toList) (call : site.Placed text.toList)
    (h : progress.Fits site.file text.toList)
    (ok : step m text ctx reads progress site = .ok after) :
    after.Fits site.file text.toList := by
  unfold step at ok
  split at ok
  · obtain rfl := Except.ok.inj ok
    exact ⟨h.temporaries, h.pending⟩
  next receiver _ =>
  obtain ⟨-, -, ok⟩ := bind_eq_ok.1 ok
  obtain ⟨-, -, ok⟩ := bind_eq_ok.1 ok
  obtain ⟨written, -, ok⟩ := bind_eq_ok.1 ok
  have kept : ∀ e ∈ (progress.pending.partition fun e => receiver.span.contains e.span).2,
      e.FitsIn site.file text.toList := by
    intro e he
    rw [List.partition_eq_filter_filter] at he
    exact h.pending e (List.mem_filter.1 he).1
  have callee : Edit.FitsIn site.file text.toList
      ⟨site.file, site.func.span, ctx.functionName⟩ :=
    .of_placed (call.child List.mem_cons_self).here.span
  have pending (arguments : List String) : ∀ e ∈
      (progress.pending.partition fun e => receiver.span.contains e.span).2
        ++ ⟨site.file, site.func.span, ctx.functionName⟩
          :: argumentEdits text.toList site arguments, e.FitsIn site.file text.toList :=
    List.forall_mem_append.2 ⟨kept, List.forall_mem_cons.2
      ⟨callee, argumentEdits_fits call arguments⟩⟩
  dsimp only at ok
  split at ok
  · obtain ⟨stmt, anchored, ok⟩ := bind_eq_ok.1 ok
    obtain rfl := Except.ok.inj ok
    have stands := tree.stmts stmt (anchorOf_ok anchored).1
    refine ⟨List.forall_mem_append.2 ⟨h.temporaries, List.forall_mem_singleton.2 ?_⟩, pending _⟩
    exact .insert stands.here.span.start.lineBeginning.boundary
  · obtain rfl := Except.ok.inj ok
    exact ⟨h.temporaries, pending _⟩

/-- After some calls of a file were taken. -/
theorem fits_of_foldlM {m : Module} {file text : String} {sites : List CallSite}
    {ctx : CallContext} {reads : List ReplacedRead} {done : Progress} (tree : m.Placed text.toList)
    (calls : ∀ site ∈ sites, site.file = file ∧ site.Placed text.toList)
    (ran : sites.foldlM (step m text ctx reads) ⟨[], [], [], takenNames text ctx⟩ = .ok done) :
    done.Fits file text.toList := by
  have start : Progress.Fits file text.toList ⟨[], [], [], takenNames text ctx⟩ := ⟨nofun, nofun⟩
  refine foldlM_invariant start ?_ ran
  intro progress site after mem h stepped
  obtain ⟨rfl, stands⟩ := calls site mem
  exact step_fits tree stands h stepped

/-- What the calls of a file become fits the file's text. -/
theorem ofSites_fits {m : Module} {file text : String} {sites : List CallSite} {ctx : CallContext}
    {reads : List ReplacedRead} {changed : CallChanges} (tree : m.Placed text.toList)
    (calls : ∀ site ∈ sites, site.file = file ∧ site.Placed text.toList)
    (ok : ofSites m text sites ctx reads = .ok changed) :
    ∀ e ∈ changed.edits, e.FitsIn file text.toList := by
  obtain ⟨done, ran, ok⟩ := bind_eq_ok.1 ok
  obtain rfl := Except.ok.inj ok
  have fits : done.Fits file text.toList :=
    fits_of_foldlM tree (fun site mem => calls site (List.mem_mergeSort.1 mem)) ran
  refine List.forall_mem_append.2 ⟨?_, fits.pending⟩
  intro e he
  obtain ⟨t, ht, rfl⟩ := List.mem_map.1 he
  exact fits.temporaries t (List.mem_mergeSort.1 ht)

end CallChanges

end MethodLift
