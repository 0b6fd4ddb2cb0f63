import MethodLift.Proofs.Workspace.Sources

/-!
# Every range is one of the text's bytes

Whoever edits a program takes the places of its edits from the tree, and a place that cuts a
character, or that lies behind the end of the text, cannot be cut at.  The question is asked of the
string itself and not of its list of characters: do the ranges that reading a text produces select
bytes of its UTF-8 form, and does a name that the tree writes down consist of the bytes at its
range?  They do for every text, however broken (`ranges_valid`).  Nothing is said about where an
error has to be reported or how much of the text a node covers.

What holds on lists of characters (`lex_placed`, `parse_sound`) is carried over by one fact: the
front parts of a string are its front parts as a list, and their widths are numbers of bytes.
-/

namespace MethodLift

open MethodLift.Syntax

/-! ## Ranges of a string -/

/-- A span selects bytes of a string: it runs forwards, stays within the string, and cuts no
character at either end. -/
structure Span.RangeOf (text : String) (s : Span) : Prop where
  forward : s.start ≤ s.stop
  within : s.stop ≤ text.utf8ByteSize
  start : String.Pos.Raw.IsValid text ⟨s.start⟩
  stop : String.Pos.Raw.IsValid text ⟨s.stop⟩

/-- A name has a range, and unless it stands in for a missing one, it consists of the bytes
there. -/
structure Syntax.Ident.WrittenIn (text : String) (i : Ident) : Prop where
  range : i.span.RangeOf text
  bytes : i.name ≠ "" → text.toByteArray.extract i.span.start i.span.stop = i.name.toByteArray

namespace Text

/-- Widths are numbers of bytes. -/
lemma width_eq_utf8ByteSize (cs : List Char) : width cs = (String.ofList cs).utf8ByteSize := by
  induction cs with
  | nil => rfl
  | cons c cs ih =>
    rw [width_cons, ih, String.ofList_cons, String.utf8ByteSize_append,
      String.utf8ByteSize_singleton]

lemma width_toList (text : String) : width text.toList = text.utf8ByteSize := by
  rw [width_eq_utf8ByteSize, String.ofList_toList]

lemma Boundary.isValid {text : String} {offset : ℕ} (h : Boundary text.toList offset) :
    String.Pos.Raw.IsValid text ⟨offset⟩ := by
  obtain ⟨a, b, whole, rfl⟩ := h
  refine String.Pos.Raw.isValid_iff_exists_append.2 ⟨String.ofList a, String.ofList b, ?_, ?_⟩
  · rw [← String.ofList_append, ← whole, String.ofList_toList]
  · rw [width_eq_utf8ByteSize]
    rfl

lemma Placed.rangeOf {text : String} {s : Span} (h : Placed text.toList s) : s.RangeOf text :=
  ⟨h.forward, h.stop.isValid.le_utf8ByteSize, h.start.isValid, h.stop.isValid⟩

/-- What a text says between two cuts are the bytes of the string between them. -/
lemma bytes_eq_of_slice {text name : String} {s : Span} (nonempty : name ≠ "")
    (h : slice text.toList s = name.toList) :
    text.toByteArray.extract s.start s.stop = name.toByteArray := by
  have some : slice text.toList s ≠ [] := by
    rw [h]
    exact fun empty => nonempty (String.toList_eq_nil_iff.1 empty)
  obtain ⟨a, c, whole, start, stop⟩ := slice_ne_nil some
  rw [h] at whole stop
  have parts : text = String.ofList a ++ name ++ String.ofList c := by
    rw [← String.toList_inj, whole]
    simp only [String.toList_append, String.toList_ofList]
  rw [width_eq_utf8ByteSize] at start
  rw [width_eq_utf8ByteSize, String.ofList_append, String.ofList_toList,
    String.utf8ByteSize_append] at stop
  have behind : text.toByteArray = (String.ofList a).toByteArray
      ++ (name.toByteArray ++ (String.ofList c).toByteArray) := by
    rw [parts, String.toByteArray_append, String.toByteArray_append, ByteArray.append_assoc]
  calc text.toByteArray.extract s.start s.stop
    _ = text.toByteArray.extract ((String.ofList a).utf8ByteSize + 0)
          ((String.ofList a).utf8ByteSize + name.utf8ByteSize) := by rw [Nat.add_zero, stop, start]
    _ = (name.toByteArray ++ (String.ofList c).toByteArray).extract 0 name.utf8ByteSize := by
      rw [behind]
      exact ByteArray.extract_append_size_add' String.size_toByteArray.symm
    _ = name.toByteArray := ByteArray.extract_append_eq_left String.size_toByteArray.symm

end Text

lemma Syntax.Ident.Placed.writtenIn {text : String} {i : Ident} (h : i.Placed text.toList) :
    i.WrittenIn text :=
  ⟨h.span.rangeOf, fun nonempty => Text.bytes_eq_of_slice nonempty (h.text.resolve_left nonempty)⟩

/-! ## What reading a text gives -/

/-- The ranges of an expression and of its parts (arguments, parameters and their list, clauses)
select bytes of the text, and the names that it writes down are there. -/
structure Syntax.Expr.Ranged (text : String) (e : Expr) : Prop where
  spans : ∀ s ∈ e.span :: e.partSpans, s.RangeOf text
  idents : ∀ i ∈ e.idents, i.WrittenIn text

/-- The ranges of a statement and of its parts (bases, parameters and their list, aliases, handlers)
select bytes of the text, and the names that it writes down are there. -/
structure Syntax.Stmt.Ranged (text : String) (s : Stmt) : Prop where
  spans : ∀ p ∈ s.span :: s.partSpans, p.RangeOf text
  idents : ∀ i ∈ s.idents, i.WrittenIn text

lemma Syntax.Expr.NodePlaced.ranged {text : String} {e : Expr} (h : e.NodePlaced text.toList) :
    e.Ranged text :=
  ⟨List.forall_mem_cons.2 ⟨h.span.rangeOf, fun s hs => (h.parts s hs).rangeOf⟩,
    fun i hi => (h.idents i hi).writtenIn⟩

lemma Syntax.Stmt.NodePlaced.ranged {text : String} {s : Stmt} (h : s.NodePlaced text.toList) :
    s.Ranged text :=
  ⟨List.forall_mem_cons.2 ⟨h.span.rangeOf, fun p hp => (h.parts p hp).rangeOf⟩,
    fun i hi => (h.idents i hi).writtenIn⟩

/-- All ranges that reading a text produces are ranges of the text.  The expressions are those in
the order of completion, the ones that recovering from an error left outside the tree included, and
all that is inside them; so the replacement fields of strings are there at every depth. -/
structure RangesValid (text : String) : Prop where
  tokens : ∀ t ∈ (lex text).tokens, t.span.RangeOf text
  lexProblems : ∀ p ∈ (lex text).problems, p.span.RangeOf text
  problems : ∀ p ∈ (parse text).problems, p.span.RangeOf text
  module : (parse text).module.span.RangeOf text
  stmts : ∀ s ∈ (parse text).module.stmts, s.Ranged text
  exprs : ∀ e ∈ (parse text).module.exprs, ∀ d ∈ e.descendants, d.Ranged text

/-- Reading a text gives ranges of the text and nothing else, whatever the text is. -/
theorem ranges_valid (text : String) : RangesValid text := by
  obtain ⟨tree, problems⟩ := parse_sound text
  have whole : Text.Placed text.toList (parse text).module.span :=
    ⟨Text.Boundary.zero _, Text.Boundary.end _, Nat.zero_le _⟩
  refine
    { tokens := fun t ht => ((lex_placed text).tokens.each t ht).span.rangeOf
      lexProblems := fun p hp => ((lex_placed text).problems p hp).rangeOf
      problems := fun p hp => (problems p hp).rangeOf
      module := whole.rangeOf
      stmts := ?_
      exprs := ?_ }
  · intro s hs
    exact (tree.stmts s (List.mem_mergeSort.1 hs)).here.ranged
  · intro e he d hd
    exact ((tree.exprs e he).descendant hd).here.ranged

end MethodLift
