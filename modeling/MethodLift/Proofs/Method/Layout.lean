import MethodLift.Proofs.Lift.Computing
import MethodLift.Proofs.Method.MovedBlocks

/-!
# The layout of a method that moves

The text of a new function is that of its method, from the start of its line on, moved to the left
by the indentation of that line.  Its blocks are those of the method if the lines are indented with
one kind of blank and each carriage return is followed by a line feed (`blocks_dedent`).

Two methods are not of this form.  In front of one of them the line breaks at a carriage return
alone, and its text begins in the string before it (`begins_in_docstring`).  The line of the other
one begins with a form feed, and what is moved is still indented (`begins_indented`).
-/

namespace MethodLift

namespace Syntax

open Text (IndentedBy ReturnsPaired dedentRest isIndent linesWithFeed width)

variable {u : Char} {columns : ℕ}

/-! ## Methods that keep their blocks -/

/-- A block of lines that are indented, as it stands in another block. -/
structure IndentedBlock (u : Char) (columns : ℕ) (block : String) : Prop where
  /-- The first line has a token, and as many blanks in front of it. -/
  first : ∃ blanks c rest, block.toList = blanks ++ c :: rest ∧ blanks.length = columns
    ∧ (∀ b ∈ blanks, isBlank b = true) ∧ isBlank c = false ∧ beginsEmptyLine c = false
  /-- The block that the first line begins does not end in front of the end of the text. -/
  nested : ∀ front t, front ++ [t] <+: (lex block).tokens → t.span.start < block.utf8ByteSize →
    dedents (front ++ [t]) < indents (front ++ [t])
  /-- All lines are indented with the same character. -/
  uniform : ∀ line ∈ linesWithFeed block.toList, ∀ c ∈ line.takeWhile isBlank, c = u
  /-- Lines end in line feeds. -/
  paired : ReturnsPaired block.toList

/-- The strings of a text are all ahead of its beginning. -/
lemma stringsAhead_lex (text : String) :
    StringsAhead (Text.stringSpans text) 0 (lex text).tokens := by
  refine ⟨fun t ht kind => ?_, fun s hs => ?_⟩
  · refine List.mem_map_of_mem (List.mem_filter.2 ⟨ht, ?_⟩)
    rcases kind with kind | kind <;> rw [kind] <;> rfl
  · obtain ⟨t, ht, rfl⟩ := List.mem_map.1 hs
    exact .inr ⟨t, List.mem_of_mem_filter ht, rfl⟩

/-- Behind the indentation of the first line. -/
lemma IndentedBlock.begins {block : String} (h : IndentedBlock u columns block)
    (indent : isIndent u = true) (some : 0 < columns) : ∃ layout stop rest moved,
      (lex block).tokens = ⟨.indent, "", ⟨0, stop⟩⟩ :: (lexFrom layout stop rest).tokens
      ∧ (lex (Text.dedent block columns)).tokens = (lexFrom ⟨0, [], false, false⟩ 0 moved).tokens
      ∧ Moving (Text.stringSpans block) columns u [] layout ⟨0, [], false, false⟩ stop rest moved
        (lexFrom layout stop rest).tokens := by
  obtain ⟨blanks, c, rest, whole, rfl, blank, solid, token⟩ := h.first
  have token : ¬beginsEmptyLine c = true := by simp [token]
  have lines := IndentedBy.of_lines h.uniform
  rw [whole] at lines
  have same : ∀ b ∈ blanks, b = u := lines [] blanks (c :: rest) rfl blank
  have indented : ∀ b ∈ blanks, isIndent b = true := fun b hb => by rwa [same b hb]
  have positive : 0 < blanks.length * columnsOf u := Nat.mul_pos some (columnsOf_pos u)
  have noFeed : c ≠ '\n' := by
    rintro rfl
    exact token rfl
  set layout : Layout := ⟨0, [blanks.length * columnsOf u], false, false⟩
  set moved := c :: dedentRest (Text.stringSpans block) blanks.length
    (width blanks + c.utf8Size) rest with moved_eq
  have there : (lex block).tokens = ⟨.indent, "", ⟨0, width blanks⟩⟩
      :: (lexFrom layout (width blanks) (c :: rest)).tokens := by
    have step : relevel .module (blanks.length * columnsOf u) ⟨0, width blanks⟩
        = ⟨[⟨.indent, "", ⟨0, width blanks⟩⟩], [], layout⟩ := if_pos positive
    rw [lex, whole, lexFrom_blanks rfl blank solid token, indentationWidth_of_uniform indent same,
      Nat.zero_add, step]
    rfl
  have strings := stringsAhead_lex block
  have outside := strings.outside fun t _ => Nat.zero_le _
  rw [there] at strings
  have here : (lex (Text.dedent block blanks.length)).tokens
      = (lexFrom ⟨0, [], false, false⟩ 0 moved).tokens := by
    have columns : ¬(blanks.length == 0) = true := by simpa using Nat.ne_of_gt some
    have front := @lexFrom_blanks .module c [] rfl (List.forall_mem_nil _) solid token 0
    rw [lex, Text.dedent, if_neg columns, String.toList_ofList, whole,
      Text.dedentLines_deep outside indented (Nat.le_refl _) (List.cons_ne_nil c rest),
      List.drop_length, Nat.zero_add, Text.dedentRest_cons noFeed]
    exact congrArg Lexed.tokens (front _)
  have uniform : IndentedBy u ('\n' :: blanks ++ c :: rest) := lines
  have paired : ReturnsPaired (blanks ++ c :: rest) := whole ▸ h.paired
  refine ⟨layout, width blanks, c :: rest, moved, there, here,
    .inLine rfl uniform.behind [] _ rfl (List.forall_mem_nil _) ?_,
    ⟨rfl, rfl, List.forall_mem_nil _, rfl, rfl, rfl⟩, paired.behind,
    @StringsAhead.behind _ _ (width blanks) [_] _ strings (Nat.zero_le _)
      (List.forall_mem_singleton.2 (Nat.le_refl _)), ?_⟩
  · rw [moved_eq, Text.width_nil, Nat.add_zero, Text.dedentRest_cons noFeed]
  · intro front t is inFront
    have size : block.utf8ByteSize = width blanks + width (c :: rest) := by
      rw [← Text.width_toList, whole, Text.width_append]
    have inside := h.nested (⟨.indent, "", ⟨0, width blanks⟩⟩ :: front) t
      (by rw [there]; simpa using is) (by rwa [size])
    rw [List.cons_append, dedents, indents, List.countP_cons_of_neg Bool.false_ne_true,
      List.countP_cons_of_pos rfl] at inside
    exact Nat.le_of_lt_succ inside

/-- **Moving a block keeps the blocks in it.**  A block that is indented with spaces or with tabs,
but not with both, and that is moved to the left by its indentation has the same tokens as before,
layout included.  Only the block itself does not begin and end anymore. -/
theorem blocks_dedent {block : String} (indent : isIndent u = true) (some : 0 < columns)
    (h : IndentedBlock u columns block) :
    ∃ words ends, (lex block).tokens.map Token.word
        = (.indent, "") :: words ++ ends ++ [(.endOfFile, "")]
      ∧ (lex (Text.dedent block columns)).tokens.map Token.word = words ++ [(.endOfFile, "")]
      ∧ (ends = [] ∨ ends = [(.dedent, "")]) := by
  obtain ⟨layout, stop, rest, moved, there, here, moving⟩ := h.begins indent some
  obtain ⟨words, ends, block', moved', ends'⟩ := lexFrom_moved indent moving 0
  refine ⟨words, ends, ?_, here ▸ moved', ends'⟩
  rw [there, List.map_cons, block']
  rfl

set_option maxRecDepth 100000 in
/-- A method with a string of two lines, of which the second one is not indented. -/
theorem method_moved : let block := "  def m(s):\n    \"\"\"a\nb\"\"\"\n    0"
    IndentedBlock ' ' 2 block ∧ Text.dedent block 2 = "def m(s):\n  \"\"\"a\nb\"\"\"\n  0"
      ∧ ∃ words ends, (lex block).tokens.map Token.word
          = (.indent, "") :: words ++ ends ++ [(.endOfFile, "")]
        ∧ (lex (Text.dedent block 2)).tokens.map Token.word = words ++ [(.endOfFile, "")]
        ∧ (ends = [] ∨ ends = [(.dedent, "")]) := by
  intro block
  have tokens : (lex block).tokens = [⟨.indent, "", ⟨0, 2⟩⟩, ⟨.keyword .kDef, "def", ⟨2, 5⟩⟩,
      ⟨.name, "m", ⟨6, 7⟩⟩, ⟨.symbol .leftParen, "(", ⟨7, 8⟩⟩, ⟨.name, "s", ⟨8, 9⟩⟩,
      ⟨.symbol .rightParen, ")", ⟨9, 10⟩⟩, ⟨.symbol .colon, ":", ⟨10, 11⟩⟩,
      ⟨.newline, "", ⟨11, 11⟩⟩, ⟨.indent, "", ⟨12, 16⟩⟩,
      ⟨.string, "\"\"\"a\nb\"\"\"", ⟨16, 25⟩⟩, ⟨.newline, "", ⟨25, 25⟩⟩,
      ⟨.number, "0", ⟨30, 31⟩⟩, ⟨.newline, "", ⟨31, 31⟩⟩, ⟨.dedent, "", ⟨31, 31⟩⟩,
      ⟨.dedent, "", ⟨31, 31⟩⟩, ⟨.endOfFile, "", ⟨31, 31⟩⟩] := by
    unfold block
    cbv
  have nested : ∀ ts ∈ (lex block).tokens.inits, ∀ t ∈ ts.getLast?,
      t.span.start < block.utf8ByteSize → dedents ts < indents ts := by
    rw [tokens]
    decide +kernel
  have first : block.toList = [' ', ' '] ++ 'd' :: block.toList.drop 3 := by
    unfold block
    cbv
  have lines : linesWithFeed block.toList
      = ["  def m(s):\n", "    \"\"\"a\n", "b\"\"\"\n", "    0"].map String.toList := by
    unfold block
    cbv
  have uniform : ∀ line ∈ linesWithFeed block.toList, ∀ c ∈ line.takeWhile isBlank, c = ' ' := by
    rw [lines]
    simp [isBlank]
  have noReturn : '\r' ∉ block.toList := by decide +kernel
  have moved : Text.dedent block 2 = "def m(s):\n  \"\"\"a\nb\"\"\"\n  0" := by
    unfold block
    cbv
  clear_value block
  have method : IndentedBlock ' ' 2 block :=
    ⟨⟨_, 'd', _, first, rfl, by simp [isBlank], rfl, rfl⟩,
      fun front t is => nested _ ((List.mem_inits _ _).2 is) t (by simp), uniform,
      fun a b whole => absurd (by rw [whole]; simp) noReturn⟩
  exact ⟨method, moved, blocks_dedent rfl Nat.two_pos method⟩

end Syntax

/-! ## Methods that do not -/

namespace NewFunction

open MethodLift.Syntax

/-- The first function of a text. -/
def firstFunction? (text : String) : Option (FunctionDef Stmt) :=
  (parse text).module.reachableStmts.findSome? (·.asFunction)

/-- The text of the function that the first function of a text becomes if nothing else changes and
nothing is passed to it. -/
def textOfFirst? (text : String) : Option String := do
  let d ← firstFunction? text
  ((ofMethod text (.functionDef d) [] .positional []).toOption).map (·.text)

set_option maxRecDepth 100000 in
/-- Behind a string over two lines and a carriage return alone, the line of a function begins in the
string.  What is written begins with the quotes that closed it, so no function can be read there. -/
theorem begins_in_docstring :
    let text := "\"\"\"\n\"\"\"\rdef m(s):0\n"
    (parse text).problems.isEmpty = true
      ∧ (firstFunction? text).map (fun d => d.params.params.map (·.name.map (·.name)))
        = some [some "s"]
      ∧ textOfFirst? text = some "\"\"\"\rdef m():0"
      ∧ firstFunction? "\"\"\"\rdef m():0" = none := by
  intro text
  refine ⟨?_, ?_, ?_, ?_⟩
  · unfold text
    simp only [parseComputed.eq]
    decide +kernel
  · unfold text
    simp only [firstFunction?, parseComputed.eq]
    decide +kernel
  · unfold text
    simp only [textOfFirst?, firstFunction?, parseComputed.eq, ofMethodComputed.eq]
    decide +kernel
  · simp only [firstFunction?, parseComputed.eq]
    decide +kernel

set_option maxRecDepth 100000 in
/-- Of a line that begins with a form feed nothing is taken away, and the text of the function
begins with an indentation. -/
theorem begins_indented :
    let text := "class A:\n\x0c def m(s):0\n"
    (parse text).problems.isEmpty = true ∧ textOfFirst? text = some "\x0c def m():0"
      ∧ (lex "\x0c def m():0").tokens.head?.map (·.kind) = some .indent := by
  intro text
  refine ⟨?_, ?_, ?_⟩
  · unfold text
    simp only [parseComputed.eq]
    decide +kernel
  · unfold text
    simp only [textOfFirst?, firstFunction?, parseComputed.eq, ofMethodComputed.eq]
    decide +kernel
  · rw [lex_eq_lexed]
    decide +kernel

end NewFunction

end MethodLift
