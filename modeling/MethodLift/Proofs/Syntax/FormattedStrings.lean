import MethodLift.Proofs.Syntax.CarriageReturns
import MethodLift.Proofs.Syntax.Fields

/-!
# The fields of formatted strings

A formatted string is written as a list of parts: text, doubled braces, named escapes and replacement
fields, which may have parts again in their format specification (`Parts`).  The parts say where the
expressions of the fields are (`Parts.spans`), and looking for the expressions in the text of the
string finds them, with two exceptions: a named escape is taken for a field, and the equals sign of a
field that shows its own text for a part of the expression where blanks follow it.  So the expressions
are found exactly if neither of the two occurs (`spans_eq_iff`).

The expression of a field is any text with paired brackets and quotes in which the characters that
end an expression are only in brackets, in quotes or in comparisons (`ExprText`).  Such a text is
passed as a whole, at each depth of brackets (`ExprText.expressionEnd`), and so is the rest of its
field (`Field.ends`).  The parts are then read one after the other (`Parts.spansFrom_render`).
-/

namespace MethodLift.Syntax.ReplacementField

open Text (width)

/-! ## Expressions -/

/-- The comparisons that are written with an equals sign. -/
def comparisons : List (List Char) := [['=', '='], ['!', '='], ['<', '='], ['>', '=']]

/-- The brackets with what closes them. -/
def brackets : List (Char × Char) := [('(', ')'), ('[', ']'), ('{', '}')]

/-- Characters that stand for themselves. -/
def IsPlain (c : Char) : Prop :=
  Piece.isQuote c = false ∧ c ≠ '\\' ∧ ∀ pair ∈ brackets, c ≠ pair.1 ∧ c ≠ pair.2

/-- The text of an expression: brackets and quotes are paired, and outside of them `!`, `:` and `=`
are only in comparisons. -/
inductive ExprText : Bool → List Char → Prop
  | nil {outer : Bool} : ExprText outer []
  | plain {outer : Bool} {c : Char} {cs : List Char} (plain : IsPlain c)
      (apart : outer = true → c ≠ '!' ∧ c ≠ ':' ∧ c ≠ '=') (later : ExprText outer cs) :
      ExprText outer (c :: cs)
  | comparison {op cs : List Char} (known : op ∈ comparisons) (later : ExprText true cs) :
      ExprText true (op ++ cs)
  | quoted {outer : Bool} {quote : Char} {inside cs : List Char}
      (quotes : Piece.isQuote quote = true) (inner : ∀ c ∈ inside, c ≠ quote ∧ c ≠ '\\')
      (later : ExprText outer cs) : ExprText outer (quote :: (inside ++ quote :: cs))
  | bracket {outer : Bool} {opening closing : Char} {inside cs : List Char}
      (pair : (opening, closing) ∈ brackets) (inner : ExprText false inside)
      (later : ExprText outer cs) : ExprText outer (opening :: (inside ++ closing :: cs))

variable {limit depth offset : ℕ} {previous c : Char} {cs rest : List Char}

lemma isPlain_of_beginsComparison (h : beginsComparison c = true) : IsPlain c := by
  simp only [beginsComparison, Bool.or_eq_true, beq_iff_eq] at h
  rcases h with ((rfl | rfl) | rfl) | rfl <;> simp [IsPlain, brackets, Piece.isQuote]

/-- A comparison does not end an expression. -/
lemma endsExpression_comparison (h : beginsComparison c = true) (previous : Char)
    (rest : List Char) : endsExpression previous c ('=' :: rest) = false
      ∧ endsExpression c '=' rest = false := by
  refine ⟨?_, by simp [endsExpression, h]⟩
  simp only [beginsComparison, Bool.or_eq_true, beq_iff_eq] at h
  rcases h with ((rfl | rfl) | rfl) | rfl <;> simp [endsExpression, endsSelfShown]

/-- A text of characters that stand for themselves and end nothing. -/
lemma ExprText.ofPlain {outer : Bool} (all : ∀ c ∈ cs, IsPlain c ∧ c ≠ '!' ∧ c ≠ ':' ∧ c ≠ '=') :
    ExprText outer cs := by
  induction cs with
  | nil => exact .nil
  | cons c cs ih =>
    obtain ⟨⟨plain, apart⟩, all⟩ := List.forall_mem_cons.1 all
    exact .plain plain (fun _ => apart) (ih all)

lemma ExprText.blanks (all : ∀ c ∈ cs, isBlank c = true) : ExprText true cs := by
  refine .ofPlain fun c hc => ?_
  have blank := all c hc
  simp only [isBlank, Bool.or_eq_true, beq_iff_eq] at blank
  rcases blank with (rfl | rfl) | rfl <;> simp [IsPlain, brackets, Piece.isQuote]

/-- A character that begins nothing is passed, unless it ends the expression. -/
lemma expressionEnd_plain (more : offset < limit) (plain : IsPlain c)
    (goes : (depth == 0 && endsExpression previous c rest) = false) :
    expressionEnd limit depth none previous offset (c :: rest)
      = expressionEnd limit depth none c (offset + c.utf8Size) rest := by
  obtain ⟨noQuote, -, apart⟩ := plain
  simp only [brackets, List.forall_mem_cons, List.not_mem_nil, false_imp_iff, forall_const] at apart
  rw [expressionEnd, if_neg (Nat.not_le.2 more), goes]
  simp [noQuote, apart]

/-- Quotes are passed with what is in them. -/
lemma expressionEnd_quoted {quote : Char} (inner : ∀ c ∈ cs, c ≠ quote ∧ c ≠ '\\')
    (quotes : Piece.isQuote quote = true) (more : offset + width cs < limit) :
    expressionEnd limit depth (some quote) previous offset (cs ++ quote :: rest)
      = expressionEnd limit depth none quote (offset + width cs + quote.utf8Size) rest := by
  have noEscape : ¬(quote == '\\') = true := by
    simpa using Piece.quote_ne_backslash quotes
  induction cs generalizing offset previous with
  | nil =>
    rw [List.nil_append, expressionEnd, if_neg (by simpa using more)]
    simp [noEscape]
  | cons c cs ih =>
    obtain ⟨⟨other, plain⟩, inner⟩ := List.forall_mem_cons.1 inner
    rw [Text.width_cons, ← Nat.add_assoc] at more ⊢
    rw [List.cons_append, expressionEnd, if_neg (by omega)]
    simp only [beq_iff_eq, if_neg plain, if_neg other]
    exact ih inner more

/-- Brackets are passed with what is in them. -/
lemma expressionEnd_opening {closing : Char} (pair : (c, closing) ∈ brackets)
    (more : offset < limit) : expressionEnd limit depth none previous offset (c :: rest)
      = expressionEnd limit (depth + 1) none c (offset + c.utf8Size) rest := by
  rw [expressionEnd, if_neg (Nat.not_le.2 more)]
  simp only [brackets, List.mem_cons, Prod.mk.injEq, List.not_mem_nil, or_false] at pair
  rcases pair with ⟨rfl, -⟩ | ⟨rfl, -⟩ | ⟨rfl, -⟩ <;> simp [endsExpression, Piece.isQuote]

lemma expressionEnd_closing {opening : Char} (pair : (opening, c) ∈ brackets)
    (more : offset < limit) : expressionEnd limit (depth + 1) none previous offset (c :: rest)
      = expressionEnd limit depth none c (offset + c.utf8Size) rest := by
  rw [expressionEnd, if_neg (Nat.not_le.2 more)]
  simp only [brackets, List.mem_cons, Prod.mk.injEq, List.not_mem_nil, or_false] at pair
  rcases pair with ⟨-, rfl⟩ | ⟨-, rfl⟩ | ⟨-, rfl⟩ <;> simp [Piece.isQuote]

lemma getLastD_append_cons (front : List Char) (c previous : Char) (cs : List Char) :
    (front ++ c :: cs).getLastD previous = cs.getLastD c := by
  simp [List.getLastD_eq_getLast?, List.getLast?_append, List.getLast?_cons]

/-- The text of an expression is passed as a whole, in the brackets that it is in. -/
theorem ExprText.expressionEnd {outer : Bool} (h : ExprText outer cs)
    (within : outer = false → 0 < depth) (more : offset + width cs ≤ limit) :
    ReplacementField.expressionEnd limit depth none previous offset (cs ++ rest)
      = ReplacementField.expressionEnd limit depth none (cs.getLastD previous)
        (offset + width cs) rest := by
  induction h generalizing depth offset previous rest with
  | nil => rfl
  | @plain outer c cs plain apart _ ih =>
    have positive := c.utf8Size_pos
    rw [Text.width_cons, ← Nat.add_assoc] at more ⊢
    have goes : (depth == 0 && endsExpression previous c (cs ++ rest)) = false := by
      cases outer with
      | false => simp [(within rfl).ne']
      | true =>
        have noBrace : c ≠ '}' := (plain.2.2 ('{', '}') (by simp [brackets])).2
        simp [endsExpression, noBrace, apart]
    rw [List.cons_append, expressionEnd_plain (by omega) plain goes, ih within more,
      List.getLastD_cons]
  | @comparison op cs known _ ih =>
    obtain ⟨a, rfl, signs⟩ : ∃ a, op = [a, '='] ∧ beginsComparison a = true := by
      simp only [comparisons, List.mem_cons, List.not_mem_nil, or_false] at known
      rcases known with rfl | rfl | rfl | rfl <;> exact ⟨_, rfl, rfl⟩
    obtain ⟨first, second⟩ := endsExpression_comparison signs previous (cs ++ rest)
    have sign : IsPlain '=' := isPlain_of_beginsComparison rfl
    have positive := a.utf8Size_pos
    have positive' := '='.utf8Size_pos
    simp only [List.cons_append, List.nil_append, Text.width_cons, ← Nat.add_assoc] at more ⊢
    rw [expressionEnd_plain (by omega) (isPlain_of_beginsComparison signs) (by simp [first]),
      expressionEnd_plain (by omega) sign (by simp [second]), ih within more,
      List.getLastD_cons, List.getLastD_cons]
  | @quoted outer quote inside cs quotes inner _ ih =>
    have positive := quote.utf8Size_pos
    simp only [Text.width_cons, Text.width_append, ← Nat.add_assoc] at more ⊢
    have goes : (depth == 0 && endsExpression previous quote (inside ++ quote :: (cs ++ rest)))
        = false := by
      rw [Piece.isQuote, Bool.or_eq_true, beq_iff_eq, beq_iff_eq] at quotes
      rcases quotes with rfl | rfl <;> simp [endsExpression]
    have first : ReplacementField.expressionEnd limit depth none previous offset
        (quote :: (inside ++ quote :: (cs ++ rest)))
        = ReplacementField.expressionEnd limit depth (some quote) quote (offset + quote.utf8Size)
          (inside ++ quote :: (cs ++ rest)) := by
      rw [ReplacementField.expressionEnd, if_neg (by omega), goes]
      simp [quotes]
    rw [List.cons_append, List.append_assoc, List.cons_append, first,
      expressionEnd_quoted inner quotes (by omega), ih within more, List.getLastD_cons,
      getLastD_append_cons]
  | @bracket outer opening closing inside cs pair _ _ ihInner ih =>
    have positive := closing.utf8Size_pos
    simp only [Text.width_cons, Text.width_append, ← Nat.add_assoc] at more ⊢
    rw [List.cons_append, List.append_assoc, List.cons_append,
      expressionEnd_opening pair (by omega), ihInner (fun _ => Nat.succ_pos _) (by omega),
      expressionEnd_closing pair (by omega), ih within more, List.getLastD_cons,
      getLastD_append_cons]

/-! ## Fields -/

/-- What a replacement field has in front of its format specification. -/
structure Field where
  expr : List Char
  /-- The blanks behind the equals sign, if the field shows its own text.  Those in front of it
  belong to the expression. -/
  shown : Option (List Char)
  conversion : Option (List Char)
deriving DecidableEq

namespace Field

/-- The equals sign with the blanks behind it. -/
def sign (f : Field) : List Char := (f.shown.map ('=' :: ·)).getD []

/-- The conversion with its exclamation mark. -/
def converted (f : Field) : List Char := (f.conversion.map ('!' :: ·)).getD []

def render (f : Field) : List Char := f.expr ++ (f.sign ++ f.converted)

/-- A field as it may be written. -/
structure Valid (f : Field) : Prop where
  expr : ExprText true f.expr
  nonempty : f.expr ≠ []
  first : f.expr.head? ≠ some '{'
  blanks : ∀ blanks ∈ f.shown, ∀ c ∈ blanks, isBlank c = true
  conversion : ∀ cs ∈ f.conversion, cs.head? ≠ some '=' ∧ ∀ c ∈ cs, c ≠ ':' ∧ c ≠ '}'

/-- Whether the equals sign is taken for a part of the expression: blanks stand behind it, or it makes
a comparison with what stands in front of it. -/
def takesSign (f : Field) : Bool :=
  f.shown.any fun blanks => !blanks.isEmpty || beginsComparison (f.expr.getLastD ' ')

/-- What is taken for the expression. -/
def found (f : Field) : List Char := if f.takesSign then f.expr ++ f.sign else f.expr

/-- What is left of the equals sign behind that. -/
def left (f : Field) : List Char := if f.takesSign then [] else f.sign

lemma found_append_left (f : Field) : f.found ++ f.left = f.expr ++ f.sign := by
  unfold found left
  split <;> simp

/-- An equals sign that is not taken stands alone. -/
lemma sign_of_not_takesSign {f : Field} (h : f.takesSign = false) :
    f.sign = [] ∨ f.sign = ['='] ∧ beginsComparison (f.expr.getLastD ' ') = false := by
  unfold takesSign at h
  unfold sign
  cases shown : f.shown with
  | none => exact .inl rfl
  | some blanks =>
    rw [shown, Option.any_some, Bool.or_eq_false_iff, Bool.not_eq_false', List.isEmpty_iff] at h
    exact .inr ⟨by rw [h.1]; rfl, h.2⟩

lemma left_cases (f : Field) : f.left = [] ∨ f.left = ['='] := by
  unfold left
  split
  next => exact .inl rfl
  next taken => exact (sign_of_not_takesSign (by simpa using taken)).imp_right And.left

end Field

/-- What may follow the format specification or the field. -/
def Ends (e : Char) : Prop := e = '}' ∨ e = ':'

lemma skipConversion_go {e : Char} (ends : Ends e) (inner : ∀ c ∈ cs, c ≠ ':' ∧ c ≠ '}')
    (more : offset + width cs < limit) :
    skipConversion.go limit offset (cs ++ e :: rest) = ⟨offset + width cs, e :: rest⟩ := by
  induction cs generalizing offset with
  | nil => rcases ends with rfl | rfl <;> simp [skipConversion.go]
  | cons c cs ih =>
    obtain ⟨⟨noColon, noBrace⟩, inner⟩ := List.forall_mem_cons.1 inner
    have positive := c.utf8Size_pos
    rw [Text.width_cons, ← Nat.add_assoc] at more ⊢
    rw [List.cons_append, skipConversion.go, if_neg (by simp [noColon, noBrace]; omega)]
    exact ih inner more

namespace Field

variable {f : Field} {e : Char}

/-- A conversion ends the expression, and so does what may follow it. -/
lemma expressionEnd_converted (valid : f.Valid) (ends : Ends e) (more : offset < limit) :
    expressionEnd limit 0 none previous offset (f.converted ++ e :: rest)
      = ⟨offset, f.converted ++ e :: rest⟩ := by
  have stops {c : Char} {cs : List Char} (is : endsExpression previous c cs = true) :
      expressionEnd limit 0 none previous offset (c :: cs) = ⟨offset, c :: cs⟩ := by
    rw [expressionEnd, if_neg (Nat.not_le.2 more)]
    simp [is]
  unfold converted
  cases shape : f.conversion with
  | none => rcases ends with rfl | rfl <;> exact stops (by simp [endsExpression])
  | some cs =>
    have other := (valid.conversion cs shape).1
    refine stops ?_
    have next : ((cs ++ e :: rest).head? != some '=') = true := by
      cases cs with
      | nil => rcases ends with rfl | rfl <;> rfl
      | cons c cs => simpa using other
    show endsExpression previous '!' (cs ++ e :: rest) = true
    rw [endsExpression, next]
    simp

/-- Behind the expression a conversion is passed. -/
lemma skipConversion_converted (valid : f.Valid) (ends : Ends e)
    (more : offset + width f.converted < limit) :
    skipConversion limit ⟨offset, f.converted ++ e :: rest⟩
      = ⟨offset + width f.converted, e :: rest⟩ := by
  unfold converted at more ⊢
  cases shape : f.conversion with
  | none => rcases ends with rfl | rfl <;> simp [skipConversion]
  | some cs =>
    rw [shape] at more
    have inner : ∀ c ∈ '!' :: cs, c ≠ ':' ∧ c ≠ '}' :=
      List.forall_mem_cons.2 ⟨by decide, (valid.conversion cs shape).2⟩
    have passed : skipConversion.go limit offset ('!' :: cs ++ e :: rest) = _ :=
      skipConversion_go ends inner more
    simp only [Option.map_some, Option.getD_some, List.cons_append] at passed more ⊢
    rw [Text.width_cons] at more
    rw [skipConversion, if_pos (by simp; omega)]
    exact passed

/-- What the conversion, or what follows it, begins with. -/
lemma head_converted (f : Field) (ends : Ends e) (rest : List Char) :
    ∃ c cs, f.converted ++ e :: rest = c :: cs ∧ c ≠ '=' ∧ endsSelfShown c = true := by
  unfold converted
  cases f.conversion with
  | none => rcases ends with rfl | rfl <;> exact ⟨_, _, rfl, by decide, rfl⟩
  | some cs => exact ⟨'!', cs ++ e :: rest, rfl, by decide, rfl⟩

/-- The equals sign is taken for a part of the expression as a whole, with the blanks behind it. -/
lemma expressionEnd_takenSign (valid : f.Valid) (ends : Ends e) (taken : f.takesSign = true)
    (more : offset + width f.sign < limit) :
    expressionEnd limit 0 none (f.expr.getLastD ' ') offset (f.sign ++ (f.converted ++ e :: rest))
      = ⟨offset + width f.sign, f.converted ++ e :: rest⟩ := by
  obtain ⟨blanks, shown, takes⟩ := Option.any_eq_true _ _ |>.1 taken
  have sign : f.sign = '=' :: blanks := by rw [Field.sign, shown]; rfl
  have blank := valid.blanks blanks shown
  have goes : endsExpression (f.expr.getLastD ' ') '=' (blanks ++ (f.converted ++ e :: rest))
      = false := by
    rw [Bool.or_eq_true] at takes
    rcases takes with some | comparison
    · cases blanks with
      | nil => cases some
      | cons b blanks =>
        have other : endsSelfShown b = false := by
          have blank := blank b List.mem_cons_self
          simp only [isBlank, Bool.or_eq_true, beq_iff_eq] at blank
          rcases blank with (rfl | rfl) | rfl <;> rfl
        simp [endsExpression, other]
    · exact (endsExpression_comparison comparison ' ' _).2
  have plain : IsPlain '=' := isPlain_of_beginsComparison rfl
  rw [sign, Text.width_cons, ← Nat.add_assoc] at more ⊢
  rw [List.cons_append, expressionEnd_plain (by omega) plain (by rw [goes, Bool.and_false]),
    (ExprText.blanks blank).expressionEnd (by simp) (by omega), expressionEnd_converted valid ends more]

/-- The expression of a field is passed, with the equals sign or without it. -/
lemma expressionEnd_render (valid : f.Valid) (ends : Ends e)
    (more : offset + width f.render < limit) :
    expressionEnd limit 0 none ' ' offset (f.render ++ e :: rest)
      = ⟨offset + width f.found, f.left ++ (f.converted ++ e :: rest)⟩ := by
  have text : f.render ++ e :: rest = f.expr ++ (f.sign ++ (f.converted ++ e :: rest)) := by
    rw [render]
    simp only [List.append_assoc]
  simp only [render, Text.width_append] at more
  rw [text, valid.expr.expressionEnd (by simp) (by omega)]
  cases taken : f.takesSign with
  | true =>
    rw [expressionEnd_takenSign valid ends taken (by omega), found, left, if_pos taken,
      if_pos taken, Text.width_append, Nat.add_assoc]
    rfl
  | false =>
    rw [found, left, if_neg (by simp [taken]), if_neg (by simp [taken])]
    rcases sign_of_not_takesSign taken with sign | ⟨sign, noComparison⟩
    · rw [sign]
      exact expressionEnd_converted valid ends (by omega)
    · obtain ⟨c, cs, next, -, shows⟩ := f.head_converted ends rest
      have stops : endsExpression (f.expr.getLastD ' ') '=' (c :: cs) = true := by
        rw [endsExpression, noComparison]
        simp [shows]
      have positive := '='.utf8Size_pos
      rw [sign, Text.width_cons] at more
      rw [sign, next, List.singleton_append, expressionEnd, if_neg (by omega), stops]
      rfl

/-- What follows the expression is passed up to the format specification or the end of the field. -/
lemma afterExpression_left (valid : f.Valid) (ends : Ends e)
    (more : offset + width f.left + width f.converted < limit) :
    afterExpression limit ⟨offset, f.left ++ (f.converted ++ e :: rest)⟩
      = ⟨offset + width f.left + width f.converted, e :: rest⟩ := by
  have skipped : skip limit '=' ⟨offset, f.left ++ (f.converted ++ e :: rest)⟩
      = ⟨offset + width f.left, f.converted ++ e :: rest⟩ := by
    rcases f.left_cases with left | left
    · obtain ⟨c, cs, next, noSign, -⟩ := f.head_converted ends rest
      rw [left, next]
      simp [skip, noSign]
    · have positive := '='.utf8Size_pos
      rw [left, Text.width_cons] at more
      rw [left, List.singleton_append, skip]
      exact if_pos (by simp; omega)
  rw [afterExpression, skipped, skipConversion_converted valid ends more]

/-- The expression of a field is taken with the equals sign or without it, and what follows is passed
up to the format specification or the end of the field. -/
theorem ends (valid : f.Valid) (ends : Ends e) (more : offset + width f.render < limit) :
    let stop := expressionEnd limit 0 none ' ' offset (f.render ++ e :: rest)
    stop.offset = offset + width f.found
      ∧ afterExpression limit stop = ⟨offset + width f.render, e :: rest⟩ := by
  have size : width f.found + width f.left + width f.converted = width f.render := by
    rw [← Text.width_append, found_append_left, render, Text.width_append, Text.width_append,
      Text.width_append, Nat.add_assoc]
  intro stop
  have is : stop = _ := expressionEnd_render valid ends more
  rw [is, afterExpression_left valid ends (by omega)]
  exact ⟨rfl, by rw [← size]; simp only [Nat.add_assoc]⟩

end Field

/-! ## Parts -/

/-- What the inside of a formatted string is made of, part by part.  A field may have a format
specification, which is made of parts again. -/
inductive Parts
  | nil
  | text (cs : List Char) (later : Parts)
  /-- A brace that stands for itself, which is written twice. -/
  | brace (c : Char) (later : Parts)
  /-- A character by its name. -/
  | named (name : List Char) (later : Parts)
  | field (f : Field) (later : Parts)
  | specified (f : Field) (spec later : Parts)

namespace Parts

/-- As they are written. -/
def render : Parts → List Char
  | nil => []
  | text cs later => cs ++ later.render
  | brace c later => c :: c :: later.render
  | named name later => ['\\', 'N'] ++ '{' :: (name ++ '}' :: later.render)
  | field f later => '{' :: (f.render ++ '}' :: later.render)
  | specified f spec later => '{' :: (f.render ++ ':' :: (spec.render ++ '}' :: later.render))

/-- The characters of names of characters. -/
def isNameLetter (c : Char) : Bool := c.isAlphanum || c == ' ' || c == '-'

/-- Parts as they may be written in a literal.  Characters have names where backslashes have a meaning,
and braces stand for themselves outside of format specifications. -/
def Valid (raw : Bool) : Bool → Parts → Prop
  | _, nil => True
  | inSpec, text cs later => (∀ c ∈ cs, c ≠ '{' ∧ c ≠ '}') ∧ later.Valid raw inSpec
  | inSpec, brace c later => inSpec = false ∧ (c = '{' ∨ c = '}') ∧ later.Valid raw inSpec
  | inSpec, named name later =>
    raw = false ∧ name ≠ [] ∧ (∀ c ∈ name, isNameLetter c = true) ∧ later.Valid raw inSpec
  | inSpec, field f later => f.Valid ∧ later.Valid raw inSpec
  | inSpec, specified f spec later => f.Valid ∧ spec.Valid raw true ∧ later.Valid raw inSpec

/-- The spans in order of what is taken for an expression, from an offset on. -/
def spansBy (expr : Field → List Char) (names : Bool) : ℕ → Parts → List Span
  | _, nil => []
  | offset, text cs later => later.spansBy expr names (offset + width cs)
  | offset, brace c later => later.spansBy expr names (offset + width [c, c])
  | offset, named name later =>
    (if names then [⟨offset + 3, offset + 3 + width name⟩] else [])
      ++ later.spansBy expr names (offset + 3 + width name + 1)
  | offset, field f later =>
    ⟨offset + 1, offset + 1 + width (expr f)⟩
      :: later.spansBy expr names (offset + 1 + width f.render + 1)
  | offset, specified f spec later =>
    ⟨offset + 1, offset + 1 + width (expr f)⟩
      :: (spec.spansBy expr names (offset + 1 + width f.render + 1)
        ++ later.spansBy expr names (offset + 1 + width f.render + 1 + width spec.render + 1))

/-- The spans of the expressions of the fields, in order. -/
def spans (offset : ℕ) (p : Parts) : List Span := p.spansBy Field.expr false offset

/-- The spans that are found. -/
def found (offset : ℕ) (p : Parts) : List Span := p.spansBy Field.found true offset

end Parts

/-! ### Reading the parts -/

variable {specs : ℕ}

lemma spansFrom_limit (limit specs : ℕ) (cs : List Char) : spansFrom limit specs limit cs = [] := by
  cases cs with
  | nil => rw [spansFrom]
  | cons c cs => rw [spansFrom, if_pos (Nat.le_refl _)]

lemma spansFrom_text (plain : ∀ c ∈ cs, c ≠ '{' ∧ c ≠ '}') (more : offset + width cs ≤ limit) :
    spansFrom limit specs offset (cs ++ rest) = spansFrom limit specs (offset + width cs) rest := by
  induction cs generalizing offset with
  | nil => rfl
  | cons c cs ih =>
    obtain ⟨⟨noOpening, noClosing⟩, plain⟩ := List.forall_mem_cons.1 plain
    have positive := c.utf8Size_pos
    rw [Text.width_cons, ← Nat.add_assoc] at more ⊢
    rw [List.cons_append, spansFrom, if_neg (by omega)]
    simpa [noOpening, noClosing] using ih plain more

lemma spansFrom_brace (brace : c = '{' ∨ c = '}') (more : offset + width [c, c] ≤ limit) :
    spansFrom limit 0 offset (c :: c :: rest) = spansFrom limit 0 (offset + width [c, c]) rest := by
  have positive := c.utf8Size_pos
  simp only [Text.width_cons, Text.width_nil, Nat.add_zero, ← Nat.add_assoc] at more ⊢
  have next : offset + c.utf8Size < limit := by omega
  rw [spansFrom, if_neg (by omega)]
  dsimp only
  rw [if_pos (by rcases brace with rfl | rfl <;> simpa using next)]
  rfl

lemma spansFrom_closing (more : offset < limit) :
    spansFrom limit (specs + 1) offset ('}' :: rest) = spansFrom limit specs (offset + 1) rest := by
  rw [spansFrom, if_neg (Nat.not_le.2 more)]
  rfl

/-- A field is found, and what is behind it is read in its format specification or behind it. -/
lemma spansFrom_opening {f : Field} {e : Char} (valid : f.Valid) (ends : Ends e)
    (more : offset + 1 + width f.render < limit) :
    let after : Place := ⟨offset + 1 + width f.render, e :: rest⟩
    let inside := skip limit ':' after
    let closed := skip limit '}' after
    spansFrom limit specs offset ('{' :: (f.render ++ e :: rest))
      = ⟨offset + 1, offset + 1 + width f.found⟩
        :: if inside.offset != after.offset then
          spansFrom limit (specs + 1) inside.offset inside.rest
        else spansFrom limit specs closed.offset closed.rest := by
  have single : ((f.render ++ e :: rest).head? == some '{') = false := by
    obtain ⟨d, ds, shape⟩ := List.exists_cons_of_ne_nil valid.nonempty
    have first := valid.first
    rw [shape] at first
    rw [Field.render, shape]
    simpa using first
  obtain ⟨stop, after⟩ := @Field.ends limit (offset + 1) rest f e valid ends more
  have size : '{'.utf8Size = 1 := rfl
  rw [spansFrom, if_neg (by omega)]
  dsimp only
  rw [size, single, Bool.and_false, Bool.false_and, if_neg Bool.false_ne_true,
    if_neg (by simp), if_pos (beq_self_eq_true _), after, stop]

lemma spansFrom_field {f : Field} (valid : f.Valid) (more : offset + 1 + width f.render < limit) :
    spansFrom limit specs offset ('{' :: (f.render ++ '}' :: rest))
      = ⟨offset + 1, offset + 1 + width f.found⟩
        :: spansFrom limit specs (offset + 1 + width f.render + 1) rest := by
  have size : '}'.utf8Size = 1 := rfl
  rw [spansFrom_opening valid (.inl rfl) more]
  simp [skip, more, size]

lemma spansFrom_specified {f : Field} (valid : f.Valid)
    (more : offset + 1 + width f.render < limit) :
    spansFrom limit specs offset ('{' :: (f.render ++ ':' :: rest))
      = ⟨offset + 1, offset + 1 + width f.found⟩
        :: spansFrom limit (specs + 1) (offset + 1 + width f.render + 1) rest := by
  have size : ':'.utf8Size = 1 := rfl
  rw [spansFrom_opening valid (.inr rfl) more]
  simp [skip, more, size]

namespace Parts

lemma ne_of_isNameLetter {d : Char} (h : isNameLetter c = true) (other : isNameLetter d = false) :
    c ≠ d := by
  rintro rfl
  rw [h] at other
  nomatch other

lemma exprText_of_isNameLetter (all : ∀ c ∈ cs, isNameLetter c = true) : ExprText true cs := by
  refine .ofPlain fun c hc => ?_
  have other {d : Char} (h : isNameLetter d = false) : c ≠ d := ne_of_isNameLetter (all c hc) h
  refine ⟨⟨?_, other rfl, ?_⟩, other rfl, other rfl, other rfl⟩
  · simp [Piece.isQuote, @other '"' rfl, @other '\'' rfl]
  · simp only [brackets, List.forall_mem_cons, List.not_mem_nil, false_imp_iff, forall_const]
    exact ⟨⟨other rfl, other rfl⟩, ⟨other rfl, other rfl⟩, ⟨other rfl, other rfl⟩, trivial⟩

/-- A name is read as the expression of a field. -/
lemma spansFrom_named {name : List Char} (nonempty : name ≠ [])
    (letters : ∀ c ∈ name, isNameLetter c = true) (more : offset + 1 + width name < limit) :
    spansFrom limit specs offset ('{' :: (name ++ '}' :: rest))
      = ⟨offset + 1, offset + 1 + width name⟩
        :: spansFrom limit specs (offset + 1 + width name + 1) rest := by
  have first : name.head? ≠ some '{' := by
    intro is
    exact absurd (letters '{' (List.mem_of_head? is)) (by decide)
  have valid : Field.Valid ⟨name, none, none⟩ :=
    ⟨exprText_of_isNameLetter letters, nonempty, first, nofun, nofun⟩
  have written : Field.render ⟨name, none, none⟩ = name := by simp [Field.render, Field.sign,
    Field.converted]
  have read := @spansFrom_field limit offset rest specs _ valid (by rwa [written])
  rwa [written] at read

/-- Parts are read one after the other, in front of whatever follows. -/
theorem spansFrom_render {raw inSpec : Bool} {p : Parts} (valid : p.Valid raw inSpec)
    (same : inSpec = true ↔ specs ≠ 0) (more : offset + width p.render ≤ limit) :
    spansFrom limit specs offset (p.render ++ rest)
      = p.found offset ++ spansFrom limit specs (offset + width p.render) rest := by
  have one : '{'.utf8Size = 1 ∧ '}'.utf8Size = 1 ∧ ':'.utf8Size = 1 := ⟨rfl, rfl, rfl⟩
  induction p generalizing inSpec specs offset rest with
  | nil => rfl
  | text cs later ih =>
    obtain ⟨plain, valid⟩ := valid
    rw [render, Text.width_append, ← Nat.add_assoc] at more ⊢
    rw [List.append_assoc, spansFrom_text plain (by omega), ih valid same more]
    rfl
  | brace c later ih =>
    obtain ⟨outside, brace, valid⟩ := valid
    obtain rfl : specs = 0 := by simpa [outside] using same
    have size : width (Parts.brace c later).render = width [c, c] + width later.render := by
      simp [render, Nat.add_assoc]
    rw [size, ← Nat.add_assoc] at more ⊢
    rw [render, List.cons_append, List.cons_append, spansFrom_brace brace (by omega),
      ih valid same more]
    rfl
  | named name later ih =>
    obtain ⟨-, nonempty, letters, valid⟩ := valid
    have front : ∀ c ∈ ['\\', 'N'], c ≠ '{' ∧ c ≠ '}' := by simp
    have two : width ['\\', 'N'] = 2 := rfl
    have place : offset + 3 + width name + 1 + width later.render
        = offset + width (named name later).render := by
      simp only [render, Text.width_append, Text.width_cons, two, one]
      omega
    rw [← place] at more ⊢
    rw [render, List.append_assoc, spansFrom_text front (by omega), two, List.cons_append,
      List.append_assoc, List.cons_append, spansFrom_named nonempty letters (by omega),
      ih valid same (by omega)]
    rfl
  | field f later ih =>
    obtain ⟨ok, valid⟩ := valid
    have place : offset + 1 + width f.render + 1 + width later.render
        = offset + width (field f later).render := by
      simp only [render, Text.width_append, Text.width_cons, one]
      omega
    rw [← place] at more ⊢
    rw [render, List.cons_append, List.append_assoc, List.cons_append,
      spansFrom_field ok (by omega), ih valid same more]
    rfl
  | specified f spec later ihSpec ih =>
    obtain ⟨ok, inner, valid⟩ := valid
    have place : offset + 1 + width f.render + 1 + width spec.render + 1 + width later.render
        = offset + width (specified f spec later).render := by
      simp only [render, Text.width_append, Text.width_cons, one]
      omega
    rw [← place] at more ⊢
    rw [render, List.cons_append, List.append_assoc, List.cons_append, List.append_assoc,
      List.cons_append, spansFrom_specified ok (by omega),
      ihSpec inner (by simp) (by omega), spansFrom_closing (by omega), ih valid same more]
    simp only [found, spansBy, List.cons_append, List.append_assoc]

end Parts

/-! ## Literals -/

/-- The quotes at both ends of a literal. -/
def quotes (quote : Char) (triple : Bool) : List Char :=
  List.replicate (if triple then 3 else 1) quote

lemma quotes_eq_cons (quote : Char) (triple : Bool) :
    quotes quote triple = quote :: List.replicate (if triple then 2 else 0) quote := by
  cases triple <;> rfl

/-- What a formatted string is written with. -/
structure Literal where
  letters : List Char
  quote : Char
  triple : Bool
  parts : Parts

namespace Literal

/-- The letters and the quotes in front of the parts. -/
def opening (l : Literal) : List Char := l.letters ++ quotes l.quote l.triple

/-- The parts with the quotes behind them. -/
def body (l : Literal) : List Char := l.parts.render ++ quotes l.quote l.triple

def render (l : Literal) : List Char := l.opening ++ l.body

/-- A formatted string as it may be written.  The quotes behind the parts are the first ones that
close it. -/
structure Valid (l : Literal) : Prop where
  letters : ∀ c ∈ l.letters, Piece.isStringPrefix c = true
  formatted : ∃ c ∈ l.letters, Piece.isFormatPrefix c = true
  quote : Piece.isQuote l.quote = true
  parts : l.parts.Valid (l.letters.any fun c => c == 'r' || c == 'R') false
  closes : Piece.stringTail l.quote l.triple l.body = ⟨⟨l.body, []⟩, true⟩

variable {l : Literal}

/-- A body in single quotes does not begin with two of them. -/
lemma Valid.single (valid : l.Valid) (single : l.triple = false) :
    Piece.beginsTriple l.quote l.body = false := by
  have closes := valid.closes
  rw [single] at closes
  have front := Piece.beginsTriple_stringTail valid.quote l.body
  rwa [closes] at front

lemma take_two (quote : Char) (cs : List Char) :
    (cs.take 2 == [quote, quote]) = Piece.beginsTriple quote cs := by
  rcases cs with _ | ⟨a, _ | ⟨b, cs⟩⟩
  · rfl
  · simp [Piece.beginsTriple]
  · simp [Piece.beginsTriple]

/-- The letters end where the quotes begin. -/
lemma spanning_render (valid : l.Valid) : Cut.spanning (!Piece.isQuote ·) l.render
    = ⟨l.letters, l.quote :: (List.replicate (if l.triple then 2 else 0) l.quote ++ l.body)⟩ := by
  have letters : ∀ c ∈ l.letters, (!Piece.isQuote c) = true := fun c hc => by
    rw [Piece.isQuote_of_isStringPrefix (valid.letters c hc)]
    rfl
  have stops : (!Piece.isQuote l.quote) = false := by
    rw [valid.quote]
    rfl
  rw [render, opening, quotes_eq_cons, List.append_assoc, List.cons_append]
  exact Cut.spanning_append_cons letters stops _

/-- Behind the first quote it is seen how many there are. -/
lemma number_quotes (valid : l.Valid) :
    (if (List.replicate (if l.triple then 2 else 0) l.quote ++ l.body).take 2 == [l.quote, l.quote]
      then 3 else 1) = if l.triple then 3 else 1 := by
  rw [take_two]
  cases triple : l.triple with
  | true => simp [Piece.beginsTriple, List.replicate]
  | false => simp [valid.single triple]

lemma drop_body (l : Literal) : l.body.drop (l.body.length - if l.triple then 3 else 1)
    = quotes l.quote l.triple := by
  rw [body, quotes, List.length_append, List.length_replicate, Nat.add_sub_cancel, List.drop_left]

/-- The inside of a literal is what its parts are written as. -/
lemma inside_render (valid : l.Valid) : inside l.render
    = some ⟨width l.opening, width l.opening + width l.parts.render⟩ := by
  have front : l.render.takeWhile (!Piece.isQuote ·) = l.letters :=
    congrArg Cut.taken (spanning_render valid)
  have behind : l.render.dropWhile (!Piece.isQuote ·)
      = l.quote :: (List.replicate (if l.triple then 2 else 0) l.quote ++ l.body) :=
    congrArg Cut.rest (spanning_render valid)
  have fewer : (if l.triple then 3 else 1) - 1 = if l.triple then 2 else 0 := by
    cases l.triple <;> rfl
  have long : (if l.triple then 3 else 1) ≤ l.body.length := by
    rw [body, quotes, List.length_append, List.length_replicate]
    exact Nat.le_add_left _ _
  have all : (quotes l.quote l.triple).all (· == l.quote) = true := by simp [quotes]
  have size : width (quotes l.quote l.triple) = if l.triple then 3 else 1 :=
    width_replicate valid.quote _
  unfold inside
  dsimp only
  rw [front, behind]
  dsimp only
  rw [number_quotes valid, fewer, List.drop_left' (List.length_replicate ..), drop_body, all,
    decide_eq_true long, Bool.and_true, if_pos rfl, Option.some.injEq, Span.mk.injEq]
  refine ⟨by rw [opening, Text.width_append, size], ?_⟩
  rw [render, body, Text.width_append, Text.width_append, size, ← Nat.add_assoc,
    Nat.add_sub_cancel]

/-- Looking for the fields of a literal finds what its parts say. -/
theorem spans_render (valid : l.Valid) (offset : ℕ) (after : List Char) :
    ReplacementField.spans l.render offset (l.render ++ after)
      = l.parts.found (offset + width l.opening) := by
  have cut : Text.dropBytes (l.render ++ after) (width l.opening)
      = l.parts.render ++ (quotes l.quote l.triple ++ after) := by
    rw [render, body, List.append_assoc, List.append_assoc, Text.dropBytes_append]
  have limit : offset + width l.opening + width l.parts.render
      ≤ offset + (width l.opening + width l.parts.render) := (Nat.add_assoc _ _ _).le
  have read := @Parts.spansFrom_render _ _ (quotes l.quote l.triple ++ after) 0 _ _ _ valid.parts
    (by simp) limit
  rw [ReplacementField.spans, inside_render valid]
  dsimp only
  rw [if_pos (Nat.le_add_right _ _), cut, read, Nat.add_assoc, spansFrom_limit, List.append_nil]

end Literal

/-! ## What is found in excess -/

/-- Whether equals signs are taken for parts of expressions. -/
lemma Field.width_found {f : Field} : width f.found = width f.expr ↔ f.takesSign = false := by
  unfold found
  cases takes : f.takesSign with
  | false => simp
  | true =>
    obtain ⟨blanks, shown⟩ : ∃ blanks, f.shown = some blanks := by
      unfold takesSign at takes
      cases shown : f.shown with
      | none => rw [shown] at takes; nomatch takes
      | some blanks => exact ⟨blanks, rfl⟩
    have positive := '='.utf8Size_pos
    have sign : width f.sign = '='.utf8Size + width blanks := by
      rw [Field.sign, shown]
      exact Text.width_cons ..
    rw [if_pos rfl, Text.width_append]
    simp
    omega

namespace Parts

/-- No characters by their names, and no equals sign that is taken for a part of an expression. -/
def Plain : Parts → Prop
  | nil => True
  | text _ later => later.Plain
  | brace _ later => later.Plain
  | named _ _ => False
  | field f later => f.takesSign = false ∧ later.Plain
  | specified f spec later => f.takesSign = false ∧ spec.Plain ∧ later.Plain

lemma length_spans_le (p : Parts) (offset : ℕ) :
    (p.spans offset).length ≤ (p.found offset).length := by
  unfold spans found
  induction p generalizing offset with
  | nil => exact Nat.le_refl _
  | text cs later ih => exact ih _
  | brace c later ih => exact ih _
  | named name later ih => exact (ih _).trans (Nat.le_succ _)
  | field f later ih => exact Nat.succ_le_succ (ih _)
  | specified f spec later ihSpec ih =>
    simp only [spansBy, List.length_cons, List.length_append]
    have := ihSpec (offset + 1 + width f.render + 1)
    have := ih (offset + 1 + width f.render + 1 + width spec.render + 1)
    omega

lemma found_eq_spans_iff (p : Parts) (offset : ℕ) : p.found offset = p.spans offset ↔ p.Plain := by
  have span {f : Field} (offset : ℕ) : (⟨offset + 1, offset + 1 + width f.found⟩ : Span)
      = ⟨offset + 1, offset + 1 + width f.expr⟩ ↔ f.takesSign = false := by
    rw [← Field.width_found, Span.mk.injEq]
    omega
  induction p generalizing offset with
  | nil => exact ⟨fun _ => trivial, fun _ => rfl⟩
  | text cs later ih => exact ih _
  | brace c later ih => exact ih _
  | named name later ih =>
    refine ⟨fun same => ?_, False.elim⟩
    -- there is one span more
    have count := congrArg List.length same
    have fewer := length_spans_le later (offset + 3 + width name + 1)
    simp only [spans, found, spansBy, List.length_append, List.length_cons, List.length_nil,
      if_true, if_false, Bool.false_eq_true] at count fewer
    omega
  | field f later ih =>
    rw [found, spans, spansBy, spansBy, List.cons.injEq, span]
    exact and_congr_right fun _ => ih _
  | specified f spec later ihSpec ih =>
    rw [found, spans, spansBy, spansBy, List.cons.injEq, span]
    refine and_congr_right fun _ => ⟨fun same => ?_, fun ⟨plainSpec, plain⟩ => ?_⟩
    · have count := congrArg List.length same
      have fewerSpec := length_spans_le spec (offset + 1 + width f.render + 1)
      have fewer := length_spans_le later
        (offset + 1 + width f.render + 1 + width spec.render + 1)
      rw [List.length_append, List.length_append] at count
      simp only [spans, found] at fewerSpec fewer
      obtain ⟨sameSpec, sameLater⟩ := List.append_inj same (by omega)
      exact ⟨(ihSpec _).1 sameSpec, (ih _).1 sameLater⟩
    · exact congrArg₂ (· ++ ·) ((ihSpec _).2 plainSpec) ((ih _).2 plain)

end Parts

namespace Literal

/-- **Fields of formatted strings.**  In a literal, wherever it stands, the expressions of the fields
are found at their places and in their order, and nothing else, if and only if no part is a character
by its name and no equals sign is taken for a part of an expression. -/
theorem spans_eq_iff {l : Literal} (valid : l.Valid) (offset : ℕ) (after : List Char) :
    ReplacementField.spans l.render offset (l.render ++ after)
      = l.parts.spans (offset + width l.opening) ↔ l.parts.Plain := by
  rw [spans_render valid]
  exact l.parts.found_eq_spans_iff _

/-- A field with a conversion and a field in its format specification, text in braces, and a field
that shows its own text. -/
theorem mixed_spans :
    let l : Literal := ⟨['f'], '"', false, .specified ⟨['s', '.', 'x'], none, some ['r']⟩
      (.text ['>'] (.field ⟨['w'], none, none⟩ .nil))
      (.brace '{' (.text ['t'] (.brace '}' (.field ⟨['y'], some [], none⟩ .nil))))⟩
    l.Valid ∧ ReplacementField.spans l.render 0 (l.render ++ ['\n'])
      = [⟨3, 6⟩, ⟨11, 12⟩, ⟨20, 21⟩] := by
  intro l
  have first : Field.Valid ⟨['s', '.', 'x'], none, some ['r']⟩ :=
    ⟨.ofPlain (by simp [IsPlain, brackets, Piece.isQuote]), by simp, by simp, by simp, by simp⟩
  have inner : Field.Valid ⟨['w'], none, none⟩ :=
    ⟨.ofPlain (by simp [IsPlain, brackets, Piece.isQuote]), by simp, by simp, by simp, by simp⟩
  have last : Field.Valid ⟨['y'], some [], none⟩ :=
    ⟨.ofPlain (by simp [IsPlain, brackets, Piece.isQuote]), by simp, by simp, by simp, by simp⟩
  have valid : l.Valid := by
    refine ⟨by simp [l, Piece.isStringPrefix], ⟨'f', List.mem_cons_self, rfl⟩, rfl,
      ⟨first, ⟨by simp, inner, trivial⟩, rfl, .inl rfl, by simp, rfl, .inr rfl, last, trivial⟩, ?_⟩
    unfold l
    decide
  refine ⟨valid, ?_⟩
  rw [(spans_eq_iff valid 0 ['\n']).2 ⟨rfl, ⟨rfl, trivial⟩, rfl, trivial⟩]
  decide

/-- Blanks behind the equals sign of a field that shows its own text are taken for a part of the
expression, and the equals sign with them. -/
theorem blanks_behind_sign :
    let l : Literal := ⟨['f'], '"', false, .field ⟨['x', ' '], some [' '], none⟩ .nil⟩
    l.Valid ∧ l.render = ['f', '"', '{', 'x', ' ', '=', ' ', '}', '"'] ∧ l.parts.spans 2 = [⟨3, 5⟩]
      ∧ ReplacementField.spans l.render 0 (l.render ++ ['\n']) = [⟨3, 7⟩] := by
  intro l
  have field : Field.Valid ⟨['x', ' '], some [' '], none⟩ :=
    ⟨.ofPlain (by simp [IsPlain, brackets, Piece.isQuote]), by simp, by simp, by simp [isBlank],
      nofun⟩
  have valid : l.Valid := by
    refine ⟨by simp [l, Piece.isStringPrefix], ⟨'f', List.mem_cons_self, rfl⟩, rfl,
      ⟨field, trivial⟩, ?_⟩
    unfold l
    decide
  refine ⟨valid, rfl, rfl, ?_⟩
  rw [spans_render valid]
  decide

end Literal

end MethodLift.Syntax.ReplacementField
