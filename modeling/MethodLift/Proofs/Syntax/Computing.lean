import MethodLift.Proofs.Syntax.Tokens
import MethodLift.Syntax.Module

/-!
# Reading a text in the kernel

Two of the recursions that reading a text goes through descend along an order that the kernel does
not compute with: the reading of pieces, and the merging of sorted lists.  Here each of them gets
a form that descends along a number, and is equal to the recursion itself.  What holds of a given
text is then decided by computing.
-/

namespace MethodLift

/-- A form of a value, or of a function, that the kernel can compute.  It is found by rewriting: an
unfolded definition in which every recursion of the other kind has been replaced. -/
structure Computed {α : Type} (a : α) where
  value : α
  eq : a = value

/-! ## Sorting -/

section Sorting

variable {α : Type}

/-- The merge of two lists. -/
def merged (le : α → α → Bool) (xs ys : List α) : List α :=
  match xs, ys with
  | [], ys => ys
  | x :: xs, [] => x :: xs
  | x :: xs, y :: ys => if le x y then x :: merged le xs (y :: ys) else y :: merged le (x :: xs) ys
termination_by xs.length + ys.length

theorem merge_eq_merged (le : α → α → Bool) (xs ys : List α) : xs.merge ys le = merged le xs ys := by
  fun_induction merged le xs ys with
  | case1 ys => rw [List.nil_merge]
  | case2 x xs => rw [List.merge_right]
  | case3 x xs y ys first ih => rw [List.cons_merge_cons, if_pos first, ih]
  | case4 x xs y ys first ih => rw [List.cons_merge_cons, if_neg first, ih]

/-- The list, sorted by merging its halves. -/
def sorted (le : α → α → Bool) (xs : List α) : List α :=
  if xs.length ≤ 1 then xs
  else
    let half := (xs.length + 1) / 2
    merged le (sorted le (xs.take half)) (sorted le (xs.drop half))
termination_by xs.length

theorem mergeSort_halves (xs : List α) (le : α → α → Bool) (long : ¬xs.length ≤ 1) :
    xs.mergeSort le = ((xs.take ((xs.length + 1) / 2)).mergeSort le).merge
      ((xs.drop ((xs.length + 1) / 2)).mergeSort le) le := by
  match xs with
  | [] => exact absurd (Nat.zero_le 1) long
  | [a] => exact absurd (Nat.le_refl 1) long
  | a :: b :: xs =>
    rw [List.mergeSort]
    simp only [List.MergeSort.Internal.splitInTwo_fst, List.MergeSort.Internal.splitInTwo_snd]

theorem mergeSort_eq_sorted (xs : List α) (le : α → α → Bool) : xs.mergeSort le = sorted le xs := by
  fun_induction sorted le xs with
  | case1 xs short =>
    match xs, short with
    | [], _ => rw [List.mergeSort_nil]
    | [a], _ => rw [List.mergeSort_singleton]
  | case2 xs long half front back => rw [mergeSort_halves xs le long, merge_eq_merged, front, back]

end Sorting

namespace Syntax

/-! ## Reading -/

/-- The text as it is read by `lexFrom`. -/
def lexed (layout : Layout) (offset : Nat) (cs : List Char) : Lexed :=
  match cs with
  | [] => ⟨closing layout offset, []⟩
  | c :: rest =>
    if layout.lineStart then
      let blanks := Cut.spanning isBlank (c :: rest)
      let first := offset + Text.width blanks.taken
      match _after : blanks.rest with
      | [] => ⟨closing layout first, []⟩
      | d :: ds =>
        if beginsEmptyLine d then
          let line := emptyLine d ds
          lexed layout (first + Text.width line.taken) line.rest
        else
          let step := relevel layout (indentationWidth blanks.taken) ⟨offset, first⟩
          (lexed step.next first (d :: ds)).cons step.tokens step.problems
    else
      let found := Piece.read c rest
      let stop := offset + Text.width found.2.taken
      let step := contribution layout found.1 found.2.taken ⟨offset, stop⟩
      (lexed step.next stop found.2.rest).cons step.tokens step.problems
termination_by 2 * cs.length + layout.lineStart.toNat
decreasing_by
  · have blanksLength := length_rest_spanning isBlank (c :: rest)
    have lineLength := length_rest_emptyLine d ds
    rw [_after] at blanksLength
    omega
  · have blanksLength := length_rest_spanning isBlank (c :: rest)
    rw [_after] at blanksLength
    rw [relevel_lineStart]
    simp_all
  · have shorter := Piece.read_rest_length c rest
    have bit := Bool.toNat_le step.next.lineStart
    change 2 * (Piece.read c rest).2.rest.length + step.next.lineStart.toNat < _
    omega

theorem lexFrom_eq_lexed (layout : Layout) (offset : Nat) (cs : List Char) :
    lexFrom layout offset cs = lexed layout offset cs := by
  fun_induction lexed layout offset cs with
  | case1 => rw [lexFrom]
  | case2 layout offset c cs begins blanks first shape => exact lexFrom_blank offset begins shape
  | case3 layout offset c cs begins blanks first d ds shape empty line ih =>
    exact (lexFrom_emptyLine offset begins shape empty).trans ih
  | case4 layout offset c cs begins blanks first d ds shape some step ih =>
    exact (lexFrom_level offset begins shape some).trans (congrArg (Lexed.cons _ _) ih)
  | case5 layout offset c cs inLine found stop step ih =>
    exact (lexFrom_inLine offset inLine).trans (congrArg (Lexed.cons _ _) ih)

theorem lex_eq_lexed (text : String) : lex text = lexed .module 0 text.toList :=
  lexFrom_eq_lexed _ _ _

/-! ## Trees -/

def parseComputed : Computed parse :=
  ⟨_, by
    funext text
    simp only [parse, lex_eq_lexed, mergeSort_eq_sorted]
    rfl⟩

theorem stmts_eq_sorted (m : Module) :
    m.stmts = sorted (fun a b => a.serial ≤ b.serial) m.reachableStmts :=
  mergeSort_eq_sorted _ _

theorem exprs_eq_sorted (m : Module) :
    m.exprs = sorted (fun a b => a.serial ≤ b.serial) (m.reachableExprs ++ m.unused) :=
  mergeSort_eq_sorted _ _

end Syntax
end MethodLift
