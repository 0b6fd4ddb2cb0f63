import MethodLift.Proofs.Call.Neighbours
import MethodLift.Proofs.Edit.Places
import MethodLift.Proofs.Lift.Computing

/-!
# Where new arguments land

The edits of a file lie apart, so they have a normal form and can be carried out (`edits_apply`).
Seen from a call that is in no other call's receiver, the normal form falls into parts: what is in
front of the call, its callee, what is changed of its arguments, the new arguments, and what is
behind the call (`exists_parts`).  Each part makes its stretch of the text, and what is between them
is copied.  So the call becomes a call of the function with its arguments in their order and the new
ones behind them (`arguments_land`).

Two things in the text can be told from less than the tree has, and are told wrong for some texts.
The place in front of the closing parenthesis of a call without arguments is found by counting back
from where the call ends, which with parentheses around the call is not where its own parenthesis is
(`arguments_behind_call`).  And whether a sole generator has parentheses is told by its first
character, which may be a parenthesis of its element (`generator_wrapped`,
`generator_beside_argument`).
-/

namespace MethodLift

open MethodLift.Syntax

namespace CallSite

variable {site : CallSite} {offset : ℕ}

namespace Stands

variable {m : Module} {receiver : Expr} {span : Span} (laid : m.Laid) (h : site.Stands m receiver)
  (framed : site.Framed)
include laid h framed

/-- The values of the arguments end where new arguments are put, or in front of that. -/
lemma value_stop_le_place {a : Arg Expr} (ha : a ∈ site.args) :
    a.value.span.stop ≤ site.place := by
  cases last : site.args.getLast? with
  | none =>
    rw [List.getLast?_eq_none_iff.1 last] at ha
    nomatch ha
  | some b =>
    have ends := h.value_stop_le laid ha last
    rw [← framed.stop b (List.mem_of_getLast? last)] at ends
    rwa [place, last]

lemma place_bounds : site.func.span.stop < site.place ∧ site.place < site.span.stop :=
  framed.place (fun _ ha => h.value_nonempty laid ha) site.place_spec

/-- No other edit stands where a call puts text in. -/
lemma ne_place (elsewhere : site.Elsewhere (.point offset)) (place : site.Place offset) :
    False := by
  have := framed.place (fun a ha => h.value_nonempty laid ha) place
  have nonempty := h.callee_nonempty laid
  cases elsewhere with
  | ahead stop =>
    change offset ≤ _ at stop
    omega
  | inArgument inside =>
    obtain ⟨a, ha, -, some, stop⟩ := inside
    change _ < offset at some
    change offset < _ at stop
    rcases place.cases with rfl | ⟨b, sole, rfl⟩
    · have := h.value_stop_le_place laid framed ha
      omega
    · obtain rfl : a = b := List.mem_singleton.1 (sole ▸ ha)
      exact absurd some (Nat.lt_irrefl _)
  | beyond start =>
    change _ ≤ offset at start
    omega

end Stands

end CallSite

namespace CallChanges

variable {m : Module} {source : List Char} {ctx : CallContext} {site : CallSite}
  {receiver : Expr} {arguments : List String} {es normal : List Edit} {e : Edit}

/-! ## What a call puts in -/

/-- What is put in front of the arguments of a call that is to get others, and behind them:
parentheses around a generator without any, if it is the only argument. -/
inductive Wraps (source : List Char) (site : CallSite) (arguments : List String) :
    List Edit → String → Prop
  | generator {a : Arg Expr} (some : arguments ≠ []) (sole : site.args = [a])
    (bare : isBareGenerator source a.value = true) :
    Wraps source site arguments [.insert site.file a.value.span.start "("] ")"
  | nothing (none : ∀ a, site.args = [a] → arguments ≠ [] →
      isBareGenerator source a.value = false) :
    Wraps source site arguments [] ""

/-- The edit that puts new arguments in, if there are any. -/
def insertion (site : CallSite) (arguments : List String) (closed : String) : List Edit :=
  if arguments = [] then []
  else [.insert site.file site.place (closed ++ appended site.args arguments)]

lemma mem_insertion {closed : String} (he : e ∈ insertion site arguments closed) :
    e.span = .point site.place := by
  unfold insertion at he
  split at he
  · nomatch he
  · obtain rfl := List.mem_singleton.1 he
    rfl

/-- Text that is put in at one of the places of a call stands in the normal form by itself. -/
lemma filter_surrounded {own : List Edit} (laid : m.Laid) (stands : site.Stands m receiver)
    (framed : site.Framed) (surrounded : Surrounded site own es) {offset : ℕ}
    (place : site.Place offset) :
    es.filter (Edit.isAt site.file (.point offset))
      = own.filter (Edit.isAt site.file (.point offset)) := by
  obtain ⟨front, behind, rfl, others⟩ := surrounded
  have none {xs : List Edit} (sub : ∀ e ∈ xs, site.Elsewhere e.span) :
      xs.filter (Edit.isAt site.file (.point offset)) = [] := by
    refine List.filter_eq_nil_iff.2 fun e he here => ?_
    have elsewhere := sub e he
    rw [(Edit.isAt_iff.1 here).2] at elsewhere
    exact stands.ne_place laid framed elsewhere place
  obtain ⟨left, right⟩ := List.forall_mem_append.1 others
  rw [List.filter_append, List.filter_append, none left, none right, List.nil_append,
    List.append_nil]

lemma exists_wraps (source : List Char) (site : CallSite) (arguments : List String) :
    ∃ opened closed, Wraps source site arguments opened closed := by
  by_cases wrapped : ∃ a, site.args = [a] ∧ arguments ≠ [] ∧ isBareGenerator source a.value = true
  · obtain ⟨a, sole, some, bare⟩ := wrapped
    exact ⟨_, _, .generator some sole bare⟩
  · refine ⟨[], "", .nothing fun a sole some => Bool.eq_false_iff.2 fun bare => wrapped ?_⟩
    exact ⟨a, sole, some, bare⟩

section

variable {text : String} {opened : List Edit} {closed : String} (laid : m.Laid)
  (stands : site.Stands m receiver) (framed : site.Framed) (some : arguments ≠ [])
  (surrounded : Surrounded site (ownEdits text ctx site arguments) es)
include laid stands framed some surrounded

/-- At one of the places of a call stand its parentheses and its new arguments. -/
lemma filter_put {offset : ℕ} (place : site.Place offset) :
    es.filter (Edit.isAt site.file (.point offset))
      = (parenthesize site.file text.toList site.args
        ++ [Edit.insert site.file site.place (appended site.args arguments)]).filter
          (Edit.isAt site.file (.point offset)) := by
  have callee : ¬(calleeEdit ctx site).isAt site.file (.point offset) = true := by
    intro here
    have nonempty := stands.callee_nonempty laid
    have span : site.func.span = .point offset := (Edit.isAt_iff.1 here).2
    rw [span] at nonempty
    exact absurd nonempty (Nat.lt_irrefl _)
  rw [filter_surrounded laid stands framed surrounded place, ownEdits,
    List.filter_cons_of_neg callee, argumentEdits_eq some]

variable (wraps : Wraps text.toList site arguments opened closed)
  (normalized : Edit.normalize es = .ok normal)
include wraps normalized

/-- What a call puts in stands in the normal form, with a closing parenthesis in front of the new
arguments if there is to be one. -/
theorem put_mem :
    Edit.insert site.file site.place (closed ++ appended site.args arguments) ∈ normal
      ∧ ∀ e ∈ opened, e ∈ normal := by
  have put {offset : ℕ} (place : site.Place offset) :=
    filter_put laid stands framed some surrounded place
  cases wraps with
  | @generator a _ sole bare =>
    have forward := stands.value_nonempty laid (sole ▸ List.mem_singleton_self a)
    have place := framed.place_of_sole sole
    have parentheses : parenthesize site.file text.toList site.args
        = [.insert site.file a.value.span.start "(", .insert site.file site.place ")"] := by
      rw [sole, parenthesize, if_pos bare, place]
    rw [parentheses] at put
    refine ⟨?_, List.forall_mem_singleton.2 ?_⟩
    · have two := put site.place_spec
      have apart : a.value.span.start ≠ site.place := by omega
      simp only [List.filter_append, List.filter_cons, List.filter_nil, Edit.isAt_insert,
        decide_true, if_true, decide_eq_true_eq, apart, if_false] at two
      refine Edit.normalize_joins normalized two fun same => ?_
      -- new arguments begin with a comma
      have texts : ")" = appended site.args arguments := congrArg Edit.text same
      rw [appended_of_ne_nil (sole ▸ List.cons_ne_nil a []) some] at texts
      have first := congrArg (fun t => t.toList.head?) texts
      simp at first
    · have one := put (.front sole)
      have apart : site.place ≠ a.value.span.start := by omega
      simp only [List.filter_append, List.filter_cons, List.filter_nil, Edit.isAt_insert,
        decide_true, if_true, decide_eq_true_eq, apart, if_false] at one
      exact Edit.normalize_alone normalized one
  | nothing none =>
    have parentheses : parenthesize site.file text.toList site.args = [] := by
      refine List.eq_nil_iff_forall_not_mem.2 fun e he => ?_
      obtain ⟨a, sole, bare, -⟩ := mem_parenthesize he
      rw [none a sole some] at bare
      cases bare
    have one := put site.place_spec
    rw [parentheses] at one
    simp only [List.nil_append, List.filter_cons, List.filter_nil, Edit.isAt_insert,
      decide_true, if_true] at one
    refine ⟨?_, by simp⟩
    rw [String.empty_append]
    exact Edit.normalize_alone normalized one

end

/-! ## The order of the edits -/

/-- What stands in the normal form is elsewhere, the callee, or at a place where text is put in. -/
lemma normal_cases {text : String} {opened : List Edit} {closed : String} (framed : site.Framed)
    (wraps : Wraps text.toList site arguments opened closed)
    (surrounded : Surrounded site (ownEdits text ctx site arguments) es)
    (normalized : Edit.normalize es = .ok normal) (he : e ∈ normal) :
    site.Elsewhere e.span ∨ e.span = site.func.span
    ∨ (arguments ≠ [] ∧ e.span = .point site.place) ∨ ∃ o ∈ opened, e.span = o.span := by
  obtain ⟨e', he', -, same⟩ := Edit.normalize_place normalized he
  rw [same]
  obtain ⟨front, behind, rfl, others⟩ := surrounded
  have elsewhere {xs : List Edit} (sub : xs ⊆ front ++ behind) (he' : e' ∈ xs) :=
    others e' (sub he')
  rcases List.mem_append.1 he' with he' | he'
  · rcases List.mem_append.1 he' with he' | he'
    · exact .inl (elsewhere (List.subset_append_left ..) he')
    rcases List.mem_cons.1 he' with rfl | he'
    · exact .inr (.inl rfl)
    obtain ⟨some, parentheses | rfl⟩ := mem_argumentEdits he'
    · obtain ⟨a, sole, bare, is⟩ := mem_parenthesize parentheses
      cases wraps with
      | nothing none => exact absurd bare (by rw [none a sole some]; exact Bool.false_ne_true)
      | @generator b _ sole' =>
        obtain rfl : a = b := by simpa using sole.symm.trans sole'
        rcases is with rfl | rfl
        · exact .inr (.inr (.inr ⟨_, List.mem_singleton_self _, rfl⟩))
        · exact .inr (.inr (.inl ⟨some, by rw [framed.place_of_sole sole]; rfl⟩))
    · exact .inr (.inr (.inl ⟨some, rfl⟩))
  · exact .inl (elsewhere (List.subset_append_right ..) he')

/-- An element that none of the others comes before stands at the head. -/
lemma exists_eq_cons {α : Type} {R : α → α → Prop} {l : List α} {x : α} (h : l.Pairwise R)
    (hx : x ∈ l) (first : ∀ y ∈ l, ¬R y x) : ∃ rest, l = x :: rest := by
  obtain ⟨front, rest, rfl⟩ := List.append_of_mem hx
  cases front with
  | nil => exact ⟨rest, rfl⟩
  | cons y ys =>
    have before := (List.pairwise_append.1 h).2.2 y List.mem_cons_self x List.mem_cons_self
    exact absurd before (first y List.mem_cons_self)

/-- The edits behind a callee, in their order. -/
structure BehindCallee (site : CallSite) (arguments : List String) (opened : List Edit)
    (closed : String) (rest : List Edit) : Prop where
  order : rest.Pairwise fun a b => a.span.stop ≤ b.span.start ∧ a.span ≠ b.span
  forward : ∀ e ∈ rest, e.span.start ≤ e.span.stop
  cases : ∀ e ∈ rest, site.InArgument e.span ∨ site.span.stop ≤ e.span.start
    ∨ (arguments ≠ [] ∧ e.span = .point site.place) ∨ ∃ o ∈ opened, e.span = o.span
  opened : ∀ e ∈ opened, e ∈ rest
  inserted : arguments ≠ [] →
    .insert site.file site.place (closed ++ appended site.args arguments) ∈ rest

section

variable {text : String} {opened rest : List Edit} {closed : String} (laid : m.Laid)
  (stands : site.Stands m receiver) (framed : site.Framed)
  (wraps : Wraps text.toList site arguments opened closed)
include laid stands framed wraps

/-- What is put in front of the arguments stands inside them, at the beginning. -/
lemma opened_bounds {e : Edit} (he : e ∈ opened) : site.func.span.stop < e.span.stop
    ∧ e.span.start < site.place ∧ ∀ span, site.InArgument span → e.span.start < span.stop := by
  cases wraps with
  | nothing => nomatch he
  | @generator a given sole bare =>
    obtain rfl := List.mem_singleton.1 he
    have mem : a ∈ site.args := sole ▸ List.mem_singleton_self a
    have some := stands.value_nonempty laid mem
    have ends := stands.value_stop_le_place laid framed mem
    refine ⟨(framed.value a mem).1, some.trans_le ends, fun span inside => ?_⟩
    obtain ⟨b, hb, -, reaches, -⟩ := inside
    obtain rfl : b = a := by simpa [sole] using hb
    exact reaches

/-- In front of the place of the new arguments, what is put in front of the old ones comes first. -/
lemma BehindCallee.inFront (h : BehindCallee site arguments opened closed rest) :
    ∃ inside, rest.filter (fun e => decide (e.span.start < site.place)) = opened ++ inside
      ∧ ∀ e ∈ inside, site.InArgument e.span := by
  have bounds := stands.place_bounds laid framed
  have cases {e : Edit} (he : e ∈ rest.filter fun e => decide (e.span.start < site.place)) :
      site.InArgument e.span ∨ ∃ o ∈ opened, e.span = o.span := by
    obtain ⟨he, front⟩ := List.mem_filter.1 he
    rw [decide_eq_true_eq] at front
    rcases h.cases e he with inside | start | ⟨-, same⟩ | others
    · exact .inl inside
    · omega
    · rw [same] at front
      exact absurd front (Nat.lt_irrefl _)
    · exact .inr others
  have ordered := h.order.filter fun e => decide (e.span.start < site.place)
  cases shape : opened with
  | nil => exact ⟨_, rfl, fun e he => (cases he).resolve_right (by rw [shape]; exact nofun)⟩
  | cons o others =>
    obtain rfl : others = [] := by
      cases wraps with
      | generator => exact (List.cons.inj shape).2.symm
      | nothing => nomatch shape
    have mem : o ∈ opened := shape ▸ List.mem_cons_self
    obtain ⟨-, front, reaches⟩ := opened_bounds laid stands framed wraps mem
    obtain ⟨inside, is⟩ := exists_eq_cons ordered
      (List.mem_filter.2 ⟨h.opened o mem, decide_eq_true front⟩) fun e he before => by
        rcases cases he with inside | ⟨o', ho, same⟩
        · exact absurd (reaches e.span inside) (Nat.not_lt.2 before.1)
        · obtain rfl := List.mem_singleton.1 (shape ▸ ho)
          exact before.2 same
    refine ⟨inside, is, fun e he => ?_⟩
    rw [is] at ordered cases
    refine (cases (List.mem_cons_of_mem _ he)).resolve_right ?_
    rintro ⟨o', ho, same⟩
    obtain rfl := List.mem_singleton.1 (shape ▸ ho)
    exact ((List.pairwise_cons.1 ordered).1 e he).2 same.symm

/-- From the place of the new arguments on, they come first. -/
lemma BehindCallee.behind (h : BehindCallee site arguments opened closed rest) :
    ∃ beyond, rest.filter (fun e => !decide (e.span.start < site.place))
      = insertion site arguments closed ++ beyond
      ∧ ∀ e ∈ beyond, site.span.stop ≤ e.span.start := by
  have bounds := stands.place_bounds laid framed
  have cases {e : Edit} (he : e ∈ rest.filter fun e => !decide (e.span.start < site.place)) :
      site.span.stop ≤ e.span.start ∨ (arguments ≠ [] ∧ e.span = .point site.place) := by
    obtain ⟨he, behind⟩ := List.mem_filter.1 he
    rw [Bool.not_eq_true', decide_eq_false_iff_not, Nat.not_lt] at behind
    have runs := h.forward e he
    rcases h.cases e he with ⟨a, ha, -, -, stop⟩ | start | new | ⟨o, ho, same⟩
    · have ends := stands.value_stop_le_place laid framed ha
      omega
    · exact .inl start
    · exact .inr new
    · have front := (opened_bounds laid stands framed wraps ho).2.1
      rw [same] at behind
      omega
  by_cases none : arguments = []
  · rw [insertion, if_pos none]
    exact ⟨_, rfl, fun e he => (cases he).resolve_right fun new => new.1 none⟩
  · rw [insertion, if_neg none]
    have behind : (!decide (site.place < site.place)) = true := by simp
    have ordered := h.order.filter fun e => !decide (e.span.start < site.place)
    obtain ⟨beyond, is⟩ := exists_eq_cons ordered
      (List.mem_filter.2 ⟨h.inserted none, behind⟩) fun e he before => by
        rcases cases he with start | ⟨-, same⟩
        · have runs := h.forward e (List.mem_filter.1 he).1
          have ends : e.span.stop ≤ site.place := before.1
          omega
        · exact before.2 same
    refine ⟨beyond, is, fun e he => ?_⟩
    rw [is] at ordered cases
    refine (cases (List.mem_cons_of_mem _ he)).resolve_right ?_
    rintro ⟨-, same⟩
    exact ((List.pairwise_cons.1 ordered).1 e he).2 same.symm

end

/-- The edits of a file around a call: what is in front of it, its callee, what is put in front of
its arguments, what is changed inside their values, what is put behind them, and what is behind the
call. -/
structure Parts (ctx : CallContext) (site : CallSite) (arguments : List String)
    (edits ahead opened inside beyond : List Edit) (closed : String) : Prop where
  whole : edits = ahead ++ calleeEdit ctx site
    :: (opened ++ inside ++ (insertion site arguments closed ++ beyond))
  ahead : ∀ e ∈ ahead, e.span.stop ≤ site.func.span.start
  inside : ∀ e ∈ inside, site.InArgument e.span
  beyond : ∀ e ∈ beyond, site.span.stop ≤ e.span.start

section

variable {text : String} {opened : List Edit} {closed : String} (laid : m.Laid)
  (stands : site.Stands m receiver) (framed : site.Framed)
  (wraps : Wraps text.toList site arguments opened closed)
  (surrounded : Surrounded site (ownEdits text ctx site arguments) es)
include laid stands framed wraps surrounded

/-- What comes behind the callee in the normal form. -/
lemma behindCallee {ahead rest : List Edit}
    (normalized : Edit.normalize es = .ok (ahead ++ calleeEdit ctx site :: rest))
    (order : (ahead ++ calleeEdit ctx site :: rest).Pairwise fun a b =>
      a.span.stop ≤ b.span.start ∧ a.span ≠ b.span) :
    BehindCallee site arguments opened closed rest := by
  obtain ⟨-, restOrder, between⟩ := List.pairwise_append.1 order
  obtain ⟨first, later⟩ := List.pairwise_cons.1 restOrder
  have forward := (Edit.normalize_isNormal normalized).forward
  have some := stands.callee_nonempty laid
  have inRest {e : Edit} (he : e ∈ rest) : e ∈ ahead ++ calleeEdit ctx site :: rest :=
    List.mem_append_right _ (List.mem_cons_of_mem _ he)
  have notAhead {e : Edit} (he : e ∈ ahead ++ calleeEdit ctx site :: rest)
      (behind : site.func.span.stop < e.span.stop) : e ∈ rest := by
    rcases List.mem_append.1 he with he | he
    · have before : e.span.stop ≤ site.func.span.start :=
        (between e he _ List.mem_cons_self).1
      omega
    · rcases List.mem_cons.1 he with rfl | he
      · exact absurd behind (Nat.lt_irrefl _)
      · exact he
  have put (given : arguments ≠ []) :=
    put_mem laid stands framed given surrounded wraps normalized
  refine ⟨later, fun e he => forward e (inRest he), fun e he => ?_, fun e he => ?_,
    fun given => notAhead (put given).1 (stands.place_bounds laid framed).1⟩
  · have start : site.func.span.stop ≤ e.span.start := (first e he).1
    have runs := forward e (inRest he)
    rcases normal_cases framed wraps surrounded normalized (inRest he) with
      (stop | inside | beyond) | same | others
    · omega
    · exact .inl inside
    · exact .inr (.inl beyond)
    · exact absurd same.symm (first e he).2
    · exact .inr (.inr others)
  · have given : arguments ≠ [] := by
      cases wraps with
      | generator given => exact given
      | nothing => nomatch he
    exact notAhead ((put given).2 e he) (opened_bounds laid stands framed wraps he).1

/-- The normal form of the edits of a file, seen from a call. -/
theorem exists_parts (normalized : Edit.normalize es = .ok normal)
    (one : ∀ e ∈ normal, e.file = site.file) :
    ∃ ahead inside beyond, Parts ctx site arguments normal ahead opened inside beyond closed := by
  have isNormal := Edit.normalize_isNormal normalized
  have order := isNormal.inOrder one
  have callee : calleeEdit ctx site ∈ normal := by
    obtain ⟨front, behind, rfl, -⟩ := surrounded
    refine Edit.mem_of_normalize normalized ?_
      (Span.isEmpty_eq_false.2 (stands.callee_nonempty laid))
    exact List.mem_append_left _ (List.mem_append_right _ List.mem_cons_self)
  obtain ⟨ahead, rest, rfl⟩ := List.append_of_mem callee
  have behind := behindCallee laid stands framed wraps surrounded normalized order
  -- the edits behind the callee are cut where the new arguments are put
  have parts := eq_filter_append (p := fun e => decide (e.span.start < site.place)) behind.order
    fun x hx y hy before front => by
      have runs := behind.forward x hx
      rw [decide_eq_true_eq] at front ⊢
      omega
  obtain ⟨inside, front, inArgument⟩ := behind.inFront laid stands framed wraps
  obtain ⟨beyond, added, start⟩ := behind.behind laid stands framed wraps
  refine ⟨ahead, inside, beyond, ?_, fun e he => ?_, inArgument, start⟩
  · rw [parts, front, added]
  · exact ((List.pairwise_append.1 order).2.2 e he _ List.mem_cons_self).1

end

/-! ## The text -/

/-- The edits for some calls of a file can be carried out. -/
theorem edits_apply {text file member : String} {sites : List CallSite} {changed : CallChanges}
    (valid : (parse text).problems = [])
    (some : sites.Subperm (CallSite.ofModule file member (parse text).module))
    (ok : ofSites (parse text).module text sites ctx reads = .ok changed) :
    ∃ edits out, Edit.normalize changed.edits = .ok edits ∧ Edit.apply text edits = .ok out
      ∧ ∀ e ∈ edits, e.file = file := by
  have laid := parse_laid valid
  obtain ⟨forward, apart⟩ := edits_apart valid (inOrder_of_subperm laid some) ok
  obtain ⟨edits, normalized⟩ := Edit.normalize_ok apart forward
  have placed : ∀ site ∈ sites, site.file = file ∧ site.Placed text.toList := by
    intro site listed
    obtain ⟨inFile, receiver, stands⟩ := CallSite.ofModule_stands laid (some.subset listed)
    exact ⟨inFile, stands.placed⟩
  have fits : ∀ e ∈ edits, e.FitsIn file text.toList := by
    intro e he
    obtain ⟨given, mem, same⟩ := Edit.normalize_place normalized he
    have fits := ofSites_fits (parse_placed text) placed ok given mem
    exact ⟨⟨same.2 ▸ fits.start, same.2 ▸ fits.stop⟩, same.1.trans fits.file⟩
  obtain ⟨out, done⟩ := (Edit.normalize_isNormal normalized).apply_ok
    (fun e he => (fits e he).file) fun e he => (fits e he).toOnBoundaries
  exact ⟨edits, out, normalized, done, fun e he => (fits e he).file⟩

section

variable {text : String} {all callee inside : List Token} {opening closing : Token}
  (stands : site.Stands (parse text).module receiver) (framed : site.Framed)
  (tokens : CallTokens text site.mark site.func site.args all callee inside opening closing)
include stands framed tokens

omit stands in
/-- New arguments are put between the parentheses, unless a call without arguments stands in
parentheses of its own. -/
lemma place_le_closing_iff : site.place ≤ closing.span.start
    ↔ site.args ≠ [] ∨ closing.span.stop = site.span.stop := by
  have stop := tokens.closing_stop
  have within : closing.span.stop ≤ site.span.stop := tokens.within
  cases last : site.args.getLast? with
  | none =>
    have none := List.getLast?_eq_none_iff.1 last
    rw [CallSite.place, last, none, ne_self_iff_false, false_or]
    dsimp only
    omega
  | some b =>
    have mem := List.mem_of_getLast? last
    have inside := (tokens.value_between mem).2
    rw [← framed.stop b mem] at inside
    rw [CallSite.place, last]
    exact ⟨fun _ => .inl (List.ne_nil_of_mem mem), fun _ => inside⟩

lemma opening_stop_le_place (valid : (parse text).problems = []) :
    opening.span.stop ≤ site.place := by
  cases last : site.args.getLast? with
  | none =>
    have between := tokens.opening_stop_le
    have stop := tokens.closing_stop
    have within : closing.span.stop ≤ site.span.stop := tokens.within
    rw [CallSite.place, last]
    dsimp only
    omega
  | some b =>
    have mem := List.mem_of_getLast? last
    have start := (tokens.value_between mem).1
    have some := stands.value_nonempty (parse_laid valid) mem
    have ends := stands.value_stop_le_place (parse_laid valid) framed mem
    omega

/-- What is changed of the arguments lies between the parentheses, in front of the new ones. -/
lemma arguments_bounds (valid : (parse text).problems = []) {opened inner : List Edit}
    {closed : String} (wraps : Wraps text.toList site arguments opened closed)
    (inArgument : ∀ e ∈ inner, site.InArgument e.span) : ∀ e ∈ opened ++ inner,
      opening.span.stop ≤ e.span.start ∧ e.span.stop ≤ site.place := by
  have laid := parse_laid valid
  refine List.forall_mem_append.2 ⟨fun e he => ?_, fun e he => ?_⟩
  · cases wraps with
    | nothing => nomatch he
    | @generator a given sole bare =>
      obtain rfl := List.mem_singleton.1 he
      have mem : a ∈ site.args := sole ▸ List.mem_singleton_self a
      have some := stands.value_nonempty laid mem
      exact ⟨(tokens.value_between mem).1,
        some.le.trans (stands.value_stop_le_place laid framed mem)⟩
  · obtain ⟨a, ha, start, -, stop⟩ := inArgument e he
    exact ⟨(tokens.value_between ha).1.trans start,
      stop.le.trans (stands.value_stop_le_place laid framed ha)⟩

omit stands framed in
/-- What stands between a callee and the arguments ends with the opening parenthesis. -/
lemma slice_opening (cut : Text.Boundary text.toList site.func.span.stop) :
    Text.slice text.toList ⟨site.func.span.stop, opening.span.stop⟩
      = Text.slice text.toList ⟨site.func.span.stop, opening.span.start⟩ ++ ['('] := by
  have opens := (tokens.stream.placed.each opening tokens.opening_mem).span
  have symbol : Text.slice text.toList opening.span = ['('] :=
    tokens.stream.slice_symbol tokens.opening_mem tokens.opens
  rw [← Text.slice_append_slice cut opens.start opens.stop tokens.func_stop_le opens.forward]
  exact congrArg _ symbol

/-- What becomes of the text from the end of a callee on. -/
lemma becomes_arguments (valid : (parse text).problems = []) {opened inner beyond : List Edit}
    {closed : String} {out : List Char} (wraps : Wraps text.toList site arguments opened closed)
    (inArgument : ∀ e ∈ inner, site.InArgument e.span)
    (start : ∀ e ∈ beyond, site.span.stop ≤ e.span.start)
    (done : Edit.Becomes text.toList site.func.span.stop (Text.width text.toList)
      (opened ++ inner ++ (insertion site arguments closed ++ beyond)) out) :
    ∃ values behind, Edit.Becomes text.toList opening.span.stop site.place (opened ++ inner) values
      ∧ Edit.Becomes text.toList site.span.stop (Text.width text.toList) beyond behind
      ∧ out = Text.slice text.toList ⟨site.func.span.stop, opening.span.start⟩ ++ '(' :: values
        ++ (closed ++ appended site.args arguments).toList
        ++ Text.slice text.toList ⟨site.place, site.span.stop⟩ ++ behind := by
  have bounds := stands.place_bounds (parse_laid valid) framed
  have order := opening_stop_le_place stands framed tokens valid
  have opens := (tokens.stream.placed.each opening tokens.opening_mem).span
  have places := arguments_bounds stands framed tokens valid wraps inArgument
  have cut := place_boundary stands.placed
  have last : Text.Boundary text.toList site.span.stop := stands.placed.here.span.stop
  have beyondPlace : ∀ e ∈ beyond, site.place ≤ e.span.start :=
    fun e he => bounds.2.le.trans (start e he)
  have copied := slice_opening tokens done.first
  have behindOpening : ∀ e ∈ opened ++ inner ++ (insertion site arguments closed ++ beyond),
      opening.span.stop ≤ e.span.start := by
    refine List.forall_mem_append.2 ⟨fun e he => (places e he).1, List.forall_mem_append.2
      ⟨fun e he => ?_, fun e he => order.trans (beyondPlace e he)⟩⟩
    rw [mem_insertion he]
    exact order
  obtain ⟨out', further, rfl⟩ := done.skip opens.stop (tokens.func_stop_le.trans opens.forward)
    opens.stop.le_width behindOpening
  obtain ⟨values, rest, made, later, rfl⟩ : ∃ values rest,
      Edit.Becomes text.toList opening.span.stop site.place (opened ++ inner) values
      ∧ Edit.Becomes text.toList site.place (Text.width text.toList) beyond rest
      ∧ out' = values ++ (closed ++ appended site.args arguments).toList ++ rest := by
    by_cases none : arguments = []
    · obtain rfl : closed = "" := by
        cases wraps with
        | generator given => exact absurd none given
        | nothing => rfl
      rw [insertion, if_pos none, List.nil_append] at further
      obtain ⟨values, rest, made, later, rfl⟩ := further.divide cut order cut.le_width
        (fun e he => (places e he).2) beyondPlace
      refine ⟨values, rest, made, later, ?_⟩
      rw [none]
      exact (congrArg (· ++ rest) (List.append_nil values)).symm
    · rw [insertion, if_neg none] at further
      exact further.split
  obtain ⟨behind, after, rfl⟩ := later.skip last bounds.2.le last.le_width start
  refine ⟨values, behind, made, after, ?_⟩
  rw [copied]
  simp only [List.append_assoc, List.cons_append, List.nil_append]

end

/-- What has become of one of the calls of a file in a text that edits were carried out in.  Its
callee is the function's name, its arguments stand where they stood, changed in their values only, and
behind the last of them stand new ones, one for each new parameter, which are attributes of what
stands for the receiver.  They stand in front of the closing parenthesis, unless there are no other
arguments and the call has parentheses around it. -/
inductive Landed (text : String) (ctx : CallContext) (reads : List ReplacedRead)
    (sites : List CallSite) (changed : CallChanges) (site : CallSite) (edits : List Edit)
    (out : String) : Prop
  | intro {all callee inside : List Token} {opening closing : Token} {value : String}
    {arguments : List String} {ahead opened inner beyond : List Edit} {closed : String}
    {front values behind : List Char}
    (tokens : CallTokens text site.mark site.func site.args all callee inside opening closing)
    (isValue : HasValue (parse text).module text ctx reads sites changed site value)
    (planned : arguments = (newArguments ctx site.args value).map (·.text))
    (wraps : Wraps text.toList site arguments opened closed)
    (parts : Parts ctx site arguments edits ahead opened inner beyond closed)
    (inFront : Edit.Becomes text.toList 0 site.func.span.start ahead front)
    (between : Edit.Becomes text.toList opening.span.stop site.place (opened ++ inner) values)
    (after : Edit.Becomes text.toList site.span.stop (Text.width text.toList) beyond behind)
    (whole : out.toList = front ++ ctx.functionName.toList
      ++ Text.slice text.toList ⟨site.func.span.stop, opening.span.start⟩ ++ '(' :: values
      ++ (closed ++ appended site.args arguments).toList
      ++ Text.slice text.toList ⟨site.place, site.span.stop⟩ ++ behind)
    (place : site.place ≤ closing.span.start
      ↔ site.args ≠ [] ∨ closing.span.stop = site.span.stop)

/-- A call lands as its edits say. -/
theorem landed {text value : String} {reads : List ReplacedRead} {sites : List CallSite}
    {changed : CallChanges} {edits : List Edit} {out : String}
    (valid : (parse text).problems = []) (stands : site.Stands (parse text).module receiver)
    (isValue : HasValue (parse text).module text ctx reads sites changed site value)
    (surrounded : Surrounded site
      (ownEdits text ctx site ((newArguments ctx site.args value).map (·.text))) changed.edits)
    (normalized : Edit.normalize changed.edits = .ok edits) (one : ∀ e ∈ edits, e.file = site.file)
    (done : Edit.apply text edits = .ok out) :
    Landed text ctx reads sites changed site edits out := by
  have framed := stands.framed valid
  obtain ⟨all, callee, inside, opening, closing, tokens⟩ :=
    call_tokens valid stands.mem_reachableExprs
  obtain ⟨opened, closed, wraps⟩ := exists_wraps text.toList site
    ((newArguments ctx site.args value).map (·.text))
  obtain ⟨ahead, inner, beyond, parts⟩ :=
    exists_parts (parse_laid valid) stands framed wraps surrounded normalized one
  have whole := (Edit.normalize_isNormal normalized).becomes one done
  rw [parts.whole] at whole
  obtain ⟨front, rest, inFront, later, made⟩ := whole.split
  obtain ⟨values, behind, between, after, rfl⟩ :=
    becomes_arguments stands framed tokens valid wraps parts.inside parts.beyond later
  refine .intro tokens isValue rfl wraps parts inFront between after ?_
    (place_le_closing_iff framed tokens)
  rw [made]
  simp only [List.append_assoc]
  rfl

/-- The calls of a member in a file can be changed all at once, and then each one that is in no other
call's receiver has become a call of the function with its arguments in their order and the new ones
behind them. -/
theorem arguments_land (file member text : String) (ctx : CallContext) (reads : List ReplacedRead)
    {changed : CallChanges} (valid : (parse text).problems = [])
    (ok : ofSites (parse text).module text (CallSite.ofModule file member (parse text).module) ctx
      reads = .ok changed) :
    ∃ edits out, Edit.normalize changed.edits = .ok edits ∧ Edit.apply text edits = .ok out
      ∧ ∀ site ∈ CallSite.ofModule file member (parse text).module,
        site.Outermost (CallSite.ofModule file member (parse text).module) →
        Landed text ctx reads (CallSite.ofModule file member (parse text).module) changed site edits
          out := by
  obtain ⟨edits, out, normalized, done, one⟩ := edits_apply valid (.refl _) ok
  refine ⟨edits, out, normalized, done, fun site listed outermost => ?_⟩
  obtain ⟨inFile, receiver, stands⟩ := CallSite.ofModule_stands (parse_laid valid) listed
  obtain ⟨value, isValue, surrounded⟩ := surrounded_of_ofSites valid ok listed outermost
  exact landed valid stands isValue surrounded normalized
    (fun e he => (one e he).trans inFile.symm) done

/-- The text of a file in which the calls of a member were changed. -/
def textAfter (file member text : String) (ctx : CallContext) (reads : List ReplacedRead) :
    Option String := do
  let m := (parse text).module
  let changes ← (ofSites m text (CallSite.ofModule file member m) ctx reads).toOption
  let edits ← (Edit.normalize changes.edits).toOption
  (Edit.apply text edits).toOption

set_option maxRecDepth 100000 in
/-- A call with an argument. -/
theorem argument_behind_another :
    let text := "s.area(1)\n"
    let ctx : CallContext := ⟨"Shape", "area", [⟨"x", "x", []⟩], .positional, "receiver"⟩
    let sites := CallSite.ofModule "main.py" "area" (parse text).module
    ∃ changed edits out, ofSites (parse text).module text sites ctx [] = .ok changed
      ∧ Edit.normalize changed.edits = .ok edits ∧ Edit.apply text edits = .ok out
      ∧ ∃ site ∈ sites, site.Outermost sites ∧ Landed text ctx [] sites changed site edits out := by
  intro text ctx sites
  have valid : (parse text).problems = [] := by
    refine List.isEmpty_iff.1 ?_
    unfold text
    simp only [parseComputed.eq]
    decide +kernel
  have single : sites.length = 1 := by
    unfold sites text
    simp only [parseComputed.eq, sitesComputed.eq]
    decide +kernel
  obtain ⟨site, one⟩ := List.length_eq_one_iff.1 single
  have listed : site ∈ sites := one ▸ List.mem_singleton_self site
  have outermost : site.Outermost sites := CallSite.outermost_of_last valid fun other ho => by
    have same : other ∈ [site] := one ▸ ho
    rw [List.mem_singleton.1 same]
  obtain ⟨changed, ok⟩ :
      ∃ changed, ofSites (parse text).module text sites ctx [] = .ok changed := by
    refine exists_of_isOk ?_
    unfold sites text ctx
    simp only [parseComputed.eq, sitesComputed.eq, ofSitesComputed.eq]
    decide +kernel
  obtain ⟨edits, out, normalized, done, lands⟩ :=
    arguments_land "main.py" "area" text ctx [] valid ok
  exact ⟨changed, edits, out, ok, normalized, done, site, listed, outermost,
    lands site listed outermost⟩

set_option maxRecDepth 100000 in
/-- The argument stands behind the closing parenthesis of the call. -/
theorem arguments_behind_call :
    let text := "(s.area())\n"
    let ctx : CallContext := ⟨"Shape", "area", [⟨"x", "x", []⟩], .positional, "receiver"⟩
    (parse text).problems.isEmpty = true
      ∧ textAfter "main.py" "area" text ctx [] = some "(area()s.x)\n" := by
  intro text ctx
  unfold text ctx
  constructor
  · simp only [parseComputed.eq]
    decide +kernel
  · simp only [textAfter, parseComputed.eq, sitesComputed.eq, ofSitesComputed.eq,
      Edit.normalize_eq_sorted, Edit.applyComputed.eq]
    decide +kernel

/-! ## Generators -/

/-- Whether a generator is put in parentheses: not if it has parentheses of its own, nor if its
element begins with a parenthesis. -/
inductive IsWrapped (source : List Char) (mark : Mark) (element : Expr) (value : Option Expr)
    (clauses : List (Generator Expr)) (ts : List Token) : Bool → Prop
  | own (has : Parenthesized source (.comprehension mark .generator element value clauses) ts) :
    IsWrapped source mark element value clauses ts false
  | bare (spelled : Spelled source (Expr.clauseSegments element value clauses) ts) :
    IsWrapped source mark element value clauses ts
      ((Text.dropBytes source element.span.start).head? != some '(')

/-- What has become of a call whose sole argument is a generator: the generator stands in
parentheses of its own if it was wrapped, and behind it stand the new arguments. -/
inductive GeneratorLanded (text : String) (ctx : CallContext) (reads : List ReplacedRead)
    (sites : List CallSite) (changed : CallChanges) (site : CallSite) (mark : Mark) (element : Expr)
    (value : Option Expr) (clauses : List (Generator Expr)) (edits : List Edit) (out : String) : Prop
  | intro {all callee inside ts : List Token} {opening closing : Token} {received : String}
    {arguments : List String} {wrapped : Bool} {ahead inner beyond : List Edit}
    {front generator behind : List Char}
    (tokens : CallTokens text site.mark site.func site.args all callee inside opening closing)
    (within : ts <:+: inside)
    (isWrapped : IsWrapped text.toList mark element value clauses ts wrapped)
    (isValue : HasValue (parse text).module text ctx reads sites changed site received)
    (planned : arguments = (newArguments ctx site.args received).map (·.text))
    (parts : Parts ctx site arguments edits ahead
      (if wrapped then [.insert site.file mark.span.start "("] else []) inner beyond
      (if wrapped then ")" else ""))
    (inFront : Edit.Becomes text.toList 0 site.func.span.start ahead front)
    (between : Edit.Becomes text.toList mark.span.start mark.span.stop inner generator)
    (after : Edit.Becomes text.toList site.span.stop (Text.width text.toList) beyond behind)
    (whole : out.toList = front ++ ctx.functionName.toList
      ++ Text.slice text.toList ⟨site.func.span.stop, opening.span.start⟩
      ++ '(' :: Text.slice text.toList ⟨opening.span.stop, mark.span.start⟩
      ++ (if wrapped then '(' :: generator ++ [')'] else generator)
      ++ (", " ++ ", ".intercalate arguments).toList
      ++ Text.slice text.toList ⟨mark.span.stop, site.span.stop⟩ ++ behind)

/-- Whether a generator is wrapped is told by the first character of its text. -/
lemma isWrapped_of_spelled {text : String} {all ts : List Token} {p : Position} {mark : Mark}
    {element : Expr} {value : Option Expr} {clauses : List (Generator Expr)}
    (h : Spelled text.toList [.part p (.comprehension mark .generator element value clauses)] ts)
    (stream : Stream text all) (within : ts <:+: all) :
    IsWrapped text.toList mark element value clauses ts
      (isBareGenerator text.toList (.comprehension mark .generator element value clauses)) := by
  cases h with
  | leaf here _ => nomatch here
  | @bare _ _ _ ts _ _ covers inside rest =>
    rw [rest.eq_nil, List.append_nil]
    change Spelled text.toList (Expr.clauseSegments element value clauses) ts at inside
    have same : element.span.start = mark.span.start := by
      obtain ⟨own, behind, rfl, first, -⟩ := inside.uncons
      obtain ⟨t, is, starts⟩ := first.covers_part.start
      obtain ⟨t', is', starts'⟩ := covers.start
      rw [List.head?_append, is] at is'
      obtain rfl := Option.some.inj is'
      exact starts.symm.trans starts'
    have wrapped : IsWrapped text.toList mark element value clauses ts _ := .bare inside
    rwa [same] at wrapped
  | @paren _ _ d _ opening closing inner _ opens closes widened inside rest =>
    rw [rest.eq_nil] at within ⊢
    have own : Parenthesized text.toList (.comprehension mark .generator element value clauses)
        (opening :: inner ++ [closing]) :=
      ⟨opening, closing, inner, d, rfl, opens, closes, widened, inside⟩
    have begins : (Text.dropBytes text.toList mark.span.start).head? = some '(' :=
      own.begins stream within
    have kept : isBareGenerator text.toList (.comprehension mark .generator element value clauses)
        = false := by
      rw [isBareGenerator, begins]
      rfl
    rw [kept]
    exact .own own

/-- Where there are new parameters, there are new arguments. -/
lemma newArguments_ne_nil {args : List (Arg Expr)} {written : String} (planned : ctx.plan ≠ [])
    (new : arguments = (newArguments ctx args written).map (·.text)) : arguments ≠ [] := by
  rw [new, newArguments, List.map_map]
  exact fun none => planned (List.map_eq_nil_iff.1 none)

/-- Where a call landed whose sole argument is a generator, the generator was wrapped if it was
taken for one without parentheses. -/
theorem Landed.generator {text out : String} {reads : List ReplacedRead} {sites : List CallSite}
    {changed : CallChanges} {edits : List Edit} {a : Arg Expr} {mark : Mark}
    {element : Expr} {value : Option Expr} {clauses : List (Generator Expr)}
    (h : Landed text ctx reads sites changed site edits out) (valid : (parse text).problems = [])
    (stands : site.Stands (parse text).module receiver) (planned : ctx.plan ≠ [])
    (sole : site.args = [a])
    (isGenerator : a.value = .comprehension mark .generator element value clauses) :
    GeneratorLanded text ctx reads sites changed site mark element value clauses edits out := by
  have framed := stands.framed valid
  have mem : a ∈ site.args := sole ▸ List.mem_singleton_self a
  have place := framed.place_of_sole sole
  have forward := stands.value_nonempty (parse_laid valid) mem
  have placed := stands.placed.child (List.mem_cons_of_mem _ (List.mem_map_of_mem mem))
  rw [isGenerator] at place forward placed
  obtain ⟨tokens, isValue, new, wraps, parts, inFront, between, after, whole, -⟩ := h
  obtain ⟨p, ts, within, spelled⟩ := tokens.value_spelled mem
  have start := (tokens.value_between mem).1
  rw [isGenerator] at spelled start
  have isWrapped := isWrapped_of_spelled spelled tokens.stream (within.trans tokens.inside_infix)
  have given := newArguments_ne_nil planned new
  rw [place] at between whole
  rw [appended_of_ne_nil (List.ne_nil_of_mem mem) given] at whole
  cases wraps with
  | @generator b _ sole' bare =>
    obtain rfl : b = a := by simpa using sole'.symm.trans sole
    rw [isGenerator] at bare between parts
    rw [bare] at isWrapped
    obtain ⟨generator, changed, rfl⟩ := between.uncons
    have opens : "(".toList = ['('] := by decide
    have closes : ")".toList = [')'] := by decide
    refine .intro tokens within isWrapped isValue new parts inFront changed after ?_
    change out.toList = _ ++ _ ++ _ ++ '(' :: (_ ++ "(".toList ++ generator) ++ _ ++ _ ++ _ at whole
    rw [whole, String.toList_append, opens, closes]
    simp only [List.append_assoc, List.cons_append, List.nil_append, if_true]
    rfl
  | nothing none =>
    have kept := none a sole given
    rw [isGenerator] at kept
    rw [kept] at isWrapped
    obtain ⟨generator, changed, rfl⟩ := between.skip
      placed.here.span.start start forward.le fun e he => by
        obtain ⟨b, hb, within, -⟩ := parts.inside e he
        obtain rfl : b = a := by simpa [sole] using hb
        rwa [isGenerator] at within
    refine .intro tokens within isWrapped isValue new parts inFront changed after ?_
    rw [whole, String.empty_append]
    simp only [List.append_assoc, List.cons_append]
    rfl

/-- Beside new arguments, a sole argument that is a generator is put in parentheses, unless it has
parentheses of its own or its element begins with one. -/
theorem generator_wrapped (file member text : String) (ctx : CallContext)
    (reads : List ReplacedRead) {changed : CallChanges} (valid : (parse text).problems = [])
    (ok : ofSites (parse text).module text (CallSite.ofModule file member (parse text).module) ctx
      reads = .ok changed) (planned : ctx.plan ≠ []) :
    ∃ edits out, Edit.normalize changed.edits = .ok edits ∧ Edit.apply text edits = .ok out
      ∧ ∀ site ∈ CallSite.ofModule file member (parse text).module,
        site.Outermost (CallSite.ofModule file member (parse text).module) →
        ∀ a mark element value clauses, site.args = [a] →
          a.value = .comprehension mark .generator element value clauses →
          GeneratorLanded text ctx reads (CallSite.ofModule file member (parse text).module) changed
            site mark element value clauses edits out := by
  obtain ⟨edits, out, normalized, done, one⟩ := edits_apply valid (.refl _) ok
  refine ⟨edits, out, normalized, done, fun site listed outermost a mark element value clauses sole
    isGenerator => ?_⟩
  obtain ⟨inFile, receiver, stands⟩ := CallSite.ofModule_stands (parse_laid valid) listed
  obtain ⟨_, isValue, surrounded⟩ := surrounded_of_ofSites valid ok listed outermost
  have landed := landed valid stands isValue surrounded normalized
    (fun e he => (one e he).trans inFile.symm) done
  exact landed.generator valid stands planned sole isGenerator

lemma exists_of_isBareGenerator {source : List Char} {e : Expr}
    (h : isBareGenerator source e = true) :
    ∃ mark element value clauses, e = .comprehension mark .generator element value clauses := by
  unfold isBareGenerator at h
  split at h
  · exact ⟨_, _, _, _, rfl⟩
  · nomatch h

set_option maxRecDepth 100000 in
/-- A generator whose element is a name. -/
theorem generator_of_names :
    let text := "s.area(x for x in y)\n"
    let ctx : CallContext := ⟨"Shape", "area", [⟨"x", "x", []⟩], .positional, "receiver"⟩
    let sites := CallSite.ofModule "main.py" "area" (parse text).module
    ∃ changed edits out, ofSites (parse text).module text sites ctx [] = .ok changed
      ∧ Edit.normalize changed.edits = .ok edits ∧ Edit.apply text edits = .ok out
      ∧ ∃ site ∈ sites, site.Outermost sites ∧ ∃ mark element value clauses,
        GeneratorLanded text ctx [] sites changed site mark element value clauses edits out := by
  intro text ctx sites
  have valid : (parse text).problems = [] := by
    refine List.isEmpty_iff.1 ?_
    unfold text
    simp only [parseComputed.eq]
    decide +kernel
  have single : sites.map (·.args.map (isBareGenerator text.toList ·.value)) = [[true]] := by
    unfold sites text
    simp only [parseComputed.eq, sitesComputed.eq]
    decide +kernel
  obtain ⟨site, one, sole⟩ := List.map_eq_singleton_iff.1 single
  obtain ⟨a, sole, bare⟩ := List.map_eq_singleton_iff.1 sole
  obtain ⟨mark, element, value, clauses, isGenerator⟩ := exists_of_isBareGenerator bare
  have listed : site ∈ sites := one ▸ List.mem_singleton_self site
  have outermost : site.Outermost sites := CallSite.outermost_of_last valid fun other ho => by
    have same : other ∈ [site] := one ▸ ho
    rw [List.mem_singleton.1 same]
  obtain ⟨changed, ok⟩ :
      ∃ changed, ofSites (parse text).module text sites ctx [] = .ok changed := by
    refine exists_of_isOk ?_
    unfold sites text ctx
    simp only [parseComputed.eq, sitesComputed.eq, ofSitesComputed.eq]
    decide +kernel
  obtain ⟨edits, out, normalized, done, lands⟩ :=
    generator_wrapped "main.py" "area" text ctx [] valid ok (List.cons_ne_nil _ _)
  exact ⟨changed, edits, out, ok, normalized, done, site, listed, outermost, mark, element, value,
    clauses, lands site listed outermost a mark element value clauses sole isGenerator⟩

set_option maxRecDepth 100000 in
/-- A generator whose element begins with a parenthesis is taken for one that has its own. -/
theorem generator_beside_argument :
    let text := "s.area((x) for x in y)\n"
    let ctx : CallContext := ⟨"Shape", "area", [⟨"x", "x", []⟩], .positional, "receiver"⟩
    (parse text).problems.isEmpty = true
      ∧ textAfter "main.py" "area" text ctx [] = some "area((x) for x in y, s.x)\n" := by
  intro text ctx
  unfold text ctx
  constructor
  · simp only [parseComputed.eq]
    decide +kernel
  · simp only [textAfter, parseComputed.eq, sitesComputed.eq, ofSitesComputed.eq,
      Edit.normalize_eq_sorted, Edit.applyComputed.eq]
    decide +kernel

end CallChanges

end MethodLift
