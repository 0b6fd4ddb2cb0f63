import MethodLift.Decimal.Binary64

/-!
# The shortest decimal text of a binary number

A binary number is written with the fewest digits that read back as it.  The decimal numbers that
read back as it form an interval around it.  For one digit, two digits and so on, its two neighbours
on the grid of decimal numbers with that many digits are tried; the first grid with a neighbour in
the interval wins, and of two neighbours in it the nearer one.  The text is positional whatever the
size of the number.
-/

namespace MethodLift.Decimal

/-- The decimal exponent of the leading digit of a quotient, plus one: the least `p` with
`num / den < 10 ^ p`, looked for from `p` downwards in at most `steps` steps. -/
def leadingFrom (num den : Nat) (p : Int) : Nat → Int
  | 0 => p
  | steps + 1 =>
    let isSmaller :=
      if 0 ≤ p - 1 then num < den * tenTo (p - 1).toNat else num * tenTo (1 - p).toNat < den
    if isSmaller then leadingFrom num den (p - 1) steps else p

/-- The least `p` with `m · 2 ^ q < 10 ^ p`, for a positive mantissa. -/
def leading (m : Nat) (q : Int) : Int :=
  let num := m * twoTo q.toNat
  let den := twoTo (-q).toNat
  let start := if num < den then 0 else Binary64.digitCount (num / den)
  leadingFrom num den start 400

/-- A multiple of `10 ^ grid` that reads back as `m · 2 ^ q`: one of the two neighbours on that
grid, if one does.  Everything is counted in a unit that divides the grid and a quarter of the
distance between binary numbers. -/
def onGrid? (m : Nat) (q grid : Int) : Option Nat :=
  let twos := (2 - q).toNat
  let tens := (-grid).toNat
  let quarter := twoTo (q - 2 + twos).toNat * tenTo tens
  let step := tenTo (grid + tens).toNat * twoTo twos
  let value := 4 * m * quarter
  let isFirstOfItsSize := m == twoTo (Binary64.mantissaBits - 1) && q > Binary64.leastExponent
  let low := value - (if isFirstOfItsSize then 1 else 2) * quarter
  let high := value + 2 * quarter
  let readsBack (n : Nat) : Bool :=
    if m % 2 == 0 then low ≤ n * step && n * step ≤ high else low < n * step && n * step < high
  let below := value / step
  let above := below + 1
  if readsBack below && (!readsBack above || value - below * step < above * step - value) then
    some below
  else if readsBack above then some above
  else none

/-- The digits that 64 bits can need. -/
def mostDigits : Nat := 17

/-- The shortest decimal number that reads back as `m · 2 ^ q`. -/
def shortest (isNegative : Bool) (m : Nat) (q : Int) : Decimal :=
  if m == 0 then ⟨isNegative, 0, 0⟩
  else
    let p := leading m q
    ((List.range mostDigits).findSome? fun (more : Nat) =>
      let grid := p - 1 - more
      (onGrid? m q grid).map fun n => (⟨isNegative, n, grid⟩ : Decimal)).getD ⟨isNegative, m, 0⟩

/-- The digits of a decimal number in their places: without an exponent, and with a point only if
something follows it. -/
def positional (d : Decimal) : String :=
  let digits := Nat.toDigits 10 d.coefficient
  let text :=
    if 0 ≤ d.exponent then digits ++ List.replicate d.exponent.toNat '0'
    else
      let places := (-d.exponent).toNat
      let padded := List.replicate (places + 1 - digits.length) '0' ++ digits
      let whole := padded.take (padded.length - places)
      let fraction := (padded.drop (padded.length - places)).reverse.dropWhile (· == '0')
      if fraction.isEmpty then whole else whole ++ '.' :: fraction.reverse
  (if d.isNegative then "-" else "") ++ String.ofList text

end MethodLift.Decimal

namespace MethodLift.Binary64

/-- The text of a number: positional, with as few digits as read back. -/
def text : Binary64 → String
  | finite s m q =>
    let d := Decimal.shortest s m q
    Decimal.positional (if m == 0 then ⟨s, 0, 0⟩ else d)
  | infinity s => if s then "-inf" else "inf"
  | nan => "NaN"

/-- The text of a number with a point in it, if it is finite. -/
def textWithPoint : Binary64 → String
  | finite s m q =>
    let plain := text (finite s m q)
    if plain.toList.contains '.' then plain else plain ++ ".0"
  | other => text other

end MethodLift.Binary64
