import RecordStore.Number.Binary64

/-!
The shortest decimal of a binary floating-point number. Of the decimals that round back to the
number, those with fewest digits are kept, and of these the one nearest to it. All comparisons are
made on natural numbers.
-/
namespace RecordStore.Shortest

-- Powers are those of the core library, whatever other instances are in scope.
attribute [local instance (high)] instPowNat

/-- A positive decimal: `digits` times ten to the `power`. -/
structure Decimal where
  digits : Nat
  power : Int
  deriving DecidableEq, Repr

def digitCount (n : Nat) : Nat := (Nat.toDigits 10 n).length

def decimalExponent (num den : Nat) : Int :=
  if den ≤ num then digitCount (num / den)
  else 1 - (digitCount ((den + num - 1) / num - 1) : Int)

/-- The numbers that round to one number lie between two ratios over a common denominator; the
ends belong to them where `closed` holds. -/
structure Interval where
  low : Nat
  value : Nat
  high : Nat
  den : Nat
  closed : Bool

/-- What rounds to a positive finite number. Below a power of two the neighbours are closer. -/
def interval (x : Binary64) : Interval :=
  let m := 4 * x.significand
  let below := if x.fraction.val = 0 ∧ 1 < x.exponent.val then 1 else 2
  let (unit, den) := scaleRatio 1 4 x.scale
  ⟨(m - below) * unit, m * unit, (m + 2) * unit, den, x.significand % 2 == 0⟩

def Interval.contains (i : Interval) (num den : Nat) : Bool :=
  if i.closed then i.low * den ≤ num * i.den && num * i.den ≤ i.high * den
  else i.low * den < num * i.den && num * i.den < i.high * den

/-- The multiple of ten to the `power` in the interval that lies nearest to the value, if any. -/
def Interval.nearest? (i : Interval) (power : Int) : Option Nat :=
  let (un, ud) := if 0 ≤ power then (10 ^ power.toNat, 1) else (1, 10 ^ (-power).toNat)
  let below := (i.value * ud) / (i.den * un)
  let above := below + 1
  let toBelow := i.value * ud - below * un * i.den
  let toAbove := above * un * i.den - i.value * ud
  match i.contains (below * un) ud, i.contains (above * un) ud with
  | true, true =>
    if toBelow < toAbove then some below
    else if toAbove < toBelow then some above
    else some (if below % 2 = 0 then below else above)
  | true, false => some below
  | false, true => some above
  | false, false => none

def Decimal.strip (d : Decimal) : Decimal :=
  if h : d.digits ≠ 0 ∧ d.digits % 10 = 0 then Decimal.strip ⟨d.digits / 10, d.power + 1⟩ else d
termination_by d.digits
decreasing_by omega

def ofBinary64 (x : Binary64) : Decimal :=
  let i := interval x
  let e := decimalExponent i.value i.den
  let grid (n : Nat) : Option Decimal :=
    (i.nearest? (e - (n + 1 : Nat))).map fun d => ⟨d, e - (n + 1 : Nat)⟩
  (((List.range 17).findSome? grid).getD ⟨0, 0⟩).strip

/-- How a decimal is laid out: between the two bounds on its exponent it is positional, elsewhere
it has one digit before the point and an exponent. -/
structure Layout where
  positionalAbove : Int
  positionalUpTo : Int
  wholeSuffix : String
  exponentMark : String
  exponentPlus : String

def Decimal.render (layout : Layout) (d : Decimal) : String :=
  let ds := Nat.toDigits 10 d.digits
  let n : Int := ds.length
  let e := n + d.power
  if layout.positionalAbove < e ∧ e ≤ layout.positionalUpTo then
    if e ≤ 0 then "0." ++ String.ofList (List.replicate (-e).toNat '0' ++ ds)
    else if n ≤ e then
      String.ofList (ds ++ List.replicate (e - n).toNat '0') ++ layout.wholeSuffix
    else String.ofList (ds.take e.toNat) ++ "." ++ String.ofList (ds.drop e.toNat)
  else
    let rest := ds.drop 1
    let tail := if rest.isEmpty then "" else "." ++ String.ofList rest
    let sign := if e - 1 < 0 then "-" else layout.exponentPlus
    String.ofList (ds.take 1) ++ tail ++ layout.exponentMark ++ sign ++ toString (e - 1).natAbs

end RecordStore.Shortest
