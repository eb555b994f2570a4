/-!
Binary floating-point numbers as plain data. A number is its three fields, so equality of numbers
is equality of words, and every operation is exact arithmetic on natural numbers followed by one
rounding to the nearest representable number, a half going to the even significand.
-/
namespace RecordStore

-- Powers are those of the core library, whatever other instances are in scope.
attribute [local instance (high)] instPowNat

/-- A binary64 word: sign, biased exponent and fraction. -/
structure Binary64 where
  negative : Bool
  exponent : Fin 2048
  fraction : Fin (2 ^ (52 : Nat))
  deriving DecidableEq, Repr

/-- How many significant bits a binary format keeps and which powers of two may scale them. -/
structure Precision where
  bits : Nat
  minScale : Int
  maxScale : Int
  deriving DecidableEq, Repr

namespace Precision

def double : Precision := ⟨53, -1074, 971⟩

def single : Precision := ⟨24, -149, 104⟩

end Precision

def roundDiv (num den : Nat) : Nat :=
  let q := num / den
  let r := num % den
  if 2 * r < den then q
  else if den < 2 * r then q + 1
  else if q % 2 = 0 then q else q + 1

def scaleRatio (num den : Nat) (scale : Int) : Nat × Nat :=
  if 0 ≤ scale then (num * 2 ^ scale.toNat, den) else (num, den * 2 ^ (-scale).toNat)

def floorLog2 (num den : Nat) : Int :=
  let l := (num.log2 : Int) - den.log2
  let (n, d) := scaleRatio num den (-l)
  if n < d then l - 1 else l

def Precision.round (p : Precision) (num den : Nat) : Option (Nat × Int) :=
  if num = 0 then some (0, p.minScale) else
  let scale := max (floorLog2 num den - (p.bits - 1 : Nat)) p.minScale
  let (n, d) := scaleRatio num den (-scale)
  let m := roundDiv n d
  let (m, scale) := if m = 2 ^ p.bits then (m / 2, scale + 1) else (m, scale)
  if p.maxScale < scale then none else some (m, scale)

namespace Binary64

def zero (negative : Bool) : Binary64 := ⟨negative, 0, 0⟩

def infinity (negative : Bool) : Binary64 := ⟨negative, 2047, 0⟩

def nan : Binary64 := ⟨false, 2047, Fin.ofNat (2 ^ (52 : Nat)) (2 ^ (51 : Nat))⟩

def isFinite (x : Binary64) : Bool := x.exponent.val != 2047

def isNaN (x : Binary64) : Bool := x.exponent.val == 2047 && x.fraction.val != 0

def isZero (x : Binary64) : Bool := x.exponent.val == 0 && x.fraction.val == 0

def significand (x : Binary64) : Nat :=
  if x.exponent.val = 0 then x.fraction.val else 2 ^ (52 : Nat) + x.fraction.val

def scale (x : Binary64) : Int := (max x.exponent.val 1 : Nat) - 1075

def magnitude (x : Binary64) : Nat × Nat := scaleRatio x.significand 1 x.scale

def ofScaled (negative : Bool) (m : Nat) (scale : Int) : Binary64 :=
  if m = 0 then zero negative else
  let shift := min (52 - (m.log2 : Int)) (scale + 1074)
  let m := m * 2 ^ shift.toNat
  let scale := scale - shift
  if m < 2 ^ (52 : Nat) then ⟨negative, 0, Fin.ofNat _ m⟩
  else ⟨negative, Fin.ofNat _ (scale + 1075).toNat, Fin.ofNat _ (m - 2 ^ (52 : Nat))⟩

/-- The number of a given precision nearest to a ratio; one that is too large is infinite. -/
def ofRatio (p : Precision) (negative : Bool) (num den : Nat) : Binary64 :=
  match p.round num den with
  | none => infinity negative
  | some (m, scale) => ofScaled negative m scale

def ofInt (p : Precision) (n : Int) : Binary64 := ofRatio p (n < 0) n.natAbs 1

def toPrecision (p : Precision) (x : Binary64) : Binary64 :=
  if x.isFinite then
    let (num, den) := x.magnitude
    ofRatio p x.negative num den
  else x

def equal (x y : Binary64) : Bool :=
  !x.isNaN && !y.isNaN && (x == y || (x.isZero && y.isZero))

end Binary64

end RecordStore
