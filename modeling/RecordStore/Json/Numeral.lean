import RecordStore.Json.Basic

/-!
Numbers in JSON text. A whole number in the range of the stored integers is exact. Any other
number is worked out from a significand of 64 bits: digits beyond those only count towards the
power of ten, and one multiplication or division of floating-point numbers applies that power, so
the last digit of a long number may be off by one. A failure keeps the text that was left.
-/
namespace RecordStore

-- Powers are those of the core library, whatever other instances are in scope.
attribute [local instance (high)] instPowNat

namespace Binary64

def mul (x y : Binary64) : Binary64 :=
  let (a, b) := x.magnitude
  let (c, d) := y.magnitude
  ofRatio .double (x.negative != y.negative) (a * c) (b * d)

def div (x y : Binary64) : Binary64 :=
  let (a, b) := x.magnitude
  let (c, d) := y.magnitude
  ofRatio .double (x.negative != y.negative) (a * d) (b * c)

def powerOfTen (n : Nat) : Binary64 := ofRatio .double false (10 ^ n) 1

def maxPowerOfTen : Nat := 308

def ofSignificand (negative : Bool) (m : Nat) (power : Int) : Option Binary64 :=
  let x := ofRatio .double negative m 1
  let down := (-power).toNat
  if m = 0 then some x
  else if 0 ≤ power then
    if maxPowerOfTen < power then none
    else
      let y := x.mul (powerOfTen power.toNat)
      if y.isFinite then some y else none
  else if down ≤ maxPowerOfTen then some (x.div (powerOfTen down))
  else if down ≤ 2 * maxPowerOfTen then
    some ((x.div (powerOfTen maxPowerOfTen)).div (powerOfTen (down - maxPowerOfTen)))
  else some (zero negative)

end Binary64

namespace Numeral

inductive Fault where
  | ended
  | malformed
  | outOfRange
  deriving DecidableEq, Repr

/-- Why a number could not be read, and what was left of the text then. -/
structure Failure where
  fault : Fault
  left : List Char
  deriving DecidableEq, Repr

abbrev Result := Except Failure (Json × List Char)

def digitValue (c : Char) : Nat := c.toNat - '0'.toNat

def takeDigits (m : Nat) : List Char → Nat × Nat × List Char
  | [] => (m, 0, [])
  | c :: rest =>
    if c.isDigit && 10 * m + digitValue c < 2 ^ (64 : Nat) then
      let (m, count, rest) := takeDigits (10 * m + digitValue c) rest
      (m, count + 1, rest)
    else (m, 0, c :: rest)

/-- The digits of an exponent, or what follows the first one that takes it beyond 31 bits. -/
def exponentDigits (e : Nat) : List Char → Except (List Char) (Nat × List Char)
  | [] => .ok (e, [])
  | c :: rest =>
    if !c.isDigit then .ok (e, c :: rest)
    else if 2 ^ (31 : Nat) ≤ 10 * e + digitValue c then .error rest
    else exponentDigits (10 * e + digitValue c) rest

def finish (negative : Bool) (m : Nat) (power : Int) (cs : List Char) : Result :=
  match Binary64.ofSignificand negative m power with
  | some x => .ok (.float x, cs)
  | none => .error ⟨.outOfRange, cs⟩

/-- Reads an exponent after its mark. One of more than 31 bits makes zero, or no number. -/
def exponent (negative : Bool) (m : Nat) (power : Int) (cs : List Char) : Result :=
  let (down, cs) := match cs with
    | '+' :: rest => (false, rest)
    | '-' :: rest => (true, rest)
    | rest => (false, rest)
  match cs with
  | [] => .error ⟨.ended, []⟩
  | c :: rest =>
    if !c.isDigit then .error ⟨.malformed, rest⟩
    else
      match exponentDigits (digitValue c) rest with
      | .ok (e, rest) => finish negative m (if down then power - e else power + e) rest
      | .error rest =>
        if m ≠ 0 && !down then .error ⟨.outOfRange, rest⟩
        else .ok (.float (.zero negative), rest.dropWhile Char.isDigit)

def afterDigits (negative : Bool) (m : Nat) (power : Int) (cs : List Char) : Result :=
  match cs with
  | 'e' :: rest => exponent negative m power rest
  | 'E' :: rest => exponent negative m power rest
  | cs => finish negative m power cs

def fraction (negative : Bool) (m : Nat) (power : Int) (cs : List Char) : Result :=
  let (m, count, rest) := takeDigits m cs
  if count = 0 && !(rest.head?.map Char.isDigit).getD false then
    .error ⟨if rest.isEmpty then .ended else .malformed, rest.drop 1⟩
  else afterDigits negative m (power - count) (rest.dropWhile Char.isDigit)

/-- A whole number. The negative zero, and a negative number out of range, is no integer. -/
def whole (negative : Bool) (m : Nat) : Json :=
  if !negative then .integer m
  else if m = 0 || 2 ^ (63 : Nat) < m then .float (.ofRatio .double true m 1)
  else .integer (-m)

def afterWhole (negative : Bool) (m : Nat) (cs : List Char) : Result :=
  match cs with
  | '.' :: rest => fraction negative m 0 rest
  | 'e' :: rest => exponent negative m 0 rest
  | 'E' :: rest => exponent negative m 0 rest
  | cs => .ok (whole negative m, cs)

/-- Reads the number at the front of a text. A whole part of several digits does not start with
zero. -/
def read (cs : List Char) : Result :=
  let (negative, cs) := match cs with
    | '-' :: rest => (true, rest)
    | rest => (false, rest)
  match cs with
  | [] => .error ⟨.ended, []⟩
  | c :: rest =>
    if !c.isDigit then .error ⟨.malformed, rest⟩
    else if c = '0' then
      if (rest.head?.map Char.isDigit).getD false then .error ⟨.malformed, rest.drop 1⟩
      else afterWhole negative 0 rest
    else
      let (m, _, rest) := takeDigits 0 (c :: rest)
      let beyond := rest.takeWhile Char.isDigit
      if beyond.isEmpty then afterWhole negative m rest
      else
        match rest.drop beyond.length with
        | '.' :: rest => fraction negative m beyond.length rest
        | rest => afterDigits negative m beyond.length rest

end Numeral

end RecordStore
