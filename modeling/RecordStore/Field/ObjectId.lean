import RecordStore.Json.Reader

/-!
Object identifiers: sixteen bytes, shown as hexadecimal digits and stored with hyphens between
five groups of them. An identifier may be written in more ways than it is stored; a text that is
none of them is diagnosed by what is wrong with it first. Positions and lengths count bytes.
-/
namespace RecordStore

-- Powers and the zero of sums are those of the core library, whatever other instances are in scope.
attribute [local instance (high)] instPowNat Zero.ofOfNat0

/-- An identifier of sixteen bytes. -/
structure ObjectId where
  bytes : List (Fin 256)
  size_eq : bytes.length = 16
  deriving DecidableEq, Repr

/-- What is wrong with the text of an identifier. -/
inductive ObjectIdError where
  | length (found : Nat)
  | character (found : Char) (position : Nat)
  | groupCount (found : Nat)
  | groupLength (group expected found : Nat)
  deriving DecidableEq, Repr

namespace ObjectIdError

def message : ObjectIdError → String
  | .length found => "invalid length: found " ++ toString found
  | .character c position =>
    "invalid character: found `" ++ c.toString ++ "` at " ++ toString position
  | .groupCount found => "invalid group count: expected 5, found " ++ toString found
  | .groupLength group expected found =>
    "invalid group length in group " ++ toString group ++ ": expected " ++ toString expected ++
      ", found " ++ toString found

end ObjectIdError

namespace ObjectId

def digit (n : Nat) : Char := if n < 10 then Char.ofNat (48 + n) else Char.ofNat (87 + n)

def byteDigits (b : Fin 256) : List Char := [digit (b.val / 16), digit (b.val % 16)]

def digits (bytes : List (Fin 256)) : List Char := (bytes.map byteDigits).flatten

def display (id : ObjectId) : String := String.ofList (digits id.bytes)

/-- Groups of two digits for each byte, of which the first four are followed by hyphens. -/
def stored (id : ObjectId) : String :=
  let group (start size : Nat) : List Char := digits ((id.bytes.drop start).take size)
  String.ofList (group 0 4 ++ '-' :: group 4 2 ++ '-' :: group 6 2 ++ '-' :: group 8 2 ++
    '-' :: group 10 6)

def bytesLt : List (Fin 256) → List (Fin 256) → Bool
  | [], [] => false
  | [], _ :: _ => true
  | _ :: _, [] => false
  | a :: as, b :: bs => a < b || (a == b && bytesLt as bs)

def lt (a b : ObjectId) : Bool := bytesLt a.bytes b.bytes

def sort (ids : List ObjectId) : List ObjectId := ids.mergeSort fun a b => !b.lt a

def ofNat (n : Nat) : ObjectId where
  bytes := (List.range 16).map fun i => Fin.ofNat 256 (n / 256 ^ (15 - i))
  size_eq := by simp

def bytesOf? : List Char → Option (List (Fin 256))
  | [] => some []
  | [_] => none
  | a :: b :: rest => do
    let high ← Json.hexDigit? a
    let low ← Json.hexDigit? b
    return Fin.ofNat 256 (high * 16 + low) :: (← bytesOf? rest)

def ofDigits? (cs : List Char) : Option ObjectId :=
  match bytesOf? cs with
  | none => none
  | some bytes => if h : bytes.length = 16 then some ⟨bytes, h⟩ else none

def hyphenPositions : List Nat := [8, 13, 18, 23]

def ofHyphenated? (cs : List Char) : Option ObjectId :=
  if cs.length = 36 && hyphenPositions.all (cs[·]? == some '-') then
    ofDigits? (cs.take 8 ++ (cs.drop 9).take 4 ++ (cs.drop 14).take 4 ++ (cs.drop 19).take 4 ++
      cs.drop 24)
  else none

def byteSize (cs : List Char) : Nat := (cs.map Char.utf8Size).sum

def namePrefix : List Char := "urn:uuid:".toList

def isNamed (cs : List Char) : Bool := (cs.take 9).map Char.toLower == namePrefix

/-- The form that the size and the ends of a text select. -/
inductive Form where
  | plain
  | hyphenated (inner : List Char)
  | none
  deriving DecidableEq, Repr

def Form.of (cs : List Char) : Form :=
  let size := byteSize cs
  if size = 32 then .plain
  else if size = 36 then .hyphenated cs
  else if size = 38 && cs.head? == some '\x7b' && cs.getLast? == some '\x7d' then
    .hyphenated ((cs.drop 1).dropLast)
  else if size = 45 && isNamed cs then .hyphenated (cs.drop 9)
  else .none

def badCharacter? : Nat → List Char → Option (Char × Nat)
  | _, [] => none
  | i, c :: rest =>
    if c = '-' ∨ (Json.hexDigit? c).isSome then badCharacter? (i + 1) rest else some (c, i)

def hyphens : Nat → List Char → List Nat
  | _, [] => []
  | i, c :: rest => if c = '-' then i :: hyphens (i + 1) rest else hyphens (i + 1) rest

def wrongGroup (size : Nat) (positions : List Nat) : ObjectIdError :=
  let expected : List Nat := [8, 4, 4, 4]
  let starts : List Nat := [0, 9, 14, 19]
  let groups := (positions.zip (hyphenPositions.zip (expected.zip starts))).zipIdx
  match groups.find? fun ((found, (right, _)), _) => found != right with
  | some ((found, (_, (expected, start))), group) => .groupLength group expected (found - start)
  | none => .groupLength 4 12 (size - 24)

/-- What is wrong with a text that is no identifier. A text of digits alone has the wrong length,
unless it was taken for the stored form. -/
def diagnose (hyphenated : Bool) (cs : List Char) : ObjectIdError :=
  let size := byteSize cs
  if size = 0 ∨ 45 < size then .length size
  else
    let braced := cs.head? == some '\x7b' && cs.getLast? == some '\x7d' && 2 ≤ cs.length
    let (scanned, offset, mayBePlain) :=
      if hyphenated then (cs, 0, false)
      else if braced then ((cs.drop 1).dropLast, 1, false)
      else if isNamed cs then (cs.drop 9, 9, false)
      else (cs, 0, true)
    match badCharacter? offset scanned with
    | some (c, i) => .character c i
    | none =>
      let positions := hyphens 0 scanned
      if mayBePlain && positions.isEmpty then .length size
      else if positions.length ≠ 4 then .groupCount (positions.length + 1)
      else wrongGroup size positions

def parse (text : String) : Except ObjectIdError ObjectId :=
  let cs := text.toList
  match Form.of cs with
  | .plain =>
    match ofDigits? cs with
    | some id => .ok id
    | none => .error (diagnose false cs)
  | .hyphenated inner =>
    match ofHyphenated? inner with
    | some id => .ok id
    | none => .error (diagnose true inner)
  | .none => .error (diagnose false cs)

end ObjectId

end RecordStore
