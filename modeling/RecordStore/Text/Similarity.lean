/-!
The Jaro-Winkler similarity of two texts as an exact ratio. Two characters match if they are equal
and stand close enough; matches out of order count half, and a common beginning of up to four
characters raises a similarity that is high already.
-/
namespace RecordStore.Similarity

def claim (c : Char) (low high : Nat) : Nat → List (Char × Bool) → Option (List (Char × Bool))
  | _, [] => none
  | i, (d, taken) :: rest =>
    if low ≤ i && i < high && c == d && !taken then some ((d, true) :: rest)
    else (claim c low high (i + 1) rest).map ((d, taken) :: ·)

/-- The characters of the first text that match, in order, and the second text with its matched
places marked. -/
def matching (range : Nat) : Nat → List Char → List (Char × Bool) → List Char × List (Char × Bool)
  | _, [], marked => ([], marked)
  | i, c :: rest, marked =>
    match claim c (i - range) (i + range + 1) 0 marked with
    | some marked =>
      let (cs, marked) := matching range (i + 1) rest marked
      (c :: cs, marked)
    | none => matching range (i + 1) rest marked

/-- A similarity between zero and one as a ratio. -/
structure Ratio where
  num : Nat
  den : Nat

def Ratio.lt (a b : Ratio) : Bool := a.num * b.den < b.num * a.den

def jaro (a b : List Char) : Ratio :=
  if a.isEmpty && b.isEmpty then ⟨1, 1⟩ else
  let range := max a.length b.length / 2 - 1
  let (inOrder, marked) := matching range 0 a (b.map fun c => (c, false))
  let opposite := (marked.filter Prod.snd).map Prod.fst
  let m := inOrder.length
  let crossed := ((inOrder.zip opposite).filter fun p => p.1 != p.2).length / 2
  if m = 0 then ⟨0, 1⟩
  else
    ⟨m * m * b.length + m * m * a.length + (m - crossed) * a.length * b.length,
      3 * m * a.length * b.length⟩

def jaroWinkler (a b : List Char) : Ratio :=
  let j := jaro a b
  if Ratio.lt ⟨7, 10⟩ j then
    let common := (((a.take 4).zip (b.take 4)).takeWhile fun p => p.1 == p.2).length
    ⟨10 * j.num + common * (j.den - j.num), 10 * j.den⟩
  else j

/-- The candidate most similar to a text, if one is similar enough; the earliest of equals. -/
def best? (threshold : Ratio) (text : String) (candidates : List String) : Option String :=
  let pick (found : Option (Ratio × String)) (candidate : String) : Option (Ratio × String) :=
    let r := jaroWinkler text.toList candidate.toList
    match found with
    | none => if threshold.lt r then some (r, candidate) else none
    | some (s, _) => if s.lt r then some (r, candidate) else found
  (candidates.foldl pick none).map Prod.snd

end RecordStore.Similarity
