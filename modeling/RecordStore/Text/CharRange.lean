/-!
Sets of characters as lists of closed code point ranges.
-/
namespace RecordStore

def inRanges (ranges : List (Nat × Nat)) (code : Nat) : Bool :=
  ranges.any fun r => r.1 ≤ code && code ≤ r.2

end RecordStore
