/-!
Whole numbers in text: an optional sign and decimal digits, within the range of a word.
-/

namespace FeatureTables.Number

def decimalDigit? (c : Char) : Option Nat :=
  if '0' ≤ c ∧ c ≤ '9' then some (c.toNat - 48) else none

/-- The number that one or more digits write. -/
def digits? : List Char → Option Nat
  | [] => none
  | ds => ds.foldlM (fun acc c => (decimalDigit? c).map (acc * 10 + ·)) 0

/-- A number up to `max`; a plus sign may stand in front. -/
def readNat? (max : Nat) (s : String) : Option Nat :=
  let n? := match s.toList with
    | '+' :: ds => digits? ds
    | ds => digits? ds
  n?.filter (· ≤ max)

/-- A number of a word of `bits` bits with a sign. -/
def readInt? (bits : Nat) (s : String) : Option Int :=
  let n? := match s.toList with
    | '-' :: ds => (digits? ds).map fun n => -(n : Int)
    | '+' :: ds => (digits? ds).map fun n => (n : Int)
    | ds => (digits? ds).map fun n => (n : Int)
  n?.filter fun n => -Int.pow 2 (bits - 1) ≤ n ∧ n < Int.pow 2 (bits - 1)

end FeatureTables.Number
