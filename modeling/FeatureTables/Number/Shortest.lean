import FeatureTables.Number.Binary64

/-!
The fewest decimal digits that read back as the same number, and the two ways of writing them: the
plain one, never with an exponent, and the one of data files.
-/

namespace FeatureTables.Number

/-! ### Digits -/

/-- Where a value at equal distance from two decimals goes. -/
inductive Tie where
  | up
  | toEven
deriving DecidableEq

/-- The reals that round to `m * 2 ^ e`, on a common denominator: the lower end, the number itself
and the upper end, four times as large, and the denominator. -/
structure Interval where
  low : Nat
  mid : Nat
  high : Nat
  den : Nat
  closed : Bool

def Interval.of (m : Nat) (e : Int) : Interval :=
  let below := if m = Nat.pow 2 52 ∧ -1074 < e then 1 else 2
  let up := Nat.pow 2 (e - 2).toNat
  { low := (4 * m - below) * up, mid := 4 * m * up, high := (4 * m + 2) * up,
    den := Nat.pow 2 (2 - e).toNat, closed := m % 2 = 0 }

/-- The exponent of the first decimal digit of `num / den`, which is not zero. -/
def leadingExponent (num den : Nat) : Int :=
  if den ≤ num then (Binary64.decimalLength (num / den) : Int) - 1
  else
    let n := Binary64.decimalLength (den / num)
    if num * Nat.pow 10 (n - 1) = den then -((n : Int) - 1) else -(n : Int)

/-- The decimal `c * 10 ^ k` of the interval that is nearest to its middle, if there is one. -/
def Interval.nearest? (i : Interval) (tie : Tie) (k : Int) : Option Nat :=
  let grow := Nat.pow 10 (-k).toNat
  let unit := i.den * Nat.pow 10 k.toNat
  let inside (c : Nat) : Bool :=
    if i.closed then i.low * grow ≤ c * unit ∧ c * unit ≤ i.high * grow
    else i.low * grow < c * unit ∧ c * unit < i.high * grow
  let down := i.mid * grow / unit
  let twice := 2 * (i.mid * grow)
  let middle := (2 * down + 1) * unit
  match inside down, inside (down + 1) with
  | true, true =>
    if twice < middle then some down
    else if middle < twice then some (down + 1)
    else match tie with
      | .up => some (down + 1)
      | .toEven => some (if down % 2 = 0 then down else down + 1)
  | true, false => some down
  | false, true => some (down + 1)
  | false, false => none

/-- Drops zeros at the end of a number's digits, and counts them. -/
def dropZeros : List Char → List Char × Nat
  | [] => ([], 0)
  | c :: cs =>
    match dropZeros cs with
    | ([], n) => if c = '0' then ([], n + 1) else ([c], n)
    | (ds, n) => (c :: ds, n)

/-- The digits of `m * 2 ^ e`, not zero, and the exponent of the last one. Seventeen digits always
read back. -/
def shortestDigits (tie : Tie) (m : Nat) (e : Int) : List Char × Int :=
  let i := Interval.of m e
  let top := leadingExponent i.mid i.den
  let hit := (List.range 17).findSome? fun n =>
    let k : Int := top - (n : Nat)
    (i.nearest? tie k).map fun c => (c, k)
  let (c, k) := hit.getD (0, 0)
  let (ds, zeros) := dropZeros (Nat.toDigits 10 c)
  (ds, k + zeros)

/-! ### Writing -/

/-- Digits with the point that the exponent of the last one asks for. -/
def positional (ds : List Char) (k : Int) : List Char :=
  if 0 ≤ k then ds ++ List.replicate k.toNat '0'
  else
    let places := (-k).toNat
    if places < ds.length then ds.take (ds.length - places) ++ '.' :: ds.drop (ds.length - places)
    else '0' :: '.' :: List.replicate (places - ds.length) '0' ++ ds

namespace Binary64

def signText (negative : Bool) : String := if negative then "-" else ""

/-- The plain form: never an exponent, no point in whole numbers, and a tie goes up. -/
def plain : Binary64 → String
  | nan => "NaN"
  | infinite s => signText s ++ "inf"
  | finite s m e _ =>
    if m = 0 then signText s ++ "0"
    else
      let (ds, k) := shortestDigits .up m e
      signText s ++ String.ofList (positional ds k)

/-- The form of data files: positional from 10^-5 up to 10^16 with a digit after the point, else
with an exponent and its sign; a tie goes to the even digit; `none` for what is not finite. -/
def dataText? : Binary64 → Option String
  | finite s m e _ =>
    if m = 0 then some (signText s ++ "0.0")
    else
      let (ds, k) := shortestDigits .toEven m e
      let top := k + ds.length - 1
      if -5 ≤ top ∧ top < 16 then
        let text := String.ofList (positional ds k)
        some (signText s ++ if 0 ≤ k then text ++ ".0" else text)
      else
        let fraction := ds.drop 1
        let mantissa := ds.take 1 ++ if fraction.isEmpty then [] else '.' :: fraction
        let power := (if top < 0 then "e-" else "e+") ++ toString top.natAbs
        some (signText s ++ String.ofList mantissa ++ power)
  | _ => none

end Binary64
end FeatureTables.Number
