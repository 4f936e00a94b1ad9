import FeatureTables.Number.Integer

/-!
Binary floating-point numbers of 64 bits as exact values: a sign, a whole number below 2^53 and a
power of two. `ofRatio` rounds a quotient to the nearest of them, a half to the even one.
-/

namespace FeatureTables.Number

/-! ### The numbers -/

/-- `m * 2 ^ e` is written with the full width of `m`, unless `e` is the least exponent. -/
def Canonical (m : Nat) (e : Int) : Prop :=
  m < Nat.pow 2 53 ∧ -1074 ≤ e ∧ e ≤ 971 ∧ (Nat.pow 2 52 ≤ m ∨ e = -1074)

instance (m : Nat) (e : Int) : Decidable (Canonical m e) := by
  unfold Canonical; infer_instance

inductive Binary64 where
  | nan
  | infinite (negative : Bool)
  /-- The number `m * 2 ^ e`, with a sign that zero has too. -/
  | finite (negative : Bool) (m : Nat) (e : Int) (canonical : Canonical m e)
deriving DecidableEq

namespace Binary64

def zero (negative : Bool) : Binary64 := .finite negative 0 (-1074) (by decide)

instance : Inhabited Binary64 := ⟨zero false⟩

def isFinite : Binary64 → Bool
  | finite .. => true
  | _ => false

/-- The number `m * 2 ^ e`, or the infinity when it is too large. -/
def make (negative : Bool) (m : Nat) (e : Int) : Binary64 :=
  if h : Canonical m e then .finite negative m e h else .infinite negative

/-! ### Rounding -/

/-- The whole number nearest to `num / den`, a half to the even one. -/
def roundQuotient (num den : Nat) : Nat :=
  let q := num / den
  let r := num % den
  if den < 2 * r ∨ (2 * r = den ∧ q % 2 = 1) then q + 1 else q

theorem roundQuotient_one (num : Nat) : roundQuotient num 1 = num := by
  simp [roundQuotient, Nat.mod_one]

/-- The quotient `num / den / 2 ^ e` as numerator and denominator. -/
def scaled (num den : Nat) (e : Int) : Nat × Nat :=
  if 0 ≤ e then (num, den * Nat.pow 2 e.toNat) else (num * Nat.pow 2 (-e).toNat, den)

/-- The number nearest to `num / den`. -/
def ofRatio (negative : Bool) (num den : Nat) : Binary64 :=
  if num = 0 then zero negative
  else
    let e₀ : Int := max (-1074) ((num.log2 : Int) - den.log2 - 53)
    let (n₀, d₀) := scaled num den e₀
    let e := if Nat.pow 2 53 ≤ n₀ / d₀ then e₀ + 1 else e₀
    let (n, d) := scaled num den e
    let m := roundQuotient n d
    if m = Nat.pow 2 53 then make negative (Nat.pow 2 52) (e + 1) else make negative m e

def ofNat (n : Nat) : Binary64 := ofRatio false n 1

def neg : Binary64 → Binary64
  | nan => nan
  | infinite s => infinite (!s)
  | finite s m e h => finite (!s) m e h

/-- Numerator and denominator of the number without its sign. -/
def ratio (m : Nat) (e : Int) : Nat × Nat :=
  if 0 ≤ e then (m * Nat.pow 2 e.toNat, 1) else (m, Nat.pow 2 (-e).toNat)

/-- The product of two finite numbers, rounded. -/
def mul : Binary64 → Binary64 → Binary64
  | finite s m e _, finite s' m' e' _ =>
    let (a, b) := ratio m e
    let (c, d) := ratio m' e'
    ofRatio (s != s') (a * c) (b * d)
  | _, _ => nan

/-- The quotient of two finite numbers, rounded; the divisor is not zero. -/
def div : Binary64 → Binary64 → Binary64
  | finite s m e _, finite s' m' e' _ =>
    let (a, b) := ratio m e
    let (c, d) := ratio m' e'
    if c = 0 then nan else ofRatio (s != s') (a * d) (b * c)
  | _, _ => nan

/-! ### Reading decimals -/

/-- How many decimal digits `n` has; zero has one. -/
def decimalLength (n : Nat) : Nat := (Nat.toDigits 10 n).length

/-- The number nearest to `digits * 10 ^ exponent`. Beyond the range that any number reaches, the
power is not computed. -/
def ofDecimal (negative : Bool) (digits : Nat) (exponent : Int) : Binary64 :=
  if digits = 0 then zero negative
  else
    let top := decimalLength digits + exponent
    if 310 < top then .infinite negative
    else if top < -330 then zero negative
    else if 0 ≤ exponent then ofRatio negative (digits * Nat.pow 10 exponent.toNat) 1
    else ofRatio negative digits (Nat.pow 10 (-exponent).toNat)

/-- A sign in front, as whether it is a minus, and the rest. -/
def sign : List Char → Bool × List Char
  | '-' :: s => (true, s)
  | '+' :: s => (false, s)
  | s => (false, s)

/-- The digits at the start, and the rest. -/
def leadingDigits (s : List Char) : List Char × List Char :=
  (s.takeWhile Char.isDigit, s.dropWhile Char.isDigit)

/-- The exponent after the digits of a number: `e` or `E`, a sign and digits, up to the end. -/
def exponent? : List Char → Option Int
  | [] => some 0
  | c :: s =>
    if c = 'e' ∨ c = 'E' then
      let (negative, ds) := sign s
      (digits? ds).map fun n => if negative then -(n : Int) else n
    else none

/-- A number without its sign: digits with at most one point among them, and an exponent. -/
def readMagnitude? (negative : Bool) (s : List Char) : Option Binary64 :=
  let (whole, r) := leadingDigits s
  let (fraction, r) := match r with
    | '.' :: r => leadingDigits r
    | r => ([], r)
  if whole.isEmpty ∧ fraction.isEmpty then none
  else
    match exponent? r, digits? (whole ++ fraction) with
    | some x, some n => some (ofDecimal negative n (x - fraction.length))
    | _, _ => none

/-- Reads a number: a decimal, or one of the words for infinity and for no number in any case. -/
def read? (s : String) : Option Binary64 :=
  let (negative, r) := sign s.toList
  let word := String.ofList (r.map Char.toLower)
  if word = "inf" ∨ word = "infinity" then some (.infinite negative)
  else if word = "nan" then some .nan
  else readMagnitude? negative r

end Binary64
end FeatureTables.Number
