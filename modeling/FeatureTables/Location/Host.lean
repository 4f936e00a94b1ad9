import FeatureTables.Text.Utf8
import FeatureTables.Location.Domain

/-!
The host part of a URL: a domain name in its ASCII form, or an address of 32 or 128 bits in its
shortest form.
-/

namespace FeatureTables.Host

open Text

/-! ### Percent signs -/

def hexValue? (b : UInt8) : Option Nat :=
  let n := b.toNat
  if 48 ≤ n ∧ n ≤ 57 then some (n - 48)
  else if 97 ≤ n ∧ n ≤ 102 then some (n - 87)
  else if 65 ≤ n ∧ n ≤ 70 then some (n - 55)
  else none

/-- The bytes with each percent sign and two digits replaced by the byte that they stand for. -/
def percentDecode : Bytes → Bytes
  | 0x25 :: a :: b :: bs =>
    match hexValue? a, hexValue? b with
    | some x, some y => (x * 16 + y).toUInt8 :: percentDecode bs
    | _, _ => 0x25 :: percentDecode (a :: b :: bs)
  | b :: bs => b :: percentDecode bs
  | [] => []

def upperHex (n : Nat) : Char := (Nat.digitChar n).toUpper

/-- The text with the bytes of each character replaced that `plain` does not admit; characters
beyond ASCII are never plain. -/
def percentEncode (plain : Char → Bool) (s : List Char) : String :=
  String.ofList (s.flatMap fun c =>
    if c.toNat < 0x80 ∧ plain c then [c]
    else (utf8 (String.singleton c)).flatMap fun b =>
      ['%', upperHex (b.toNat / 16), upperHex (b.toNat % 16)])

/-- Neither a control character nor a delete. -/
def notControl (c : Char) : Bool := 0x20 ≤ c.toNat && c.toNat != 0x7F

/-! ### Addresses of 32 bits -/

/-- The number that digits to a base write; no digits write zero. -/
def baseNumber? (base : Nat) (s : List Char) : Option Nat :=
  s.foldlM (fun acc c =>
    ((hexValue? c.toNat.toUInt8).filter fun v => v < base ∧ c.toNat < 128).map (acc * base + ·)) 0

/-- A part of an address: hexadecimal after `0x`, octal after another zero, else decimal. -/
def ipv4Part? : List Char → Option Nat
  | [] => none
  | '0' :: x :: s => if x = 'x' ∨ x = 'X' then baseNumber? 16 s else baseNumber? 8 (x :: s)
  | s => baseNumber? 10 s

/-- The parts between dots, without an empty one at the end. -/
def dotParts (s : String) : List (List Char) :=
  let parts := pieces ['.'] s.toList
  if 1 < parts.length ∧ parts.getLast? = some [] then parts.dropLast else parts

/-- The last part of the domain is a number, so the domain has to be an address. -/
def endsInNumber (s : String) : Bool :=
  match (dotParts s).getLast? with
  | none | some [] => false
  | some part =>
    part.all Char.isDigit ||
    (match part with
      | '0' :: x :: r => (x == 'x' || x == 'X') && (baseNumber? 16 r).isSome
      | _ => false)

/-- The address with four decimal parts; the last part of the text fills all bytes that are left. -/
def ipv4? (s : String) : Option String := do
  let parts := dotParts s
  if 4 < parts.length then none
  let ns ← parts.mapM ipv4Part?
  let last ← ns.getLast?
  let front := ns.dropLast
  if front.any (255 < ·) ∨ Nat.pow 256 (4 - front.length) ≤ last then none
  let n := front.zipIdx.foldl (fun acc (x, i) => acc + x * Nat.pow 256 (3 - i)) last
  some (String.intercalate "." ([3, 2, 1, 0].map fun i => toString (n / Nat.pow 256 i % 256)))

/-! ### Addresses of 128 bits -/

/-- A group of one to four hexadecimal digits. -/
def group? (s : List Char) : Option Nat :=
  if s.isEmpty ∨ 4 < s.length then none else baseNumber? 16 s

/-- A decimal byte without zeros in front. -/
def byteNumber? (s : List Char) : Option Nat :=
  if s.isEmpty ∨ (1 < s.length ∧ s.head? = some '0') ∨ !s.all Char.isDigit then none
  else (baseNumber? 10 s).filter (· < 256)

/-- The groups of a part of the address without a double colon; an address of 32 bits may stand at
the end. -/
def groups? (atEnd : Bool) (s : List Char) : Option (List Nat) :=
  if s.isEmpty then some []
  else
    let parts := pieces [':'] s
    match parts.getLast? with
    | none => none
    | some last =>
      if atEnd ∧ last.contains '.' then do
        let bytes ← (pieces ['.'] last).mapM byteNumber?
        match bytes with
        | [a, b, c, d] => return (← parts.dropLast.mapM group?) ++ [a * 256 + b, c * 256 + d]
        | _ => none
      else parts.mapM group?

/-- The eight groups of an address. -/
def ipv6Groups? (s : List Char) : Option (List Nat) :=
  match pieces [':', ':'] s with
  | [whole] => (groups? true whole).filter (·.length = 8)
  | [front, back] => do
    let a ← groups? false front
    let b ← groups? true back
    if a.length + b.length < 8 then some (a ++ List.replicate (8 - a.length - b.length) 0 ++ b)
    else none
  | _ => none

/-- How many groups are zero from here on. -/
def zeroRun (gs : List Nat) : Nat := (gs.takeWhile (· == 0)).length

/-- Start and length of the first longest run of two or more zeros. -/
def longestZeros (gs : List Nat) : Option (Nat × Nat) :=
  (List.range gs.length).foldl (fun best i =>
    let n := zeroRun (gs.drop i)
    if n < 2 then best
    else match best with
      | some (_, m) => if m < n then some (i, n) else best
      | none => some (i, n)) none

def hexText (n : Nat) : String := String.ofList (Nat.toDigits 16 n)

def ipv6Text (gs : List Nat) : String :=
  let text (gs : List Nat) : String := String.intercalate ":" (gs.map hexText)
  match longestZeros gs with
  | none => text gs
  | some (i, n) => text (gs.take i) ++ "::" ++ text (gs.drop (i + n))

/-! ### Hosts -/

/-- A host in brackets. -/
def bracketed? (s : String) : Option String :=
  if endsWith s "]" then
    (ipv6Groups? (s.toList.drop 1).dropLast).map fun gs => "[" ++ ipv6Text gs ++ "]"
  else none

/-- The host of a URL of a scheme with hosts of its own form. -/
def read? (s : String) : Option String :=
  if startsWith s "[" then bracketed? s
  else do
    let domain ← Domain.toAscii? (fromUtf8Lossy (percentDecode (utf8 s)))
    if endsInNumber domain then ipv4? domain else some domain

/-- The host of a URL of any other scheme. -/
def readOpaque? (s : String) : Option String :=
  if startsWith s "[" then bracketed? s
  else if s.toList.any fun c => "\x00\t\n\r #/:<>?@[\\]^|".toList.contains c then none
  else some (percentEncode notControl s.toList)

end FeatureTables.Host
