import FeatureTables.Json.Basic

/-!
Reading JSON. A number with a point or an exponent is the product or quotient of its digits, as far as
a 64-bit word holds them, and a power of ten, each rounded. Lists and objects that stand more than 127
levels deep are unreadable, and so is a text with half of a pair of units: the form of the text around
them is checked all the same.
-/

namespace FeatureTables.Json

open Number

/-! ### Numbers -/

/-- The largest word of 64 bits. -/
def wordMax : Nat := 18446744073709551615

/-- Takes digits into a word as long as they fit; returns how many were taken, and the rest. -/
def gather (word : Nat) (taken : Nat) : List Char → Nat × Nat × List Char
  | [] => (word, taken, [])
  | c :: cs =>
    let next := word * 10 + (c.toNat - 48)
    if next ≤ wordMax then gather next (taken + 1) cs else (word, taken, c :: cs)

/-- Divides by 10^308 until the exponent is within the powers that a binary number holds, or nothing
is left. -/
def shrink (x : Binary64) (k : Int) : Binary64 × Int :=
  if k < -308 ∧ x ≠ Binary64.zero false then shrink (x.div (.ofDecimal false 1 308)) (k + 308)
  else (x, k)
termination_by (-k).toNat
decreasing_by omega

/-- The number of a word and a power of ten. -/
def scaleWord (negative : Bool) (word : Nat) (k : Int) : Num :=
  let x := Binary64.ofNat word
  let signed (y : Binary64) : Num := .real (if negative then y.neg else y)
  if 0 ≤ k then
    if x = Binary64.zero false then signed x
    else if 308 < k then .tooLarge
    else
      let y := x.mul (.ofDecimal false 1 k)
      if y.isFinite then signed y else .tooLarge
  else
    let (y, k) := shrink x k
    if y = Binary64.zero false then signed y else signed (y.div (.ofDecimal false 1 (-k)))

/-- The number of whole digits, digits after the point and the exponent, where these are given. -/
def Num.ofParts (negative : Bool) (whole : List Char) (fraction? : Option (List Char))
    (exponent? : Option Int) : Num :=
  let (word, _, left) := gather 0 0 whole
  let start : Int := left.length
  if left.isEmpty ∧ fraction?.isNone ∧ exponent?.isNone then
    if negative then
      if word = 0 then .real (Binary64.zero true)
      else if word ≤ Nat.pow 2 63 then .negative word
      else .real (Binary64.ofRatio true word 1)
    else .natural word
  else
    let (word, taken, _) := gather word 0 (fraction?.getD [])
    let k := start - taken
    match exponent? with
    | none => scaleWord negative word k
    | some x =>
      if 2147483647 < x ∧ word ≠ 0 then .tooLarge
      else if x.natAbs > 2147483647 then .real (Binary64.zero negative)
      else scaleWord negative word (k + x)

/-- The exponent at the start of the text, if one stands there; `none` when it has no digits. -/
def readExponent? : List Char → Option (Option Int × List Char)
  | c :: s =>
    if c = 'e' ∨ c = 'E' then
      let (negative, r) := Binary64.sign s
      let (ds, r) := Binary64.leadingDigits r
      (digits? ds).map fun n => (some (if negative then -(n : Int) else n), r)
    else some (none, c :: s)
  | [] => some (none, [])

/-- A number without its sign. -/
def readNumber? (negative : Bool) (s : List Char) : Option (Num × List Char) :=
  let (whole, r) := Binary64.leadingDigits s
  if whole.isEmpty ∨ (whole.length ≠ 1 ∧ whole.head? = some '0') then none
  else
    let part? : Option (Option (List Char) × List Char) := match r with
      | '.' :: r =>
        let (ds, r) := Binary64.leadingDigits r
        if ds.isEmpty then none else some (some ds, r)
      | r => some (none, r)
    match part? with
    | none => none
    | some (fraction?, r) =>
      (readExponent? r).map fun (x?, r) => (.ofParts negative whole fraction? x?, r)

/-! ### Texts -/

/-- The number of four hexadecimal digits. -/
def hex4? (a b c d : Char) : Option Nat :=
  [a, b, c, d].foldlM (fun acc x =>
    let n := x.toNat
    let v? :=
      if 48 ≤ n ∧ n ≤ 57 then some (n - 48)
      else if 97 ≤ n ∧ n ≤ 102 then some (n - 87)
      else if 65 ≤ n ∧ n ≤ 70 then some (n - 55)
      else none
    v?.map (acc * 16 + ·)) 0

def escaped? : Char → Option Char
  | '\x22' => some '\x22'
  | '\\' => some '\\'
  | '/' => some '/'
  | 'b' => some '\x08'
  | 'f' => some '\x0c'
  | 'n' => some '\n'
  | 'r' => some '\r'
  | 't' => some '\t'
  | _ => none

/-- What a text is written in: characters, and halves of the pairs that stand for large ones. -/
inductive TextUnit where
  | char (c : Char)
  | half (u : Nat)

/-- What a number of 16 bits writes. -/
def TextUnit.ofNat (u : Nat) : TextUnit :=
  if 0xD800 ≤ u ∧ u < 0xE000 then half u else char (Char.ofNat u)

/-- The units of a text after its opening quote; `acc` holds those so far, last one first. -/
def readUnits? (acc : List TextUnit) : List Char → Option (List TextUnit × List Char)
  | '\x22' :: s => some (acc.reverse, s)
  | '\\' :: 'u' :: a :: b :: c :: d :: s =>
    match hex4? a b c d with
    | some u => readUnits? (.ofNat u :: acc) s
    | none => none
  | '\\' :: c :: s =>
    match escaped? c with
    | some x => readUnits? (.char x :: acc) s
    | none => none
  | c :: s => if c.toNat < 0x20 ∨ c = '\\' then none else readUnits? (.char c :: acc) s
  | [] => none

/-- The characters of units, behind those of `acc`, which come last one first; `none` where a half
stands without the other one. -/
def joinUnits? (acc : List Char) : List TextUnit → Option (List Char)
  | [] => some acc.reverse
  | .char c :: us => joinUnits? (c :: acc) us
  | .half u :: .half v :: us =>
    if u < 0xDC00 ∧ 0xDC00 ≤ v then
      joinUnits? (Char.ofNat (0x10000 + (u - 0xD800) * 1024 + (v - 0xDC00)) :: acc) us
    else none
  | .half _ :: _ => none

/-- A text after its opening quote, and what follows it; `none` inside where it is unreadable. -/
def readText? (s : List Char) : Option (Option String × List Char) :=
  (readUnits? [] s).map fun (us, r) => ((joinUnits? [] us).map String.ofList, r)

/-! ### Values -/

def isSpace (c : Char) : Bool := c == ' ' || c == '\n' || c == '\t' || c == '\r'

def skipSpace (s : List Char) : List Char := s.dropWhile isSpace

/-- The rest after a word. -/
def word? (w : String) (j : Json) (s : List Char) : Option (Json × List Char) :=
  if s.take w.length = w.toList then some (j, s.drop w.length) else none

/-- The value that is made of what was read, if that could be read. -/
def ofRead {α : Type} (make : α → Json) (content? : Option α) : Json :=
  (content?.map make).getD .unreadable

/-- The same for a value that opens a level, where `room` levels may still open. -/
def ofLevel {α : Type} (room : Nat) (make : α → Json) (content? : Option α) : Json :=
  if room = 0 then .unreadable else ofRead make content?

mutual
/-- The value at the start of the text; `room` is how many levels may still open. -/
def readValue? : Nat → (room : Nat) → List Char → Option (Json × List Char)
  | 0, _, _ => none
  | n + 1, room, s =>
    match skipSpace s with
    | '\x22' :: r => (readText? r).map fun (t?, r) => (ofRead .string t?, r)
    | '[' :: r =>
      match skipSpace r with
      | ']' :: r => some (ofLevel room .array (some []), r)
      | r => (readItems? n (room - 1) r).map fun (js, r) => (ofLevel room .array (some js), r)
    | '\x7b' :: r =>
      match skipSpace r with
      | '\x7d' :: r => some (ofLevel room .object (some []), r)
      | r => (readMembers? n (room - 1) r).map fun (ms?, r) => (ofLevel room .object ms?, r)
    | '-' :: r => (readNumber? true r).map fun (x, r) => (.number x, r)
    | 't' :: r => word? "true" (.bool true) ('t' :: r)
    | 'f' :: r => word? "false" (.bool false) ('f' :: r)
    | 'n' :: r => word? "null" .null ('n' :: r)
    | r => (readNumber? false r).map fun (x, r) => (.number x, r)
/-- Items up to the closing bracket. -/
def readItems? : Nat → Nat → List Char → Option (List Json × List Char)
  | 0, _, _ => none
  | n + 1, room, s =>
    match readValue? n room s with
    | none => none
    | some (j, r) =>
      match skipSpace r with
      | ',' :: r => (readItems? n room r).map fun (js, r) => (j :: js, r)
      | ']' :: r => some ([j], r)
      | _ => none
/-- Members up to the closing brace; `none` inside if a key is unreadable. -/
def readMembers? : Nat → Nat → List Char → Option (Option (List (String × Json)) × List Char)
  | 0, _, _ => none
  | n + 1, room, s =>
    match skipSpace s with
    | '\x22' :: r =>
      match readText? r with
      | none => none
      | some (k?, r) =>
        match skipSpace r with
        | ':' :: r =>
          match readValue? n room r with
          | none => none
          | some (j, r) =>
            match skipSpace r with
            | ',' :: r =>
              (readMembers? n room r).map fun (ms?, r) =>
                (k?.bind fun k => ms?.map ((k, j) :: ·), r)
            | '\x7d' :: r => some (k?.map fun k => [(k, j)], r)
            | _ => none
        | _ => none
    | _ => none
end

/-- The value that is the whole text. -/
def read? (s : String) : Option Json :=
  let cs := s.toList
  match readValue? (2 * cs.length + 2) 127 cs with
  | some (j, r) => if (skipSpace r).isEmpty then some j else none
  | none => none

end FeatureTables.Json
