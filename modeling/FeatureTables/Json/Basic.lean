import FeatureTables.Number.Shortest

/-!
JSON values and how they are written: compact as in model files, or indented with sorted keys.
Objects keep their members in order, and also members of one key. A part that nobody asks for may be
unreadable.
-/

namespace FeatureTables

open Number

/-- A number as the digits gave it: whole within a word, else a binary one; `tooLarge` is a written
number beyond the range of these. -/
inductive Json.Num where
  | natural (n : Nat)
  | negative (n : Nat)
  | real (x : Binary64)
  | tooLarge
deriving DecidableEq, Inhabited

inductive Json where
  | null
  | bool (b : Bool)
  | number (n : Json.Num)
  | string (s : String)
  | array (items : List Json)
  | object (members : List (String × Json))
  /-- What has the form of a value and yet stands for none: it can be passed over, but not read. -/
  | unreadable
deriving Inhabited

namespace Json

/-! ### Making values -/

def nat (n : Nat) : Json := .number (.natural n)

def int (n : Int) : Json := .number (if n < 0 then .negative n.natAbs else .natural n.toNat)

def real (x : Binary64) : Json := .number (.real x)

/-- The value, or null. -/
def option {α : Type} (f : α → Json) : Option α → Json
  | none => null
  | some a => f a

def strings (ss : List String) : Json := .array (ss.map .string)

/-- The value of the last member with this key. -/
def get? (j : Json) (key : String) : Option Json :=
  match j with
  | object members => (members.reverse.find? (·.1 == key)).map (·.2)
  | _ => none

mutual
/-- All of the value can be read, down to its last part. -/
def isSound : Json → Bool
  | unreadable | number .tooLarge => false
  | array items => areSound items
  | object members => membersAreSound members
  | _ => true
def areSound : List Json → Bool
  | [] => true
  | j :: js => isSound j && areSound js
def membersAreSound : List (String × Json) → Bool
  | [] => true
  | (_, j) :: ms => isSound j && membersAreSound ms
end

theorem areSound_iff (js : List Json) : areSound js = true ↔ ∀ j ∈ js, isSound j = true := by
  induction js with
  | nil => simp [areSound]
  | cons j js ih => simp [areSound, ih]

theorem membersAreSound_iff (ms : List (String × Json)) :
    membersAreSound ms = true ↔ ∀ m ∈ ms, isSound m.2 = true := by
  induction ms with
  | nil => simp [membersAreSound]
  | cons m ms ih => simp [membersAreSound, ih]

/-! ### Writing -/

def hexDigit (n : Nat) : Char := (Nat.digitChar n)

/-- A character inside of quotes. -/
def escape (c : Char) : List Char :=
  if c = '\x22' then ['\\', '\x22']
  else if c = '\\' then ['\\', '\\']
  else if c = '\n' then ['\\', 'n']
  else if c = '\r' then ['\\', 'r']
  else if c = '\t' then ['\\', 't']
  else if c = '\x08' then ['\\', 'b']
  else if c = '\x0c' then ['\\', 'f']
  else if c.toNat < 0x20 then
    ['\\', 'u', '0', '0', hexDigit (c.toNat / 16), hexDigit (c.toNat % 16)]
  else [c]

def quoted (s : String) : String :=
  "\x22" ++ String.ofList (s.toList.flatMap escape) ++ "\x22"

/-- A number that is not finite has no form and is written as null. -/
def Num.toText : Num → String
  | natural n => toString n
  | negative n => "-" ++ toString n
  | real x => x.dataText?.getD "null"
  | tooLarge => "null"

def joined (start stop between : String) (parts : List String) : String :=
  start ++ String.intercalate between parts ++ stop

mutual
/-- The form without blanks. -/
def compact : Json → String
  | null => "null"
  | bool b => if b then "true" else "false"
  | number n => n.toText
  | string s => quoted s
  | array items => joined "[" "]" "," (compactItems items)
  | object members => joined "\x7b" "\x7d" "," (compactMembers members)
  | unreadable => "null"
def compactItems : List Json → List String
  | [] => []
  | j :: js => compact j :: compactItems js
def compactMembers : List (String × Json) → List String
  | [] => []
  | (k, j) :: ms => (quoted k ++ ":" ++ compact j) :: compactMembers ms
end

/-- The parts on lines of their own between brackets, or the brackets alone. -/
def block (start stop margin : String) (parts : List String) : String :=
  if parts.isEmpty then start ++ stop
  else
    let lines := parts.map fun p => "\n" ++ margin ++ "  " ++ p
    start ++ String.intercalate "," lines ++ "\n" ++ margin ++ stop

/-- Members in the order of their keys. -/
def sortMembers {α : Type} (ms : List (String × α)) : List (String × α) :=
  ms.mergeSort fun a b => a.1 ≤ b.1

mutual
/-- The form with a line for each part, indented by two blanks a level, and keys in order. -/
def indented (margin : String) : Json → String
  | array items => block "[" "]" margin (indentedItems (margin ++ "  ") items)
  | object members =>
    let parts := sortMembers (indentedMembers (margin ++ "  ") members)
    block "\x7b" "\x7d" margin (parts.map fun (k, text) => quoted k ++ ": " ++ text)
  | j => compact j
def indentedItems (margin : String) : List Json → List String
  | [] => []
  | j :: js => indented margin j :: indentedItems margin js
def indentedMembers (margin : String) : List (String × Json) → List (String × String)
  | [] => []
  | (k, j) :: ms => (k, indented margin j) :: indentedMembers margin ms
end

end Json
end FeatureTables
