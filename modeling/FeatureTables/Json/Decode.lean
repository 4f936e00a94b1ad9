import FeatureTables.Json.Basic

/-!
From JSON values to values of the library. A record may be given as an object or as the list of its
fields in order; a sum as an object with the name of its case.
-/

namespace FeatureTables.Json

open Number

/-! ### Plain values -/

def asNat? (max : Nat) : Json → Option Nat
  | number (.natural n) => if n ≤ max then some n else none
  | _ => none

/-- A whole number of a word of `bits` bits with a sign. -/
def asInt? (bits : Nat) : Json → Option Int
  | number (.natural n) => if n < Nat.pow 2 (bits - 1) then some n else none
  | number (.negative n) => if n ≤ Nat.pow 2 (bits - 1) then some (-(n : Int)) else none
  | _ => none

def asReal? : Json → Option Binary64
  | number (.natural n) => some (Binary64.ofNat n)
  | number (.negative n) => some (Binary64.ofNat n).neg
  | number (.real x) => some x
  | _ => none

def asBool? : Json → Option Bool
  | bool b => some b
  | _ => none

def asString? : Json → Option String
  | string s => some s
  | _ => none

def asList? {α : Type} (f : Json → Option α) : Json → Option (List α)
  | array items => items.mapM f
  | _ => none

def asPair? {α β : Type} (f : Json → Option α) (g : Json → Option β) : Json → Option (α × β)
  | array [a, b] => do return (← f a, ← g b)
  | _ => none

/-- Null stands for nothing. -/
def asOption? {α : Type} (f : Json → Option α) : Json → Option (Option α)
  | null => some none
  | j => (f j).map some

/-! ### Maps -/

/-- Sets the value of a key: in its place if the key is there, else at the end. -/
def put {α : Type} (k : String) (v : α) : List (String × α) → List (String × α)
  | [] => [(k, v)]
  | (k', v') :: ms => if k' = k then (k, v) :: ms else (k', v') :: put k v ms

/-- An object as a map: of two members of one key the later value counts, at the place of the
first. -/
def asMap? {α : Type} (f : Json → Option α) : Json → Option (List (String × α))
  | object members => do
    let pairs ← members.mapM fun (k, j) => (f j).map fun v => (k, v)
    return pairs.foldl (fun ms (k, v) => put k v ms) []
  | _ => none

/-! ### Records -/

/-- The fields that were given, and whether they came without names. -/
structure Fields where
  given : List (String × Json)
  positional : Bool

/-- The fields of a record with these names. A name given twice is refused; one that is not of the
record is refused if `strict`, else passed over. -/
def fields? (names : List String) (strict : Bool) : Json → Option Fields
  | object members =>
    let known := members.filter fun m => names.contains m.1
    if ¬ (known.map (·.1)).Nodup ∨ (strict ∧ known.length ≠ members.length) then none
    else some ⟨known, false⟩
  | array items =>
    if names.length < items.length then none else some ⟨names.zip items, true⟩
  | _ => none

namespace Fields

/-- A field that has to be there. -/
def required {α : Type} (r : Fields) (name : String) (f : Json → Option α) : Option α :=
  (r.given.lookup name).bind f

/-- A field that may be missing where fields are named, and may be null. -/
def optional {α : Type} (r : Fields) (name : String) (f : Json → Option α) : Option (Option α) :=
  match r.given.lookup name with
  | some j => asOption? f j
  | none => if r.positional then none else some none

/-- A field with a value of its own when it is missing. -/
def defaulted {α : Type} (r : Fields) (name : String) (value : α) (f : Json → Option α) :
    Option α :=
  match r.given.lookup name with
  | some j => f j
  | none => some value

end Fields

/-! ### Sums -/

/-- The name of a case and what it holds: a text stands for a case that holds nothing. -/
def case? : Json → Option (String × Option Json)
  | string name => some (name, none)
  | object [(name, j)] => some (name, some j)
  | _ => none

/-- A case that holds nothing, or null. -/
def holdsNothing : Option Json → Bool
  | none | some null => true
  | _ => false

end FeatureTables.Json
