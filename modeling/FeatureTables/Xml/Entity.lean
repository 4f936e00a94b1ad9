import FeatureTables.Text.Pieces

/-!
References in text and attribute values: the five named characters and the characters given by
number.
-/

namespace FeatureTables.Xml

open Text

/-! ### One reference -/

/-- The value of a digit to a base up to sixteen. -/
def digit? (base : Nat) (c : Char) : Option Nat :=
  let n := c.toNat
  let v? :=
    if 48 ≤ n ∧ n ≤ 57 then some (n - 48)
    else if 97 ≤ n ∧ n ≤ 102 then some (n - 87)
    else if 65 ≤ n ∧ n ≤ 70 then some (n - 55)
    else none
  v?.filter (· < base)

/-- The number that digits write; no digits write zero. -/
def numeral? (base : Nat) (ds : List Char) : Option Nat :=
  ds.foldlM (fun acc c => (digit? base c).map (acc * base + ·)) 0

/-- The character of a number written in at most `width` digits; zero has none. -/
def numbered? (base width : Nat) (ds : List Char) : Option Char :=
  if width < ds.length then none
  else match numeral? base ds with
    | some n => if n ≠ 0 ∧ n.isValidChar then some (Char.ofNat n) else none
    | none => none

/-- The character that a reference stands for. -/
def reference? : List Char → Option Char
  | '#' :: 'x' :: ds => numbered? 16 6 ds
  | '#' :: ds => numbered? 10 7 ds
  | name =>
    [("lt", '<'), ("gt", '>'), ("amp", '&'), ("apos", '\x27'), ("quot", '\x22')].lookup
      (String.ofList name)

/-! ### The whole text -/

/-- The name of a reference up to its semicolon, and the rest; `none` when another reference or the
end comes first. -/
def referenceName? : List Char → Option (List Char × List Char)
  | [] => none
  | c :: s =>
    if c = ';' then some ([], s)
    else if c = '&' then none
    else (referenceName? s).map fun (name, r) => (c :: name, r)

theorem referenceName?_length {s name r : List Char} (h : referenceName? s = some (name, r)) :
    r.length < s.length := by
  induction s generalizing name with
  | nil => simp [referenceName?] at h
  | cons c s ih =>
    unfold referenceName? at h
    split at h
    · simp only [Option.some.injEq, Prod.mk.injEq] at h
      simp [h.2]
    · split at h
      · simp at h
      · obtain ⟨⟨n, r'⟩, hs, hr⟩ := Option.map_eq_some_iff.1 h
        simp only [Prod.mk.injEq] at hr
        exact Nat.lt_succ_of_lt (ih (hr.2 ▸ hs))

/-- The text with its references replaced. -/
def expand (s : List Char) : Except String (List Char) :=
  match s with
  | [] => .ok []
  | c :: t =>
    if c = '&' then
      match _h : referenceName? t with
      | none => .error "reference without a semicolon"
      | some (name, r) =>
        match reference? name with
        | none => .error ("unknown reference " ++ String.ofList name)
        | some x => (expand r).map (x :: ·)
    else (expand t).map (c :: ·)
termination_by s.length
decreasing_by
  · exact Nat.lt_succ_of_lt (referenceName?_length _h)
  · simp

end FeatureTables.Xml
