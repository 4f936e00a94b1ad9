import FeatureTables.Text.Blank
import FeatureTables.Text.Pieces

/-!
Tables that give values to ranges of characters. They are written as text, in words such as
`300-314=E6`: the numbers of the first and the last character of a range, and behind the sign the
value that they share. All numbers have hexadecimal digits, ranges rise and do not meet, and a range
of one character is written with one number. A look-up halves the table until the range is found.
-/

namespace FeatureTables.Text

/-! ### Numbers -/

/-- The value of one of the digits `0` to `9` and `A` to `F`. -/
def hexDigit (c : Char) : Nat := if c.isDigit then c.toNat - 48 else c.toNat - 55

/-- The number that digits write, the first one the most significant. -/
def hexNumber (s : List Char) : Nat := s.foldl (fun n c => n * 16 + hexDigit c) 0

/-! ### Ranges -/

/-- The characters with numbers from `first` to `last`, and what they have in common. -/
structure Span (α : Type) where
  first : Nat
  last : Nat
  value : α

/-- The number belongs to the range. -/
def Span.Covers {α : Type} (s : Span α) (n : Nat) : Prop := s.first ≤ n ∧ n ≤ s.last

instance {α : Type} (s : Span α) (n : Nat) : Decidable (s.Covers n) :=
  inferInstanceAs (Decidable (_ ∧ _))

/-- The range that a word writes, its value read by `value`. -/
def Span.ofWord {α : Type} (value : List Char → α) (word : List Char) : Span α :=
  let (range, text) := (cutAt? (· == '=') word).getD (word, [])
  let (first, last) := (cutAt? (· == '-') range).getD (range, range)
  { first := hexNumber first, last := hexNumber last, value := value text }

/-! ### Tables -/

structure CharTable (α : Type) where
  spans : Array (Span α)

namespace CharTable

variable {α : Type}

/-- The table that a text writes, the values read by `value`. -/
def ofText (value : List Char → α) (text : String) : CharTable α :=
  ⟨((wordsFrom [] text.toList).map (Span.ofWord value)).toArray⟩

/-- The range among those from `lo` to before `hi` that the number belongs to. -/
def search (spans : Array (Span α)) (n lo hi : Nat) (hhi : hi ≤ spans.size) : Option (Span α) :=
  if h : lo < hi then
    let mid := lo + (hi - lo) / 2
    have : mid < spans.size := by omega
    if spans[mid].Covers n then some spans[mid]
    else if spans[mid].last < n then search spans n (mid + 1) hi hhi
    else search spans n lo mid (by omega)
  else none
termination_by hi - lo

/-- A range that is found is one of the table's, and the number belongs to it. -/
theorem mem_and_covers_of_search {spans : Array (Span α)} {n lo hi : Nat} {hhi : hi ≤ spans.size}
    {s : Span α} (h : search spans n lo hi hhi = some s) : s ∈ spans ∧ s.Covers n := by
  fun_induction search spans n lo hi hhi with
  | case1 lo hi hhi hlt mid hmid hcovers =>
    cases h
    exact ⟨Array.getElem_mem hmid, hcovers⟩
  | case2 lo hi hhi hlt mid hmid hcovers hless ih => exact ih h
  | case3 lo hi hhi hlt mid hmid hcovers hless ih => exact ih h
  | case4 => cases h

/-- The range of a character. -/
def span? (t : CharTable α) (c : Char) : Option (Span α) :=
  search t.spans c.toNat 0 t.spans.size (Nat.le_refl _)

theorem covers_of_span? {t : CharTable α} {c : Char} {s : Span α} (h : t.span? c = some s) :
    s.Covers c.toNat :=
  (mem_and_covers_of_search h).2

/-- The value of a character, if the table gives one. -/
def get? (t : CharTable α) (c : Char) : Option α := (t.span? c).map Span.value

/-- The table has the character; for tables without values. -/
def contains (t : CharTable α) (c : Char) : Bool := (t.span? c).isSome

end CharTable
end FeatureTables.Text
