import FeatureTables.Text.Pieces

/-!
Labels of domain names in ASCII letters. The characters beyond ASCII are taken out of the label and
written behind its other characters, in the order of their numbers: for each one, how many places and
numbers lie between it and the one before. These distances are numbers whose digits have weights that
follow the sizes of the distances so far.
-/

namespace FeatureTables.Punycode

open Text

/-! ### Weights -/

/-- Divides a delta until it is small; with each step the bias grows by the base. -/
def shrinkDelta (delta bias : Nat) : Nat × Nat :=
  if 455 < delta then shrinkDelta (delta / 35) (bias + 36) else (delta, bias)
termination_by delta
decreasing_by omega

/-- Adapts the bias of the variable-length digits after each delta. -/
def adapt (delta points : Nat) (first : Bool) : Nat :=
  let d := if first then delta / 700 else delta / 2
  let (d, bias) := shrinkDelta (d + d / points) 0
  bias + 36 * d / (d + 38)

/-- The least value of the digit at a weight that is not the last one. -/
def threshold (bias k : Nat) : Nat :=
  if k ≤ bias then 1 else if bias + 26 ≤ k then 26 else k - bias

theorem threshold_pos (bias k : Nat) : 1 ≤ threshold bias k := by
  unfold threshold
  split
  · omega
  · split <;> omega

/-- The bias before the first delta. -/
def firstBias : Nat := 72

/-- The least number of a character beyond ASCII. -/
def firstNumber : Nat := 0x80

/-! ### Digits -/

/-- The digit of a value below 36. -/
def digit (n : Nat) : Char := if n < 26 then Char.ofNat (97 + n) else Char.ofNat (22 + n)

def digitValue? (c : Char) : Option Nat :=
  if c.isLower then some (c.toNat - 97) else if c.isDigit then some (c.toNat - 22) else none

/-- A digit is read as the value that it was written for. -/
theorem digitValue?_digit {n : Nat} (h : n < 36) : digitValue? (digit n) = some n := by
  have all : ∀ m ∈ List.range 36, digitValue? (digit m) = some m := by decide
  exact all n (List.mem_range.2 h)

/-! ### Writing -/

/-- A delta in digits whose weights depend on the bias. -/
def deltaText (bias q k : Nat) : List Char :=
  let t := threshold bias k
  if q < t then [digit q]
  else digit (t + (q - t) % (36 - t)) :: deltaText bias ((q - t) / (36 - t)) (k + 36)
termination_by q
decreasing_by
  have := threshold_pos bias k
  have := Nat.div_le_self (q - threshold bias k) (36 - threshold bias k)
  omega

/-- State while the characters beyond ASCII are written, in the order of their numbers. -/
structure Writing where
  delta : Nat := 0
  bias : Nat := firstBias
  done : Nat
  first : Bool := true
  out : List Char

/-- One pass over the label for the characters with number `n`. -/
def Writing.pass (label : List Char) (w : Writing) (n : Nat) : Writing :=
  label.foldl (fun w c =>
    if c.toNat < n then { w with delta := w.delta + 1 }
    else if c.toNat = n then
      { delta := 0, bias := adapt w.delta (w.done + 1) w.first, done := w.done + 1, first := false,
        out := w.out ++ deltaText w.bias w.delta 36 }
    else w) w

/-- The numbers beyond ASCII of the characters of a label, in rising order. -/
def numbers (label : List Char) : List Nat :=
  ((label.map Char.toNat).filter (firstNumber ≤ ·)).eraseDups.mergeSort

def encode (label : List Char) : List Char :=
  let plain := label.filter (·.toNat < firstNumber)
  let start := if plain.isEmpty then [] else plain ++ ['-']
  let (w, _) := (numbers label).foldl (fun ((w, least) : Writing × Nat) n =>
    let w := Writing.pass label { w with delta := w.delta + (n - least) * (w.done + 1) } n
    ({ w with delta := w.delta + 1 }, n + 1))
    ({ done := plain.length, out := start : Writing }, firstNumber)
  w.out

/-! ### Reading -/

/-- Sums and weights stay below this number. -/
def limit : Nat := Nat.pow 2 32

/-- Adds the delta at the start of the text to `sum`, and gives what follows it. -/
def addDelta? (bias k weight sum : Nat) : List Char → Option (Nat × List Char)
  | [] => none
  | c :: s => do
    let value ← digitValue? c
    let sum := sum + value * weight
    let t := threshold bias k
    if limit ≤ sum then none
    else if value < t then some (sum, s)
    else if limit ≤ weight * (36 - t) then none
    else addDelta? bias (k + 36) (weight * (36 - t)) sum s

theorem addDelta?_length {bias k weight sum : Nat} {s : List Char} {r : Nat × List Char}
    (h : addDelta? bias k weight sum s = some r) : r.2.length < s.length := by
  induction s generalizing k weight sum with
  | nil => simp [addDelta?] at h
  | cons c s ih =>
    simp only [addDelta?, Option.bind_eq_bind, Option.bind_eq_some_iff] at h
    obtain ⟨value, _, h⟩ := h
    split at h
    · cases h
    · split at h
      · cases h; simp
      · split at h
        · cases h
        · have := ih h; simp; omega

/-- The character with a number, if there is one. -/
def char? (n : Nat) : Option Char := if n.isValidChar then some (Char.ofNat n) else none

/-- Puts the characters that deltas tell into `out`. The next one has at least the number `n`, and if
it has this number, it stands at `place` or later. -/
def insertAll? (bias n place : Nat) (out s : List Char) : Option (List Char) :=
  match s with
  | [] => some out
  | c :: r =>
    match _h : addDelta? bias 36 1 place (c :: r) with
    | none => none
    | some (sum, rest) => do
      let count := out.length + 1
      let n := n + sum / count
      let x ← char? n
      insertAll? (adapt (sum - place) count (place == 0)) n (sum % count + 1)
        (out.insertIdx (sum % count) x) rest
termination_by s.length
decreasing_by exact addDelta?_length _h

/-- The label that small letters and digits write: what stands before the last hyphen are its
characters of ASCII. -/
def decode? (s : List Char) : Option (List Char) :=
  match cutAt? (· == '-') s.reverse with
  | some (back, plain) =>
    if plain.isEmpty then none else insertAll? firstBias firstNumber 0 plain.reverse back.reverse
  | none => insertAll? firstBias firstNumber 0 [] s

end FeatureTables.Punycode
