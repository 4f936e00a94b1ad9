/-!
Text as bytes: UTF-8 read character by character, with the places that are no character of it kept
apart, so that a strict and a lenient reading are views of one list.
-/

namespace FeatureTables

abbrev Bytes := List UInt8

namespace Text

/-- The byte of an ASCII character. -/
def byte (c : Char) : UInt8 := c.toNat.toUInt8

/-- The bytes of a text. -/
def utf8 (s : String) : Bytes := s.toUTF8.data.toList

/-! ### One character -/

/-- What a first byte says of its character: how many bytes follow, the range of the next byte, and
the bits that it brings itself. -/
def lead? (b : UInt8) : Option (Nat × UInt8 × UInt8 × Nat) :=
  if b < 0x80 then some (0, 0x80, 0xBF, b.toNat)
  else if b < 0xC2 then none
  else if b < 0xE0 then some (1, 0x80, 0xBF, b.toNat - 0xC0)
  else if b = 0xE0 then some (2, 0xA0, 0xBF, 0)
  else if b = 0xED then some (2, 0x80, 0x9F, 0xD)
  else if b < 0xF0 then some (2, 0x80, 0xBF, b.toNat - 0xE0)
  else if b = 0xF0 then some (3, 0x90, 0xBF, 0)
  else if b < 0xF4 then some (3, 0x80, 0xBF, b.toNat - 0xF0)
  else if b = 0xF4 then some (3, 0x80, 0x8F, 4)
  else none

/-- Reads the bytes that follow a first byte; the rest starts at the first byte that does not
continue the character. -/
def continuation : Nat → UInt8 → UInt8 → Nat → Bytes → Option Nat × Bytes
  | 0, _, _, acc, bs => (some acc, bs)
  | _ + 1, _, _, _, [] => (none, [])
  | n + 1, low, high, acc, b :: bs =>
    if low ≤ b ∧ b ≤ high then continuation n 0x80 0xBF (acc * 64 + (b.toNat - 0x80)) bs
    else (none, b :: bs)

theorem continuation_length (n : Nat) (low high : UInt8) (acc : Nat) (bs : Bytes) :
    (continuation n low high acc bs).2.length ≤ bs.length := by
  induction n generalizing low high acc bs with
  | zero => simp [continuation]
  | succ n ih =>
    cases bs with
    | nil => simp [continuation]
    | cons b bs =>
      unfold continuation
      split
      · exact Nat.le_succ_of_le (ih ..)
      · simp

/-! ### The whole text -/

/-- The characters of the bytes, with `none` for each longest start of a character that breaks off
and for each byte that starts none. -/
def units (bs : Bytes) : List (Option Char) :=
  match bs with
  | [] => []
  | b :: r =>
    match lead? b with
    | none => none :: units r
    | some (n, low, high, acc) =>
      let c := continuation n low high acc r
      c.1.map Char.ofNat :: units c.2
termination_by bs.length
decreasing_by
  · simp
  · exact Nat.lt_succ_of_le (continuation_length ..)

/-- The text, if every byte belongs to a character. -/
def fromUtf8? (bs : Bytes) : Option String :=
  ((units bs).mapM id).map String.ofList

/-- The text with U+FFFD in place of what is no character. -/
def fromUtf8Lossy (bs : Bytes) : String :=
  String.ofList ((units bs).map fun u => u.getD '\ufffd')

/-- How many bytes the start of `bs` has that is sound UTF-8. -/
def soundLength (bs : Bytes) : Nat :=
  (((units bs).takeWhile Option.isSome).filterMap id).foldl (fun n c => n + c.utf8Size) 0

end Text
end FeatureTables
