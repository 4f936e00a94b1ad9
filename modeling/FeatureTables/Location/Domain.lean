import FeatureTables.Text.Direction
import FeatureTables.Text.Joining
import FeatureTables.Location.Punycode
import FeatureTables.Location.Domain.Mapping

/-!
Domain names in ASCII form. A label with letters beyond ASCII is brought into the form by which names
are compared, checked, and written in ASCII letters behind the mark `xn--`; a label that has the mark
already is read and checked in the same way. If any letter of the name is written from right to left,
each label has to keep the two directions apart.
-/

namespace FeatureTables.Domain

open Text

/-! ### Labels -/

/-- A label as it is read, and as it is written in ASCII. -/
structure Label where
  text : List Char
  ascii : List Char

def isAscii (s : List Char) : Bool := s.all (·.toNat < 0x80)

/-- A character that no domain name may hold. -/
def isForbidden (c : Char) : Bool :=
  c.toNat ≤ 0x20 || c.toNat == 0x7F || "%#/:<>?@[\\]^|".toList.contains c

/-- The mark of a label in ASCII letters. -/
def codeMark : List Char := "xn--".toList

/-- What stands behind the mark, when the label has it. -/
def code? (label : List Char) : Option (List Char) := after? codeMark label

/-! ### Checks of one label -/

/-- Each character that only says how its neighbours join stands where it makes a difference: behind
a virama, or, if it parts letters, between two that join. `before` is what stands in front, last
character first. -/
def joinersFit (before : List Char) : List Char → Bool
  | [] => true
  | c :: s =>
    (match c, before with
      | '\u200c', d :: _ => isVirama d || joinsAcross before s
      | '\u200d', d :: _ => isVirama d
      | '\u200c', [] | '\u200d', [] => false
      | _, _ => true) && joinersFit (c :: before) s

/-- A label may not start with a mark, and a long one has to be ASCII. -/
def isLabel (s : List Char) : Bool :=
  !(s.head?.any isMark) && joinersFit [] s && (isAscii s || s.length ≤ 1000)

/-- The label that is written behind the mark. It must be one that has to be written so. -/
def decode? (code : List Char) : Option (List Char) :=
  if code.isEmpty ∨ code.getLast? = some '-' ∨ 2000 < code.length then none
  else (Punycode.decode? code).filter fun s =>
    isMapped s && !s.any (fun c => isForbidden c || c == '.') && isLabel s

/-! ### Reading labels -/

/-- A label with characters of ASCII only. -/
def asciiLabel? (s : List Char) : Option Label :=
  let small := s.map Char.toLower
  if small.any isForbidden then none
  else
    match code? small with
    | some code => (decode? code).map fun text => { text, ascii := small }
    | none => some { text := small, ascii := small }

/-- Small letters are all that becomes of a label without the mark. -/
theorem asciiLabel?_of_code?_eq_none {s : List Char} (h : code? (s.map Char.toLower) = none)
    (hs : ∀ c ∈ s, isForbidden c.toLower = false) :
    asciiLabel? s = some ⟨s.map Char.toLower, s.map Char.toLower⟩ := by
  have : (s.map Char.toLower).any isForbidden = false := by simpa using hs
  simp [asciiLabel?, this, h]

/-- A label in the form by which names are compared. -/
def mappedLabel? (s : List Char) : Option Label :=
  let written (text : List Char) : Label :=
    { text, ascii := if isAscii text then text else codeMark ++ Punycode.encode text }
  match code? s with
  | some code => if isAscii s then (decode? code).map written else none
  | none => if isLabel s then some (written s) else none

/-- A label with any characters. It may be several, since some characters become dots. -/
def wideLabels? (s : List Char) : Option (List Label) := do
  let mapped ← mapText? s
  if mapped.any isForbidden then none
  else (pieces ['.'] mapped).mapM mappedLabel?

def labels? (s : List Char) : Option (List Label) :=
  if isAscii s then (asciiLabel? s).map fun label => [label] else wideLabels? s

/-! ### Directions -/

/-- Without the marks at the end. -/
def withoutMarks (ds : List Direction) : List Direction :=
  (ds.reverse.dropWhile (· == .mark)).reverse

/-- Behind a first letter from left to right: nothing from right to left, and at the end a letter or
a number. -/
def leftTail (ds : List Direction) : Bool :=
  match ds.getLast? with
  | none => true
  | some last =>
    [.left, .europeanNumber].contains last &&
      ds.all fun d => [.left, .europeanNumber, .neutral, .mark].contains d

/-- Behind a first letter from right to left: nothing from left to right, at the end a letter or a
number, and numbers of one kind only. -/
def rightTail (ds : List Direction) : Bool :=
  match ds.getLast? with
  | none => true
  | some last =>
    [.right, .europeanNumber, .arabicNumber].contains last &&
      !ds.contains .left && !(ds.contains .europeanNumber && ds.contains .arabicNumber)

/-- The label keeps the directions apart. -/
def keepsDirections (s : List Char) : Bool :=
  match s.map direction with
  | [] => true
  | .left :: ds => leftTail (withoutMarks ds)
  | .right :: ds => rightTail (withoutMarks ds)
  | _ => false

/-- Directions matter as soon as one character is written from right to left. -/
def hasRightward (s : List Char) : Bool :=
  !isAscii s && s.any fun c => (direction c).IsRightward

/-! ### Names -/

/-- The ASCII form of a domain name. -/
def toAscii? (s : String) : Option String := do
  let labels := (← (pieces ['.'] s.toList).mapM labels?).flatten
  if labels.any (hasRightward ·.text) ∧ !labels.all (keepsDirections ·.text) then none
  let text := String.intercalate "." (labels.map (String.ofList ·.ascii))
  if text = "" then none else some text

end FeatureTables.Domain
