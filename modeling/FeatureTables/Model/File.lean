import FeatureTables.Error
import FeatureTables.Json.Reader
import FeatureTables.Model.Data
import FeatureTables.Number.Integer
import FeatureTables.Sha256
import FeatureTables.Text.Blank
import FeatureTables.Xml.Source

/-!
Model files: a line that tells what the file is, one with the version of the format, one with the key
of the source, and the model as JSON. A directory keeps one file for each key.
-/

namespace FeatureTables.ModelFile

open Number Text

/-! ### Writing -/

def magic : String := "GMLAS-MODEL"

def version : Nat := 1

/-- A key on one line. -/
def keyLine (key : String) : String := replace "\n" " " key

def write (key : String) (m : Model) : String :=
  magic ++ "\n" ++ toString version ++ "\n" ++ keyLine key ++ "\n" ++ m.toJson.compact

/-! ### Reading -/

/-- The bytes of the first line, with its end, and the rest. -/
def cutLine (bs : Bytes) : Bytes × Bytes :=
  match bs.span (· != 10) with
  | (line, []) => (line, [])
  | (line, b :: rest) => (line ++ [b], rest)

/-- The first line as text, and the rest. -/
def line (bs : Bytes) : Except Error (String × Bytes) :=
  let (line, rest) := cutLine bs
  match fromUtf8? line with
  | some text => .ok (text, rest)
  | none => .error (.files "stream did not contain valid UTF-8")

/-- A text without blanks at its end. -/
def withoutEnd (s : String) : String := String.ofList (trimEnd s.toList)

/-- A line without its end. -/
def content (line : String) : String :=
  String.ofList (line.toList.reverse.dropWhile fun c => c == '\r' || c == '\n').reverse

/-- The model of a file that was written for this key. -/
def read (key : String) (bs : Bytes) : Except Error Model := do
  let (first, bs) ← line bs
  if withoutEnd first ≠ magic then throw (.modelFile .badMagic)
  let (second, bs) ← line bs
  match readNat? (Nat.pow 2 32 - 1) (trim second) with
  | none => throw (.modelFile (.badVersion (trim second)))
  | some n => if version < n then throw (.modelFile (.newerVersion n version))
  let (third, bs) ← line bs
  if content third ≠ keyLine key then throw (.modelFile (.otherKey (withoutEnd third)))
  match ((fromUtf8? bs).bind Json.read?).bind Model.ofJson? with
  | some m => return m
  | none => throw (.modelFile .payload)

/-! ### Directories of model files -/

/-- The file of a key. -/
def pathFor (dir key : String) : String := Path.join dir (Sha256.ofText key ++ ".gmlas")

variable {m : Type → Type} [Monad m] [FileAccess m]

/-- The model that is kept for a key, if there is one. -/
def load? (dir key : String) : ExceptT Error m (Option Model) := do
  match ← (FileAccess.read (pathFor dir key) : m (Except FileFault Bytes)) with
  | .ok bytes => some <$> (read key bytes : ExceptT Error m Model)
  | .error .missing => return none
  | .error e => throw (.files e.message)

/-- Keeps a model for a key; returns the file. -/
def store (dir key : String) (model : Model) : ExceptT Error m String := do
  let path := pathFor dir key
  let check (r : Except FileFault Unit) : ExceptT Error m Unit :=
    match r with
    | .ok () => return ()
    | .error e => throw (.files e.message)
  check (← (FileAccess.makeDirectories dir : m (Except FileFault Unit)))
  check (← (FileAccess.write path (utf8 (write key model)) : m (Except FileFault Unit)))
  return path

end FeatureTables.ModelFile
