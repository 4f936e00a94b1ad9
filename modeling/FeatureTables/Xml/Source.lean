import FeatureTables.Files
import FeatureTables.Xml.Document

/-!
Documents in files.
-/

namespace FeatureTables

variable {m : Type → Type} [Monad m] [FileAccess m]

/-- What a file holds. -/
def readFile (path : String) : ExceptT Error m Bytes := do
  match ← (FileAccess.read path : m (Except FileFault Bytes)) with
  | .ok bytes => return bytes
  | .error e => throw (.resource ("Failed to read file '" ++ path ++ "': " ++ e.message))

def Xml.Document.ofFile (limits : Limits) (path : String) : ExceptT Error m Xml.Document := do
  Xml.Document.parse limits (← readFile path)

end FeatureTables
