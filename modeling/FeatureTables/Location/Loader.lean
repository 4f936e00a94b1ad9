import FeatureTables.Location.Redirection

/-!
Loading what stands at a location: a file, after a catalog had its say. There is no access to the
network, so that a URL has to be mapped to a file.
-/

namespace FeatureTables

structure Loader where
  limits : Limits := {}
  allowRemote : Bool := true
  /-- How often a failed download is tried again. -/
  retries : Nat := 2
  redirection : Redirection := {}
  /-- Nothing is to be loaded any more. -/
  cancelled : Bool := false

namespace Loader

variable {m : Type → Type} [Monad m] [FileAccess m]

/-- Loads what stands at just this location. -/
def loadDirect (l : Loader) (location : Location) : ExceptT Error m Bytes := do
  let bytes ← match location with
    | .path p => readFile p
    | .url u =>
      if l.allowRemote then
        throw (.resource ("Failed to download '" ++ u.toText ++ "' after "
          ++ toString (l.retries + 1) ++ " attempts: no network"))
      else throw (.resource ("Remote resources are not allowed: " ++ u.toText))
    | .name s => throw (.resource ("No loader for in-memory resource '" ++ s ++ "'"))
  l.limits.checkSize bytes.length
  return bytes

def load (l : Loader) (location : Location) : ExceptT Error m Bytes := do
  if l.cancelled then throw .cancelled
  l.loadDirect ((l.redirection.resolve? location.toText).getD location)

def loadText (l : Loader) (location : Location) : ExceptT Error m String := do
  match Text.fromUtf8? (← l.load location) with
  | some text => return text
  | none =>
    throw (.resource ("'" ++ location.toText ++ "' is not valid UTF-8: invalid utf-8 sequence"))

end Loader
end FeatureTables
