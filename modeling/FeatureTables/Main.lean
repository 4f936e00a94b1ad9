import FeatureTables.Command

/-!
The command line: the command with the files of the system.
-/

namespace FeatureTables

/-- What an error of the system means for a file. -/
def faultOf : IO.Error → FileFault
  | .noFileOrDirectory .. => .missing
  | .inappropriateType _ code _ =>
    if code = 21 then .isDirectory else .notDirectory
  | .alreadyExists .. => .occupied
  | .invalidArgument _ 36 _ => .tooLong
  | .permissionDenied _ code _ =>
    .other ("Permission denied (os error " ++ toString code ++ ")")
  | e => .other (toString e)

/-- Does something with a path that the system can take. -/
def attempt {α : Type} (path : String) (action : IO α) : IO (Except FileFault α) := do
  if path.toList.contains '\x00' then return .error .zeroByte
  try
    return .ok (← action)
  catch e =>
    return .error (faultOf e)

instance : FileAccess IO where
  read path := attempt path do return (← IO.FS.readBinFile path).data.toList
  write path bytes := attempt path (IO.FS.writeBinFile path (ByteArray.mk bytes.toArray))
  makeDirectories path := attempt path (IO.FS.createDirAll path)
  exists? path := do return (← attempt path (IO.FS.realPath path)).toOption.isSome
  canonical? path := do return ((← attempt path (IO.FS.realPath path)).map toString).toOption

end FeatureTables

open FeatureTables in
def main (args : List String) : IO UInt32 := do
  let o ← Command.run args
  (← IO.getStdout).putStr o.out
  (← IO.getStderr).putStr o.err
  return o.exit.toUInt32
