import SimCompiler.Command.Run

/-!
# The command line program

Runs the compile command on the real file system.
-/
namespace SimCompiler

private def ioFault : IO.Error → IoFault
  | .noFileOrDirectory .. => .notFound
  | e => .other (toString e)

private def guarded (x : IO α) : IO (Except IoFault α) := do
  match ← x.toBaseIO with
  | .ok a => return .ok a
  | .error e => return .error (ioFault e)

private partial def readAll (stream : IO.FS.Stream) (done : ByteArray) : IO ByteArray := do
  let bytes ← stream.read 65536
  if bytes.isEmpty then return done else readAll stream (done ++ bytes)

/-- The real file system and the standard input. -/
def realFiles : FileAccess IO where
  load path := guarded (IO.FS.readBinFile path)
  loadInput := guarded do readAll (← IO.getStdin) ByteArray.empty
  store path text := guarded (IO.FS.writeFile path text)

end SimCompiler

open SimCompiler in
def main (args : List String) : IO UInt32 := do
  match ← Command.run realFiles args with
  | .ok text =>
    IO.print text
    return 0
  | .error e =>
    IO.eprintln e.message
    return 1
