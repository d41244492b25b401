import SimCompiler.Command.Run

/-!
# A model of a directory

A directory with files in it, some of them in subdirectories, and the standard input. Running the
command on it shows which files it changes.
-/
namespace SimCompiler

structure Workspace where
  /-- The files by the components of their paths. -/
  files : List (List String × ByteArray) := []
  input : ByteArray := ByteArray.empty

namespace Workspace

def isFile (w : Workspace) (location : List String) : Bool := (w.files.lookup location).isSome

/-- Steps out of the workspace: to the directory around it and to the root of the file system. -/
def isOutward (component : String) : Bool := component == ".." || component == "/"

/-- A directory exists if a file is in it. The workspace itself and the directories around it always
do. -/
def isDirectory (w : Workspace) (location : List String) : Bool :=
  location.all isOutward ||
    w.files.any fun (file, _) => location.isPrefixOf file && location ≠ file

/-- The directory around a location. -/
def parent (location : List String) : List String :=
  if location.all isOutward then location ++ [".."] else location.dropLast

/-- Follows components from `current`, each of which has to lead out of a directory. -/
def follow (w : Workspace) (current : List String) : List String → Except IoFault (List String)
  | [] => .ok current
  | c :: cs =>
    if w.isFile current then .error .notADirectory
    else if !w.isDirectory current then .error .notFound
    else if c == "" || c == "." then w.follow current cs
    else if c == ".." then w.follow (parent current) cs
    else w.follow (current ++ [c]) cs

/-- Where a path starts. -/
def origin (path : String) : List String := if path.startsWith "/" then ["/"] else []

/-- What stands between the slashes of a path. -/
def components (path : String) : List String := (path.toList.splitOn '/').map String.ofList

def resolve (w : Workspace) (path : String) : Except IoFault (List String) :=
  if path.isEmpty then .error .notFound else w.follow (origin path) (components path)

def load (w : Workspace) (path : String) : Except IoFault ByteArray := do
  let location ← w.resolve path
  match w.files.lookup location with
  | some bytes => return bytes
  | none => throw (if w.isDirectory location then .isADirectory else .notFound)

/-- The components of a path without the empty ones at its end. -/
def named (path : String) : List String :=
  ((components path).reverse.dropWhile (· == "")).reverse

/-- Gives a file its content. -/
def put (w : Workspace) (location : List String) (content : ByteArray) : Workspace :=
  { w with files := (location, content) :: w.files.filter (·.1 ≠ location) }

/-- Writes a file, which is created if need be; a directory is not. A path that ends with a slash
names a directory. -/
def store (w : Workspace) (path text : String) : Except IoFault Workspace := do
  if path.isEmpty then throw .notFound
  let location ← w.follow (origin path) (named path)
  if named path ≠ components path || w.isDirectory location then throw .isADirectory
  return w.put location text.toUTF8

/-- Operations on a workspace that changes as files are written. -/
def access : FileAccess (StateM Workspace) where
  load path := do return (← get).load path
  loadInput := do return .ok (← get).input
  store path text := do
    match (← get).store path text with
    | .ok w =>
      set w
      return .ok ()
    | .error e => return .error e

end Workspace

end SimCompiler
