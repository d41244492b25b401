import SimCompiler.Command.Options
import SimCompiler.Emit.Generator
import SimCompiler.Syntax.Decode

/-!
# The compile command

Reads a program, compiles it and writes the result. Nothing is written unless everything before
succeeded. The files are reached through a record of operations, so the command can be run on the
real file system or on a model of one.
-/
namespace SimCompiler

/-- Why a file could not be read or written. -/
inductive IoFault where
  | notFound
  | isADirectory
  | notADirectory
  /-- The file is not UTF-8 text. -/
  | invalidData
  | other (message : String)
deriving DecidableEq, Repr

def IoFault.message : IoFault → String
  | .notFound => "No such file or directory"
  | .isADirectory => "Is a directory"
  | .notADirectory => "Not a directory"
  | .invalidData => "stream did not contain valid UTF-8"
  | .other message => message

inductive CommandError where
  | option (error : OptionError)
  | io (fault : IoFault)
  | compile (error : CompileError)
deriving DecidableEq, Repr

def CommandError.message : CommandError → String
  | .option error => "invalid option: " ++ error.message
  | .io fault => fault.message
  | .compile error => error.display

/-- Operations on files, in a monad `m`. -/
structure FileAccess (m : Type → Type) where
  load : String → m (Except IoFault ByteArray)
  loadInput : m (Except IoFault ByteArray)
  store : String → String → m (Except IoFault Unit)

namespace CallNode

def toJson (n : CallNode) : Json :=
  .obj [("id", .int n.id.index), ("name", .str n.name), ("contains_print", .bool n.containsPrint),
    ("contains_dynamic_index", .bool n.containsDynamicIndex),
    ("callees", .ofList (fun id => .int id.index) n.callees)]

end CallNode

def CallGraph.toJson (g : CallGraph) : Json := .obj [("nodes", .ofList CallNode.toJson g.nodes)]

/-- A program with what has been found out about it. -/
structure Program where
  source : Source
  session : Session := {}

namespace Program

/-- The text of a program. What has been found out about it is left out. -/
def write (p : Program) : String := p.source.write

/-- Reads a program, about which nothing has been found out yet. -/
def read (text : String) : Except Json.ReadFailure Program := do
  return { source := ← Source.read text }

/-- Reads a program from the text of a file. What is wrong with the text is a parse error at its
place in the file. -/
def parse (file text : String) : Result Program :=
  match read text with
  | .ok p => .ok p
  | .error e =>
    let position : Position := ⟨file, .ofNat e.line, .ofNat e.column⟩
    .error (.code ⟨.malformedTree e.problem.message, some position⟩)

end Program

namespace Options

/-- The name of the input in messages. -/
def inputName (o : Options) : String := o.input.getD "<stdin>"

/-- The result of compiling a program, which is analyzed first. -/
def compile (o : Options) (p : Program) : Result String := do
  match Session.apply p.source p.session with
  | .error e _ => throw e
  | .ok () session =>
    match o.emit with
    | .renderRequests =>
      match p.source.generate session.notes RequestLog.renderer o.project [] with
      | .error e _ => throw e
      | .ok _ log => return (Json.ofList Request.toJson log).pretty
    | .callGraph => return (← session.readCallGraph).toJson.pretty

/-- The result of compiling the text of a program. -/
def compileText (o : Options) (text : String) : Result String := do
  o.compile (← Program.parse o.inputName text)

end Options

namespace Command

/-- Text from the bytes of a file. -/
def decode (bytes : ByteArray) : Except IoFault String :=
  match String.fromUTF8? bytes with
  | some text => .ok text
  | none => .error .invalidData

/-- The output of a compilation, from the bytes of its input. -/
def output (o : Options) (input : Except IoFault ByteArray) : Except CommandError String := do
  let text ← (input.bind decode).mapError .io
  (o.compileText text).mapError .compile

/-- The bytes of the program, from the input file or the standard input. -/
def load (files : FileAccess m) (o : Options) : m (Except IoFault ByteArray) :=
  match o.input with
  | some path => files.load path
  | none => files.loadInput

/-- Writes the output to its file, if there is one, and answers what is left to print. -/
def deliver [Monad m] (files : FileAccess m) (o : Options) (text : String) :
    m (Except CommandError String) := do
  match o.output with
  | none => return .ok text
  | some path =>
    match ← files.store path text with
    | .ok () => return .ok ""
    | .error e => return .error (.io e)

/-- Runs the command. Answers the text to print, which is empty if it went to a file. -/
def run [Monad m] (files : FileAccess m) (args : List String) : m (Except CommandError String) := do
  match Options.parse args with
  | .error (.inquiry q) => return .ok q.answer
  | .error e => return .error (.option e)
  | .ok o =>
    match output o (← load files o) with
    | .error e => return .error e
    | .ok text => deliver files o text

end Command

end SimCompiler
