/-!
# Command line options

`--emit KIND`, `--output FILE` (or `-o FILE`) and `--module NAME`, each at most once, and at most
one input file. A value may be attached with `=`. After `--` everything is an input file. With
`--help` (or `-h`) and `--version` (or `-V`) the command is asked about itself.
-/
namespace SimCompiler

/-- What the command writes. -/
inductive EmitKind where
  | renderRequests
  | callGraph
deriving DecidableEq, Repr, Inhabited

namespace EmitKind

def all : List EmitKind := [.renderRequests, .callGraph]

def render : EmitKind → String
  | .renderRequests => "render-requests"
  | .callGraph => "call-graph"

def ofString? (s : String) : Option EmitKind := all.find? (·.render == s)

def unknownMessage (s : String) : String := "Unknown emit option: `" ++ s ++ "`"

end EmitKind

structure Options where
  emit : EmitKind := .renderRequests
  /-- Without an input file the program is read from the standard input. -/
  input : Option String := none
  /-- Without an output file the result is printed. -/
  output : Option String := none
  /-- The name of the generated project. -/
  project : String := "main"
deriving DecidableEq, Repr, Inhabited

/-- What the command can be asked about itself. -/
inductive Inquiry where
  | help
  | version
deriving DecidableEq, Repr, Inhabited

namespace Inquiry

def all : List Inquiry := [.help, .version]

def name : Inquiry → String
  | .help => "help"
  | .version => "version"

def letter : Inquiry → Char
  | .help => 'h'
  | .version => 'V'

def title : String := "ffslc 0.1.0"

def answer : Inquiry → String
  | .version => title ++ "\n"
  | .help => String.join <| [
      title,
      "",
      "USAGE:",
      "    ffslc [OPTIONS] [INPUT]",
      "",
      "FLAGS:",
      "    -h, --help       Prints help information",
      "    -V, --version    Prints version information",
      "",
      "OPTIONS:",
      "        --emit <emit>         [possible values: render-requests, call-graph]",
      "        --module <module>    Names the generated project",
      "    -o, --output <output>    Writes the output to this file instead of stdout",
      "",
      "ARGS:",
      "    <INPUT>    Sets the syntax tree (JSON) to compile"].map (· ++ "\n")

end Inquiry

/-- Why arguments ask for no compilation. -/
inductive OptionError where
  /-- Not a failure: the command has an answer. -/
  | inquiry (q : Inquiry)
  | unknownOption (arg : String)
  | missingValue (option : String)
  | repeated (option : String)
  | unexpectedArgument (arg : String)
  | unknownEmitKind (value : String)
deriving DecidableEq, Repr

def OptionError.message : OptionError → String
  | .inquiry q => q.answer
  | .unknownOption arg => "unknown option " ++ arg
  | .missingValue option => "option --" ++ option ++ " needs a value"
  | .repeated option => "option --" ++ option ++ " is given twice"
  | .unexpectedArgument arg => "unexpected argument " ++ arg
  | .unknownEmitKind value => EmitKind.unknownMessage value

namespace Options

/-- The options that take a value. -/
inductive Setting where
  | emit
  | output
  | project
deriving DecidableEq, Repr

namespace Setting

def name : Setting → String
  | .emit => "emit"
  | .output => "output"
  | .project => "module"

def ofName? (name : String) : Option Setting :=
  [Setting.emit, .output, .project].find? (·.name == name)

def ofLetter? (c : Char) : Option Setting := if c == 'o' then some .output else none

end Setting

/-- What an option is called by. -/
inductive Label where
  | name (s : String)
  | letter (c : Char)
deriving DecidableEq, Repr

namespace Label

def setting? : Label → Option Setting
  | .name s => Setting.ofName? s
  | .letter c => Setting.ofLetter? c

def inquiry? : Label → Option Inquiry
  | .name s => Inquiry.all.find? (·.name == s)
  | .letter c => Inquiry.all.find? (·.letter == c)

/-- Divides an option into its label and the text behind that: `--name`, `--name=value`, `-x`,
`-xvalue` or `-x=value`. -/
def divide? (arg : String) : Option (Label × List Char) := do
  let body := arg.toList.dropWhile (· == '-')
  if arg.toList.take 2 == ['-', '-'] then
    return (.name (String.ofList (body.takeWhile (· != '='))), body.dropWhile (· != '='))
  else
    return (.letter (← body.head?), body.tail)

end Label

/-- The arguments as they were given. -/
structure Given where
  settings : List (Setting × String) := []
  input : Option String := none

def Given.set (g : Given) (s : Setting) (value : String) : Except OptionError Given :=
  if (g.settings.lookup s).isSome then .error (.repeated s.name)
  else .ok { g with settings := g.settings ++ [(s, value)] }

def Given.setInput (g : Given) (arg : String) : Except OptionError Given :=
  if g.input.isSome then .error (.unexpectedArgument arg) else .ok { g with input := some arg }

/-- Whether an argument is an option. A dash alone is not. -/
def isOption (arg : String) : Bool :=
  match arg.toList with
  | ['-'] => false
  | '-' :: _ => true
  | _ => false

/-- An option and the value attached to it, if there is one. -/
structure Mention where
  setting : Setting
  attached : Option String

def Mention.ofArg? (arg : String) : Option Mention := do
  let (label, value) ← Label.divide? arg
  return ⟨← label.setting?, if value.isEmpty then none else some (trimmed value)⟩
where
  /-- The equals signs in front of a value do not belong to it. -/
  trimmed (value : List Char) : String := String.ofList (value.dropWhile (· == '='))

def inquiryOf? (arg : String) : Option Inquiry := do (← Label.divide? arg).1.inquiry?

/-- The first inquiry among the arguments. An option that does not exist or an input file too many
ends the search, but not a value that is missing or given twice. The option in front may still be
`awaiting` its value, and there may be an `input` file already. -/
def findInquiry? (awaiting input : Bool) : List String → Option Inquiry
  | [] => none
  | "--" :: _ => none
  | arg :: rest =>
    if isOption arg then
      match inquiryOf? arg, Mention.ofArg? arg with
      | some q, _ => some q
      | none, some m => findInquiry? m.attached.isNone input rest
      | none, none => none
    else if awaiting then findInquiry? false input rest
    else if input then none
    else findInquiry? false true rest

/-- Adds arguments from the left. -/
def Given.addAll (g : Given) : List String → Except OptionError Given
  | [] => .ok g
  | "--" :: rest => rest.foldlM Given.setInput g
  | arg :: rest =>
    if isOption arg then
      match Mention.ofArg? arg, rest with
      | none, _ => .error (.unknownOption arg)
      | some ⟨s, some value⟩, rest => do (← g.set s value).addAll rest
      | some ⟨s, none⟩, [] => .error (.missingValue s.name)
      | some ⟨s, none⟩, value :: rest => do
        if isOption value then throw (.missingValue s.name)
        (← g.set s value).addAll rest
    else do (← g.setInput arg).addAll rest

/-- The last component of a path, if it names a file. -/
def fileName? (path : String) : Option String :=
  match (path.splitOn "/").filter (fun c => !(c == "" || c == ".")) |>.getLast? with
  | some ".." => none
  | name => name

/-- A file name without its last extension. A dot at the front does not start an extension. -/
def stem (name : String) : String :=
  let parts := name.splitOn "."
  match parts with
  | [_] | ["", _] => name
  | _ => ".".intercalate parts.dropLast

/-- The options that were asked for. The project is named for the input file unless it is named
expressly. -/
def Given.options (given : Given) : Except OptionError Options := do
  let emit ← match given.settings.lookup .emit with
    | none => pure EmitKind.renderRequests
    | some value =>
      match EmitKind.ofString? value with
      | some kind => pure kind
      | none => throw (.unknownEmitKind value)
  let fromInput := (given.input.bind fileName?).map stem
  return {
    emit
    input := given.input
    output := given.settings.lookup .output
    project := ((given.settings.lookup .project).or fromInput).getD "main" }

def parse (args : List String) : Except OptionError Options :=
  match findInquiry? false false args with
  | some q => .error (.inquiry q)
  | none => do (← ({} : Given).addAll args).options

end Options

end SimCompiler
