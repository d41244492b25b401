import SimCompiler.Json.Skip

/-!
# Reading a document of a given form

A schema says what a document may look like. Its nodes are records and choices. A record is written
as an object, in any order of fields and with unknown fields skipped, or as a list of all its fields
in order. A choice is an object with one field, whose name says which node follows. Reading gives
the document in normal form: objects only, all fields present and in order.
-/
namespace SimCompiler.Json

/-- What a field of a record holds, when nodes are named by a `κ`. -/
inductive Field (κ : Type) where
  | scalar (kind : Scalar)
  | node (kind : κ)
  /-- A node or `null`; the field may be left out. -/
  | optional (kind : κ)
  | list (kind : κ)
deriving DecidableEq, Repr

inductive Shape (κ : Type) where
  | record (name : String) (fields : List (String × Field κ))
  | choice (variants : List (String × κ))
deriving DecidableEq, Repr

abbrev Schema (κ : Type) := κ → Shape κ

namespace Reader

/-- Reads one node of a schema. -/
abbrev NodeReader (κ : Type) := κ → Reader Json

/-- A bracket opens a further level of nesting, at most `depth` of which are left. -/
def openBracket (depth : Nat) : Reader Unit :=
  if depth ≤ 1 then failAt (.grammar .nestedTooDeep) else skip

/-- The elements of a list up to its closing bracket. -/
def elements (element : Reader Json) : (rounds : Nat) → (first : Bool) → Reader (List Json)
  | 0, _ => pure []
  | rounds + 1, first => do
    if ← nextElement first then
      let j ← element
      return j :: (← elements element rounds false)
    else return []

/-- A list, when `depth` levels of nesting are left. -/
def list (depth : Nat) (element : Reader Json) : Reader Json := placed do
  match ← peekToken with
  | none => failAt (.unfinished .value)
  | some '[' =>
    openBracket depth
    return .arr (← enclosed (do elements element (← rounds) true) closeList)
  | some _ => unexpected "a sequence"

/-- The value of a field, when `depth` levels of nesting are left. -/
def field (depth : Nat) (node element : NodeReader κ) : Field κ → Reader Json
  | .scalar kind => scalar kind
  | .node kind => node kind
  | .optional kind => do
    if (← peekToken) == some 'n' then
      letters "null".toList
      return .null
    else node kind
  | .list kind => list depth (element kind)

/-- The fields of an object up to its closing brace, without the unknown ones. -/
def members (value : Field κ → Reader Json) (fields : List (String × Field κ)) :
    (rounds : Nat) → (first : Bool) → (seen : List (String × Json)) → Reader (List (String × Json))
  | 0, _, seen => pure seen
  | rounds + 1, first, seen => do
    if ← nextKey first then
      let key ← string
      match fields.lookup key with
      | none =>
        colon
        skipValue
        members value fields rounds false seen
      | some f =>
        if (seen.lookup key).isSome then failSomewhere (.duplicateField key)
        colon
        let j ← value f
        members value fields rounds false (seen ++ [(key, j)])
    else return seen

/-- The value of a field, from those that were seen. -/
def seenValue (seen : List (String × Json)) (name : String) (f : Field κ) : Reader Json :=
  match seen.lookup name, f with
  | some j, _ => pure j
  | none, .optional _ => pure .null
  | none, _ => failSomewhere (.missingField name)

/-- All fields of a record in order, from those that were seen. -/
def complete (seen : List (String × Json)) : List (String × Field κ) → Reader (List (String × Json))
  | [] => pure []
  | (name, f) :: fields => do
    let j ← seenValue seen name f
    return (name, j) :: (← complete seen fields)

/-- All fields of a record of the given name, written as a list; `index` of them are done. -/
def positional (value : Field κ → Reader Json) (name : String) (size : Nat) :
    (index : Nat) → List (String × Field κ) → Reader (List (String × Json))
  | _, [] => pure []
  | index, (key, f) :: fields => do
    if ← nextElement (index == 0) then
      let j ← value f
      return (key, j) :: (← positional value name size (index + 1) fields)
    else failSomewhere (.length index name size)

/-- A record, when `depth` levels of nesting are left. -/
def record (depth : Nat) (value : Field κ → Reader Json) (name : String)
    (fields : List (String × Field κ)) : Reader Json := placed do
  match ← peekToken with
  | none => failAt (.unfinished .value)
  | some '[' =>
    openBracket depth
    return .obj (← enclosed (positional value name fields.length 0 fields) closeList)
  | some '\x7b' =>
    openBracket depth
    let inside := do complete (← members value fields (← rounds) true []) fields
    return .obj (← enclosed inside closeObject)
  | some _ => unexpected ("struct " ++ name)

/-- The name of one of the variants, at its opening quote. -/
def variantName (variants : List (String × κ)) : Reader (String × κ) := placed do
  let name ← string
  match variants.lookup name with
  | some kind => return (name, kind)
  | none => failSomewhere (.unknownVariant name (variants.map (·.1)))

/-- The one field of a choice, after its opening brace. -/
def variant (node : NodeReader κ) (variants : List (String × κ)) : Reader Json := do
  match ← peekToken with
  | some '"' =>
    let (name, kind) ← variantName variants
    colon
    return .obj [(name, ← node kind)]
  | some '\x7d' => failAt (.grammar .expectedValue)
  | some _ => failAt (.grammar .keyNotString)
  | none => failAt (.unfinished .object)

/-- A choice, when `depth` levels of nesting are left. -/
def choice (depth : Nat) (node : NodeReader κ) (variants : List (String × κ)) : Reader Json := do
  match ← peekToken with
  | none => failAt (.unfinished .value)
  | some '"' =>
    let _ ← variantName variants
    failSomewhere (.kind .bareVariant "newtype variant")
  | some '\x7b' =>
    openBracket depth
    let j ← variant node variants
    match ← peekToken with
    | some '\x7d' =>
      skip
      return j
    | some _ => failAfter (.grammar .expectedValue)
    | none => failAfter (.unfinished .object)
  | some _ => failAt (.grammar .expectedValue)

/-- A node, when `depth` levels of nesting are left. `node` reads the nodes one level further in and
`element` those two levels further in. -/
def shape (depth : Nat) (node element : NodeReader κ) : Shape κ → Reader Json
  | .record name fields => record depth (field (depth - 1) node element) name fields
  | .choice variants => choice depth node variants

/-- The node of the given kind. Every level of nesting takes away one of `depth`. -/
def node (schema : Schema κ) : (depth : Nat) → NodeReader κ
  | 0 => fun kind => shape 0 tooDeep tooDeep (schema kind)
  | 1 => fun kind => shape 1 tooDeep tooDeep (schema kind)
  | depth + 2 => fun kind =>
    shape (depth + 2) (node schema (depth + 1)) (node schema depth) (schema kind)
where
  /-- Never reached, as no bracket can be opened any more. -/
  tooDeep : NodeReader κ := fun _ => failAt (.grammar .nestedTooDeep)

/-- A whole document, with nothing after it. -/
def document (schema : Schema κ) (depth : Nat) (kind : κ) : Reader Json := do
  let j ← node schema depth kind
  finish
  return j

end Reader

/-- How many nested brackets a document may not reach. -/
def depthLimit : Nat := 128

/-- A problem with its place. -/
structure ReadFailure where
  problem : Problem
  line : Nat
  column : Nat
deriving Repr

/-- The line of a place and the number of bytes between the start of that line and the place, which
is `offset` bytes into the text. The text stands at line `line`, with `column` bytes before it. -/
def placeFrom (line column : Nat) : (offset : Nat) → List Char → Nat × Nat
  | offset, [] => (line, column + offset)
  | offset, c :: cs =>
    if offset = 0 then (line, column)
    else if c == '\n' then placeFrom (line + 1) 0 (offset - 1) cs
    else if offset ≤ c.utf8Size then (line, column + offset)
    else placeFrom line (column + c.utf8Size) (offset - c.utf8Size) cs

/-- Reads a whole document as a node of the given kind. It must not have `depth` nested brackets. -/
def Schema.read (schema : Schema κ) (depth : Nat) (kind : κ) (text : String) :
    Except ReadFailure Json :=
  match Reader.placed (Reader.document schema depth kind) (.ofString text) with
  | .ok j _ => .ok j
  | .error e c =>
    let (line, column) := placeFrom 1 0 (e.offset.getD c.offset) text.toList
    .error ⟨e.problem, line, column⟩

end SimCompiler.Json
