/-!
# Places in a program

A place is a file name with a line and a column. Places are ordered by file, then line, then
column, and are written `file:line:column`.
-/
namespace SimCompiler

structure Position where
  file : String
  line : UInt32
  column : UInt32
deriving DecidableEq, Repr, Inhabited

namespace Position

def render (p : Position) : String :=
  p.file ++ ":" ++ toString p.line.toNat ++ ":" ++ toString p.column.toNat

/-- Files compare by code point, which is also the order of their UTF-8 bytes. -/
instance : Ord Position where
  compare p q :=
    (compare p.file q.file).then <| (compare p.line q.line).then (compare p.column q.column)

end Position

end SimCompiler
