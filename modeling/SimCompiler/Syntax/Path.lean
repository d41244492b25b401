/-!
# Paths into a syntax tree

A path names a node by the fields one follows to reach it, so two nodes of one tree never share a
path, whatever they contain. Paths are kept deepest step first: a child's path is one step in
front of its parent's.
-/
namespace SimCompiler

/-- One step from a node to one of its children. -/
inductive Step where
  | item (index : Nat)
  | constant (index : Nat)
  | param (index : Nat)
  | returnType
  | body
  | stmt (index : Nat)
  | declared
  | typeRef
  | target
  | value
  | condition
  | block
  | elif (index : Nat)
  | otherwise
  | operand
  | left
  | right
  | callee
  | arg (index : Nat)
  | root
deriving DecidableEq, Repr, Inhabited

abbrev Path := List Step

end SimCompiler
