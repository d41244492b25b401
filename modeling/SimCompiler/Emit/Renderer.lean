import SimCompiler.Emit.Request
import SimCompiler.Error

/-!
# Template engines

A template engine answers each request with text or refuses it. It may keep a state. The request
log is the engine that only records: the text of a request is a placeholder with its number, so
that nested texts can be put together later.
-/
namespace SimCompiler

/-- A template engine whose state is a `σ`. -/
structure Renderer (σ : Type) where
  render : Request → EStateM RenderError σ String

/-- The requests that were made, in order. -/
abbrev RequestLog := List Request

namespace RequestLog

/-- The text that stands for request number `index`. -/
def placeholder (index : Nat) : String :=
  "\x7b\x7brender:" ++ toString index ++ "\x7d\x7d"

def renderer : Renderer RequestLog where
  render request := do
    let log ← get
    set (log ++ [request])
    return placeholder log.length

/-- Records as well, but refuses the request that would get the number `index`. -/
def refusing (index : Nat) (refusal : Request → RenderError) : Renderer RequestLog where
  render request := do
    if (← get).length = index then throw (refusal request)
    renderer.render request

end RequestLog

end SimCompiler
