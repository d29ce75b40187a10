import ObjectGraph.Compiler.Basic

/-
  Sessions: several compilations under one cancellation.

  Once a session is cancelled it stays so, and every further compilation in it fails.
-/

namespace ObjectGraph

/-- A compiler together with the state of its cancellation. -/
structure Session where
  /-- The compiler. -/
  compiler : Compiler
  /-- Whether the session is cancelled. -/
  isCancelled : Bool := false

namespace Session

/-- Cancels the session. -/
def cancel (s : Session) : Session := { s with isCancelled := true }

/-- The fault of a setup in a cancelled session. -/
def check (isCancelled : Bool) (setup : String) : Option Fault :=
  if isCancelled then some (.cancelled setup) else none

/-- Tells if a compilation gets as far as registering bindings. -/
def registers (s : Session) (setup : Setup) : Bool :=
  !s.isCancelled && (s.compiler.merge setup).isOk

/-- Compiles a setup.  With `interrupt`, the session is cancelled while the bindings of the setup are
    registered. -/
def compile (s : Session) (turns : Nat) (interrupt : Bool) (setup : Setup) :
    Option (Compiler.Report × Session) := do
  let cancellation : Cancellation :=
    if s.isCancelled then .before else if interrupt then .during else .never
  let report ← s.compiler.compile turns cancellation setup
  return (report, if interrupt && s.registers setup then s.cancel else s)

end Session

end ObjectGraph
