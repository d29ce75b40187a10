import ObjectGraph.Compiler.Session
import ObjectGraph.Settings.Basic

/-
  Batch runs: all compositions of a directory, compiled and emitted.

  The compositions are compiled in the order of their names.  They are emitted, in the same order,
  only if all of them compile.
-/

namespace ObjectGraph

namespace Batch

/-- Why a batch run fails. -/
inductive Error where
  /-- Compositions cannot be compiled. -/
  | compilation (failures : List Failure)
  /-- The emitter refuses a composition, for the given reason. -/
  | emitter (reason : String)
  /-- Two setups have one name. -/
  | directory (cause : SetupDirectory.DuplicateName)
  /-- The settings cannot be loaded. -/
  | settings (cause : Settings.Error)
  deriving DecidableEq, Inhabited

/-- The text of an error.  Errors of the settings have no text of their own. -/
def Error.message : Error → String
  | compilation failures =>
    "Compilation failed: " ++ " ".intercalate (failures.map Failure.message)
  | emitter reason => s!"Emitter error: {reason}"
  | directory cause => s!"Error retrieving setups: {cause.message}"
  | settings _ => "Error loading configuration"

/-! ## Compiling -/

/-- Compiles a setup in a session.  With `failFast`, a failure cancels the session. -/
def compileOne (turns : Nat) (failFast : Bool) (session : Session) (s : Setup) :
    Option (Compiler.Report × Session) := do
  let (report, session) ← session.compile turns false s
  match report.result with
  | .error failure =>
    if failFast && !failure.isCancelled then
      let told := Journal.warn
        s!"Compilation of {s.name} failed, cancelling pending compilations." []
      return ({ report with journal := report.journal ++ told }, session.cancel)
    else return (report, session)
  | .ok _ => return (report, session)

/-- Compiles setups one after another. -/
def compileAll (turns : Nat) (failFast : Bool) (session : Session) :
    List Setup → Option (List Compiler.Report)
  | [] => some []
  | s :: rest => do
    let (report, session) ← compileOne turns failFast session s
    let others ← compileAll turns failFast session rest
    return report :: others

/-- The failures to report: a cancellation that another failure caused is left out. -/
def reported (failures : List Failure) : List Failure :=
  if failures.all (·.isCancelled) then failures else failures.filter (!·.isCancelled)

/-- The compositions among the results. -/
def compositions (results : List (Except Failure Composition)) : List Composition :=
  results.filterMap fun
    | .ok c => some c
    | .error _ => none

/-- The failures among the results. -/
def failures (results : List (Except Failure Composition)) : List Failure :=
  results.filterMap fun
    | .ok _ => none
    | .error f => some f

/-! ## Emitting -/

/-- An emitter: it takes a composition, or refuses it for a reason. -/
abbrev Emitter := Composition → Except String Unit

/-- What became of the compositions that were to be emitted. -/
structure Emission where
  /-- The compositions that the emitter was handed, in the order of the calls. -/
  handed : List Composition
  /-- The compositions that it took. -/
  emitted : List Composition
  /-- The reason for which it refused one. -/
  refusal : Option String
  /-- What there was to tell. -/
  journal : Journal

/-- Hands compositions to an emitter until it refuses one.  The diagnostics of each one come up
    first. -/
def emitAll (emit : Emitter) : List Composition → Emission
  | [] => ⟨[], [], none, #[]⟩
  | c :: rest =>
    let told := (c.diagnostics.map fun d => Journal.warn d.message [("id", d.code.text)]).foldl
      (· ++ ·) #[]
    match emit c with
    | .error reason => ⟨[c], [], some reason, told⟩
    | .ok () =>
      let others := emitAll emit rest
      { others with
        handed := c :: others.handed
        emitted := c :: others.emitted
        journal := told ++ others.journal }

/-! ## Running -/

/-- A batch run that came to its end. -/
structure Run where
  /-- Success, or the error. -/
  result : Except Error Unit
  /-- The compositions that the emitter was handed, in the order of the calls. -/
  handed : List Composition
  /-- The compositions that it took. -/
  emitted : List Composition
  /-- What there was to tell. -/
  journal : Journal

/-- Compiles and emits all compositions of a directory. -/
def run (turns : Nat) (settings : Settings) (d : SetupDirectory) (emit : Emitter) : Option Run := do
  let setups := d.compositions
  let started := Journal.info s!"Compiling {setups.length} setup(s)..."
  let compiler := { includesStandard := settings.includesStandard : Compiler }.addDirectory d
  let reports ← compileAll turns settings.failFast { compiler } setups
  let compiled := reports.foldl (fun j r => j ++ r.journal) started
  let results := reports.map (·.result)
  let failed := failures results
  if !failed.isEmpty then
    return ⟨.error (.compilation (reported failed)), [], [], compiled⟩
  else
    let ready := compositions results
    let emission := emitAll emit ready
    return {
      result := match emission.refusal with
        | some reason => .error (.emitter reason)
        | none => .ok ()
      handed := emission.handed
      emitted := emission.emitted
      journal :=
        compiled ++ Journal.info s!"Emitting {ready.length} composition(s)..." ++ emission.journal }

/-- What a run tells to those around it: nothing when it keeps its journal to itself. -/
def Run.toldOutside (r : Run) (settings : Settings) : Journal :=
  if settings.installsLogger then #[] else r.journal

end Batch

end ObjectGraph
