import SignalSlot.Dispatch

set_option autoImplicit false

/-!
# Units

A unit file lists the classes, the expansion entries and the calls of one
compilation unit.  Binding it builds the universe of its classes and replaces
class names in operands by handles; resolving it visits every call and reports
each use once.
-/

namespace SignalSlot

/-- A unit as it stands in a file. -/
structure UnitFile where
  classes : List ClassDecl := []
  expansions : List ExpansionDecl := []
  tokenLengths : List TokenLengthDecl := []
  calls : List (CallSite String) := []
  deriving Repr, Inhabited

/-- A use with its declaration spelled out. -/
abbrev UseRecord := Use String

/-- A unit whose calls refer to its declarations by handles. -/
structure BoundUnit where
  declarations : Universe
  calls : List (CallSite ClassId)
  deriving Repr, Inhabited

/-- Builds the universe of a unit file and binds its calls to it. -/
def UnitFile.bind (file : UnitFile) : Except DuplicateClass BoundUnit := do
  let classes ← Universe.ofClasses file.classes
  let u := classes.withSourceMap file.expansions file.tokenLengths
  pure ⟨u, file.calls.map (CallSite.bind u.classNamed?)⟩

namespace BoundUnit

/-- Visits all calls in order, with one recorder. -/
def record (unit : BoundUnit) (config : Config) : Traced (Recorder MethodId) :=
  unit.calls.foldlM (fun recorder call => do
    let (recorder, _) ← unit.declarations.visitInto config Recorder.register recorder call
    pure recorder) .empty

/-- A use with its declaration spelled out. -/
def spell (unit : BoundUnit) (use : Use MethodId) : UseRecord :=
  { use with declaration := unit.declarations.qualifiedSignature use.declaration }

/-- The uses of a unit, each once, in the order in which they were first made. -/
def resolve (unit : BoundUnit) (config : Config) : List UseRecord :=
  (unit.record config).value.uses.map unit.spell

end BoundUnit

end SignalSlot
