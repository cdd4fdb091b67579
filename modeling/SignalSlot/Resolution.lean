import SignalSlot.Candidates
import SignalSlot.Signature

set_option autoImplicit false

/-!
# Resolving a signature

Among the candidates of its name a signature means the first one whose
parameters are spelled like its arguments and that can be called with that many
arguments.  Candidates are pruned argument by argument; when none is left, the
position of the argument is the reason.
-/

namespace SignalSlot

namespace Universe

/-! ## One argument -/

/-- Why a method does not accept an argument at a position, if it does not. -/
def rejection? (u : Universe) (m : MethodId) (index : Nat) (argument : String) :
    Option Event :=
  match u.parameterType? m index with
  | none => some (.tooFewParameters m index)
  | some ty =>
    if TypeText.spells argument ty.parameterText then none
    else some (.parameterDiffers m index ty.parameterText argument)

/-- Whether a method accepts an argument at a position. -/
def accepts (u : Universe) (m : MethodId) (index : Nat) (argument : String) : Bool :=
  (u.rejection? m index argument).isNone

/-! ## All arguments -/

/--
Prunes candidates by the arguments from a position on.  Each candidate that is
dropped is told.
-/
def prune (u : Universe) : Nat → List String → List MethodId →
    Traced (Except Unresolved (List MethodId))
  | _, [], candidates => pure (.ok candidates)
  | index, argument :: rest, candidates =>
    let remaining := candidates.filter fun m => u.accepts m index argument
    let told := candidates.filterMap fun m => u.rejection? m index argument
    if remaining.isEmpty then ⟨.error (.argumentMismatch index), told⟩
    else do
      (⟨(), told⟩ : Traced Unit)
      u.prune (index + 1) rest remaining

/--
Whether a method can be called with a number of arguments.  One missing last
argument is allowed when its type is a sentinel.
-/
def acceptsCount (u : Universe) (config : Config) (m : MethodId) (supplied : Nat) : Bool :=
  u.minRequired m ≤ supplied ||
    (u.parameterCount m == supplied + 1 &&
      (u.parameterType? m supplied).any fun ty => config.isSentinel (ty.print .suppressed))

/-- Resolves a signature on a class. -/
def resolveParsed (u : Universe) (config : Config) (c : ClassId) (s : Signature) :
    Traced (Except Unresolved MethodId) := do
  let located ← u.search config c s.name
  if located.found.isEmpty then pure (.error .noCandidates)
  else
    match ← u.prune 0 s.arguments located.found with
    | .error reason => pure (.error reason)
    | .ok remaining =>
      match remaining.find? fun m => u.acceptsCount config m s.arguments.length with
      | some m => pure (.ok m)
      | none => pure (.error .arityMismatch)

/-- Resolves a signature text on a class. -/
def resolve (u : Universe) (config : Config) (c : ClassId) (raw : String) :
    Traced (Except Unresolved MethodId) :=
  match Signature.parse? raw with
  | some s => u.resolveParsed config c s
  | none => pure (.error .notASignature)

end Universe

end SignalSlot
