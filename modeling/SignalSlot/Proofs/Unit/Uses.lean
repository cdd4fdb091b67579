import SignalSlot.Proofs.Candidates.Chain
import SignalSlot.Proofs.Use.Recorder
import SignalSlot.Unit

set_option autoImplicit false

/-!
# The uses of a unit

A unit is resolved by a run: calls are visited one after the other, each
submission may register a use with one shared recorder, and a counter counts the
uses of a call.  This file says what the run yields without a state.
`Universe.usesOf` is a function of one call alone, and the result of a unit is
the first use of each pair among the uses of all its calls.

`value_visitInto` holds for every sink, so no visit depends on what was
registered before it.
-/

namespace SignalSlot

/-! ## What operands say -/

namespace Operand

variable {κ : Type}

/-- The class of an object, or of what a pointer points to. -/
def class? : Operand κ → Option κ
  | .object ofClass _ => ofClass
  | _ => none

/-- The class of what a pointer points to. -/
def pointedClass? : Operand κ → Option κ
  | .object ofClass true => ofClass
  | _ => none

/-- A literal that stands by itself. -/
def literal? : Operand κ → Option StringLiteral
  | .literal value => some value
  | _ => none

/-- The only argument of a call of a function. -/
def onlyArgument? (function : String) : Operand κ → Option (Operand κ)
  | .call callee [argument] => if callee = function then some argument else none
  | _ => none

end Operand

namespace Universe

/-! ## The uses of a call -/

/--
The method that a signature operand refers to on an object, and the range of the
reference.  The signature is a narrow literal, bare or as the only argument of
the flag-location function.
-/
def signatureUse? (u : Universe) (config : Config) (object text : Operand ClassId) :
    Option (MethodId × SourceRange) := do
  let c ← object.class?
  let literal ← text.literal?.or ((text.onlyArgument? config.flagLocation).bind Operand.literal?)
  guard (literal.charWidth = 1)
  let m ← (u.resolve config c literal.value).value.toOption
  pure (m, (u.literalRange literal).value)

/--
The method that a bare name refers to on a pointer, and the range of the
reference.  The name is a narrow literal that is not empty, and it has one
candidate.
-/
def invocationUse? (u : Universe) (config : Config) (object text : Operand ClassId) :
    Option (MethodId × SourceRange) := do
  let c ← object.pointedClass?
  let literal ← text.literal?
  guard (literal.charWidth = 1 ∧ literal.value ≠ "")
  match u.candidates config c literal.value with
  | [m] => pure (m, literal.range)
  | _ => none

/-- The method and the range that a submission of a call stands for, if both operands exist. -/
def submissionUse? (u : Universe) (config : Config) (call : CallSite ClassId) (s : Submission) :
    Option (MethodId × SourceRange) := do
  let object ← call.operand? s.object
  let text ← call.operand? s.method
  match s.handler with
  | .signalOrSlot => u.signatureUse? config object text
  | .invokeMethod => u.invocationUse? config object text

/-- The methods and ranges that a call refers to, in the order of the table. -/
def usesOf (u : Universe) (config : Config) (call : CallSite ClassId) :
    List (MethodId × SourceRange) :=
  if config.classFamily.toList <+: call.className.toList then
    call.submissions.filterMap (u.submissionUse? config call)
  else []

end Universe

/-- A pair as a use made by a call. -/
def CallSite.use (call : CallSite ClassId) (pair : MethodId × SourceRange) : Use MethodId where
  declaration := pair.1
  range := pair.2
  kind := .call
  context := call.context
  flavor := .useAddress

namespace Universe

variable (u : Universe) (config : Config)

theorem signatureLiteral?_eq (text : Operand ClassId) :
    signatureLiteral? config text =
      text.literal?.or ((text.onlyArgument? config.flagLocation).bind Operand.literal?) := by
  cases text with
  | object ofClass pointer => rfl
  | literal value => rfl
  | other => rfl
  | call callee args =>
    match args with
    | [] => rfl
    | [argument] =>
      by_cases hcallee : callee = config.flagLocation <;> cases argument <;>
        simp [signatureLiteral?, Operand.literal?, Operand.onlyArgument?, hcallee]
    | _ :: _ :: _ => simp [signatureLiteral?, Operand.literal?, Operand.onlyArgument?]

/-- A signature operand makes the use that it stands for. -/
theorem value_signalOrSlot (call : CallSite ClassId) (object text : Operand ClassId) :
    (u.signalOrSlot config object text call.context).value =
      (u.signatureUse? config object text).map call.use := by
  unfold signalOrSlot signatureUse?
  rw [signatureLiteral?_eq]
  generalize text.literal?.or _ = literal?
  match object, literal? with
  | .object (some c) pointer, some literal =>
    by_cases hnarrow : literal.charWidth = 1
    · simp only [hnarrow, if_true, Traced.value_bind]
      cases hresolved : (u.resolve config c literal.value).value <;>
        simp [Operand.class?, hnarrow, hresolved, Except.toOption, CallSite.use]
    · simp [Operand.class?, hnarrow]
  | .object (some c) pointer, none => rfl
  | .object none pointer, _ => rfl
  | .literal value, _ => rfl
  | .call callee args, _ => rfl
  | .other, _ => rfl

/-- A bare name on a pointer: it is looked up only when it is narrow and not empty. -/
theorem value_invokeMethod_literal (call : CallSite ClassId) (c : ClassId)
    (literal : StringLiteral) :
    (u.invokeMethod config (.object (some c) true) (.literal literal) call.context).value =
      (u.invocationUse? config (.object (some c) true) (.literal literal)).map call.use := by
  unfold invokeMethod invocationUse? candidates
  by_cases haccepted : literal.charWidth = 1 ∧ literal.value ≠ ""
  · have hcode : (literal.charWidth = 1 && !literal.value.isEmpty) = true := by
      simpa using haccepted
    simp only [hcode, if_true, Traced.value_bind, Operand.pointedClass?, Operand.literal?,
      Option.bind_eq_bind, Option.bind_some, guard, if_pos haccepted]
    rcases (u.search config c literal.value).value.found with _ | ⟨m, _ | ⟨other, rest⟩⟩
    · rfl
    · rfl
    · rfl
  · have hcode : (literal.charWidth = 1 && !literal.value.isEmpty) = false := by
      simpa using haccepted
    simp [hcode, Operand.pointedClass?, Operand.literal?, guard, if_neg haccepted]

/-- A bare name makes the use that it stands for. -/
theorem value_invokeMethod (call : CallSite ClassId) (object text : Operand ClassId) :
    (u.invokeMethod config object text call.context).value =
      (u.invocationUse? config object text).map call.use := by
  cases object with
  | object ofClass pointer =>
    rcases ofClass with _ | c
    · cases pointer <;> rfl
    · cases pointer with
      | false => rfl
      | true =>
        cases text with
        | literal literal => exact u.value_invokeMethod_literal config call c literal
        | object ofClass pointer => rfl
        | call callee args => rfl
        | other => rfl
  | literal value => rfl
  | call callee args => rfl
  | other => rfl

theorem value_submit (call : CallSite ClassId) (s : Submission) :
    (u.submit config call s).value = (u.submissionUse? config call s).map call.use := by
  unfold submit submissionUse?
  cases call.operand? s.object with
  | none => rfl
  | some object =>
    cases call.operand? s.method with
    | none => rfl
    | some text =>
      cases s.handler with
      | signalOrSlot => exact u.value_signalOrSlot config call object text
      | invokeMethod => exact u.value_invokeMethod config call object text

/-! ## Visiting a call -/

/-- One submission: the sink and the counter move together, and only if there is a use. -/
theorem value_visitSubmission {σ : Type} (register : σ → Use MethodId → σ)
    (call : CallSite ClassId) (state : σ × Nat) (s : Submission) :
    (u.visitSubmission config register call state s).value =
      match u.submissionUse? config call s with
      | some pair => (register state.1 (call.use pair), state.2 + 1)
      | none => state := by
  rw [visitSubmission, Traced.value_bind, value_submit]
  cases u.submissionUse? config call s <;> rfl

/-- All submissions: every use is registered once, in order, and counted once. -/
theorem foldl_visitSubmission {σ : Type} (register : σ → Use MethodId → σ)
    (call : CallSite ClassId) (submissions : List Submission) (sink : σ) (registered : Nat) :
    submissions.foldl (fun state s => (u.visitSubmission config register call state s).value)
        (sink, registered) =
      (((submissions.filterMap (u.submissionUse? config call)).map call.use).foldl register sink,
        registered + (submissions.filterMap (u.submissionUse? config call)).length) := by
  induction submissions generalizing sink registered with
  | nil => rfl
  | cons s rest ih =>
    rw [List.foldl_cons, value_visitSubmission, List.filterMap_cons]
    cases u.submissionUse? config call s with
    | none => exact ih sink registered
    | some pair =>
      simp only [ih, List.map_cons, List.foldl_cons, List.length_cons]
      rw [Nat.add_right_comm, Nat.add_assoc]

/-- A visit hands the uses of its call to the sink, whatever the sink holds, and counts them. -/
theorem value_visitInto {σ : Type} (register : σ → Use MethodId → σ) (sink : σ)
    (call : CallSite ClassId) :
    (u.visitInto config register sink call).value =
      (((u.usesOf config call).map call.use).foldl register sink,
        (u.usesOf config call).length) := by
  unfold visitInto usesOf
  by_cases hcovered : config.classFamily.toList <+: call.className.toList
  · have hcode : isCovered config call = true := by
      simpa [isCovered] using hcovered
    rw [if_pos hcode, if_pos hcovered, Traced.value_foldlM, foldl_visitSubmission, Nat.zero_add]
  · have hcode : ¬ isCovered config call = true := by
      simpa [isCovered] using hcovered
    rw [if_neg hcode, if_neg hcovered]
    rfl

end Universe

/-! ## Resolving a unit -/

namespace BoundUnit

/-- The uses of all calls of a unit, in order, repeats included. -/
def usesOfCalls (unit : BoundUnit) (config : Config) : List (Use MethodId) :=
  unit.calls.flatMap fun call => (unit.declarations.usesOf config call).map call.use

/-- One recorder, handed from call to call, is fed the uses of all calls. -/
theorem value_record (unit : BoundUnit) (config : Config) :
    (unit.record config).value = Recorder.empty.registerAll (unit.usesOfCalls config) := by
  unfold record usesOfCalls Recorder.registerAll
  rw [Traced.value_foldlM, List.foldl_flatMap]
  congr 1
  funext recorder call
  rw [Traced.value_bind, Universe.value_visitInto]
  rfl

/-- The records of a unit are the first uses of each pair, spelled out. -/
theorem resolve_eq_firstsBy (unit : BoundUnit) (config : Config) :
    unit.resolve config = (firstsBy Use.key (unit.usesOfCalls config)).map unit.spell := by
  rw [resolve, value_record, Recorder.uses_registerAll_empty]

/--
A unit is resolved call by call without a memory, and repeats are dropped once
at the end.  A visit registers the uses of its call with whatever sink it is
given and returns their number, and the result of the unit are the first uses of
each method and range among the uses of all calls, spelled out.
-/
theorem resolve_stateless (unit : BoundUnit) (config : Config) (h : config.Countable) :
    (∀ c name, (unit.declarations.search config c name).value.Answered) ∧
    (∀ (σ : Type) (register : σ → Use MethodId → σ) (sink : σ) (call : CallSite ClassId),
      (unit.declarations.visitInto config register sink call).value =
        (((unit.declarations.usesOf config call).map call.use).foldl register sink,
          (unit.declarations.usesOf config call).length)) ∧
    unit.resolve config = (firstsBy Use.key (unit.usesOfCalls config)).map fun use =>
      { declaration := unit.declarations.qualifiedSignature use.declaration
        range := use.range
        kind := .call
        context := use.context
        flavor := .useAddress } := by
  refine ⟨fun c name => unit.declarations.answered_search h c name, ?_, ?_⟩
  · intro σ register sink call
    exact unit.declarations.value_visitInto config register sink call
  · unfold resolve
    rw [value_record, Recorder.uses_registerAll_empty]
    rfl

/-- Two timers of one line, both started for the same slot. -/
def twoTimers : BoundUnit where
  declarations :=
    { classes := [⟨"Counter", true, [], [⟨0⟩]⟩]
      methods := [⟨⟨0⟩, some "increment", [], none⟩] }
  calls :=
    let slot := StringLiteral.narrow "1increment()" ⟨20, 33⟩
    let start : CallSite ClassId :=
      { className := "QTimer"
        methodName := "singleShot"
        kind := .static
        declaredParams := 3
        args := [.other, .object (some ⟨0⟩) true, .literal slot] }
    [start, { start with context := some "main" }]

theorem resolve_stateless_twoTimers :
    Config.builtin.Countable ∧
    twoTimers.usesOfCalls .builtin =
      [{ declaration := ⟨0⟩, range := ⟨20, 33⟩ },
        { declaration := ⟨0⟩, range := ⟨20, 33⟩, context := some "main" }] ∧
    twoTimers.resolve .builtin =
      [{ declaration := "Counter::increment()", range := ⟨20, 33⟩ }] := by
  have h : Config.builtin.Countable := by decide
  have huses : twoTimers.usesOfCalls .builtin =
      [{ declaration := ⟨0⟩, range := ⟨20, 33⟩ },
        { declaration := ⟨0⟩, range := ⟨20, 33⟩, context := some "main" }] := by
    decide +kernel
  obtain ⟨_, _, hresolve⟩ := resolve_stateless twoTimers .builtin h
  rw [huses] at hresolve
  exact ⟨h, huses, hresolve.trans (by decide +kernel)⟩

end BoundUnit

end SignalSlot
