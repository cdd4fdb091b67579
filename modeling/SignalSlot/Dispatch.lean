import SignalSlot.Pattern
import SignalSlot.Resolution
import SignalSlot.Use

set_option autoImplicit false

/-!
# Uses made by a call

Each submission of a call is an object and a text.  A text that names one
declaration of the object's class makes a use of it; every other text makes
none.
-/

namespace SignalSlot

namespace Universe

/-! ## The range of a literal -/

/--
The place of a literal.  A literal of several tokens comes from a macro that
turns its argument into a string: its second token is lifted two expansion
levels, and the macro's name and the closing parenthesis are cut off.  When the
place would lie beyond the largest offset there is none.
-/
def stringizedRange? (u : Universe) (token : SourceLocation) : Option SourceRange :=
  let outer := u.expansion token
  let start := (u.expansion outer.start).start
  let stop := (u.expansion outer.stop).stop
  let first := start.toNat + (u.tokenLength start).toNat + 1
  if first < UInt32.size then some ⟨UInt32.ofNat first, UInt32.ofNat (stop.toNat - 1)⟩
  else none

/-- The range a use of a literal is reported at. -/
def literalRange (u : Universe) (literal : StringLiteral) : Traced SourceRange :=
  match literal.tokens with
  | _ :: token :: _ =>
    match u.stringizedRange? token with
    | some range => pure range
    | none => do
      Traced.tell (.outOfRange (Text.trimmed literal.value))
      pure literal.range
  | _ => pure literal.range

/-! ## The two kinds of texts -/

/-- The literal of a signature operand, behind a flag-location call if there is one. -/
def signatureLiteral? (config : Config) : Operand ClassId → Option StringLiteral
  | .literal literal => some literal
  | .call callee [.literal literal] =>
    if callee = config.flagLocation then some literal else none
  | _ => none

/-- The use made by a signature on an object, which may be a pointer or not. -/
def signalOrSlot (u : Universe) (config : Config) (object method : Operand ClassId)
    (context : Option String) : Traced (Option (Use MethodId)) :=
  match object, signatureLiteral? config method with
  | .object (some c) _, some literal =>
    if literal.charWidth = 1 then do
      match ← u.resolve config c literal.value with
      | .ok m => do
        let range ← u.literalRange literal
        Traced.tell (.resolved (Text.trimmed literal.value) m)
        pure (some { declaration := m, range, context })
      | .error reason => do
        Traced.tell (.unresolved (Text.trimmed literal.value) c reason)
        pure none
    else pure none
  | _, _ => pure none

/-- The use made by a bare method name on a pointer, when the name means one method. -/
def invokeMethod (u : Universe) (config : Config) (object method : Operand ClassId)
    (context : Option String) : Traced (Option (Use MethodId)) :=
  match object, method with
  | .object (some c) true, .literal literal =>
    if literal.charWidth = 1 && !literal.value.isEmpty then do
      let located ← u.search config c literal.value
      match located.found with
      | [m] => pure (some { declaration := m, range := literal.range, context })
      | found => do
        Traced.tell (.ambiguous literal.value c found.length)
        pure none
    else pure none
  | _, _ => pure none

/-! ## A call -/

/-- The use made by one submission of a call. -/
def submit (u : Universe) (config : Config) (call : CallSite ClassId) (s : Submission) :
    Traced (Option (Use MethodId)) :=
  match call.operand? s.object, call.operand? s.method with
  | some object, some method =>
    match s.handler with
    | .signalOrSlot => u.signalOrSlot config object method call.context
    | .invokeMethod => u.invokeMethod config object method call.context
  | _, _ => pure none

/-- Whether a call is one that the configuration asks to look at. -/
def isCovered (config : Config) (call : CallSite ClassId) : Bool :=
  config.classFamily.toList.isPrefixOf call.className.toList

/--
Visits one submission of a call.  Its use, if it makes one, is registered with a
sink, which `register` changes, and counted.
-/
def visitSubmission {σ : Type} (u : Universe) (config : Config)
    (register : σ → Use MethodId → σ) (call : CallSite ClassId) (state : σ × Nat)
    (s : Submission) : Traced (σ × Nat) := do
  match ← u.submit config call s with
  | some use => pure (register state.1 use, state.2 + 1)
  | none => pure state

/-- Visits the submissions of a call in order, and counts the uses registered, repeats included. -/
def visitInto {σ : Type} (u : Universe) (config : Config) (register : σ → Use MethodId → σ)
    (sink : σ) (call : CallSite ClassId) : Traced (σ × Nat) :=
  if isCovered config call then
    call.submissions.foldlM (u.visitSubmission config register call) (sink, 0)
  else pure (sink, 0)

end Universe

end SignalSlot
