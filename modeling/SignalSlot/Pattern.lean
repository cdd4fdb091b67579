import SignalSlot.CallSite

set_option autoImplicit false

/-!
# Calls that take a signature

Which operands of a call are an object and a signature depends on the callee.
The knowledge is one table, `patterns`, keyed by class, method, form of the call
and number of arguments.  Every rule that matches fires, in the order of the
table.
-/

namespace SignalSlot

/-- The forms of call a pattern applies to. -/
inductive Shape where
  | static
  | member
  /-- A static or a member call. -/
  | anyCall
  | construct
  deriving DecidableEq, Repr, Inhabited

/-- Whether a form of call is among those of a shape. -/
def Shape.accepts : Shape → CallKind → Bool
  | .static, kind => kind == .static
  | .member, kind => kind == .member
  | .anyCall, kind => kind != .construct
  | .construct, kind => kind == .construct

/-- A condition on the number of arguments. -/
inductive ArgCount where
  | atLeast (n : Nat)
  | exactly (n : Nat)
  deriving DecidableEq, Repr, Inhabited

/-- Whether a number of arguments meets the condition. -/
def ArgCount.accepts : ArgCount → Nat → Bool
  | .atLeast n, count => n ≤ count
  | .exactly n, count => count == n

/-- Where an operand of a submission stands. -/
inductive Source where
  /-- The argument at a position. -/
  | arg (index : Nat)
  /-- The object the member function is called on. -/
  | implicitObject
  deriving DecidableEq, Repr, Inhabited

/-- How the text operand of a submission is understood. -/
inductive Handler where
  /-- As a signature. -/
  | signalOrSlot
  /-- As the bare name of a method. -/
  | invokeMethod
  deriving DecidableEq, Repr, Inhabited

/-- An object and a text that a call hands over together. -/
structure Submission where
  object : Source
  method : Source
  handler : Handler
  deriving DecidableEq, Repr, Inhabited

/-- Submissions made when the numbers of arguments and of parameters fit. -/
structure Rule where
  args : ArgCount
  declaredParams : Option Nat := none
  submit : List Submission
  deriving DecidableEq, Repr, Inhabited

/-- The rules of a callee.  Constructors are matched by their class alone. -/
structure Pattern where
  classes : List String
  method : String
  shape : Shape
  rules : List Rule
  deriving DecidableEq, Repr, Inhabited

namespace Pattern

/-! ## The table -/

/-- A signature at one argument, for the object at another. -/
def signature (object method : Nat) : Submission :=
  ⟨.arg object, .arg method, .signalOrSlot⟩

/-- The slot of the object that the call is made on. -/
def receiverSlot : Submission :=
  ⟨.implicitObject, .arg 2, .signalOrSlot⟩

/-- A bare method name after its object. -/
def invocation : Submission :=
  ⟨.arg 0, .arg 1, .invokeMethod⟩

/-- The dialogs that report to a slot when they are opened. -/
def dialogs : List String :=
  ["QFileDialog", "QColorDialog", "QFontDialog", "QMessageBox", "QInputDialog",
    "QPrintDialog", "QPageSetupDialog", "QPrintPreviewDialog", "QProgressDialog"]

/-- Every callee known to take a signal or a slot by name. -/
def patterns : List Pattern := [
  { classes := ["QObject"], method := "connect", shape := .static,
    rules := [{ args := .atLeast 4, submit := [signature 0 1, signature 2 3] }] },
  { classes := ["QObject"], method := "disconnect", shape := .static,
    rules := [{ args := .atLeast 4, submit := [signature 0 1, signature 2 3] }] },
  { classes := ["QObject"], method := "connect", shape := .member,
    rules := [{ args := .atLeast 3, submit := [signature 0 1, receiverSlot] }] },
  { classes := ["QObject"], method := "disconnect", shape := .member,
    rules := [{ args := .atLeast 3, submit := [signature 0 1, receiverSlot] }] },
  { classes := ["QTimer"], method := "singleShot", shape := .anyCall,
    rules := [{ args := .atLeast 3, submit := [signature 1 2] }] },
  { classes := ["QHostInfo"], method := "lookupHost", shape := .anyCall,
    rules := [{ args := .atLeast 3, submit := [signature 1 2] }] },
  { classes := ["QNetworkAccessCache"], method := "requestEntry", shape := .anyCall,
    rules := [{ args := .atLeast 3, submit := [signature 1 2] }] },
  { classes := ["QDBusAbstractInterface"], method := "callWithCallback", shape := .anyCall,
    rules := [
      { args := .exactly 4, submit := [signature 2 3] },
      { args := .exactly 5, submit := [signature 2 3, signature 2 4] }] },
  { classes := dialogs, method := "open", shape := .anyCall,
    rules := [{ args := .exactly 2, submit := [signature 0 1] }] },
  { classes := ["QMenu"], method := "addAction", shape := .anyCall,
    rules := [
      { args := .atLeast 3, declaredParams := some 4, submit := [signature 1 2] },
      { args := .atLeast 4, declaredParams := some 5, submit := [signature 2 3] }] },
  { classes := ["QToolBar"], method := "addAction", shape := .anyCall,
    rules := [
      { args := .exactly 3, submit := [signature 1 2] },
      { args := .exactly 4, submit := [signature 2 3] }] },
  { classes := ["QState"], method := "addTransition", shape := .anyCall,
    rules := [{ args := .atLeast 2, submit := [signature 0 1] }] },
  { classes := ["QMetaObject"], method := "invokeMethod", shape := .anyCall,
    rules := [{ args := .atLeast 2, submit := [invocation] }] },
  { classes := ["QShortcut"], method := "", shape := .construct,
    rules := [
      { args := .atLeast 3, submit := [signature 1 2] },
      { args := .atLeast 4, submit := [signature 1 3] }] },
  { classes := ["QSignalSpy", "QSignalTransition"], method := "", shape := .construct,
    rules := [{ args := .atLeast 2, submit := [signature 0 1] }] }]

/-! ## Matching -/

/-- Whether a pattern is about the callee of a call. -/
def covers {κ : Type} (p : Pattern) (call : CallSite κ) : Bool :=
  p.shape.accepts call.kind && p.classes.contains call.className &&
    (p.shape == .construct || p.method == call.methodName)

end Pattern

/-- Whether the rule's conditions hold of a call. -/
def Rule.fires {κ : Type} (r : Rule) (call : CallSite κ) : Bool :=
  r.args.accepts call.args.length &&
    r.declaredParams.all fun n => n == call.declaredParams.toNat

namespace CallSite

variable {κ : Type}

/-- The submissions of a call, in the order of the table. -/
def submissions (call : CallSite κ) : List Submission :=
  ((Pattern.patterns.filter (·.covers call)).flatMap (·.rules)).filter (·.fires call)
    |>.flatMap (·.submit)

/-- The operand that a submission asks for. -/
def operand? (call : CallSite κ) : Source → Option (Operand κ)
  | .arg index => call.args[index]?
  | .implicitObject => call.implicitObject

end CallSite

end SignalSlot
