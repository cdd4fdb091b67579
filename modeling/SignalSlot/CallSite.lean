import SignalSlot.Literal

set_option autoImplicit false

/-!
# Call sites

A call expression as an indexer hands it over.  Operands mention classes through
handles of a type `κ`: names while a unit is being read, handles into its
declarations once it is bound.
-/

namespace SignalSlot

/-- One argument of a call, or the object the call is made on. -/
inductive Operand (κ : Type) where
  /-- An object or a pointer to one; without a class when its type is not known. -/
  | object (ofClass : Option κ) (pointer : Bool)
  /-- A string literal. -/
  | literal (value : StringLiteral)
  /-- A direct call of a free function. -/
  | call (callee : String) (args : List (Operand κ))
  /-- Anything else. -/
  | other
  deriving Repr, Inhabited, BEq

/-- The form of a call. -/
inductive CallKind where
  | static
  | member
  | construct
  deriving DecidableEq, Repr, Inhabited

/-- A call whose callee is a member function or a constructor. -/
structure CallSite (κ : Type) where
  /-- The class that declares the callee. -/
  className : String
  /-- The callee's name. -/
  methodName : String := ""
  kind : CallKind
  /-- How many parameters the callee declares. -/
  declaredParams : UInt64 := 0
  args : List (Operand κ) := []
  /-- The object a member function is called on. -/
  implicitObject : Option (Operand κ) := none
  /-- The function the call stands in. -/
  context : Option String := none
  deriving Repr, Inhabited, BEq

namespace Operand

variable {κ ι : Type}

mutual

/-- Replaces every class handle; one that maps to nothing leaves an untyped object. -/
def bind (f : κ → Option ι) : Operand κ → Operand ι
  | .object ofClass pointer => .object (ofClass.bind f) pointer
  | .literal value => .literal value
  | .call callee args => .call callee (bindAll f args)
  | .other => .other

/-- Replaces the class handles of a list of operands. -/
def bindAll (f : κ → Option ι) : List (Operand κ) → List (Operand ι)
  | [] => []
  | operand :: rest => operand.bind f :: bindAll f rest

end

/-- Operands of a list are bound one by one. -/
theorem bindAll_eq_map (f : κ → Option ι) (operands : List (Operand κ)) :
    bindAll f operands = operands.map (bind f) := by
  induction operands with
  | nil => rfl
  | cons operand rest ih => simp [bindAll, ih]

end Operand

namespace CallSite

variable {κ ι : Type}

/-- Replaces the class handles of every operand. -/
def bind (f : κ → Option ι) (call : CallSite κ) : CallSite ι where
  className := call.className
  methodName := call.methodName
  kind := call.kind
  declaredParams := call.declaredParams
  args := call.args.map (Operand.bind f)
  implicitObject := call.implicitObject.map (Operand.bind f)
  context := call.context

end CallSite

end SignalSlot
