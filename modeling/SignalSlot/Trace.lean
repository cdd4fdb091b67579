import SignalSlot.Universe

set_option autoImplicit false

/-!
# What a search tells about itself

A search answers and, beside the answer, tells what happened on the way.  The
answer never depends on what was told: `value` of a composed search is composed
of the `value`s of its parts.
-/

namespace SignalSlot

/-- Why a signature text names no declaration. -/
inductive Unresolved where
  /-- The text is no signature. -/
  | notASignature
  /-- No method has the name. -/
  | noCandidates
  /-- No remaining method accepts the argument at the position. -/
  | argumentMismatch (index : Nat)
  /-- Every remaining method needs more arguments. -/
  | arityMismatch
  deriving DecidableEq, Repr, Inhabited

/-- The text of a reason. -/
def Unresolved.message : Unresolved → String
  | .notASignature => "not a well-formed signature"
  | .noCandidates => "no method of that name"
  | .argumentMismatch index => "no candidate accepts argument " ++ toString index
  | .arityMismatch => "every candidate requires more arguments"

/-- How detailed an event is. -/
inductive Level where
  | debug
  | trace
  deriving DecidableEq, Repr, Inhabited

/-- The name of a level. -/
def Level.text : Level → String
  | .debug => "DEBUG"
  | .trace => "TRACE"

/-- The text of a class handle. -/
def ClassId.text (c : ClassId) : String :=
  "ClassId(" ++ toString c.index ++ ")"

/-- The text of a method handle. -/
def MethodId.text (m : MethodId) : String :=
  "MethodId(" ++ toString m.index ++ ")"

/-- Something that happened during a search. -/
inductive Event where
  /-- The search from a class met its depth limit. -/
  | depthLimit (start : ClassId)
  /-- The search goes on in the class that a private accessor returns. -/
  | followed (accessor : MethodId) (target : Option ClassId)
  /-- A method has no parameter for an argument. -/
  | tooFewParameters (method : MethodId) (index : Nat)
  /-- A parameter is spelled differently. -/
  | parameterDiffers (method : MethodId) (index : Nat) (printed argument : String)
  /-- A literal names a method. -/
  | resolved (literal : String) (method : MethodId)
  /-- A literal names no method of a class. -/
  | unresolved (literal : String) (start : ClassId) (reason : Unresolved)
  /-- The place a literal was expanded from lies outside the source. -/
  | outOfRange (literal : String)
  /-- A bare name does not single out one method. -/
  | ambiguous (name : String) (start : ClassId) (count : Nat)
  deriving DecidableEq, Repr, Inhabited

namespace Event

/-- The level of an event. -/
def level : Event → Level
  | .followed .. | .tooFewParameters .. | .parameterDiffers .. => .trace
  | _ => .debug

/-- The text of an event. -/
def message : Event → String
  | .depthLimit start => "base chain of " ++ start.text ++ " exceeds depth limit"
  | .followed accessor target =>
    "following " ++ accessor.text ++ " to private class " ++
      target.elim "None" fun c => "Some(" ++ c.text ++ ")"
  | .tooFewParameters m index =>
    m.text ++ ": not enough parameters for argument " ++ toString index
  | .parameterDiffers m index printed argument =>
    m.text ++ ": parameter " ++ toString index ++ " is `" ++ printed ++
      "`, signature says `" ++ argument ++ "`"
  | .resolved literal m => "`" ++ literal ++ "` resolved to " ++ m.text
  | .unresolved literal c reason =>
    "`" ++ literal ++ "` on " ++ c.text ++ ": " ++ reason.message
  | .outOfRange literal => "expansion of `" ++ literal ++ "` is out of range"
  | .ambiguous name c count =>
    "invokeMethod `" ++ name ++ "` on " ++ c.text ++ ": " ++ toString count ++ " candidates"

/-- Level and text of an event. -/
def line (e : Event) : String :=
  e.level.text ++ " " ++ e.message

end Event

/-- An answer with the events of the search that found it, in order. -/
structure Traced (α : Type) where
  value : α
  events : List Event := []
  deriving Repr, Inhabited

namespace Traced

variable {α β : Type}

/-- Tells an event. -/
def tell (e : Event) : Traced Unit := ⟨(), [e]⟩

instance : Monad Traced where
  pure a := ⟨a, []⟩
  bind x f := ⟨(f x.value).value, x.events ++ (f x.value).events⟩

@[simp] theorem value_pure (a : α) : (pure a : Traced α).value = a := rfl

@[simp] theorem events_pure (a : α) : (pure a : Traced α).events = [] := rfl

@[simp] theorem value_bind (x : Traced α) (f : α → Traced β) :
    (x >>= f).value = (f x.value).value := rfl

@[simp] theorem events_bind (x : Traced α) (f : α → Traced β) :
    (x >>= f).events = x.events ++ (f x.value).events := rfl

@[simp] theorem value_map (f : α → β) (x : Traced α) : (f <$> x).value = f x.value := rfl

@[simp] theorem value_tell (e : Event) : (tell e).value = () := rfl

@[simp] theorem value_foldlM (f : β → α → Traced β) (start : β) (items : List α) :
    (items.foldlM f start).value = items.foldl (fun b a => (f b a).value) start := by
  induction items generalizing start with
  | nil => rfl
  | cons a rest ih => simp [ih]

end Traced

end SignalSlot
