import SignalSlot.Proofs.Unit.Uses
import SignalSlot.Proofs.Universe.Layout

set_option autoImplicit false

/-!
# Bound units

Binding builds the universe of a file and replaces the class names in its
operands by handles.  What operands say is replaced along with them, and what a
call submits stays.  `UnitFile.bind_of_nodup` and `UnitFile.bind_of_not_nodup`
say what becomes of a file.
-/

namespace SignalSlot

/-! ## Operands -/

section Binding

variable {κ ι : Type} (f : κ → Option ι)

namespace Operand

theorem class?_bind (operand : Operand κ) : (operand.bind f).class? = operand.class?.bind f := by
  cases operand <;> simp [bind, class?]

theorem pointedClass?_bind (operand : Operand κ) :
    (operand.bind f).pointedClass? = operand.pointedClass?.bind f := by
  cases operand with
  | object ofClass pointer => cases pointer <;> simp [bind, pointedClass?]
  | _ => simp [bind, pointedClass?]

theorem literal?_bind (operand : Operand κ) : (operand.bind f).literal? = operand.literal? := by
  cases operand <;> simp [bind, literal?]

theorem onlyArgument?_bind (function : String) (operand : Operand κ) :
    (operand.bind f).onlyArgument? function = (operand.onlyArgument? function).map (bind f) := by
  cases operand with
  | call callee args =>
    match args with
    | [] => simp [bind, bindAll, onlyArgument?]
    | [argument] => by_cases h : callee = function <;> simp [bind, bindAll, onlyArgument?, h]
    | _ :: _ :: _ => simp [bind, bindAll, onlyArgument?]
  | _ => simp [bind, onlyArgument?]

/-- The literal of a signature operand stays, bare or wrapped. -/
theorem wrappedLiteral?_bind (function : String) (operand : Operand κ) :
    (operand.bind f).literal?.or (((operand.bind f).onlyArgument? function).bind literal?) =
      operand.literal?.or ((operand.onlyArgument? function).bind literal?) := by
  rw [literal?_bind, onlyArgument?_bind, Option.bind_map]
  congr 2
  funext argument
  exact argument.literal?_bind f

end Operand

namespace CallSite

theorem operand?_bind (call : CallSite κ) (source : Source) :
    (call.bind f).operand? source = (call.operand? source).map (Operand.bind f) := by
  cases source <;> simp [bind, operand?]

/-- What a call submits does not depend on the classes of its operands. -/
theorem submissions_bind (call : CallSite κ) : (call.bind f).submissions = call.submissions := by
  simp [submissions, bind, Pattern.covers, Rule.fires]

end CallSite

end Binding

/-! ## Files -/

namespace BoundUnit

/-- A file's calls, bound to a universe. -/
def ofCalls (u : Universe) (calls : List (CallSite String)) : BoundUnit :=
  ⟨u, calls.map (CallSite.bind u.classNamed?)⟩

end BoundUnit

namespace UnitFile

variable (file : UnitFile)

/-- A file of classes with different names is bound to their layout. -/
theorem bind_of_nodup (h : (file.classes.map (·.name)).Nodup) :
    file.bind = .ok (.ofCalls
      (Universe.layout file.classes file.expansions file.tokenLengths) file.calls) := by
  rw [UnitFile.bind, Universe.ofClasses_of_nodup h]
  rfl

/-- A file that repeats a class name is refused at the first class that does. -/
theorem bind_of_not_nodup (h : ¬ (file.classes.map (·.name)).Nodup) :
    ∃ before decl after, file.classes = before ++ decl :: after ∧
      (before.map (·.name)).Nodup ∧ decl.name ∈ before.map (·.name) ∧
      file.bind = .error ⟨decl.name⟩ := by
  obtain ⟨before, decl, after, hclasses, hbefore, hmem, herror⟩ :=
    Universe.ofClasses_of_not_nodup h
  refine ⟨before, decl, after, hclasses, hbefore, hmem, ?_⟩
  rw [UnitFile.bind, herror]
  rfl

/-- A file that is accepted has classes with different names and is bound to their layout. -/
theorem eq_ofCalls_of_bind {file : UnitFile} {unit : BoundUnit} (h : file.bind = .ok unit) :
    (file.classes.map (·.name)).Nodup ∧ unit = .ofCalls
      (Universe.layout file.classes file.expansions file.tokenLengths) file.calls := by
  by_cases hnodup : (file.classes.map (·.name)).Nodup
  · exact ⟨hnodup, Except.ok.inj (h.symm.trans (bind_of_nodup file hnodup))⟩
  · obtain ⟨_, _, _, _, _, _, herror⟩ := bind_of_not_nodup file hnodup
    cases h.symm.trans herror

end UnitFile

end SignalSlot
