import SignalSlot.Proofs.Safety.Offsets
import SignalSlot.Proofs.Unit.Binding

set_option autoImplicit false

/-!
# Handles and the tables they point into

A handle is a number of 32 bits that stands for a place in a table.  Nothing in
it says that the place exists, so reading a table through a handle is an access
that may fail.

`Universe.Sound` says that every handle that a universe keeps points into its
tables.  It holds of the empty universe, each class that is added keeps it
(`Sound.addClass`), and so it holds of every universe that is built.  A unit with
fewer classes and methods than there are handles is loaded without any handle
being cut off: `UnitFile.load_eq_bind`.  With more of them handles are shared, but
the classes still keep their names and places (`names_of_foldlM_addStored`).
-/

namespace SignalSlot

/-! ## Results -/

section Results

variable {ε δ α β : Type} {x : Except ε α} {a : α} {b : β}

/-- A result of two steps is one of the second, made of one of the first. -/
theorem exists_of_bind_eq_ok {f : α → Except ε β} (h : x >>= f = .ok b) :
    ∃ a, x = .ok a ∧ f a = .ok b := by
  cases x with
  | error e => cases h
  | ok a => exact ⟨a, rfl, h⟩

theorem eq_ok_of_mapError {g : ε → δ} (h : x.mapError g = .ok a) : x = .ok a := by
  cases x with
  | error e => cases h
  | ok c => exact congrArg _ (Except.ok.inj h)

end Results

/-! ## Handles -/

/-- The handle of a place, as 32 bits keep it. -/
def ClassId.stored (c : ClassId) : ClassId := ⟨c.index % UInt32.size⟩

/-- The handle of a place, as 32 bits keep it. -/
def MethodId.stored (m : MethodId) : MethodId := ⟨m.index % UInt32.size⟩

theorem ClassId.stored_of_lt {c : ClassId} (h : c.index < UInt32.size) : c.stored = c := by
  rw [stored, Nat.mod_eq_of_lt h]

theorem MethodId.stored_of_lt {m : MethodId} (h : m.index < UInt32.size) : m.stored = m := by
  rw [stored, Nat.mod_eq_of_lt h]

namespace Universe

/-! ## Loading -/

/-- Appends a class and its methods, whose handles have 32 bits. -/
def addStored (u : Universe) (decl : ClassDecl) : Except DuplicateClass Universe :=
  if (u.classNamed? decl.name).isSome then .error ⟨decl.name⟩
  else
    let id := (ClassId.mk u.classes.length).stored
    let ids := (List.range' u.methods.length decl.methods.length).map fun k =>
      (MethodId.mk k).stored
    .ok { u with
      classes := u.classes ++ [⟨decl.name, decl.defined, decl.bases, ids⟩]
      methods := u.methods ++ decl.methods.map (entryOf id) }

/-- The class of a name, by the handle that was stored for it. -/
def storedClass? (u : Universe) (name : String) : Option ClassId :=
  (u.classNamed? name).map ClassId.stored

theorem addStored_eq {u : Universe} {decl : ClassDecl} (hclasses : u.classes.length < UInt32.size)
    (hmethods : u.methods.length + decl.methods.length ≤ UInt32.size) :
    u.addStored decl = u.addClass decl := by
  have hids : (List.range' u.methods.length decl.methods.length).map
      (fun k => (MethodId.mk k).stored) =
      (List.range' u.methods.length decl.methods.length).map MethodId.mk := by
    apply List.map_congr_left
    intro k hk
    rw [List.mem_range'_1] at hk
    exact MethodId.stored_of_lt (Nat.lt_of_lt_of_le hk.2 hmethods)
  rw [addStored, addClass, hids, ClassId.stored_of_lt hclasses]

theorem lengths_of_addClass {u next : Universe} {decl : ClassDecl}
    (h : u.addClass decl = .ok next) :
    next.classes.length = u.classes.length + 1 ∧
      next.methods.length = u.methods.length + decl.methods.length := by
  unfold addClass at h
  split at h
  · cases h
  · obtain rfl := Except.ok.inj h
    simp

/-- What each class keeps, for the classes that are still to come, holds of what is built. -/
theorem inv_of_foldlM {add : Universe → ClassDecl → Except DuplicateClass Universe}
    (I : List ClassDecl → Universe → Prop)
    (hstep : ∀ decl rest u next, I (decl :: rest) u → add u decl = .ok next → I rest next)
    {u last : Universe} {decls : List ClassDecl} (hu : I decls u)
    (h : decls.foldlM add u = .ok last) : I [] last := by
  induction decls generalizing u with
  | nil =>
    obtain rfl := Except.ok.inj h
    exact hu
  | cons decl decls ih =>
    rw [List.foldlM_cons] at h
    obtain ⟨next, hadd, hrest⟩ := exists_of_bind_eq_ok h
    exact ih (hstep decl decls u next hu hadd) hrest

theorem length_classes_of_foldlM {u last : Universe} {decls : List ClassDecl}
    (h : decls.foldlM addClass u = .ok last) :
    last.classes.length = u.classes.length + decls.length := by
  apply inv_of_foldlM
    (fun rest u' => u'.classes.length + rest.length = u.classes.length + decls.length) _ rfl h
  intro decl rest u' next hlength hadd
  rw [(lengths_of_addClass hadd).1]
  rw [List.length_cons] at hlength
  omega

/-- As long as the handles suffice, building with handles of 32 bits changes nothing. -/
theorem foldlM_addStored {u : Universe} {decls : List ClassDecl}
    (hclasses : u.classes.length + decls.length ≤ UInt32.size)
    (hmethods : u.methods.length + (decls.flatMap (·.methods)).length ≤ UInt32.size) :
    decls.foldlM addStored u = decls.foldlM addClass u := by
  induction decls generalizing u with
  | nil => rfl
  | cons decl decls ih =>
    rw [List.length_cons] at hclasses
    rw [List.flatMap_cons, List.length_append] at hmethods
    rw [List.foldlM_cons, List.foldlM_cons, addStored_eq (by omega) (by omega)]
    cases hadd : u.addClass decl with
    | error e => rfl
    | ok next =>
      obtain ⟨hnextClasses, hnextMethods⟩ := lengths_of_addClass hadd
      exact ih (by omega) (by omega)

/-- A class is added under a name that no class has yet, behind the others. -/
theorem names_of_addStored {u next : Universe} {decl : ClassDecl}
    (h : u.addStored decl = .ok next) :
    decl.name ∉ u.classes.map (·.name) ∧
      next.classes.map (·.name) = u.classes.map (·.name) ++ [decl.name] := by
  unfold addStored at h
  split at h
  · cases h
  · rename_i hfresh
    obtain rfl := Except.ok.inj h
    rw [isSome_classNamed?] at hfresh
    exact ⟨hfresh, List.map_append⟩

/-- However many classes there are, each keeps its place and no two of them share a name. -/
theorem names_of_foldlM_addStored {u last : Universe} {decls : List ClassDecl}
    (hu : (u.classes.map (·.name)).Nodup) (h : decls.foldlM addStored u = .ok last) :
    (last.classes.map (·.name)).Nodup ∧
      last.classes.map (·.name) = u.classes.map (·.name) ++ decls.map (·.name) := by
  have hlast := inv_of_foldlM (fun rest next => (next.classes.map (·.name)).Nodup ∧
    next.classes.map (·.name) ++ rest.map (·.name) =
      u.classes.map (·.name) ++ decls.map (·.name)) ?_ ⟨hu, rfl⟩ h
  · rwa [List.map_nil, List.append_nil] at hlast
  · rintro decl rest next next' ⟨hnodup, hnames⟩ hadd
    obtain ⟨hfresh, hnext⟩ := names_of_addStored hadd
    rw [hnext]
    constructor
    · rw [← List.concat_eq_append]
      exact hnodup.concat hfresh
    · rw [List.append_assoc, ← hnames]
      rfl

/-! ## The invariant -/

/-- The tables of a universe have the places that the handles in them stand for. -/
structure Sound (u : Universe) : Prop where
  methods : ∀ entry ∈ u.classes, ∀ m ∈ entry.methods, m.index < u.methods.length
  owners : ∀ entry ∈ u.methods, entry.owner.index < u.classes.length

namespace Sound

theorem empty : Sound {} where
  methods := by
    intro entry hentry
    cases hentry
  owners := by
    intro entry hentry
    cases hentry

/-- One class more keeps the handles in their tables. -/
theorem addClass {u next : Universe} {decl : ClassDecl} (hu : u.Sound)
    (h : u.addClass decl = .ok next) : next.Sound := by
  unfold Universe.addClass at h
  split at h
  · cases h
  · obtain rfl := Except.ok.inj h
    constructor
    · intro entry hentry m hm
      rw [List.length_append, List.length_map]
      rcases List.mem_append.1 hentry with hentry | hentry
      · have := hu.methods entry hentry m hm
        omega
      · rw [List.mem_singleton] at hentry
        subst hentry
        obtain ⟨k, hk, rfl⟩ := List.mem_map.1 hm
        exact (List.mem_range'_1.1 hk).2
    · intro entry hentry
      rw [List.length_append, List.length_singleton]
      rcases List.mem_append.1 hentry with hentry | hentry
      · have := hu.owners entry hentry
        omega
      · obtain ⟨method, _, rfl⟩ := List.mem_map.1 hentry
        exact Nat.lt_succ_self _

/-- Every universe that is built from classes keeps its handles in its tables. -/
theorem foldlM_addClass {u last : Universe} {decls : List ClassDecl} (hu : u.Sound)
    (h : decls.foldlM Universe.addClass u = .ok last) : last.Sound := by
  apply inv_of_foldlM (fun _ u => u.Sound) _ hu h
  intro decl rest u next hu hadd
  exact hu.addClass hadd

end Sound

/-! ## Access -/

/-- A handle of a class that the universe has. -/
def HasClass (u : Universe) (c : ClassId) : Prop := c.index < u.classes.length

/-- A handle of a method that the universe has. -/
def HasMethod (u : Universe) (m : MethodId) : Prop := m.index < u.methods.length

/-- The entry that a class handle points to. -/
def classEntry (u : Universe) (c : ClassId) : Checked ClassEntry :=
  Checked.get u.classes c.index

/-- The entry that a method handle points to. -/
def methodEntry (u : Universe) (m : MethodId) : Checked MethodEntry :=
  Checked.get u.methods m.index

section Access

variable {u : Universe} {c : ClassId} {m : MethodId}

theorem HasClass.entry (h : u.HasClass c) :
    ∃ entry ∈ u.classes, u.class? c = some entry ∧ u.classEntry c = .ok entry := by
  have hget : u.classes[c.index]? = some u.classes[c.index] := List.getElem?_eq_getElem h
  exact ⟨_, List.getElem_mem h, hget, Checked.get_of_getElem? hget⟩

theorem HasMethod.entry (h : u.HasMethod m) :
    ∃ entry ∈ u.methods, u.method? m = some entry ∧ u.methodEntry m = .ok entry := by
  have hget : u.methods[m.index]? = some u.methods[m.index] := List.getElem?_eq_getElem h
  exact ⟨_, List.getElem_mem h, hget, Checked.get_of_getElem? hget⟩

/-- A name is looked up to a class that the universe has. -/
theorem hasClass_of_classNamed? {name : String} (h : u.classNamed? name = some c) :
    u.HasClass c := by
  obtain ⟨k, hfound, rfl⟩ := Option.map_eq_some_iff.1 h
  exact (List.findIdx?_eq_some_iff_getElem.1 hfound).1

/-- While handles suffice, the handle that was stored for a name is its place. -/
theorem storedClass?_eq (h : u.classes.length ≤ UInt32.size) (name : String) :
    u.storedClass? name = u.classNamed? name := by
  rw [storedClass?]
  cases hfound : u.classNamed? name with
  | none => rfl
  | some c =>
    have hc : c.index < u.classes.length := hasClass_of_classNamed? hfound
    rw [Option.map_some, ClassId.stored_of_lt (Nat.lt_of_lt_of_le hc h)]

theorem Sound.hasMethod (hu : u.Sound) {m : MethodId} (hm : m ∈ u.methodsOf c) :
    u.HasMethod m := by
  unfold methodsOf at hm
  cases hentry : u.class? c with
  | none =>
    rw [hentry] at hm
    cases hm
  | some entry =>
    rw [hentry] at hm
    exact hu.methods entry (List.mem_of_getElem? hentry) m hm

end Access

end Universe

/-! ## Units -/

/-- An operand whose class, if it has one, is a class of the universe. -/
def Operand.Sound (u : Universe) (operand : Operand ClassId) : Prop :=
  ∀ c, operand.class? = some c → u.HasClass c

/-- A call whose operands have classes of the universe. -/
def CallSite.Sound (u : Universe) (call : CallSite ClassId) : Prop :=
  ∀ source operand, call.operand? source = some operand → operand.Sound u

/-- A unit whose handles point into its tables, and whose tables handles can point into. -/
structure BoundUnit.Sound (unit : BoundUnit) : Prop where
  declarations : unit.declarations.Sound
  fits : unit.declarations.classes.length ≤ UInt32.size
  calls : ∀ call ∈ unit.calls, call.Sound unit.declarations

namespace UnitFile

/-- Builds the universe of a unit file and binds its calls to it, with handles of 32 bits. -/
def load (file : UnitFile) : Except DuplicateClass BoundUnit := do
  let classes ← file.classes.foldlM Universe.addStored {}
  let u := classes.withSourceMap file.expansions file.tokenLengths
  pure ⟨u, file.calls.map (CallSite.bind u.storedClass?)⟩

variable {file : UnitFile}

/-- A unit with no more classes and methods than handles is loaded as it is. -/
theorem load_eq_bind (hclasses : file.classes.length ≤ UInt32.size)
    (hmethods : (file.classes.flatMap (·.methods)).length ≤ UInt32.size) :
    file.load = file.bind := by
  have hbuild : file.classes.foldlM Universe.addStored {} = Universe.ofClasses file.classes :=
    Universe.foldlM_addStored (by simpa using hclasses) (by simpa using hmethods)
  rw [load, UnitFile.bind, hbuild]
  cases hbuilt : Universe.ofClasses file.classes with
  | error e => rfl
  | ok u =>
    have hlength := Universe.length_classes_of_foldlM hbuilt
    have hfits : (u.withSourceMap file.expansions file.tokenLengths).classes.length ≤
        UInt32.size := by
      show u.classes.length ≤ UInt32.size
      rw [hlength]
      simpa using hclasses
    have hstored : (u.withSourceMap file.expansions file.tokenLengths).storedClass? =
        (u.withSourceMap file.expansions file.tokenLengths).classNamed? :=
      funext (Universe.storedClass?_eq hfits)
    show (Except.ok _ : Except DuplicateClass BoundUnit) = Except.ok _
    rw [hstored]

theorem length_classes_of_bind {unit : BoundUnit} (h : file.bind = .ok unit) :
    unit.declarations.classes.length = file.classes.length := by
  obtain ⟨_, rfl⟩ := eq_ofCalls_of_bind h
  exact List.length_mapIdx

theorem sound_of_bind {unit : BoundUnit} (h : file.bind = .ok unit)
    (hfits : unit.declarations.classes.length ≤ UInt32.size) : unit.Sound := by
  obtain ⟨u, hbuilt, hunit⟩ := exists_of_bind_eq_ok h
  obtain rfl := Except.ok.inj hunit
  have hsound := Universe.Sound.empty.foldlM_addClass hbuilt
  refine ⟨⟨hsound.methods, hsound.owners⟩, hfits, ?_⟩
  intro call hcall source operand hoperand c hc
  obtain ⟨original, _, rfl⟩ := List.mem_map.1 hcall
  rw [CallSite.operand?_bind] at hoperand
  obtain ⟨named, _, rfl⟩ := Option.map_eq_some_iff.1 hoperand
  rw [Operand.class?_bind] at hc
  obtain ⟨name, _, hname⟩ := Option.bind_eq_some_iff.1 hc
  exact Universe.hasClass_of_classNamed? hname

end UnitFile

end SignalSlot
