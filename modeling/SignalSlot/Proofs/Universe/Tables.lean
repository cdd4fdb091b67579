import SignalSlot.Proofs.Safety.Handles

set_option autoImplicit false

/-!
# What the tables of a universe hold

A universe flattens classes that hold methods into a table of classes and a table
of methods, and the two refer to each other by handles.  `Universe.Holds` says
that the tables are those of a list of classes: names are looked up to positions,
classes and methods stand where they were declared, the handles that the classes
keep count through all methods, and each method knows the class that keeps it.

Names are looked up without going through the tables when an index keeps the
handle of each name.  Each class that is added keeps the index and the tables in
agreement (`Builder.Agrees.add`), so one may stand for the other.

`ofClasses_holds` says that building ends with such tables and such an index, or
refuses the first class that repeats a name.
-/

namespace SignalSlot

/-- The declaration that an entry was made from. -/
def MethodEntry.declaration (entry : MethodEntry) : MethodDecl where
  name := entry.name
  params := entry.params
  returns := entry.returns

namespace Universe

/-- The tables of a universe hold a list of classes. -/
structure Holds (u : Universe) (decls : List ClassDecl) : Prop where
  /-- A name stands for the position of the class that has it; other names stand for nothing. -/
  named : ∀ name c, u.classNamed? name = some c ↔
    ∃ decl, decls[c.index]? = some decl ∧ decl.name = name
  /-- Each class stands at its position and keeps what it declares. -/
  classes : u.classes.map (fun entry => (entry.name, entry.defined, entry.bases)) =
    decls.map fun decl => (decl.name, decl.defined, decl.bases)
  /-- The handles that the classes keep, one class after the other, count through all methods. -/
  numbered : u.classes.flatMap (·.methods) =
    (List.range (decls.flatMap (·.methods)).length).map MethodId.mk
  /-- The handles that a class keeps stand for the methods that it declares, in order. -/
  own : ∀ c decl, decls[c.index]? = some decl →
    (u.methodsOf c).map (fun m => (u.method? m).map MethodEntry.declaration) =
      decl.methods.map some
  /-- A method is owned by the class that keeps its handle. -/
  owned : ∀ m c, u.owner? m = some c ↔ m ∈ u.methodsOf c
  /-- The table of methods holds all methods in the order of their declarations. -/
  methods : u.methods.map MethodEntry.declaration = decls.flatMap (·.methods)

/-- A name that the first class to repeat a name repeats. -/
def IsFirstRepeat (decls : List ClassDecl) (name : String) : Prop :=
  ∃ before decl after, decls = before ++ decl :: after ∧ decl.name = name ∧
    name ∈ before.map (·.name) ∧ (before.map (·.name)).Nodup

/-! ## The tables of a layout -/

section Layout

variable {decls : List ClassDecl} {expansions : List ExpansionDecl}
  {tokenLengths : List TokenLengthDecl}

/-- There are as many entries as declared methods. -/
theorem length_methodEntries (decls : List ClassDecl) :
    (methodEntries decls).length = (decls.flatMap (·.methods)).length := by
  rw [← methodStart_length, methodStart, List.take_length]

theorem map_declaration_methodEntries (decls : List ClassDecl) :
    (methodEntries decls).map MethodEntry.declaration = decls.flatMap (·.methods) := by
  induction decls using List.reverseRecOn with
  | nil => rfl
  | append_singleton before decl ih =>
    have hown : (decl.methods.map (entryOf ⟨0 + before.length⟩)).map MethodEntry.declaration =
        decl.methods := by
      rw [List.map_map]
      exact List.map_id decl.methods
    rw [methodEntries_append, List.map_append, ih, List.flatMap_append]
    simp only [List.mapIdx_singleton, List.flatten_singleton, List.flatMap_singleton, hown]

/-- The handles of a layout count through all methods: each class goes on where the one in front
of it has stopped. -/
theorem flatMap_methods_layout (decls : List ClassDecl) (expansions : List ExpansionDecl)
    (tokenLengths : List TokenLengthDecl) :
    (layout decls expansions tokenLengths).classes.flatMap (·.methods) =
      (List.range (decls.flatMap (·.methods)).length).map MethodId.mk := by
  induction decls using List.reverseRecOn with
  | nil => rfl
  | append_singleton before decl ih =>
    have hrange : ∀ a b, List.range a ++ List.range' a b = List.range (a + b) := by
      intro a b
      rw [List.range_eq_range', List.range_eq_range', ← List.range'_append_1, Nat.zero_add]
    rw [layout] at ih
    rw [layout_append_singleton, List.flatMap_append, ih, List.flatMap_singleton,
      methods_entryAt_length, length_methodEntries, ← List.map_append, hrange,
      List.flatMap_append, List.flatMap_singleton, List.length_append]

theorem methodsOf_layout {c : ClassId} {decl : ClassDecl} (h : decls[c.index]? = some decl) :
    (layout decls expansions tokenLengths).methodsOf c =
      (List.range decl.methods.length).map (methodAt decls c.index) := by
  rw [methodsOf, class?_layout, h]
  rfl

/-- A class keeps the handle of a method exactly when the method's entry names it as the owner. -/
theorem owner?_layout_eq_some_iff {m : MethodId} {c : ClassId} :
    (layout decls expansions tokenLengths).owner? m = some c ↔
      m ∈ (layout decls expansions tokenLengths).methodsOf c := by
  have hkept : ∀ d, m ∈ (layout decls expansions tokenLengths).methodsOf d →
      (layout decls expansions tokenLengths).owner? m = some d := by
    intro d hm
    cases hdecl : decls[d.index]? with
    | none =>
      rw [methodsOf, class?_layout, hdecl] at hm
      cases hm
    | some decl =>
      rw [methodsOf_layout hdecl, List.mem_map] at hm
      obtain ⟨i, hi, rfl⟩ := hm
      rw [owner?, method?_layout hdecl (List.getElem?_eq_getElem (List.mem_range.1 hi))]
      rfl
  constructor
  · intro howner
    -- Some class keeps the handle, since handles count through all methods; it is the owner.
    obtain ⟨entry, hentry, _⟩ := Option.map_eq_some_iff.1 howner
    obtain ⟨hlength, _⟩ := List.getElem?_eq_some_iff.1 hentry
    have hnumbered : m ∈ (layout decls expansions tokenLengths).classes.flatMap (·.methods) := by
      rw [flatMap_methods_layout, ← length_methodEntries]
      exact List.mem_map.2 ⟨m.index, List.mem_range.2 hlength, rfl⟩
    obtain ⟨keeper, hkeeper, hm⟩ := List.mem_flatMap.1 hnumbered
    obtain ⟨k, hk⟩ := List.mem_iff_getElem?.1 hkeeper
    have hmem : m ∈ (layout decls expansions tokenLengths).methodsOf ⟨k⟩ := by
      rw [methodsOf, class?, hk]
      exact hm
    rw [hkept ⟨k⟩ hmem] at howner
    obtain rfl := Option.some.inj howner
    exact hmem
  · exact hkept c

/-- The tables of a layout hold its classes. -/
theorem holds_layout (h : (decls.map (·.name)).Nodup) :
    (layout decls expansions tokenLengths).Holds decls where
  named _ _ := classNamed?_layout_eq_some_iff h
  classes := by
    rw [layout]
    apply List.ext_getElem (by simp)
    intro k _ _
    rw [List.getElem_map, List.getElem_mapIdx, List.getElem_map]
    rfl
  numbered := flatMap_methods_layout decls expansions tokenLengths
  own c decl hdecl := by
    rw [methodsOf_layout hdecl, List.map_map]
    apply List.ext_getElem (by simp)
    intro i hi _
    rw [List.length_map, List.length_range] at hi
    rw [List.getElem_map, List.getElem_map, List.getElem_range, Function.comp_apply,
      method?_layout hdecl (List.getElem?_eq_getElem hi)]
    rfl
  owned _ _ := owner?_layout_eq_some_iff
  methods := map_declaration_methodEntries decls

end Layout

/-! ## Building -/

/-- What is built is a layout of classes with different names. -/
theorem eq_layout_of_ofClasses {decls : List ClassDecl} {u : Universe}
    (h : ofClasses decls = .ok u) : (decls.map (·.name)).Nodup ∧ u = layout decls [] [] := by
  by_cases hnodup : (decls.map (·.name)).Nodup
  · exact ⟨hnodup, Except.ok.inj (h.symm.trans (ofClasses_of_nodup hnodup))⟩
  · obtain ⟨_, _, _, _, _, _, herror⟩ := ofClasses_of_not_nodup hnodup
    cases h.symm.trans herror

/-! ## An index of names -/

/-- Tables that are being built, and the handle that is stored for each name. -/
structure Builder where
  tables : Universe := {}
  index : Std.HashMap String ClassId := {}

namespace Builder

/-- Appends a class and its methods, whose handles have 32 bits; a name of the index is refused. -/
def add (b : Builder) (decl : ClassDecl) : Except DuplicateClass Builder :=
  if b.index.contains decl.name then .error ⟨decl.name⟩
  else
    let id := (ClassId.mk b.tables.classes.length).stored
    let ids := (List.range' b.tables.methods.length decl.methods.length).map fun k =>
      (MethodId.mk k).stored
    .ok {
      tables := { b.tables with
        classes := b.tables.classes ++ [⟨decl.name, decl.defined, decl.bases, ids⟩]
        methods := b.tables.methods ++ decl.methods.map (entryOf id) }
      index := b.index.insert decl.name id }

/-- Builds the tables of a list of classes together with their index. -/
def build (decls : List ClassDecl) : Except DuplicateClass Builder :=
  decls.foldlM add {}

/-- The index has the names of the tables, each with the handle of its class. -/
def Agrees (b : Builder) : Prop :=
  ∀ name, b.index[name]? = b.tables.storedClass? name

theorem Agrees.empty : Agrees {} := by
  intro name
  exact Std.HashMap.getElem?_empty

variable {b next : Builder} {decl : ClassDecl}

/-- An index that agrees with the tables refuses the names that the tables have. -/
theorem Agrees.contains_index (h : b.Agrees) (name : String) :
    b.index.contains name = (b.tables.classNamed? name).isSome := by
  rw [Std.HashMap.contains_eq_isSome_getElem?, h, storedClass?, Option.isSome_map]

theorem Agrees.map_tables_add (h : b.Agrees) (decl : ClassDecl) :
    (b.add decl).map tables = b.tables.addStored decl := by
  rw [add, addStored, h.contains_index]
  split <;> rfl

/-- One class more keeps the agreement: its name is new to the tables, so its place is the first
one that has the name. -/
theorem Agrees.add (h : b.Agrees) (hadd : b.add decl = .ok next) : next.Agrees := by
  unfold Builder.add at hadd
  split at hadd
  · cases hadd
  · rename_i hfresh
    obtain rfl := Except.ok.inj hadd
    rw [h.contains_index, classNamed?, Option.isSome_map, Bool.not_eq_true,
      Option.isSome_eq_false_iff, Option.isNone_iff_eq_none] at hfresh
    intro name
    have hname := h name
    simp only [storedClass?, classNamed?] at hname
    simp only [storedClass?, classNamed?, List.findIdx?_append, Std.HashMap.getElem?_insert]
    by_cases heq : decl.name = name
    · subst heq
      simp [hfresh]
    · simp [heq, hname]

/-- A run keeps the agreement, and what it leaves in the tables does not depend on the index. -/
theorem Agrees.foldlM_add (h : b.Agrees) (decls : List ClassDecl) :
    (decls.foldlM Builder.add b).map tables = decls.foldlM addStored b.tables ∧
      ∀ last, decls.foldlM Builder.add b = .ok last → last.Agrees := by
  induction decls generalizing b with
  | nil =>
    refine ⟨rfl, fun last hlast => ?_⟩
    obtain rfl := Except.ok.inj hlast
    exact h
  | cons decl decls ih =>
    rw [List.foldlM_cons, List.foldlM_cons, ← h.map_tables_add]
    cases hadd : b.add decl with
    | error e =>
      refine ⟨rfl, fun last hlast => ?_⟩
      cases hlast
    | ok next => exact ih (h.add hadd)

/-- While there are handles for all classes and methods, the tables are those of unbounded
handles. -/
theorem map_tables_build {decls : List ClassDecl} (hclasses : decls.length ≤ UInt32.size)
    (hmethods : (decls.flatMap (·.methods)).length ≤ UInt32.size) :
    (build decls).map tables = ofClasses decls := by
  have hstored : decls.foldlM addStored {} = ofClasses decls :=
    foldlM_addStored (by simpa using hclasses) (by simpa using hmethods)
  exact (Agrees.empty.foldlM_add decls).1.trans hstored

theorem ofClasses_of_build {decls : List ClassDecl} (hclasses : decls.length ≤ UInt32.size)
    (hmethods : (decls.flatMap (·.methods)).length ≤ UInt32.size)
    (h : build decls = .ok b) : ofClasses decls = .ok b.tables := by
  rw [← map_tables_build hclasses hmethods, h]
  rfl

theorem exists_build_of_ofClasses {decls : List ClassDecl} {u : Universe}
    (hclasses : decls.length ≤ UInt32.size)
    (hmethods : (decls.flatMap (·.methods)).length ≤ UInt32.size)
    (h : ofClasses decls = .ok u) : ∃ b, build decls = .ok b ∧ b.tables = u := by
  have htables := map_tables_build hclasses hmethods
  rw [h] at htables
  cases hb : build decls with
  | error e =>
    rw [hb] at htables
    cases htables
  | ok b =>
    rw [hb] at htables
    exact ⟨b, rfl, Except.ok.inj htables⟩

end Builder

/-- A universe that was built from classes, with handles of 32 bits, and given a source map. -/
def IsBuilt (u : Universe) (decls : List ClassDecl) : Prop :=
  ∃ b expansions tokenLengths, Builder.build decls = .ok b ∧
    u = b.tables.withSourceMap expansions tokenLengths

namespace IsBuilt

variable {u : Universe} {decls : List ClassDecl} (hclasses : decls.length ≤ UInt32.size)
  (hmethods : (decls.flatMap (·.methods)).length ≤ UInt32.size)

include hclasses hmethods

theorem of_ofClasses (h : ofClasses decls = .ok u) : u.IsBuilt decls := by
  obtain ⟨b, hb, rfl⟩ := Builder.exists_build_of_ofClasses hclasses hmethods h
  exact ⟨b, [], [], hb, by simp [withSourceMap]⟩

/-- While there are handles for them, the tables hold the classes that they were built from. -/
theorem holds (h : u.IsBuilt decls) : u.Holds decls := by
  obtain ⟨b, expansions, tokenLengths, hb, rfl⟩ := h
  obtain ⟨hnodup, htables⟩ :=
    eq_layout_of_ofClasses (Builder.ofClasses_of_build hclasses hmethods hb)
  rw [htables]
  exact holds_layout hnodup

theorem sound (h : u.IsBuilt decls) : u.Sound := by
  obtain ⟨b, expansions, tokenLengths, hb, rfl⟩ := h
  have hsound := Sound.empty.foldlM_addClass (Builder.ofClasses_of_build hclasses hmethods hb)
  exact ⟨hsound.methods, hsound.owners⟩

theorem fits (h : u.IsBuilt decls) : u.classes.length ≤ UInt32.size := by
  have hlength := congrArg List.length (h.holds hclasses hmethods).classes
  rw [List.length_map, List.length_map] at hlength
  rw [hlength]
  exact hclasses

end IsBuilt

/-! ## What building ends with -/

/--
As long as there are handles for all classes and methods, building with an index
and with handles of 32 bits leaves the same tables.  It fails exactly when two
classes have the same name, and names the first class that repeats one; otherwise
the tables hold all classes, and the index has the position of each name.
-/
theorem ofClasses_holds (decls : List ClassDecl) (hclasses : decls.length < UInt32.size)
    (hmethods : (decls.flatMap (·.methods)).length < UInt32.size) :
    (Builder.build decls).map Builder.tables = ofClasses decls ∧
    ((∃ e, ofClasses decls = .error e) ↔ ¬ (decls.map (·.name)).Nodup) ∧
    (∀ e, ofClasses decls = .error e → IsFirstRepeat decls e.name) ∧
    (∀ u, ofClasses decls = .ok u → u.Holds decls) ∧
    ∀ b, Builder.build decls = .ok b → ∀ name, b.index[name]? = b.tables.classNamed? name := by
  have hbuild : (Builder.build decls).map Builder.tables = ofClasses decls :=
    Builder.map_tables_build (Nat.le_of_lt hclasses) (Nat.le_of_lt hmethods)
  have hrepeated : ∀ e, ofClasses decls = .error e → ¬ (decls.map (·.name)).Nodup := by
    intro e herror hnodup
    cases herror.symm.trans (ofClasses_of_nodup hnodup)
  refine ⟨hbuild, ⟨fun ⟨e, herror⟩ => hrepeated e herror, ?_⟩, ?_, ?_, ?_⟩
  · intro hnodup
    obtain ⟨_, decl, _, _, _, _, herror⟩ := ofClasses_of_not_nodup hnodup
    exact ⟨⟨decl.name⟩, herror⟩
  · intro e herror
    obtain ⟨before, decl, after, hdecls, hbefore, hmem, hfirst⟩ :=
      ofClasses_of_not_nodup (hrepeated e herror)
    obtain rfl := Except.error.inj (herror.symm.trans hfirst)
    exact ⟨before, decl, after, hdecls, rfl, hmem, hbefore⟩
  · intro u hbuilt
    obtain ⟨hnodup, rfl⟩ := eq_layout_of_ofClasses hbuilt
    exact holds_layout hnodup
  · intro b hb name
    have hbuilt := Builder.ofClasses_of_build (Nat.le_of_lt hclasses) (Nat.le_of_lt hmethods) hb
    have hlength : b.tables.classes.length ≤ UInt32.size := by
      rw [length_classes_of_foldlM hbuilt]
      simpa using Nat.le_of_lt hclasses
    have hagrees : b.Agrees := (Builder.Agrees.empty.foldlM_add decls).2 b hb
    rw [hagrees, storedClass?_eq hlength]

/-- A meter and a gauge that derives from it, with a class between them that is only announced. -/
def meters : List ClassDecl := [
  { name := "Meter", methods := [{ name := none }, { name := some "reset" }] },
  { name := "Base", defined := false },
  { name := "Gauge"
    bases := ["Meter", "Base"]
    methods := [{ name := some "reset", params := [{ type := .named "int" }] }] }]

/-- The same classes with two that repeat a name. -/
def repeatedMeters : List ClassDecl :=
  meters ++ [{ name := "Base" }, { name := "Meter" }]

theorem ofClasses_holds_meters :
    meters.length < UInt32.size ∧ (meters.flatMap (·.methods)).length < UInt32.size ∧
    (∃ b, Builder.build meters = .ok b ∧ b.tables.Holds meters ∧
      b.tables.owner? ⟨2⟩ = some ⟨2⟩ ∧ b.index["Gauge"]? = some ⟨2⟩) ∧
    repeatedMeters.length < UInt32.size ∧
    (repeatedMeters.flatMap (·.methods)).length < UInt32.size ∧
    ofClasses repeatedMeters = .error ⟨"Base"⟩ ∧ IsFirstRepeat repeatedMeters "Base" := by
  have hclasses : meters.length < UInt32.size := by decide
  have hmethods : (meters.flatMap (·.methods)).length < UInt32.size := by decide
  have hclasses' : repeatedMeters.length < UInt32.size := by decide
  have hmethods' : (repeatedMeters.flatMap (·.methods)).length < UInt32.size := by decide
  have hrefused : ofClasses repeatedMeters = .error ⟨"Base"⟩ := by decide
  have hbuilt : ofClasses meters = .ok (layout meters [] []) := ofClasses_of_nodup (by decide)
  obtain ⟨_, _, _, hholds, hindex⟩ := ofClasses_holds meters hclasses hmethods
  obtain ⟨_, _, hrepeats, _, _⟩ := ofClasses_holds repeatedMeters hclasses' hmethods'
  refine ⟨hclasses, hmethods, ?_, hclasses', hmethods', hrefused, hrepeats _ hrefused⟩
  obtain ⟨b, hb, htables⟩ :=
    Builder.exists_build_of_ofClasses (Nat.le_of_lt hclasses) (Nat.le_of_lt hmethods) hbuilt
  have howner : (layout meters [] []).owner? ⟨2⟩ = some ⟨2⟩ := by decide
  have hgauge : (layout meters [] []).classNamed? "Gauge" = some ⟨2⟩ := by decide
  exact ⟨b, hb, htables ▸ hholds _ hbuilt, htables ▸ howner,
    (hindex b hb "Gauge").trans (htables ▸ hgauge)⟩

end Universe

end SignalSlot
