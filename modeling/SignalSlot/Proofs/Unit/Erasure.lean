import SignalSlot.Proofs.Unit.Correspondence

set_option autoImplicit false

/-!
# What a unit need not say

A search follows first bases only, looks into defined classes only, passes over
methods without a name, and asks for the result type of nothing but a private
accessor.  `UnitFile.erased` takes everything else out of a file.  Its classes
keep their positions, but methods are renumbered, since those that are left out
stood in front of others.

`namedMethods` lists the methods of a class that stay with the positions they
had, and `KeptMethod` relates the old handle of such a method to the new one.
`keptMethod_corresponds` shows that the two layouts correspond by it, and
`UnitFile.resolve_erased` that the erased file is resolved to the same records.
-/

namespace SignalSlot

/-! ## Erasing -/

namespace MethodDecl

/-- Whether a method has the form of a private accessor, whatever it returns. -/
def IsAccessorOf (config : Config) (m : MethodDecl) : Prop :=
  m.name = some config.privateAccessor ∧ m.params = []

instance (config : Config) (m : MethodDecl) : Decidable (m.IsAccessorOf config) :=
  inferInstanceAs (Decidable (_ ∧ _))

/-- A method whose result type is kept only if it may be a private accessor. -/
def erased (config : Config) (m : MethodDecl) : MethodDecl :=
  if m.IsAccessorOf config then m else { m with returns := none }

end MethodDecl

/-- A class with its first base and its named methods; one that is only announced keeps none. -/
def ClassDecl.erased (config : Config) (decl : ClassDecl) : ClassDecl :=
  if decl.defined then
    { decl with
      bases := decl.bases.take 1
      methods := (decl.methods.filter (·.name.isSome)).map (MethodDecl.erased config) }
  else { decl with bases := [], methods := [] }

/-- A file without the parts of its classes that nothing asks for. -/
def UnitFile.erased (config : Config) (file : UnitFile) : UnitFile :=
  { file with classes := file.classes.map (ClassDecl.erased config) }

namespace MethodDecl

variable (config : Config) (m : MethodDecl)

@[simp] theorem name_erased : (m.erased config).name = m.name := by
  unfold erased
  split <;> rfl

@[simp] theorem params_erased : (m.erased config).params = m.params := by
  unfold erased
  split <;> rfl

theorem returns_erased_of_isAccessorOf {config : Config} {m : MethodDecl}
    (h : m.IsAccessorOf config) : (m.erased config).returns = m.returns := by
  rw [erased, if_pos h]

end MethodDecl

namespace ClassDecl

variable (config : Config) (decl : ClassDecl)

@[simp] theorem name_erased : (decl.erased config).name = decl.name := by
  unfold erased
  split <;> rfl

@[simp] theorem defined_erased : (decl.erased config).defined = decl.defined := by
  unfold erased
  split <;> rfl

/-- A defined class keeps its first base. -/
theorem head?_bases_erased {config : Config} {decl : ClassDecl} (h : decl.defined = true) :
    (decl.erased config).bases.head? = decl.bases.head? := by
  rw [erased, if_pos h]
  cases decl.bases <;> rfl

/-- The named methods of a class, each with its position. -/
def namedMethods (decl : ClassDecl) : List (MethodDecl × Nat) :=
  decl.methods.zipIdx.filter fun entry => entry.1.name.isSome

/-- A defined class keeps its named methods, in order. -/
theorem methods_erased {config : Config} {decl : ClassDecl} (h : decl.defined = true) :
    (decl.erased config).methods =
      decl.namedMethods.map fun entry => entry.1.erased config := by
  have hnamed : decl.methods.filter (·.name.isSome) = decl.namedMethods.map Prod.fst := by
    conv_lhs => rw [← List.zipIdx_map_fst 0 decl.methods]
    rw [List.filter_map]
    rfl
  rw [erased, if_pos h, hnamed, List.map_map]
  rfl

theorem getElem?_of_mem_namedMethods {decl : ClassDecl} {entry : MethodDecl × Nat}
    (h : entry ∈ decl.namedMethods) : decl.methods[entry.2]? = some entry.1 := by
  obtain ⟨hmem, _⟩ := List.mem_filter.1 h
  exact List.mem_zipIdx_iff_getElem?.1 hmem

/-- No two named methods stand at one position. -/
theorem nodup_positions_namedMethods : (decl.namedMethods.map Prod.snd).Nodup := by
  have hsub : (decl.namedMethods.map Prod.snd).Sublist (decl.methods.zipIdx.map Prod.snd) :=
    List.filter_sublist.map Prod.snd
  refine List.Nodup.sublist hsub ?_
  rw [List.zipIdx_map_snd]
  exact List.nodup_range'

end ClassDecl

namespace Universe

section Layouts

variable {decls : List ClassDecl} {config : Config} (expansions : List ExpansionDecl)
  (tokenLengths : List TokenLengthDecl)

/-! ## Classes -/

theorem class?_erased (c : ClassId) :
    (layout (decls.map (ClassDecl.erased config)) expansions tokenLengths).class? c =
      decls[c.index]?.map fun decl =>
        entryAt (decls.map (ClassDecl.erased config)) c.index (decl.erased config) := by
  rw [class?_layout, List.getElem?_map, Option.map_map]
  rfl

theorem isDefined_erased (c : ClassId) :
    (layout (decls.map (ClassDecl.erased config)) expansions tokenLengths).isDefined c =
      (layout decls expansions tokenLengths).isDefined c := by
  rw [isDefined, class?_erased, isDefined, class?_layout]
  cases decls[c.index]? with
  | none => rfl
  | some decl => exact decl.defined_erased config

theorem className_erased (c : ClassId) :
    (layout (decls.map (ClassDecl.erased config)) expansions tokenLengths).className c =
      (layout decls expansions tokenLengths).className c := by
  rw [className, class?_erased, className, class?_layout]
  cases decls[c.index]? with
  | none => rfl
  | some decl => exact decl.name_erased config

/-- Classes keep their names and their positions. -/
theorem classNamed?_erased :
    (layout (decls.map (ClassDecl.erased config)) expansions tokenLengths).classNamed? =
      (layout decls expansions tokenLengths).classNamed? := by
  have hnames : ∀ entries : List ClassDecl, ∀ name : String,
      (layout entries expansions tokenLengths).classNamed? name =
        ((entries.map (·.name)).findIdx? (· == name)).map ClassId.mk := by
    intro entries name
    have hlist : (layout entries expansions tokenLengths).classes.map (·.name) =
        entries.map (·.name) := by
      refine List.ext_getElem? fun k => ?_
      simp only [layout, List.getElem?_map, List.getElem?_mapIdx, Option.map_map]
      rfl
    rw [classNamed?, ← hlist, List.findIdx?_map]
    rfl
  funext name
  rw [hnames, hnames, List.map_map]
  congr 2
  refine List.map_congr_left fun decl _ => ?_
  exact decl.name_erased config

theorem nextInChain?_erased (c : ClassId) :
    (layout (decls.map (ClassDecl.erased config)) expansions tokenLengths).nextInChain? c =
      (layout decls expansions tokenLengths).nextInChain? c := by
  unfold nextInChain? firstBase?
  rw [isDefined_erased, classNamed?_erased, class?_erased, class?_layout]
  cases hdecl : decls[c.index]? with
  | none => rfl
  | some decl =>
    by_cases hdefined : decl.defined = true
    · simp only [Option.map_some, Option.bind_eq_bind, Option.bind_some, entryAt,
        decl.head?_bases_erased hdefined]
    · have hundefined : (layout decls expansions tokenLengths).isDefined c = false := by
        rw [isDefined, class?_layout, hdecl]
        exact eq_false_of_ne_true hdefined
      rw [hundefined]
      rfl

/-! ## Methods -/

/-- The old and the new handle of a named method of a defined class. -/
def KeptMethod (config : Config) (decls : List ClassDecl) (m m' : MethodId) : Prop :=
  ∃ k decl j entry, decls[k]? = some decl ∧ decl.defined = true ∧
    decl.namedMethods[j]? = some entry ∧ m = methodAt decls k entry.2 ∧
    m' = methodAt (decls.map (ClassDecl.erased config)) k j

/-- Both handles stand for one method of one class, with and without its result type. -/
theorem KeptMethod.method? {m m' : MethodId} (h : KeptMethod config decls m m') :
    ∃ owner method, (layout decls expansions tokenLengths).method? m =
        some (entryOf owner method) ∧
      (layout (decls.map (ClassDecl.erased config)) expansions tokenLengths).method? m' =
        some (entryOf owner (method.erased config)) := by
  obtain ⟨k, decl, j, entry, hk, hdefined, hj, rfl, rfl⟩ := h
  have hmem : entry ∈ decl.namedMethods := List.mem_of_getElem? hj
  have hk' : (decls.map (ClassDecl.erased config))[k]? = some (decl.erased config) := by
    rw [List.getElem?_map, hk, Option.map_some]
  have hj' : (decl.erased config).methods[j]? = some (entry.1.erased config) := by
    rw [ClassDecl.methods_erased hdefined, List.getElem?_map, hj, Option.map_some]
  exact ⟨⟨k⟩, entry.1, method?_layout hk (ClassDecl.getElem?_of_mem_namedMethods hmem),
    method?_layout hk' hj'⟩

theorem KeptMethod.methodName? {m m' : MethodId} (h : KeptMethod config decls m m') :
    (layout decls expansions tokenLengths).methodName? m =
      (layout (decls.map (ClassDecl.erased config)) expansions tokenLengths).methodName? m' := by
  obtain ⟨owner, method, hm, hm'⟩ := h.method? expansions tokenLengths
  rw [Universe.methodName?, hm, Universe.methodName?, hm']
  exact (method.name_erased config).symm

theorem KeptMethod.paramsOf {m m' : MethodId} (h : KeptMethod config decls m m') :
    (layout decls expansions tokenLengths).paramsOf m =
      (layout (decls.map (ClassDecl.erased config)) expansions tokenLengths).paramsOf m' := by
  obtain ⟨owner, method, hm, hm'⟩ := h.method? expansions tokenLengths
  rw [Universe.paramsOf, hm, Universe.paramsOf, hm']
  exact (method.params_erased config).symm

theorem KeptMethod.qualifiedSignature {m m' : MethodId} (h : KeptMethod config decls m m') :
    (layout decls expansions tokenLengths).qualifiedSignature m =
      (layout (decls.map (ClassDecl.erased config))
        expansions tokenLengths).qualifiedSignature m' := by
  obtain ⟨owner, method, hm, hm'⟩ := h.method? expansions tokenLengths
  rw [Universe.qualifiedSignature, hm, Universe.qualifiedSignature, hm']
  simp only [Option.elim_some, signatureOf, entryOf, className_erased,
    MethodDecl.name_erased, MethodDecl.params_erased]

/-- A method that has the form of an accessor keeps its result type. -/
theorem KeptMethod.resultType? {m m' : MethodId} (h : KeptMethod config decls m m')
    (hname : (layout decls expansions tokenLengths).methodName? m = some config.privateAccessor)
    (hcount : (layout decls expansions tokenLengths).parameterCount m = 0) :
    (layout decls expansions tokenLengths).resultType? m =
      (layout (decls.map (ClassDecl.erased config)) expansions tokenLengths).resultType? m' := by
  obtain ⟨owner, method, hm, hm'⟩ := h.method? expansions tokenLengths
  have haccessor : method.IsAccessorOf config := by
    rw [Universe.methodName?, hm] at hname
    rw [parameterCount, Universe.paramsOf, hm] at hcount
    exact ⟨hname, List.eq_nil_of_length_eq_zero hcount⟩
  rw [Universe.resultType?, hm, Universe.resultType?, hm']
  exact (MethodDecl.returns_erased_of_isAccessorOf haccessor).symm

/-- Different named methods have different handles before and after. -/
theorem keptMethod_eq_iff {m m' n n' : MethodId} (hm : KeptMethod config decls m m')
    (hn : KeptMethod config decls n n') : m = n ↔ m' = n' := by
  obtain ⟨k, decl, j, entry, hk, hdefined, hj, rfl, rfl⟩ := hm
  obtain ⟨l, other, j', entry', hl, hdefined', hj', rfl, rfl⟩ := hn
  obtain ⟨hposition, _⟩ := List.getElem?_eq_some_iff.1
    (ClassDecl.getElem?_of_mem_namedMethods (List.mem_of_getElem? hj))
  obtain ⟨hposition', _⟩ := List.getElem?_eq_some_iff.1
    (ClassDecl.getElem?_of_mem_namedMethods (List.mem_of_getElem? hj'))
  obtain ⟨hlength, _⟩ := List.getElem?_eq_some_iff.1 hj
  obtain ⟨hlength', _⟩ := List.getElem?_eq_some_iff.1 hj'
  constructor
  · intro heq
    obtain ⟨rfl, hentry⟩ := methodAt_inj hk hl hposition hposition' heq
    obtain rfl := Option.some.inj (hk.symm.trans hl)
    have hplace : j = j' := by
      refine (List.getElem?_inj (by rwa [List.length_map])
        decl.nodup_positions_namedMethods).1 ?_
      rw [List.getElem?_map, List.getElem?_map, hj, hj', Option.map_some, Option.map_some, hentry]
    rw [hplace]
  · intro heq
    have hk' : (decls.map (ClassDecl.erased config))[k]? = some (decl.erased config) := by
      rw [List.getElem?_map, hk, Option.map_some]
    have hl' : (decls.map (ClassDecl.erased config))[l]? = some (other.erased config) := by
      rw [List.getElem?_map, hl, Option.map_some]
    obtain ⟨rfl, rfl⟩ := methodAt_inj hk' hl'
      (by rwa [ClassDecl.methods_erased hdefined, List.length_map])
      (by rwa [ClassDecl.methods_erased hdefined', List.length_map]) heq
    obtain rfl := Option.some.inj (hk.symm.trans hl)
    rw [Option.some.inj (hj.symm.trans hj')]

/-! ## The correspondence -/

/-- The methods of a class that have a name. -/
def namedMethodsOf (u : Universe) (c : ClassId) : List MethodId :=
  (u.methodsOf c).filter fun m => (u.methodName? m).isSome

/-- What asks for a name only finds named methods. -/
theorem filter_methodsOf (u : Universe) (c : ClassId) {p : MethodId → Bool}
    (h : ∀ m, p m = true → (u.methodName? m).isSome = true) :
    (u.methodsOf c).filter p = (u.namedMethodsOf c).filter p := by
  rw [namedMethodsOf, List.filter_filter]
  refine List.filter_congr fun m _ => ?_
  cases hp : p m with
  | false => rfl
  | true => rw [h m hp, Bool.and_self]

/-- The named methods of a class by their handles. -/
theorem namedMethodsOf_layout {k : Nat} {decl : ClassDecl} (hk : decls[k]? = some decl) :
    (layout decls expansions tokenLengths).namedMethodsOf ⟨k⟩ =
      decl.namedMethods.map fun entry => methodAt decls k entry.2 := by
  have hmethods : (layout decls expansions tokenLengths).methodsOf ⟨k⟩ =
      decl.methods.zipIdx.map fun entry => methodAt decls k entry.2 := by
    rw [Universe.methodsOf, class?_layout, hk, Option.map_some, Option.elim_some, entryAt,
      List.range_eq_range', ← List.zipIdx_map_snd 0 decl.methods, List.map_map]
    rfl
  rw [namedMethodsOf, hmethods, List.filter_map, ClassDecl.namedMethods]
  congr 1
  refine List.filter_congr fun entry hentry => ?_
  have hmethod : (layout decls expansions tokenLengths).method? (methodAt decls k entry.2) =
      some (entryOf ⟨k⟩ entry.1) :=
    method?_layout hk (List.mem_zipIdx_iff_getElem?.1 hentry)
  simp only [Function.comp_apply, Universe.methodName?, hmethod, Option.bind_some, entryOf]

/-- The named methods of a defined class are all that the erased class has. -/
theorem forall₂_keptMethod (c : ClassId)
    (h : (layout decls expansions tokenLengths).isDefined c = true) :
    List.Forall₂ (KeptMethod config decls)
      ((layout decls expansions tokenLengths).namedMethodsOf c)
      ((layout (decls.map (ClassDecl.erased config)) expansions tokenLengths).methodsOf c) := by
  obtain ⟨k⟩ := c
  rw [Universe.isDefined, class?_layout] at h
  cases hk : decls[k]? with
  | none =>
    rw [hk] at h
    cases h
  | some decl =>
    rw [hk] at h
    have hdefined : decl.defined = true := h
    rw [namedMethodsOf_layout expansions tokenLengths hk, Universe.methodsOf, class?_erased, hk]
    simp only [Option.map_some, Option.elim_some, entryAt, ClassDecl.methods_erased hdefined,
      List.length_map]
    refine List.forall₂_iff_get.2 ⟨by simp, ?_⟩
    intro j hj _
    rw [List.length_map] at hj
    refine ⟨k, decl, j, decl.namedMethods[j], hk, hdefined, List.getElem?_eq_getElem hj, ?_, ?_⟩
    · simp only [List.get_eq_getElem, List.getElem_map]
    · simp only [List.get_eq_getElem, List.getElem_map, List.getElem_range]

theorem foundIn_erased (c : ClassId) (name : String) :
    List.Forall₂ (KeptMethod config decls)
      ((layout decls expansions tokenLengths).foundIn name c)
      ((layout (decls.map (ClassDecl.erased config)) expansions tokenLengths).foundIn name c) := by
  unfold Universe.foundIn methodsNamed
  rw [isDefined_erased]
  split
  · rename_i hdefined
    have hnamed : ∀ m, ((layout decls expansions tokenLengths).methodName? m == some name) = true →
        ((layout decls expansions tokenLengths).methodName? m).isSome = true := by
      intro m hm
      rw [beq_iff_eq.1 hm]
      rfl
    rw [filter_methodsOf _ c hnamed]
    refine List.rel_filter ?_ (forall₂_keptMethod expansions tokenLengths c hdefined)
    intro m m' hm
    simp only [hm.methodName? expansions tokenLengths]
  · exact .nil

theorem isPrivateAccessor_erased {m m' : MethodId} (h : KeptMethod config decls m m') :
    config.isPrivateAccessor (layout decls expansions tokenLengths) m = true ↔
      config.isPrivateAccessor
        (layout (decls.map (ClassDecl.erased config)) expansions tokenLengths) m' = true := by
  have hname := h.methodName? expansions tokenLengths
  have hparams := h.paramsOf expansions tokenLengths
  have hresult := h.resultType? expansions tokenLengths
  simp only [Config.isPrivateAccessor, parameterCount, Bool.and_eq_true, beq_iff_eq] at hresult ⊢
  rw [← hname, ← hparams]
  constructor
  · rintro ⟨hform, hsome⟩
    exact ⟨hform, hresult hform.1 hform.2 ▸ hsome⟩
  · rintro ⟨hform, hsome⟩
    exact ⟨hform, (hresult hform.1 hform.2).symm ▸ hsome⟩

/-- An accessor points to the same class before and after. -/
theorem sameTarget_erased {m m' : MethodId} (h : KeptMethod config decls m m')
    (haccessor : config.isPrivateAccessor (layout decls expansions tokenLengths) m = true) :
    SameTarget (layout decls expansions tokenLengths)
      (layout (decls.map (ClassDecl.erased config)) expansions tokenLengths) (· = ·) m m' := by
  simp only [Config.isPrivateAccessor, Bool.and_eq_true, beq_iff_eq] at haccessor
  obtain ⟨⟨hname, hcount⟩, _⟩ := haccessor
  have hpointee : (layout (decls.map (ClassDecl.erased config)) expansions tokenLengths).pointee? =
      (layout decls expansions tokenLengths).pointee? := by
    unfold pointee?
    rw [classNamed?_erased]
  unfold SameTarget privateClass?
  rw [hpointee, h.resultType? expansions tokenLengths hname hcount]
  exact rel_refl _

theorem accessorIn?_erased (c : ClassId) :
    Option.Rel
      (SameTarget (layout decls expansions tokenLengths)
        (layout (decls.map (ClassDecl.erased config)) expansions tokenLengths) (· = ·))
      ((layout decls expansions tokenLengths).accessorIn? config c)
      ((layout (decls.map (ClassDecl.erased config)) expansions tokenLengths).accessorIn?
        config c) := by
  unfold Universe.accessorIn?
  rw [isDefined_erased, ← List.head?_filter, ← List.head?_filter]
  split
  · rename_i hdefined
    have hnamed : ∀ m, config.isPrivateAccessor (layout decls expansions tokenLengths) m = true →
        ((layout decls expansions tokenLengths).methodName? m).isSome = true := by
      intro m hm
      simp only [Config.isPrivateAccessor, Bool.and_eq_true, beq_iff_eq] at hm
      rw [hm.1.1]
      rfl
    rw [filter_methodsOf _ c hnamed]
    have hkept : List.Forall₂ (KeptMethod config decls) _ _ :=
      List.rel_filter (fun _ _ hm => isPrivateAccessor_erased expansions tokenLengths hm)
        (forall₂_keptMethod expansions tokenLengths c hdefined)
    have haccessors := (List.forall₂_and_left _ _).2
      ⟨fun _ hm => (List.mem_filter.1 hm).2, hkept⟩
    refine rel_head? (haccessors.imp ?_)
    rintro m m' ⟨haccessor, hm⟩
    exact sameTarget_erased expansions tokenLengths hm haccessor
  · exact .none

theorem keptMethod_corresponds :
    Corresponds config (layout decls expansions tokenLengths)
      (layout (decls.map (ClassDecl.erased config)) expansions tokenLengths) (· = ·)
      (KeptMethod config decls) where
  classNamed? name := by
    rw [classNamed?_erased]
    exact rel_refl _
  nextInChain? := by
    rintro c _ rfl
    rw [nextInChain?_erased]
    exact rel_refl _
  foundIn := by
    rintro c _ rfl name
    exact foundIn_erased expansions tokenLengths c name
  accessorIn? := by
    rintro c _ rfl
    exact accessorIn?_erased expansions tokenLengths c
  paramsOf := KeptMethod.paramsOf expansions tokenLengths
  qualifiedSignature := KeptMethod.qualifiedSignature expansions tokenLengths
  same_iff := keptMethod_eq_iff
  expansions := rfl
  tokenLengths := rfl

end Layouts

end Universe

namespace UnitFile

open Universe

theorem names_erased (config : Config) (file : UnitFile) :
    (file.erased config).classes.map (·.name) = file.classes.map (·.name) := by
  rw [erased, List.map_map]
  exact List.map_congr_left fun decl _ => decl.name_erased config

/--
What a search never asks for does not matter.  A file of different class names
and the erased file are both bound, every search in either has an answer, and
both are resolved to the same records.
-/
theorem resolve_erased (file : UnitFile) (config : Config)
    (hnodup : (file.classes.map (·.name)).Nodup) (h : config.Countable) :
    ∃ unit erased, file.bind = .ok unit ∧ (file.erased config).bind = .ok erased ∧
      (∀ c name, (unit.declarations.search config c name).value.Answered) ∧
      (∀ c name, (erased.declarations.search config c name).value.Answered) ∧
      erased.resolve config = unit.resolve config := by
  have hnodup' : ((file.erased config).classes.map (·.name)).Nodup := by
    rwa [names_erased]
  refine ⟨_, _, bind_of_nodup _ hnodup, bind_of_nodup _ hnodup', ?_, ?_, ?_⟩
  · exact fun c name => answered_search _ h c name
  · exact fun c name => answered_search _ h c name
  · exact (BoundUnit.resolve_ofCalls (keptMethod_corresponds _ _) file.calls).symm

/--
A dialog with two bases, of which the first is only announced.  It has a slot of
its own and one behind an accessor, each behind a method without a name.
-/
def guardedDialog : UnitFile where
  classes := [{ name := "Base", defined := false, methods := [{ name := some "accept" }] },
    { name := "Mixin", methods := [{ name := some "accept" }] },
    { name := "Dialog"
      bases := ["Base", "Mixin"]
      methods := [{ name := none },
        { name := some "d_func", returns := some (.pointerTo "DialogPrivate") },
        { name := some "reject", returns := some (.named "bool") }] },
    { name := "DialogPrivate", methods := [{ name := none }, { name := some "refresh" }] }]
  calls :=
    let start (slot : StringLiteral) : CallSite String :=
      { className := "QTimer"
        methodName := "singleShot"
        kind := .static
        declaredParams := 3
        args := [.other, .object (some "Dialog") true, .literal slot] }
    [start (.narrow "1accept()" ⟨20, 31⟩), start (.narrow "1reject()" ⟨50, 61⟩),
      start (.narrow "1refresh()" ⟨80, 92⟩)]

-- Both methods that are used change their handles, and the accessor is still followed.
theorem resolve_erased_guardedDialog :
    Config.builtin.Countable ∧
    (guardedDialog.classes.map (·.name)).Nodup ∧
    (guardedDialog.erased .builtin).classes =
      [{ name := "Base", defined := false },
        { name := "Mixin", methods := [{ name := some "accept" }] },
        { name := "Dialog"
          bases := ["Base"]
          methods := [{ name := some "d_func", returns := some (.pointerTo "DialogPrivate") },
            { name := some "reject" }] },
        { name := "DialogPrivate", methods := [{ name := some "refresh" }] }] ∧
    ∃ unit erased, guardedDialog.bind = .ok unit ∧
      (guardedDialog.erased .builtin).bind = .ok erased ∧
      (unit.usesOfCalls .builtin).map (·.declaration) = [⟨4⟩, ⟨6⟩] ∧
      (erased.usesOfCalls .builtin).map (·.declaration) = [⟨2⟩, ⟨3⟩] ∧
      erased.resolve .builtin =
        [{ declaration := "Dialog::reject()", range := ⟨50, 61⟩ },
          { declaration := "DialogPrivate::refresh()", range := ⟨80, 92⟩ }] := by
  have h : Config.builtin.Countable := by decide
  have hnodup : (guardedDialog.classes.map (·.name)).Nodup := by decide
  obtain ⟨unit, erased, hunit, herased, _, _, hresolve⟩ :=
    resolve_erased guardedDialog .builtin hnodup h
  obtain rfl := Except.ok.inj (hunit.symm.trans (bind_of_nodup _ hnodup))
  obtain rfl := Except.ok.inj (herased.symm.trans (bind_of_nodup _ (by decide)))
  exact ⟨h, hnodup, by decide, _, _, hunit, herased, by decide +kernel, by decide +kernel,
    hresolve.trans (by decide +kernel)⟩

end UnitFile

end SignalSlot
