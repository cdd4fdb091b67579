import SignalSlot.Proofs.Unit.Correspondence

set_option autoImplicit false

/-!
# The order of the classes of a unit

All handles of a unit are positions in its list of classes, so another order of
the list changes every one of them.  `SameClass` relates the positions of one
class in two lists, and `SameMethod` the handles of one method.
`Reordered.corresponds` shows that the two layouts correspond to each other by
them as soon as the lists hold the same classes, each name once.

`UnitFile.resolve_of_perm` says that the order does not matter: a file in another
order is resolved to the same records, and it is refused in every order if it
repeats a name.
-/

namespace SignalSlot

namespace Universe

/-- Two lists hold the same classes, each name once. -/
structure Reordered (decls decls' : List ClassDecl) : Prop where
  mem_iff : ∀ decl, decl ∈ decls ↔ decl ∈ decls'
  nodup : (decls.map (·.name)).Nodup
  nodup' : (decls'.map (·.name)).Nodup

/-- The positions of one class in two lists. -/
def SameClass (decls decls' : List ClassDecl) (c c' : ClassId) : Prop :=
  ∃ decl, decls[c.index]? = some decl ∧ decls'[c'.index]? = some decl

/-- The handles of one method of a class that stands in two lists. -/
def SameMethod (decls decls' : List ClassDecl) (m m' : MethodId) : Prop :=
  ∃ k k' decl i, decls[k]? = some decl ∧ decls'[k']? = some decl ∧ i < decl.methods.length ∧
    m = methodAt decls k i ∧ m' = methodAt decls' k' i

section Layouts

variable {decls decls' : List ClassDecl} (expansions : List ExpansionDecl)
  (tokenLengths : List TokenLengthDecl)

/-! ## Classes -/

theorem Reordered.classNamed? (h : Reordered decls decls') (name : String) :
    Option.Rel (SameClass decls decls')
      ((layout decls expansions tokenLengths).classNamed? name)
      ((layout decls' expansions tokenLengths).classNamed? name) := by
  cases hfound : (layout decls expansions tokenLengths).classNamed? name with
  | some c =>
    obtain ⟨decl, hc, hname⟩ := exists_of_classNamed?_layout hfound
    obtain ⟨k', hk'⟩ := List.mem_iff_getElem?.1 ((h.mem_iff decl).1 (List.mem_of_getElem? hc))
    have hfound' : (layout decls' expansions tokenLengths).classNamed? name = some ⟨k'⟩ :=
      (classNamed?_layout_eq_some_iff h.nodup').2 ⟨decl, hk', hname⟩
    rw [hfound']
    exact .some ⟨decl, hc, hk'⟩
  | none =>
    cases hfound' : (layout decls' expansions tokenLengths).classNamed? name with
    | none => exact .none
    | some c' =>
      obtain ⟨decl, hc', hname⟩ := exists_of_classNamed?_layout hfound'
      obtain ⟨k, hk⟩ := List.mem_iff_getElem?.1 ((h.mem_iff decl).2 (List.mem_of_getElem? hc'))
      have hsome : (layout decls expansions tokenLengths).classNamed? name = some ⟨k⟩ :=
        (classNamed?_layout_eq_some_iff h.nodup).2 ⟨decl, hk, hname⟩
      rw [hfound] at hsome
      cases hsome

/-- The positions of one class stand for entries that differ in the handles of methods only. -/
theorem SameClass.class? {c c' : ClassId} (h : SameClass decls decls' c c') :
    ∃ decl, (layout decls expansions tokenLengths).class? c =
        some (entryAt decls c.index decl) ∧
      (layout decls' expansions tokenLengths).class? c' =
        some (entryAt decls' c'.index decl) := by
  obtain ⟨decl, hc, hc'⟩ := h
  refine ⟨decl, ?_, ?_⟩
  · rw [class?_layout, hc, Option.map_some]
  · rw [class?_layout, hc', Option.map_some]

theorem SameClass.isDefined {c c' : ClassId} (h : SameClass decls decls' c c') :
    (layout decls expansions tokenLengths).isDefined c =
      (layout decls' expansions tokenLengths).isDefined c' := by
  obtain ⟨decl, hc, hc'⟩ := h.class? expansions tokenLengths
  rw [Universe.isDefined, hc, Universe.isDefined, hc']
  rfl

theorem SameClass.className {c c' : ClassId} (h : SameClass decls decls' c c') :
    (layout decls expansions tokenLengths).className c =
      (layout decls' expansions tokenLengths).className c' := by
  obtain ⟨decl, hc, hc'⟩ := h.class? expansions tokenLengths
  rw [Universe.className, hc, Universe.className, hc']
  rfl

theorem SameClass.methodsOf {c c' : ClassId} (h : SameClass decls decls' c c') :
    List.Forall₂ (SameMethod decls decls')
      ((layout decls expansions tokenLengths).methodsOf c)
      ((layout decls' expansions tokenLengths).methodsOf c') := by
  obtain ⟨decl, hc, hc'⟩ := h
  rw [Universe.methodsOf, class?_layout, hc, Universe.methodsOf, class?_layout, hc']
  simp only [Option.map_some, Option.elim_some, entryAt, List.forall₂_map_left_iff,
    List.forall₂_map_right_iff, List.forall₂_same, List.mem_range]
  intro i hi
  exact ⟨c.index, c'.index, decl, i, hc, hc', hi, rfl, rfl⟩

/-! ## Methods -/

/-- The handles of one method stand for entries that differ in the handle of the owner only. -/
theorem SameMethod.method? {m m' : MethodId} (h : SameMethod decls decls' m m') :
    ∃ owner owner' method, SameClass decls decls' owner owner' ∧
      (layout decls expansions tokenLengths).method? m = some (entryOf owner method) ∧
      (layout decls' expansions tokenLengths).method? m' = some (entryOf owner' method) := by
  obtain ⟨k, k', decl, i, hk, hk', hi, rfl, rfl⟩ := h
  have hmethod := List.getElem?_eq_getElem hi
  exact ⟨⟨k⟩, ⟨k'⟩, _, ⟨decl, hk, hk'⟩, method?_layout hk hmethod, method?_layout hk' hmethod⟩

theorem SameMethod.entry {m m' : MethodId} (h : SameMethod decls decls' m m') :
    let u := layout decls expansions tokenLengths
    let u' := layout decls' expansions tokenLengths
    u.methodName? m = u'.methodName? m' ∧ u.paramsOf m = u'.paramsOf m' ∧
      u.resultType? m = u'.resultType? m' := by
  obtain ⟨owner, owner', method, _, hm, hm'⟩ := h.method? expansions tokenLengths
  refine ⟨?_, ?_, ?_⟩
  · rw [methodName?, hm, methodName?, hm']
    rfl
  · rw [paramsOf, hm, paramsOf, hm']
    rfl
  · rw [resultType?, hm, resultType?, hm']
    rfl

theorem SameMethod.qualifiedSignature {m m' : MethodId} (h : SameMethod decls decls' m m') :
    (layout decls expansions tokenLengths).qualifiedSignature m =
      (layout decls' expansions tokenLengths).qualifiedSignature m' := by
  obtain ⟨owner, owner', method, howner, hm, hm'⟩ := h.method? expansions tokenLengths
  rw [Universe.qualifiedSignature, hm, Universe.qualifiedSignature, hm']
  simp only [Option.elim_some, signatureOf, entryOf, howner.className expansions tokenLengths]

/-- Different methods have different handles in both lists. -/
theorem Reordered.methodId_eq_iff (h : Reordered decls decls') {m m' n n' : MethodId}
    (hm : SameMethod decls decls' m m') (hn : SameMethod decls decls' n n') :
    m = n ↔ m' = n' := by
  obtain ⟨k, k', decl, i, hk, hk', hi, rfl, rfl⟩ := hm
  obtain ⟨l, l', other, j, hl, hl', hj, rfl, rfl⟩ := hn
  constructor
  · intro heq
    obtain ⟨rfl, rfl⟩ := methodAt_inj hk hl hi hj heq
    obtain rfl := Option.some.inj (hk.symm.trans hl)
    rw [position_unique h.nodup' hk' hl' rfl]
  · intro heq
    obtain ⟨rfl, rfl⟩ := methodAt_inj hk' hl' hi hj heq
    obtain rfl := Option.some.inj (hk'.symm.trans hl')
    rw [position_unique h.nodup hk hl rfl]

/-! ## The correspondence -/

theorem Reordered.nextInChain? (h : Reordered decls decls') {c c' : ClassId}
    (hc : SameClass decls decls' c c') :
    Option.Rel (SameClass decls decls')
      ((layout decls expansions tokenLengths).nextInChain? c)
      ((layout decls' expansions tokenLengths).nextInChain? c') := by
  obtain ⟨decl, hentry, hentry'⟩ := hc.class? expansions tokenLengths
  unfold Universe.nextInChain? firstBase?
  rw [hc.isDefined expansions tokenLengths, hentry, hentry']
  split
  · have hbases : (entryAt decls c.index decl).bases = (entryAt decls' c'.index decl).bases := rfl
    simp only [Option.bind_eq_bind, Option.bind_some, hbases]
    refine rel_bind (rel_refl _) ?_
    rintro base _ rfl
    exact h.classNamed? expansions tokenLengths base
  · exact .none

theorem SameClass.foundIn {c c' : ClassId} (hc : SameClass decls decls' c c') (name : String) :
    List.Forall₂ (SameMethod decls decls')
      ((layout decls expansions tokenLengths).foundIn name c)
      ((layout decls' expansions tokenLengths).foundIn name c') := by
  unfold Universe.foundIn methodsNamed
  rw [hc.isDefined expansions tokenLengths]
  split
  · refine List.rel_filter ?_ (hc.methodsOf expansions tokenLengths)
    intro m m' hm
    obtain ⟨hname, _, _⟩ := hm.entry expansions tokenLengths
    simp only [hname]
  · exact .nil

/-- The handles of one method point to the positions of one class. -/
theorem Reordered.sameTarget (h : Reordered decls decls') {m m' : MethodId}
    (hm : SameMethod decls decls' m m') :
    SameTarget (layout decls expansions tokenLengths) (layout decls' expansions tokenLengths)
      (SameClass decls decls') m m' := by
  obtain ⟨_, _, hresult⟩ := hm.entry expansions tokenLengths
  unfold SameTarget privateClass?
  rw [hresult]
  refine rel_bind (rel_refl _) ?_
  rintro ty _ rfl
  unfold pointee?
  split
  · exact h.classNamed? expansions tokenLengths ty.name
  · exact .none

theorem SameMethod.isPrivateAccessor {m m' : MethodId} (h : SameMethod decls decls' m m')
    (config : Config) :
    config.isPrivateAccessor (layout decls expansions tokenLengths) m = true ↔
      config.isPrivateAccessor (layout decls' expansions tokenLengths) m' = true := by
  obtain ⟨hname, hparams, hresult⟩ := h.entry expansions tokenLengths
  simp only [Config.isPrivateAccessor, parameterCount, hname, hparams, hresult]

theorem Reordered.accessorIn? (h : Reordered decls decls') (config : Config) {c c' : ClassId}
    (hc : SameClass decls decls' c c') :
    Option.Rel
      (SameTarget (layout decls expansions tokenLengths) (layout decls' expansions tokenLengths)
        (SameClass decls decls'))
      ((layout decls expansions tokenLengths).accessorIn? config c)
      ((layout decls' expansions tokenLengths).accessorIn? config c') := by
  unfold Universe.accessorIn?
  rw [hc.isDefined expansions tokenLengths, ← List.head?_filter, ← List.head?_filter]
  split
  · refine rel_head? (List.Forall₂.imp (fun _ _ hm => h.sameTarget expansions tokenLengths hm) ?_)
    refine List.rel_filter ?_ (hc.methodsOf expansions tokenLengths)
    intro m m' hm
    exact hm.isPrivateAccessor expansions tokenLengths config
  · exact .none

theorem Reordered.corresponds (h : Reordered decls decls') (config : Config) :
    Corresponds config (layout decls expansions tokenLengths)
      (layout decls' expansions tokenLengths) (SameClass decls decls')
      (SameMethod decls decls') where
  classNamed? := h.classNamed? expansions tokenLengths
  nextInChain? := h.nextInChain? expansions tokenLengths
  foundIn := SameClass.foundIn expansions tokenLengths
  accessorIn? := h.accessorIn? expansions tokenLengths config
  paramsOf hm := (hm.entry expansions tokenLengths).2.1
  qualifiedSignature := SameMethod.qualifiedSignature expansions tokenLengths
  same_iff := h.methodId_eq_iff
  expansions := rfl
  tokenLengths := rfl

end Layouts

end Universe

namespace UnitFile

open Universe

/--
The order in which a file lists its classes does not matter.  With different
names, the file and the one in another order are both bound, every search in
either has an answer, and both are resolved to the same records.  With a name
that is declared twice, the file is refused in every order, for such a name.
-/
theorem resolve_of_perm (file : UnitFile) (classes : List ClassDecl) (config : Config)
    (hperm : classes.Perm file.classes) (h : config.Countable) :
    ((file.classes.map (·.name)).Nodup →
      ∃ unit reordered, file.bind = .ok unit ∧
        { file with classes := classes }.bind = .ok reordered ∧
        (∀ c name, (unit.declarations.search config c name).value.Answered) ∧
        (∀ c name, (reordered.declarations.search config c name).value.Answered) ∧
        reordered.resolve config = unit.resolve config) ∧
    (¬ (file.classes.map (·.name)).Nodup →
      ∃ name, 2 ≤ (file.classes.map (·.name)).count name ∧
        { file with classes := classes }.bind = .error ⟨name⟩) := by
  have hnames : (classes.map (·.name)).Perm (file.classes.map (·.name)) := hperm.map _
  constructor
  · intro hnodup
    have hnodup' : (classes.map (·.name)).Nodup := hnames.nodup_iff.2 hnodup
    have hreordered : Reordered classes file.classes :=
      ⟨fun _ => hperm.mem_iff, hnodup', hnodup⟩
    refine ⟨_, _, bind_of_nodup _ hnodup, bind_of_nodup _ hnodup', ?_, ?_, ?_⟩
    · exact fun c name => answered_search _ h c name
    · exact fun c name => answered_search _ h c name
    · exact BoundUnit.resolve_ofCalls (hreordered.corresponds _ _ config) file.calls
  · intro hrepeated
    have hrepeated' : ¬ (classes.map (·.name)).Nodup := fun h => hrepeated (hnames.nodup_iff.1 h)
    obtain ⟨before, decl, after, hclasses, _, hmem, herror⟩ :=
      bind_of_not_nodup { file with classes := classes } hrepeated'
    refine ⟨decl.name, ?_, herror⟩
    rw [← hnames.count_eq, show classes = before ++ decl :: after from hclasses]
    exact two_le_count_name hmem

/-- A dialog with a slot of its own and one of its base, both started by a timer. -/
def timedDialog : UnitFile where
  classes := [{ name := "Base", methods := [{ name := some "accept" }] },
    { name := "Dialog", bases := ["Base"], methods := [{ name := none }, { name := some "reject" }] }]
  calls :=
    let start (slot : StringLiteral) : CallSite String :=
      { className := "QTimer"
        methodName := "singleShot"
        kind := .static
        declaredParams := 3
        args := [.other, .object (some "Dialog") true, .literal slot] }
    [start (.narrow "1reject()" ⟨20, 31⟩), start (.narrow "1accept()" ⟨50, 61⟩)]

/-- A file that lists the base of the dialog twice. -/
def twoBases : UnitFile :=
  { timedDialog with classes := timedDialog.classes ++ [{ name := "Base" }] }

-- With the classes reversed, both methods that are used change their handles.
theorem resolve_of_perm_timedDialog :
    Config.builtin.Countable ∧
    timedDialog.classes.reverse.Perm timedDialog.classes ∧
    (timedDialog.classes.map (·.name)).Nodup ∧
    (∃ unit reordered, timedDialog.bind = .ok unit ∧
      { timedDialog with classes := timedDialog.classes.reverse }.bind = .ok reordered ∧
      (unit.usesOfCalls .builtin).map (·.declaration) = [⟨2⟩, ⟨0⟩] ∧
      (reordered.usesOfCalls .builtin).map (·.declaration) = [⟨1⟩, ⟨2⟩] ∧
      reordered.resolve .builtin =
        [{ declaration := "Dialog::reject()", range := ⟨20, 31⟩ },
          { declaration := "Base::accept()", range := ⟨50, 61⟩ }]) ∧
    twoBases.classes.reverse.Perm twoBases.classes ∧
    ¬ (twoBases.classes.map (·.name)).Nodup ∧
    ∃ name, 2 ≤ (twoBases.classes.map (·.name)).count name ∧
      { twoBases with classes := twoBases.classes.reverse }.bind = .error ⟨name⟩ := by
  have h : Config.builtin.Countable := by decide
  have hnodup : (timedDialog.classes.map (·.name)).Nodup := by decide
  have hrepeated : ¬ (twoBases.classes.map (·.name)).Nodup := by decide
  have hperm := timedDialog.classes.reverse_perm
  have hperm' := twoBases.classes.reverse_perm
  obtain ⟨hresolved, _⟩ := resolve_of_perm timedDialog _ .builtin hperm h
  obtain ⟨_, hrefused⟩ := resolve_of_perm twoBases _ .builtin hperm' h
  obtain ⟨unit, reordered, hunit, hreordered, _, _, hresolve⟩ := hresolved hnodup
  obtain rfl := Except.ok.inj (hunit.symm.trans (bind_of_nodup _ hnodup))
  obtain rfl := Except.ok.inj (hreordered.symm.trans (bind_of_nodup _ (by decide)))
  exact ⟨h, hperm, hnodup, ⟨_, _, hunit, hreordered, by decide +kernel, by decide +kernel,
    hresolve.trans (by decide +kernel)⟩, hperm', hrepeated, hrefused hrepeated⟩

end UnitFile

end SignalSlot
