import Mathlib.Data.List.Induction
import Mathlib.Data.List.Nodup
import SignalSlot.Universe

set_option autoImplicit false

/-!
# Where the declarations of a universe stand

A universe is built by appending one class after the other.  `Universe.layout` is
the universe of a list of classes in one piece: each class stands at its position
in the list, and its methods are numbered after those of all classes in front of
it.  `foldlM_addClass_layout` carries the induction along the list: building goes
on as long as names are new, and the first name that is taken is the one that is
refused.

The handles of a layout are positions.  `classNamed?_layout_eq_some_iff` and
`method?_layout` say which declaration a handle stands for, and `methodAt_inj`
that no two methods share one.
-/

namespace SignalSlot

namespace Universe

/-! ## Names -/

section Names

variable {u : Universe} {name : String} {c : ClassId}

/-- The class that a name is looked up to has the name. -/
theorem getElem?_name_of_classNamed? (h : u.classNamed? name = some c) :
    (u.classes.map (·.name))[c.index]? = some name := by
  obtain ⟨k, hfound, rfl⟩ := Option.map_eq_some_iff.1 h
  obtain ⟨hk, hname, _⟩ := List.findIdx?_eq_some_iff_getElem.1 hfound
  rw [List.getElem?_map, List.getElem?_eq_getElem hk, Option.map_some, beq_iff_eq.1 hname]

/-- A name is looked up to a class exactly when a class has it. -/
theorem isSome_classNamed? :
    (u.classNamed? name).isSome = true ↔ name ∈ u.classes.map (·.name) := by
  simp [classNamed?, List.findIdx?_isSome]

/-- Among different names, a name is looked up to the place where it stands. -/
theorem classNamed?_eq_some_iff (h : (u.classes.map (·.name)).Nodup) :
    u.classNamed? name = some c ↔ (u.classes.map (·.name))[c.index]? = some name := by
  refine ⟨getElem?_name_of_classNamed?, fun hname => ?_⟩
  obtain ⟨found, hfound⟩ :=
    Option.isSome_iff_exists.1 (isSome_classNamed?.2 (List.mem_of_getElem? hname))
  have hfoundName := getElem?_name_of_classNamed? hfound
  obtain ⟨hlength, _⟩ := List.getElem?_eq_some_iff.1 hname
  have hindex := (List.getElem?_inj hlength h).1 (hname.trans hfoundName.symm)
  exact hfound.trans (congrArg (fun k => some (ClassId.mk k)) hindex.symm)

end Names

/-! ## Positions -/

/-- The number of methods that the classes in front of a position declare. -/
def methodStart (decls : List ClassDecl) (k : Nat) : Nat :=
  ((decls.take k).flatMap (·.methods)).length

/-- The handle of the method at a position of the class at a position. -/
def methodAt (decls : List ClassDecl) (k i : Nat) : MethodId :=
  ⟨methodStart decls k + i⟩

/-- The entry of a class that stands at a position. -/
def entryAt (decls : List ClassDecl) (k : Nat) (decl : ClassDecl) : ClassEntry where
  name := decl.name
  defined := decl.defined
  bases := decl.bases
  methods := (List.range decl.methods.length).map (methodAt decls k)

/-- The entries of the methods of all classes, class by class. -/
def methodEntries (decls : List ClassDecl) : List MethodEntry :=
  (decls.mapIdx fun k decl => decl.methods.map (entryOf ⟨k⟩)).flatten

/-- The universe of a list of classes and a source map. -/
def layout (decls : List ClassDecl) (expansions : List ExpansionDecl)
    (tokenLengths : List TokenLengthDecl) : Universe where
  classes := decls.mapIdx (entryAt decls)
  methods := methodEntries decls
  expansions := expansions
  tokenLengths := tokenLengths

section Positions

variable {decls : List ClassDecl}

/-- Classes behind a position do not matter for it. -/
theorem methodStart_append_left {k : Nat} (h : k ≤ decls.length) (after : List ClassDecl) :
    methodStart (decls ++ after) k = methodStart decls k := by
  rw [methodStart, List.take_append_of_le_length h, methodStart]

theorem methodEntries_append (before after : List ClassDecl) :
    methodEntries (before ++ after) =
      methodEntries before ++
        (after.mapIdx fun k decl => decl.methods.map (entryOf ⟨k + before.length⟩)).flatten := by
  rw [methodEntries, List.mapIdx_append, List.flatten_append, methodEntries]

/-- As many methods stand in front of a position as entries. -/
theorem methodStart_length (decls : List ClassDecl) :
    methodStart decls decls.length = (methodEntries decls).length := by
  induction decls using List.reverseRecOn with
  | nil => rfl
  | append_singleton before decl ih =>
    rw [methodStart, List.take_length] at ih ⊢
    rw [List.flatMap_append, List.length_append, ih, methodEntries_append, List.length_append]
    simp

theorem methodAt_append_left {k : Nat} (h : k ≤ decls.length) (after : List ClassDecl) :
    methodAt (decls ++ after) k = methodAt decls k := by
  funext i
  rw [methodAt, methodStart_append_left h, methodAt]

theorem entryAt_append_left {k : Nat} (h : k ≤ decls.length) (after : List ClassDecl) :
    entryAt (decls ++ after) k = entryAt decls k := by
  funext decl
  rw [entryAt, methodAt_append_left h, entryAt]

/-- The methods of a class behind all others are numbered from the end on. -/
theorem methods_entryAt_length (decls : List ClassDecl) (decl : ClassDecl) :
    (entryAt decls decls.length decl).methods =
      (List.range' (methodEntries decls).length decl.methods.length).map MethodId.mk := by
  rw [entryAt, List.range'_eq_map_range, List.map_map, ← methodStart_length]
  rfl

/-- A class appended to a layout stands behind all others, and so do its methods. -/
theorem layout_append_singleton (decls : List ClassDecl) (decl : ClassDecl)
    (expansions : List ExpansionDecl) (tokenLengths : List TokenLengthDecl) :
    layout (decls ++ [decl]) expansions tokenLengths =
      { layout decls expansions tokenLengths with
        classes := decls.mapIdx (entryAt decls) ++ [entryAt decls decls.length decl]
        methods := methodEntries decls ++ decl.methods.map (entryOf ⟨decls.length⟩) } := by
  have hclasses : decls.mapIdx (entryAt (decls ++ [decl])) = decls.mapIdx (entryAt decls) := by
    rw [List.mapIdx_eq_mapIdx_iff]
    intro k hk
    rw [entryAt_append_left (Nat.le_of_lt hk)]
  rw [layout, List.mapIdx_append, hclasses, methodEntries_append]
  simp [layout, entryAt_append_left (Nat.le_refl _)]

end Positions

/-! ## Building -/

/-- A class that repeats the name of one in front of it makes the name occur twice. -/
theorem two_le_count_name {before after : List ClassDecl} {decl : ClassDecl}
    (h : decl.name ∈ before.map (·.name)) :
    2 ≤ ((before ++ decl :: after).map (·.name)).count decl.name := by
  have hbefore := List.count_pos_iff.2 h
  rw [List.map_append, List.map_cons, List.count_append, List.count_cons_self]
  omega

theorem map_name_layout (decls : List ClassDecl) (expansions : List ExpansionDecl)
    (tokenLengths : List TokenLengthDecl) :
    (layout decls expansions tokenLengths).classes.map (·.name) = decls.map (·.name) := by
  apply List.ext_getElem?
  intro k
  simp only [layout, List.getElem?_map, List.getElem?_mapIdx, Option.map_map]
  rfl

/-- Whether a name is taken. -/
theorem isSome_classNamed?_layout (decls : List ClassDecl) (expansions : List ExpansionDecl)
    (tokenLengths : List TokenLengthDecl) (name : String) :
    ((layout decls expansions tokenLengths).classNamed? name).isSome = true ↔
      name ∈ decls.map (·.name) := by
  rw [isSome_classNamed?, map_name_layout]

/-- One class: a new name goes to the end of the layout. -/
theorem addClass_layout_of_not_mem {decls : List ClassDecl} {decl : ClassDecl}
    (h : decl.name ∉ decls.map (·.name)) :
    (layout decls [] []).addClass decl = .ok (layout (decls ++ [decl]) [] []) := by
  rw [← isSome_classNamed?_layout decls [] []] at h
  rw [addClass, if_neg h, layout_append_singleton]
  simp only [layout, List.length_mapIdx, ← methods_entryAt_length]
  rfl

/-- One class: a name that is taken is refused. -/
theorem addClass_layout_of_mem {decls : List ClassDecl} {decl : ClassDecl}
    (h : decl.name ∈ decls.map (·.name)) :
    (layout decls [] []).addClass decl = .error ⟨decl.name⟩ := by
  rw [addClass, if_pos ((isSome_classNamed?_layout decls [] [] decl.name).2 h)]

/--
All classes.  Building goes on from a layout to the layout of all classes, or it
stops at the first class whose name one in front of it has.
-/
theorem foldlM_addClass_layout (before after : List ClassDecl)
    (h : (before.map (·.name)).Nodup) :
    (((before ++ after).map (·.name)).Nodup ∧
      after.foldlM addClass (layout before [] []) = .ok (layout (before ++ after) [] [])) ∨
    ∃ middle decl rest, after = middle ++ decl :: rest ∧
      ((before ++ middle).map (·.name)).Nodup ∧ decl.name ∈ (before ++ middle).map (·.name) ∧
      after.foldlM addClass (layout before [] []) = .error ⟨decl.name⟩ := by
  induction after generalizing before with
  | nil => exact .inl ⟨by rwa [List.append_nil], by rw [List.append_nil]; rfl⟩
  | cons decl after ih =>
    rw [List.foldlM_cons]
    by_cases htaken : decl.name ∈ before.map (·.name)
    · rw [addClass_layout_of_mem htaken]
      exact .inr ⟨[], decl, after, rfl, by rwa [List.append_nil], by rwa [List.append_nil], rfl⟩
    · rw [addClass_layout_of_not_mem htaken]
      have hnodup : ((before ++ [decl]).map (·.name)).Nodup := by
        rw [List.map_append, List.map_singleton, ← List.concat_eq_append]
        exact h.concat htaken
      obtain ⟨hall, hbuilt⟩ | ⟨middle, repeated, rest, hafter, hmiddle, hmem, herror⟩ :=
        ih (before ++ [decl]) hnodup
      · rw [List.append_assoc, List.singleton_append] at hall hbuilt
        exact .inl ⟨hall, hbuilt⟩
      · rw [List.append_assoc, List.singleton_append] at hmiddle hmem
        exact .inr ⟨decl :: middle, repeated, rest, by rw [hafter]; rfl, hmiddle, hmem, herror⟩

/-- Classes of different names are laid out. -/
theorem ofClasses_of_nodup {decls : List ClassDecl} (h : (decls.map (·.name)).Nodup) :
    ofClasses decls = .ok (layout decls [] []) := by
  obtain ⟨_, hbuilt⟩ | ⟨middle, decl, rest, rfl, _, hmem, _⟩ :=
    foldlM_addClass_layout [] decls List.nodup_nil
  · exact hbuilt
  · have honce := List.nodup_iff_count_le_one.1 h decl.name
    have htwice : 2 ≤ ((middle ++ decl :: rest).map (·.name)).count decl.name :=
      two_le_count_name hmem
    omega

/-- Of classes that do not have different names, the first that repeats one is refused. -/
theorem ofClasses_of_not_nodup {decls : List ClassDecl} (h : ¬ (decls.map (·.name)).Nodup) :
    ∃ before decl after, decls = before ++ decl :: after ∧ (before.map (·.name)).Nodup ∧
      decl.name ∈ before.map (·.name) ∧ ofClasses decls = .error ⟨decl.name⟩ := by
  obtain ⟨hall, _⟩ | ⟨middle, decl, rest, hdecls, hmiddle, hmem, herror⟩ :=
    foldlM_addClass_layout [] decls List.nodup_nil
  · exact absurd hall h
  · exact ⟨middle, decl, rest, hdecls, hmiddle, hmem, herror⟩

/-! ## Handles -/

section Handles

variable {decls : List ClassDecl} {expansions : List ExpansionDecl}
  {tokenLengths : List TokenLengthDecl}

theorem class?_layout (c : ClassId) :
    (layout decls expansions tokenLengths).class? c =
      decls[c.index]?.map (entryAt decls c.index) := by
  rw [class?, layout, List.getElem?_mapIdx]

/-- Different names stand at different positions. -/
theorem position_unique (h : (decls.map (·.name)).Nodup) {k l : Nat} {decl other : ClassDecl}
    (hk : decls[k]? = some decl) (hl : decls[l]? = some other) (hname : decl.name = other.name) :
    k = l := by
  obtain ⟨hlength, _⟩ := List.getElem?_eq_some_iff.1 hk
  refine (List.getElem?_inj (by rwa [List.length_map]) h).1 ?_
  rw [List.getElem?_map, List.getElem?_map, hk, hl, Option.map_some, Option.map_some, hname]

theorem exists_of_classNamed?_layout {name : String} {c : ClassId}
    (h : (layout decls expansions tokenLengths).classNamed? name = some c) :
    ∃ decl, decls[c.index]? = some decl ∧ decl.name = name := by
  have hname := getElem?_name_of_classNamed? h
  rwa [map_name_layout, List.getElem?_map, Option.map_eq_some_iff] at hname

/-- Among different names, a name stands for the position of the class that has it. -/
theorem classNamed?_layout_eq_some_iff (h : (decls.map (·.name)).Nodup) {name : String}
    {c : ClassId} :
    (layout decls expansions tokenLengths).classNamed? name = some c ↔
      ∃ decl, decls[c.index]? = some decl ∧ decl.name = name := by
  rw [classNamed?_eq_some_iff (by rwa [map_name_layout]), map_name_layout, List.getElem?_map,
    Option.map_eq_some_iff]

/-- The handle of a method is the position of its entry. -/
theorem getElem?_methodEntries {k i : Nat} {decl : ClassDecl} {m : MethodDecl}
    (hk : decls[k]? = some decl) (hi : decl.methods[i]? = some m) :
    (methodEntries decls)[(methodAt decls k i).index]? = some (entryOf ⟨k⟩ m) := by
  obtain ⟨before, after, rfl, rfl⟩ :
      ∃ before after, decls = before ++ decl :: after ∧ before.length = k := by
    obtain ⟨hlength, rfl⟩ := List.getElem?_eq_some_iff.1 hk
    refine ⟨decls.take k, decls.drop (k + 1), ?_, List.length_take_of_le (Nat.le_of_lt hlength)⟩
    rw [List.getElem_cons_drop, List.take_append_drop]
  obtain ⟨hlength, _⟩ := List.getElem?_eq_some_iff.1 hi
  have hstart : (methodAt (before ++ decl :: after) before.length i).index =
      (methodEntries before).length + i := by
    rw [methodAt_append_left (Nat.le_refl _), methodAt, methodStart_length]
  rw [hstart, methodEntries_append, List.getElem?_append_right (Nat.le_add_right _ _),
    Nat.add_sub_cancel_left, List.mapIdx_cons, List.flatten_cons,
    List.getElem?_append_left (by rwa [List.length_map]), List.getElem?_map, hi, Nat.zero_add]
  rfl

theorem method?_layout {k i : Nat} {decl : ClassDecl} {m : MethodDecl}
    (hk : decls[k]? = some decl) (hi : decl.methods[i]? = some m) :
    (layout decls expansions tokenLengths).method? (methodAt decls k i) =
      some (entryOf ⟨k⟩ m) :=
  getElem?_methodEntries hk hi

/-- No two methods share a handle: the entry at a handle knows its class. -/
theorem methodAt_inj {k l i j : Nat} {decl other : ClassDecl} (hk : decls[k]? = some decl)
    (hl : decls[l]? = some other) (hi : i < decl.methods.length) (hj : j < other.methods.length)
    (h : methodAt decls k i = methodAt decls l j) : k = l ∧ i = j := by
  have hentry := getElem?_methodEntries hk (List.getElem?_eq_getElem hi)
  rw [h, getElem?_methodEntries hl (List.getElem?_eq_getElem hj)] at hentry
  have hclass : k = l := by
    have howner := congrArg MethodEntry.owner (Option.some.inj hentry)
    exact (congrArg ClassId.index howner).symm
  subst hclass
  exact ⟨rfl, Nat.add_left_cancel (congrArg MethodId.index h)⟩

end Handles

end Universe

end SignalSlot
