import SignalSlot.Proofs.Candidates.Chain
import SignalSlot.Proofs.Safety.Handles

set_option autoImplicit false

/-!
# Searching through checked tables

The search for candidates as a loop that reads the tables of a universe through
handles: the class in front of it, each method of the class, and the accessor
that it follows at the end of a chain.  The counter of examined classes must not
leave its range.

`Walk.Sound` says that the handles that a search has in its hands point into the
tables.  A step keeps it, so it holds along the whole loop, and the loop ends as
the search ends (`searchChecked_eq_checked`): with what it has found, unless the
counter has no room.  `searchChecked_eq` says when it always has room.
-/

namespace SignalSlot

/-- The methods that a search has found; one that has left the range of its counter has failed. -/
def Search.checked (s : Search) : Checked (List MethodId) :=
  if s.ending = .counterOverflow then .error .overflow else .ok s.found

theorem Search.checked_of_answered {s : Search} (h : s.Answered) : s.checked = .ok s.found :=
  if_neg h

theorem Search.checked_of_overflow {s : Search} (h : s.ending = .counterOverflow) :
    s.checked = .error .overflow :=
  if_pos h

namespace Universe

/-! ## One class -/

/-- Whether a method is an accessor of a private implementation. -/
def isAccessorChecked (u : Universe) (config : Config) (m : MethodId) : Checked Bool := do
  let entry ← u.methodEntry m
  .ok (entry.name == some config.privateAccessor && entry.params.length == 0 &&
    entry.returns.isSome)

/-- The declared class that a single pointer points to, by the handle stored for it. -/
def storedPointee? (u : Universe) (ty : TypeDesc) : Option ClassId :=
  if ty.pointer = 1 && !ty.reference then u.storedClass? ty.name else none

/-- Where a search stands. -/
structure Cursor where
  current : Option ClassId
  found : List MethodId
  accessor : Option MethodId
  redirected : Bool

namespace Cursor

/-- Looks at a method. -/
def look (u : Universe) (config : Config) (name : String) (p : Cursor) (m : MethodId) :
    Checked Cursor := do
  let entry ← u.methodEntry m
  match entry.name with
  | none => .ok p
  | some own =>
    let found := if own = name then p.found ++ [m] else p.found
    if p.accessor.isNone && !p.redirected then do
      let isAccessor ← u.isAccessorChecked config m
      .ok { p with found, accessor := if isAccessor then some m else none }
    else .ok { p with found }

/-- Goes on behind the last class of a chain: an accessor is followed if nothing was found. -/
def leaveChain (u : Universe) (p : Cursor) : Checked Cursor :=
  match p.found, p.accessor with
  | [], some accessor => do
    let entry ← u.methodEntry accessor
    .ok { p with
      current := entry.returns.bind u.storedPointee?
      accessor := none
      redirected := true }
  | _, _ => .ok { p with current := none }

/-- Examines a class and goes on to the next one. -/
def examine (u : Universe) (config : Config) (name : String) (p : Cursor) (c : ClassId) :
    Checked Cursor := do
  let entry ← u.classEntry c
  if entry.defined then do
    let looked ← entry.methods.foldlM (look u config name) p
    match entry.bases.head?.bind u.storedClass? with
    | some base => .ok { looked with current := some base }
    | none => looked.leaveChain u
  else p.leaveChain u

/-- Examines classes to the end of the search; a counter of 32 bits counts them. -/
def run (u : Universe) (config : Config) (name : String) (depth : UInt32) (p : Cursor) :
    Checked (List MethodId) :=
  match p.current with
  | none => .ok p.found
  | some c =>
    if _h : depth.toNat + 1 < counterSize then
      if config.maxBaseDepth < depth + 1 then .ok p.found
      else do
        let next ← p.examine u config name c
        run u config name (depth + 1) next
    else .error .overflow
  termination_by counterSize - depth.toNat
  decreasing_by
    have hnext : (depth + 1).toNat = depth.toNat + 1 := by
      rw [UInt32.toNat_add]
      exact Nat.mod_eq_of_lt _h
    omega

end Cursor

/-- The methods of a name that an object of a class may mean, in search order. -/
def searchChecked (u : Universe) (config : Config) (start : ClassId) (name : String) :
    Checked (List MethodId) :=
  Cursor.run u config name 0 ⟨some start, [], none, false⟩

/-! ## Methods in hand -/

section

variable {u : Universe} {config : Config} {name : String} {m : MethodId}

theorem isAccessorChecked_eq (h : u.HasMethod m) :
    u.isAccessorChecked config m = .ok (config.isPrivateAccessor u m) := by
  obtain ⟨entry, _, hmethod, hentry⟩ := h.entry
  rw [isAccessorChecked, hentry, Config.isPrivateAccessor, methodName?, parameterCount, paramsOf,
    resultType?, hmethod]
  rfl

/-- A method without a name is neither found nor an accessor. -/
theorem look_eq (p : Cursor) (h : u.HasMethod m) :
    Cursor.look u config name p m = .ok { p with
      found := p.found ++ [m].filter fun m => u.methodName? m == some name
      accessor := if p.redirected then p.accessor
        else p.accessor.or ([m].find? (config.isPrivateAccessor u)) } := by
  obtain ⟨entry, _, hmethod, hentry⟩ := h.entry
  have hname : u.methodName? m = entry.name := by
    rw [methodName?, hmethod]
    rfl
  rw [Cursor.look, hentry]
  show (match entry.name with | none => _ | some own => _) = _
  cases hown : entry.name with
  | none =>
    have haccessor : config.isPrivateAccessor u m = false := by
      simp [Config.isPrivateAccessor, hname, hown]
    simp [hname, hown, haccessor]
  | some own =>
    have hfound : (if own = name then p.found ++ [m] else p.found) =
        p.found ++ [m].filter fun m => u.methodName? m == some name := by
      by_cases hsame : own = name <;> simp [hname, hown, hsame]
    have haccessor : [m].find? (config.isPrivateAccessor u) =
        if config.isPrivateAccessor u m then some m else none := by
      cases hm : config.isPrivateAccessor u m <;> simp [hm]
    simp only [isAccessorChecked_eq h, bind, Except.bind, hfound, haccessor]
    cases p.accessor with
    | some accessor => simp
    | none => cases p.redirected <;> simp

/-- All methods of a class are looked at, in order. -/
theorem foldlM_look {methods : List MethodId} (h : ∀ m ∈ methods, u.HasMethod m) (p : Cursor) :
    methods.foldlM (Cursor.look u config name) p = .ok { p with
      found := p.found ++ methods.filter fun m => u.methodName? m == some name
      accessor := if p.redirected then p.accessor
        else p.accessor.or (methods.find? (config.isPrivateAccessor u)) } := by
  induction methods generalizing p with
  | nil => simp [pure, Except.pure]
  | cons m methods ih =>
    rw [List.forall_mem_cons] at h
    rw [List.foldlM_cons, look_eq p h.1]
    show methods.foldlM (Cursor.look u config name) _ = _
    have hfilter : (m :: methods).filter (fun m => u.methodName? m == some name) =
        [m].filter (fun m => u.methodName? m == some name) ++
          methods.filter fun m => u.methodName? m == some name :=
      List.filter_append [m] methods
    have hfind : (m :: methods).find? (config.isPrivateAccessor u) =
        ([m].find? (config.isPrivateAccessor u)).or
          (methods.find? (config.isPrivateAccessor u)) := by
      rw [← List.find?_append]
      rfl
    rw [ih h.2, hfilter, hfind, List.append_assoc]
    cases p.redirected with
    | true => rfl
    | false => simp only [Bool.false_eq_true, if_false, Option.or_assoc]

end

/-! ## The loop -/

/-- The handles that a walk has in its hands point into the tables. -/
structure Walk.Sound (u : Universe) (w : Walk) : Prop where
  current : ∀ c, w.current = some c → u.HasClass c
  accessor : ∀ m, w.memory.accessor = some m → u.HasMethod m
  found : ∀ m ∈ w.found, u.HasMethod m
  /-- The memory knows whether something was found. -/
  memory : w.memory.found = !w.found.isEmpty

/-- The place of a walk. -/
def Cursor.ofWalk (w : Walk) : Cursor where
  current := w.current
  found := w.found.reverse
  accessor := w.memory.accessor
  redirected := w.memory.redirected

section

variable {u : Universe} {config : Config} {name : String} {w : Walk} {c : ClassId}

/-- The walk after the methods of a class were looked at. -/
def Walk.looked (w : Walk) (u : Universe) (config : Config) (name : String) (c : ClassId) : Walk :=
  { w with
    depth := w.depth + 1
    memory := w.memory.examine u config name c
    found := (u.foundIn name c).reverse ++ w.found }

theorem Walk.examine_eq_looked (w : Walk) (u : Universe) (config : Config) (name : String)
    (c : ClassId) :
    w.examine u config name c =
      match u.nextInChain? c with
      | some base => { w.looked u config name c with current := some base }
      | none => (w.looked u config name c).leaveChain u := rfl

/-- What a class declares under a name are methods that the universe has. -/
theorem Sound.hasMethod_foundIn (hu : u.Sound) {m : MethodId} (hm : m ∈ u.foundIn name c) :
    u.HasMethod m := by
  unfold foundIn at hm
  split at hm
  · exact hu.hasMethod (List.mem_of_mem_filter hm)
  · cases hm

theorem Sound.hasMethod_accessorIn? (hu : u.Sound) {m : MethodId}
    (hm : u.accessorIn? config c = some m) : u.HasMethod m := by
  unfold accessorIn? at hm
  split at hm
  · exact hu.hasMethod (List.mem_of_find?_eq_some hm)
  · cases hm

theorem hasClass_of_nextInChain? {base : ClassId} (h : u.nextInChain? c = some base) :
    u.HasClass base := by
  unfold nextInChain? at h
  split at h
  · obtain ⟨entry, _, hentry⟩ := Option.bind_eq_some_iff.1 h
    obtain ⟨first, _, hfirst⟩ := Option.bind_eq_some_iff.1 hentry
    exact hasClass_of_classNamed? hfirst
  · cases h

theorem hasClass_of_privateClass? {accessor : MethodId} {target : ClassId}
    (h : u.privateClass? accessor = some target) : u.HasClass target := by
  obtain ⟨ty, _, hty⟩ := Option.bind_eq_some_iff.1 h
  unfold pointee? at hty
  split at hty
  · exact hasClass_of_classNamed? hty
  · cases hty

theorem Walk.Sound.looked (hu : u.Sound) (hw : w.Sound u) : (w.looked u config name c).Sound u where
  current := hw.current
  accessor := by
    intro m hm
    simp only [Walk.looked, Memory.examine] at hm
    split at hm
    · exact hw.accessor m hm
    · rcases Option.or_eq_some_iff.1 hm with hm | ⟨_, hm⟩
      · exact hw.accessor m hm
      · exact hu.hasMethod_accessorIn? hm
  found := by
    intro m hm
    rcases List.mem_append.1 hm with hm | hm
    · exact hu.hasMethod_foundIn (List.mem_reverse.1 hm)
    · exact hw.found m hm
  memory := by
    simp only [Walk.looked, Memory.examine, hw.memory]
    cases u.foundIn name c <;> simp

theorem Walk.Sound.leaveChain (hw : w.Sound u) : (w.leaveChain u).Sound u := by
  unfold Walk.leaveChain
  split
  · refine ⟨?_, ?_, hw.found, hw.memory⟩
    · intro c hc
      exact hasClass_of_privateClass? hc
    · intro m hm
      cases hm
  · refine ⟨?_, hw.accessor, hw.found, hw.memory⟩
    intro c hc
    cases hc

/-- Examining a class keeps the handles in their tables. -/
theorem Walk.Sound.examine (hu : u.Sound) (hw : w.Sound u) :
    (w.examine u config name c).Sound u := by
  have hlooked : (w.looked u config name c).Sound u := hw.looked hu
  rw [Walk.examine_eq_looked]
  cases hnext : u.nextInChain? c with
  | none => exact hlooked.leaveChain
  | some base =>
    refine ⟨?_, hlooked.accessor, hlooked.found, hlooked.memory⟩
    intro c' hc'
    obtain rfl : base = c' := Option.some.inj hc'
    exact hasClass_of_nextInChain? hnext

theorem storedPointee?_eq (hfits : u.classes.length ≤ UInt32.size) (ty : TypeDesc) :
    u.storedPointee? ty = u.pointee? ty := by
  rw [storedPointee?, pointee?, storedClass?_eq hfits]

/-- The end of a chain: an accessor that was kept can be read. -/
theorem leaveChain_ofWalk (hfits : u.classes.length ≤ UInt32.size) (hw : w.Sound u) :
    (Cursor.ofWalk w).leaveChain u = .ok (Cursor.ofWalk (w.leaveChain u)) := by
  have hmemory := hw.memory
  have hkept := hw.accessor
  obtain ⟨current, depth, ⟨seen, accessor, redirected⟩, found, events⟩ := w
  dsimp only at hmemory hkept
  subst hmemory
  -- The cursor looks at what was found, the walk at its memory of it.
  rcases List.eq_nil_or_concat found with rfl | ⟨found, m, rfl⟩
  · cases accessor with
    | none => rfl
    | some accessor =>
      obtain ⟨entry, _, hmethod, hentry⟩ := (hkept accessor rfl).entry
      have htarget : entry.returns.bind u.storedPointee? = u.privateClass? accessor := by
        rw [privateClass?, resultType?, hmethod, funext (storedPointee?_eq hfits)]
        rfl
      show (u.methodEntry accessor >>= _) = _
      rw [hentry]
      show Except.ok _ = Except.ok _
      simp only [htarget]
      rfl
  · simp [Cursor.leaveChain, Cursor.ofWalk, Walk.leaveChain]

theorem ofWalk_looked (w : Walk) (u : Universe) (config : Config) (name : String) (c : ClassId) :
    Cursor.ofWalk (w.looked u config name c) = { Cursor.ofWalk w with
      found := w.found.reverse ++ u.foundIn name c
      accessor := if w.memory.redirected then w.memory.accessor
        else w.memory.accessor.or (u.accessorIn? config c) } := by
  simp [Cursor.ofWalk, Walk.looked, Memory.examine]

/-- A class that the universe has can be examined, with all of its methods. -/
theorem examine_ofWalk (hu : u.Sound) (hfits : u.classes.length ≤ UInt32.size) (hw : w.Sound u)
    (hc : u.HasClass c) :
    (Cursor.ofWalk w).examine u config name c =
      .ok (Cursor.ofWalk (w.examine u config name c)) := by
  obtain ⟨entry, hmem, hclass, hentry⟩ := hc.entry
  have hdefined : u.isDefined c = entry.defined := by
    rw [isDefined, hclass]
    rfl
  have hmethods : u.methodsOf c = entry.methods := by
    rw [methodsOf, hclass]
    rfl
  have hleave : (Cursor.ofWalk (w.looked u config name c)).leaveChain u =
      .ok (Cursor.ofWalk ((w.looked u config name c).leaveChain u)) :=
    leaveChain_ofWalk hfits (hw.looked hu)
  rw [Cursor.examine, hentry, Walk.examine_eq_looked]
  show (if entry.defined = true then _ else _) = _
  cases hcase : entry.defined with
  | false =>
    have hnext : u.nextInChain? c = none := by
      simp [nextInChain?, hdefined, hcase]
    have hstay : Cursor.ofWalk (w.looked u config name c) = Cursor.ofWalk w := by
      rw [ofWalk_looked, foundIn, accessorIn?, hdefined, hcase]
      simp [Cursor.ofWalk]
    rw [hstay] at hleave
    rw [hnext, if_neg Bool.false_ne_true, hleave]
  | true =>
    have hnext : u.nextInChain? c = entry.bases.head?.bind u.storedClass? := by
      rw [nextInChain?, hdefined, hcase, if_pos rfl, firstBase?, hclass,
        funext (storedClass?_eq hfits)]
      rfl
    have hlooked : entry.methods.foldlM (Cursor.look u config name) (Cursor.ofWalk w) =
        .ok (Cursor.ofWalk (w.looked u config name c)) := by
      rw [foldlM_look (hu.methods entry hmem), ofWalk_looked, foundIn, accessorIn?, hdefined,
        hcase, if_pos rfl, if_pos rfl, methodsNamed, hmethods]
      rfl
    rw [if_pos rfl, hlooked, hnext]
    show (match entry.bases.head?.bind u.storedClass? with | some base => _ | none => _) = _
    cases entry.bases.head?.bind u.storedClass? with
    | some base => rfl
    | none => exact hleave

/-- One round of the loop is one step of the walk, and both count the class. -/
theorem run_ofWalk_step (hu : u.Sound) (hfits : u.classes.length ≤ UInt32.size)
    (hw : w.Sound u) :
    (Cursor.ofWalk w).run u config name w.depth =
      match w.step u config name with
      | .ok next => (Cursor.ofWalk next).run u config name next.depth
      | .error ending => Search.checked ⟨w.found.reverse, ending⟩ := by
  have hplace : (Cursor.ofWalk w).current = w.current := rfl
  rw [Cursor.run, Walk.step, hplace]
  cases hcurrent : w.current with
  | none => rfl
  | some c =>
    by_cases hroom : w.depth.toNat + 1 < counterSize
    · simp only [hroom, dif_pos, if_true]
      by_cases hlimit : config.maxBaseDepth < w.depth + 1
      · rw [if_pos hlimit, if_pos hlimit]
        rfl
      · rw [if_neg hlimit, if_neg hlimit, examine_ofWalk hu hfits hw (hw.current c hcurrent)]
        show (Cursor.ofWalk _).run u config name (w.depth + 1) = _
        rw [← w.depth_examine u config name c]
    · simp only [hroom, dif_neg, not_false_eq_true, if_false]
      rfl

theorem step_sound {next : Walk} (hu : u.Sound) (hw : w.Sound u)
    (h : w.step u config name = .ok next) : next.Sound u := by
  unfold Walk.step at h
  split at h
  · cases h
  · split at h
    · split at h
      · cases h
      · obtain rfl := Except.ok.inj h
        exact hw.examine hu
    · cases h

/-- The loop ends as the walk ends, and the walk keeps its handles to the end. -/
theorem run_ofWalk (config : Config) (name : String) (hu : u.Sound)
    (hfits : u.classes.length ≤ UInt32.size) (hw : w.Sound u) :
    (Cursor.ofWalk w).run u config name w.depth =
        Search.checked ⟨(w.run u config name).1.found.reverse, (w.run u config name).2⟩ ∧
      (w.run u config name).1.Sound u := by
  induction w using Walk.run.induct u config name with
  | case1 w next hstep ih =>
    rw [run_ofWalk_step hu hfits hw, hstep, Walk.run_of_ok hstep]
    exact ih (step_sound hu hw hstep)
  | case2 w ending hstep =>
    rw [run_ofWalk_step hu hfits hw, hstep, Walk.run_of_error hstep]
    exact ⟨rfl, hw⟩

theorem Walk.Sound.begin (hc : u.HasClass c) : (Walk.begin c).Sound u where
  current := by
    intro c' hc'
    obtain rfl : c = c' := Option.some.inj hc'
    exact hc
  accessor := by
    intro m hm
    cases hm
  found := by
    intro m hm
    cases hm
  memory := rfl

/-- A search that starts at a class of the universe reads its tables at places that exist, so
nothing but its counter can keep it from an answer. -/
theorem searchChecked_eq_checked (config : Config) (hu : u.Sound)
    (hfits : u.classes.length ≤ UInt32.size) (hc : u.HasClass c) (name : String) :
    u.searchChecked config c name = (u.search config c name).value.checked :=
  (run_ofWalk config name hu hfits (.begin hc)).1

/--
A search that starts at a class of the universe reads its tables at places that
exist and never overruns its counter, and all that it finds are methods of the
universe.
-/
theorem searchChecked_eq (hu : u.Sound) (hfits : u.classes.length ≤ UInt32.size)
    (hconfig : config.Countable) (hc : u.HasClass c) (name : String) :
    u.searchChecked config c name = .ok (u.candidates config c name) ∧
      ∀ m ∈ u.candidates config c name, u.HasMethod m := by
  constructor
  · rw [searchChecked_eq_checked config hu hfits hc,
      Search.checked_of_answered (u.answered_search hconfig c name), candidates]
  · intro m hm
    have hend := (run_ofWalk config name hu hfits (.begin hc)).2
    exact hend.found m (List.mem_reverse.1 hm)

end

end Universe

end SignalSlot
