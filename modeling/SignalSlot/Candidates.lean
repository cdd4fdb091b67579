import SignalSlot.Config
import SignalSlot.Trace

set_option autoImplicit false

/-!
# Candidates

The methods of a name that an object of a class may mean.  They are declared in
the class itself or along its chain of first bases.  When the chain ends and no
method was found, the search goes on once, along the chain of the class that the
first private accessor on the way points to.

The search is a loop that examines one class at a time and counts the classes
in 32 bits.  It examines no more classes than the configuration allows, so it
ends on cyclic chains too.  With the largest limit that such a counter holds, a
chain that does not end drives the counter out of its range, and
`Ending.counterOverflow` marks that the search has no answer there.
-/

namespace SignalSlot

/-- Why a search for candidates ended. -/
inductive Ending where
  /-- There was no further class. -/
  | exhausted
  /-- There was a further class, and the limit was reached. -/
  | depthLimit
  /-- There was a further class, and the counter cannot count it. -/
  | counterOverflow
  deriving DecidableEq, Repr, Inhabited

/-- The outcome of a search for candidates. -/
structure Search where
  /-- The methods found, in the order of the search. -/
  found : List MethodId
  /-- Why the search ended. -/
  ending : Ending
  deriving DecidableEq, Repr, Inhabited

/-- Whether a method is an accessor of a private implementation. -/
def Config.isPrivateAccessor (config : Config) (u : Universe) (m : MethodId) : Bool :=
  u.methodName? m == some config.privateAccessor && u.parameterCount m == 0 &&
    (u.resultType? m).isSome

namespace Universe

/-- The methods of the name that a class declares; one that is only announced has none. -/
def foundIn (u : Universe) (name : String) (c : ClassId) : List MethodId :=
  if u.isDefined c then u.methodsNamed c name else []

/-- The first private accessor that a class declares. -/
def accessorIn? (u : Universe) (config : Config) (c : ClassId) : Option MethodId :=
  if u.isDefined c then (u.methodsOf c).find? (config.isPrivateAccessor u) else none

/-- The class after a class on its chain. -/
def nextInChain? (u : Universe) (c : ClassId) : Option ClassId :=
  if u.isDefined c then u.firstBase? c else none

/-- The class that a private accessor points to. -/
def privateClass? (u : Universe) (accessor : MethodId) : Option ClassId :=
  (u.resultType? accessor).bind u.pointee?

/-- What a search remembers from class to class. -/
structure Memory where
  /-- Whether a method was found. -/
  found : Bool := false
  /-- The first private accessor met, until it is followed. -/
  accessor : Option MethodId := none
  /-- Whether an accessor was followed. -/
  redirected : Bool := false
  deriving DecidableEq, Repr, Inhabited

/-- The memory after a class was examined. -/
def Memory.examine (memory : Memory) (u : Universe) (config : Config) (name : String)
    (c : ClassId) : Memory where
  found := memory.found || !(u.foundIn name c).isEmpty
  accessor :=
    if memory.redirected then memory.accessor
    else memory.accessor.or (u.accessorIn? config c)
  redirected := memory.redirected

/-! ## The loop -/

/-- The number of values of the counter of examined classes. -/
def counterSize : Nat := UInt32.size

/-- Where a search stands between two classes. -/
structure Walk where
  /-- The class to examine next. -/
  current : Option ClassId
  /-- The counter of examined classes. -/
  depth : UInt32 := 0
  memory : Memory := {}
  /-- The methods found so far, the last one in front. -/
  found : List MethodId := []
  /-- The events so far, the last one in front. -/
  events : List Event := []
  deriving DecidableEq, Repr, Inhabited

namespace Walk

/-- The walk in front of its first class. -/
def begin (start : ClassId) : Walk := { current := some start }

/-- The walk behind the last class of a chain: it is over, or it follows an accessor. -/
def leaveChain (w : Walk) (u : Universe) : Walk :=
  match w.memory.found, w.memory.accessor with
  | false, some accessor =>
    let target := u.privateClass? accessor
    { w with
      current := target
      memory := { w.memory with accessor := none, redirected := true }
      events := .followed accessor target :: w.events }
  | _, _ => { w with current := none }

/-- Examines a class, counts it and goes on to the next one. -/
def examine (w : Walk) (u : Universe) (config : Config) (name : String) (c : ClassId) : Walk :=
  let w := { w with
    depth := w.depth + 1
    memory := w.memory.examine u config name c
    found := (u.foundIn name c).reverse ++ w.found }
  match u.nextInChain? c with
  | some base => { w with current := some base }
  | none => w.leaveChain u

/-- Examines the next class, unless the walk ends in front of it. -/
def step (w : Walk) (u : Universe) (config : Config) (name : String) : Except Ending Walk :=
  match w.current with
  | none => .error .exhausted
  | some c =>
    if w.depth.toNat + 1 < counterSize then
      if config.maxBaseDepth < w.depth + 1 then .error .depthLimit
      else .ok (w.examine u config name c)
    else .error .counterOverflow

theorem depth_leaveChain (w : Walk) (u : Universe) : (w.leaveChain u).depth = w.depth := by
  unfold leaveChain
  split <;> rfl

theorem depth_examine (w : Walk) (u : Universe) (config : Config) (name : String) (c : ClassId) :
    (w.examine u config name c).depth = w.depth + 1 := by
  unfold examine
  cases u.nextInChain? c with
  | some base => rfl
  | none => exact depth_leaveChain _ _

/-- Every step counts one class. -/
theorem depth_of_step {w next : Walk} {u : Universe} {config : Config} {name : String}
    (h : w.step u config name = .ok next) : next.depth.toNat = w.depth.toNat + 1 := by
  unfold step at h
  split at h
  · cases h
  · split at h
    · rename_i c _ hrange
      split at h
      · cases h
      · obtain rfl := Except.ok.inj h
        rw [depth_examine, UInt32.toNat_add]
        exact Nat.mod_eq_of_lt hrange
    · cases h

/-- Walks to the end. -/
def run (w : Walk) (u : Universe) (config : Config) (name : String) : Walk × Ending :=
  match _h : w.step u config name with
  | .ok next => next.run u config name
  | .error ending => (w, ending)
  termination_by counterSize - w.depth.toNat
  decreasing_by
    have := depth_of_step _h
    have := next.depth.toNat_lt_size
    simp only [counterSize]
    omega

/-- What a walk from a class tells and has found when it ends. -/
def outcome (w : Walk) (start : ClassId) (ending : Ending) : Traced Search where
  value := ⟨w.found.reverse, ending⟩
  events := w.events.reverse ++ if ending = .depthLimit then [.depthLimit start] else []

end Walk

/-- The search for the methods of a name that an object of a class may mean. -/
def search (u : Universe) (config : Config) (start : ClassId) (name : String) :
    Traced Search :=
  let (w, ending) := (Walk.begin start).run u config name
  w.outcome start ending

/-- The methods of a name that an object of a class may mean, in search order; of a search that
has no answer, those it has come across. -/
def candidates (u : Universe) (config : Config) (start : ClassId) (name : String) :
    List MethodId :=
  (u.search config start name).value.found

end Universe

end SignalSlot
