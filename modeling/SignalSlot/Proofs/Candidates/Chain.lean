import Mathlib.Data.Seq.Basic
import SignalSlot.Proofs.Candidates.Unrolled

set_option autoImplicit false

/-!
# What a search for candidates finds

The search is one loop that walks two chains.  This file says what it finds
without a loop: `Universe.chain` is the chain of first bases of a class, as a
list that need not end, `Universe.declared` are the methods of a name that a
list of classes declares, and `Universe.declaredCandidates` is the answer put
together from them.

The proof follows the recursion of the search in two phases.  `value_searchFrom` takes the search
to the end of the chain it is on, with the memory it has there;
`found_searchFrom_redirected` says that a search that was redirected stays on
its chain.
-/

namespace SignalSlot

/-- The counter of examined classes can count one class more than the limit. -/
def Config.Countable (config : Config) : Prop :=
  config.maxBaseDepth.toNat + 1 < Universe.counterSize

instance (config : Config) : Decidable config.Countable :=
  inferInstanceAs (Decidable (_ < _))

/-- A search that ended with an answer. -/
def Search.Answered (s : Search) : Prop :=
  s.ending ≠ .counterOverflow

namespace Universe

/-! ## Chains -/

/-- The chain that starts at a class, or that holds nothing. -/
def chainFrom (u : Universe) : Option ClassId → Stream'.Seq ClassId :=
  Stream'.Seq.corec (Option.map fun c => (c, u.nextInChain? c))

/--
The chain of a class: the class itself, and after each defined class the class
that its first base names.  The chain ends at a class that is not defined or
whose first base names nothing, and on a cycle it does not end.
-/
def chain (u : Universe) (c : ClassId) : Stream'.Seq ClassId :=
  u.chainFrom (some c)

/-- The methods of a name that the defined classes of a list declare, in order. -/
def declared (u : Universe) (name : String) (classes : List ClassId) : List MethodId :=
  (classes.filter u.isDefined).flatMap fun c => u.methodsNamed c name

/-- The first private accessor that the defined classes of a list declare. -/
def firstAccessor? (u : Universe) (config : Config) (classes : List ClassId) :
    Option MethodId :=
  ((classes.filter u.isDefined).flatMap u.methodsOf).find? (config.isPrivateAccessor u)

/--
The candidates of a name for an object of a class.  On a chain that is longer
than the limit, and on one that declares the name, they are those of the first
classes of the chain.  Otherwise they are those of the chain of the class that
the first private accessor points to, as far as the limit reaches after the
first chain.
-/
def declaredCandidates (u : Universe) (config : Config) (start : ClassId) (name : String) :
    List MethodId :=
  let limit := config.maxBaseDepth.toNat
  let classes := (u.chain start).take limit
  if ((u.chain start).get? limit).isSome ∨ u.declared name classes ≠ [] then
    u.declared name classes
  else
    match (u.firstAccessor? config classes).bind u.privateClass? with
    | some target => u.declared name ((u.chain target).take (limit - classes.length))
    | none => []

@[simp] theorem chainFrom_none (u : Universe) : u.chainFrom none = .nil :=
  Stream'.Seq.corec_nil _ _ rfl

@[simp] theorem chainFrom_some (u : Universe) (c : ClassId) :
    u.chainFrom (some c) = .cons c (u.chainFrom (u.nextInChain? c)) :=
  Stream'.Seq.corec_cons rfl

@[simp] theorem declared_nil (u : Universe) (name : String) : u.declared name [] = [] := rfl

theorem declared_cons (u : Universe) (name : String) (c : ClassId) (classes : List ClassId) :
    u.declared name (c :: classes) = u.foundIn name c ++ u.declared name classes := by
  cases hdefined : u.isDefined c <;> simp [declared, foundIn, hdefined]

@[simp] theorem firstAccessor?_nil (u : Universe) (config : Config) :
    u.firstAccessor? config [] = none := rfl

theorem firstAccessor?_cons (u : Universe) (config : Config) (c : ClassId)
    (classes : List ClassId) :
    u.firstAccessor? config (c :: classes) =
      (u.accessorIn? config c).or (u.firstAccessor? config classes) := by
  cases hdefined : u.isDefined c <;> simp [firstAccessor?, accessorIn?, hdefined]

/-! ## Memory -/

/-- The memory after a list of classes was examined. -/
def Memory.examineAll (memory : Memory) (u : Universe) (config : Config) (name : String)
    (classes : List ClassId) : Memory :=
  classes.foldl (fun memory c => memory.examine u config name c) memory

theorem Memory.found_examineAll (memory : Memory) (u : Universe) (config : Config)
    (name : String) (classes : List ClassId) :
    (memory.examineAll u config name classes).found =
      (memory.found || !(u.declared name classes).isEmpty) := by
  induction classes generalizing memory with
  | nil => simp [examineAll]
  | cons c classes ih =>
    have h := ih (memory.examine u config name c)
    rw [examineAll] at h
    rw [examineAll, List.foldl_cons, h, declared_cons]
    cases hfound : u.foundIn name c <;> simp [examine, hfound]

/-- Until an accessor is followed, the first one met is remembered; afterwards none is taken up. -/
theorem Memory.accessor_examineAll (memory : Memory) (u : Universe) (config : Config)
    (name : String) (classes : List ClassId) :
    (memory.examineAll u config name classes).accessor =
      if memory.redirected then memory.accessor
      else memory.accessor.or (u.firstAccessor? config classes) := by
  induction classes generalizing memory with
  | nil => simp [examineAll]
  | cons c classes ih =>
    have h := ih (memory.examine u config name c)
    rw [examineAll] at h
    rw [examineAll, List.foldl_cons, h, firstAccessor?_cons]
    cases hredirected : memory.redirected <;> simp [examine, hredirected, Option.or_assoc]

/-! ## The two phases -/

section Phases

variable (u : Universe) (config : Config) (name : String) (start : ClassId)

/-- The search after the last class of a chain: it is over, or it follows an accessor. -/
def afterChain (left : Nat) (memory : Memory) : Traced Search :=
  match memory.found, memory.accessor with
  | false, some accessor => do
    let target := u.privateClass? accessor
    Traced.tell (.followed accessor target)
    u.searchFrom config name start left { memory with accessor := none, redirected := true } target
  | _, _ => pure (.stop .exhausted)

/-- One class is examined, and then the next one of the chain, if there is one. -/
theorem value_searchFrom_succ (left : Nat) (memory : Memory) (c : ClassId) :
    (u.searchFrom config name start (left + 1) memory (some c)).value =
      (match u.nextInChain? c with
        | some base =>
          u.searchFrom config name start left (memory.examine u config name c) (some base)
        | none =>
          u.afterChain config name start left (memory.examine u config name c)).value.after
        (u.foundIn name c) := by
  rw [searchFrom]
  cases hnext : u.nextInChain? c with
  | some base => rfl
  | none =>
    simp only [afterChain]
    obtain ⟨found, accessor, redirected⟩ := memory.examine u config name c
    cases found <;> cases accessor <;> rfl

theorem found_cutOff : (cutOff config start).value.found = [] := by
  unfold cutOff
  split <;> rfl

/--
The first phase.  A search finds what the classes of its chain declare, as far
as the limit reaches.  On a longer chain it is cut off there; when the chain ends
within the limit, it goes on after it with what it remembers of all its classes.
-/
theorem value_searchFrom (left : Nat) (memory : Memory) (c : ClassId) :
    (u.searchFrom config name start left memory (some c)).value =
      (if ((u.chain c).get? left).isSome then cutOff config start
        else
          u.afterChain config name start (left - ((u.chain c).take left).length)
            (memory.examineAll u config name ((u.chain c).take left))).value.after
        (u.declared name ((u.chain c).take left)) := by
  induction left generalizing memory c with
  | zero => simp [searchFrom, chain, Search.after]
  | succ left ih =>
    rw [value_searchFrom_succ, chain, chainFrom_some, Stream'.Seq.take_succ_cons, declared_cons,
      Stream'.Seq.get?_cons_succ, List.length_cons]
    cases hnext : u.nextInChain? c with
    | none => simp [Memory.examineAll]
    | some base =>
      have hbase := ih (memory.examine u config name c) base
      rw [chain] at hbase
      rw [Nat.add_sub_add_right, hbase, Search.after_after]
      rfl

theorem found_searchFrom (left : Nat) (memory : Memory) (c : ClassId) :
    (u.searchFrom config name start left memory (some c)).value.found =
      u.declared name ((u.chain c).take left) ++
        if ((u.chain c).get? left).isSome then []
        else
          (u.afterChain config name start (left - ((u.chain c).take left).length)
            (memory.examineAll u config name ((u.chain c).take left))).value.found := by
  rw [value_searchFrom, Search.after]
  split
  · rw [found_cutOff]
  · rfl

/-- The second phase.  A search that was redirected stays on the chain it is on. -/
theorem found_searchFrom_redirected (left : Nat) {memory : Memory} (current : Option ClassId)
    (haccessor : memory.accessor = none) (hredirected : memory.redirected = true) :
    (u.searchFrom config name start left memory current).value.found =
      u.declared name ((u.chainFrom current).take left) := by
  cases current with
  | none => cases left <;> simp [searchFrom, Search.stop]
  | some c =>
    -- No accessor is taken up any more, so the end of this chain is the end of the search.
    have hend : ∀ rest classes, (u.afterChain config name start rest
        (memory.examineAll u config name classes)).value.found = [] := by
      intro rest classes
      simp [afterChain, Memory.accessor_examineAll, hredirected, haccessor, Search.stop]
    rw [found_searchFrom, hend, ite_self, List.append_nil, chain]

end Phases

/-! ## The whole search -/

theorem answered_stop_exhausted : (Search.stop .exhausted).Answered := by
  simp [Search.Answered, Search.stop]

theorem answered_cutOff {config : Config} (h : config.Countable) (start : ClassId) :
    (cutOff config start).value.Answered := by
  unfold Config.Countable at h
  simp [cutOff, h, Search.Answered, Search.stop]

/-- The counter of a search only leaves its range when the limit is the largest number it holds. -/
theorem answered_searchFrom (u : Universe) {config : Config} (name : String) (start : ClassId)
    (h : config.Countable) (left : Nat) (memory : Memory) (current : Option ClassId) :
    (u.searchFrom config name start left memory current).value.Answered := by
  induction left generalizing memory current with
  | zero =>
    cases current with
    | none => exact answered_stop_exhausted
    | some c => exact answered_cutOff h start
  | succ left ih =>
    cases current with
    | none => exact answered_stop_exhausted
    | some c =>
      rw [value_searchFrom_succ]
      cases hnext : u.nextInChain? c with
      | some base => exact ih _ _
      | none =>
        simp only [afterChain]
        split
        · exact ih _ _
        · exact answered_stop_exhausted

/-- Every search has an answer, whatever the declarations are. -/
theorem answered_search (u : Universe) {config : Config} (h : config.Countable) (start : ClassId)
    (name : String) : (u.search config start name).value.Answered := by
  rw [search_eq_searchFrom]
  exact u.answered_searchFrom name start h _ _ _

/-- What is found after the first chain: nothing if its classes declare the name, and otherwise
what the chain behind its first private accessor declares. -/
theorem found_afterChain (u : Universe) (config : Config) (name : String) (start : ClassId)
    (left : Nat) (classes : List ClassId) :
    (u.afterChain config name start left
        (Memory.examineAll {} u config name classes)).value.found =
      if u.declared name classes ≠ [] then []
      else
        match (u.firstAccessor? config classes).bind u.privateClass? with
        | some target => u.declared name ((u.chain target).take left)
        | none => [] := by
  have hfound := Memory.found_examineAll {} u config name classes
  have haccessor := Memory.accessor_examineAll {} u config name classes
  simp only [Bool.false_or, Bool.false_eq_true, if_false, Option.none_or] at hfound haccessor
  unfold afterChain
  rw [hfound, haccessor]
  cases hdeclared : u.declared name classes with
  | cons m rest => simp [Search.stop]
  | nil =>
    cases hfirst : u.firstAccessor? config classes with
    | none => simp [Search.stop]
    | some accessor =>
      simp only [List.isEmpty_nil, Bool.not_true, Traced.value_bind, ne_eq, not_true_eq_false,
        if_false, Option.bind_some]
      rw [found_searchFrom_redirected _ _ _ _ _ _ rfl rfl]
      cases htarget : u.privateClass? accessor <;> simp [chain]

theorem candidates_eq_declaredCandidates (u : Universe) (config : Config) (start : ClassId)
    (name : String) :
    u.candidates config start name = u.declaredCandidates config start name := by
  unfold candidates declaredCandidates
  rw [search_eq_searchFrom, found_searchFrom, found_afterChain]
  by_cases hmore : ((u.chain start).get? config.maxBaseDepth.toNat).isSome = true
  · simp [hmore]
  · by_cases hdeclared : u.declared name ((u.chain start).take config.maxBaseDepth.toNat) = []
    · simp [hmore, hdeclared]
    · simp [hmore, hdeclared]

theorem declaredCandidates_of_declared {u : Universe} {config : Config} {start : ClassId}
    {name : String} (h : u.declared name ((u.chain start).take config.maxBaseDepth.toNat) ≠ []) :
    u.declaredCandidates config start name =
      u.declared name ((u.chain start).take config.maxBaseDepth.toNat) :=
  if_pos (.inr h)

theorem declaredCandidates_of_not_declared {u : Universe} {config : Config} {start : ClassId}
    {name : String} (hend : (u.chain start).get? config.maxBaseDepth.toNat = none)
    (h : u.declared name ((u.chain start).take config.maxBaseDepth.toNat) = []) :
    u.declaredCandidates config start name =
      match (u.firstAccessor? config ((u.chain start).take config.maxBaseDepth.toNat)).bind
        u.privateClass? with
      | some target => u.declared name ((u.chain target).take
          (config.maxBaseDepth.toNat - ((u.chain start).take config.maxBaseDepth.toNat).length))
      | none => [] :=
  if_neg (by simp [hend, h])

/-- A chain without a class at the limit is the list of its first classes. -/
theorem ofList_take_chain {u : Universe} {c : ClassId} {limit : Nat}
    (h : (u.chain c).get? limit = none) :
    Stream'.Seq.ofList ((u.chain c).take limit) = u.chain c := by
  ext1 n
  rw [Stream'.Seq.ofList_get?, Stream'.Seq.getElem?_take]
  split
  · rfl
  · rename_i hn
    exact ((u.chain c).le_stable (Nat.not_lt.1 hn) h).symm

/--
Every search has an answer, and it is the one that the two chains declare.  The
first classes of the chain, which the answer speaks of, are the whole chain
unless it is longer than the limit, and candidates of the chain are never mixed
with those of the private implementation.
-/
theorem search_along_chains (u : Universe) (config : Config) (start : ClassId) (name : String)
    (h : config.Countable) :
    let limit := config.maxBaseDepth.toNat
    let classes := (u.chain start).take limit
    (u.search config start name).value.Answered ∧
    u.candidates config start name = u.declaredCandidates config start name ∧
    (((u.chain start).get? limit).isSome ∨ Stream'.Seq.ofList classes = u.chain start) ∧
    (u.declared name classes = [] ∨
      u.candidates config start name = u.declared name classes) := by
  intro limit classes
  refine ⟨u.answered_search h start name, u.candidates_eq_declaredCandidates config start name,
    ?_, ?_⟩
  · cases hlimit : (u.chain start).get? limit with
    | none => exact .inr (ofList_take_chain hlimit)
    | some c => exact .inl rfl
  · by_cases hdeclared : u.declared name classes = []
    · exact .inl hdeclared
    · refine .inr ?_
      rw [candidates_eq_declaredCandidates]
      exact declaredCandidates_of_declared hdeclared

/-- A dialog that inherits the accessor of its private implementation, which has a slot and a
base that goes back to the dialog. -/
def privateDialog : Universe where
  classes := [⟨"Base", true, [], [⟨0⟩]⟩, ⟨"Dialog", true, ["Base"], []⟩,
    ⟨"DialogPrivate", true, ["Dialog"], [⟨1⟩]⟩]
  methods := [⟨⟨0⟩, some "d_func", [], some (.pointerTo "DialogPrivate")⟩,
    ⟨⟨2⟩, some "accept", [], none⟩]

theorem search_along_chains_privateDialog :
    Config.builtin.Countable ∧
    (privateDialog.search .builtin ⟨1⟩ "accept").value.Answered ∧
    privateDialog.declaredCandidates .builtin ⟨1⟩ "accept" = [⟨1⟩] := by
  have h : Config.builtin.Countable := by decide
  obtain ⟨hanswered, hcandidates, _⟩ := search_along_chains privateDialog .builtin ⟨1⟩ "accept" h
  exact ⟨h, hanswered, hcandidates.symm.trans (by decide +kernel)⟩

end Universe

end SignalSlot
