import SignalSlot.Candidates

set_option autoImplicit false

/-!
# The search as a recursion

`Universe.search` is a loop that counts up and carries what it found.
`Universe.searchFrom` is the same search as a recursion on the number of classes
that may still be examined; it carries a memory only, and its answer is put
together on the way back.  Facts about what a search finds are proved of the
recursion.

`search_eq_searchFrom` says that the two agree, in their answers and in what they
tell.  The number of classes left and the counter add up to the limit.
-/

namespace SignalSlot

namespace Search

/-- A search that ends before it examines a class. -/
def stop (ending : Ending) : Search := ⟨[], ending⟩

/-- A search with methods that were found before it. -/
def after (found : List MethodId) (s : Search) : Search :=
  ⟨found ++ s.found, s.ending⟩

theorem after_after (s : Search) (before found : List MethodId) :
    (s.after found).after before = s.after (before ++ found) := by
  simp [after]

end Search

namespace Universe

/-- Ends a search at a class that may not be examined any more. -/
def cutOff (config : Config) (start : ClassId) : Traced Search :=
  if config.maxBaseDepth.toNat + 1 < counterSize then do
    Traced.tell (.depthLimit start)
    pure (.stop .depthLimit)
  else pure (.stop .counterOverflow)

/--
Searches from a class on, with the number of classes that may still be examined.
`start` is the class the whole search began at.
-/
def searchFrom (u : Universe) (config : Config) (name : String) (start : ClassId) :
    Nat → Memory → Option ClassId → Traced Search
  | _, _, none => pure (.stop .exhausted)
  | 0, _, some _ => cutOff config start
  | left + 1, memory, some c => do
    let memory := memory.examine u config name c
    let rest ←
      match u.nextInChain? c with
      | some base => u.searchFrom config name start left memory (some base)
      | none =>
        match memory.found, memory.accessor with
        | false, some accessor => do
          let target := u.privateClass? accessor
          Traced.tell (.followed accessor target)
          u.searchFrom config name start left
            { memory with accessor := none, redirected := true } target
        | _, _ => pure (.stop .exhausted)
    pure (rest.after (u.foundIn name c))

/-! ## The loop step by step -/

namespace Walk

variable {u : Universe} {config : Config} {name : String}

theorem run_of_ok {w next : Walk} (h : w.step u config name = .ok next) :
    w.run u config name = next.run u config name := by
  rw [run]
  split <;> simp_all

theorem run_of_error {w : Walk} {ending : Ending} (h : w.step u config name = .error ending) :
    w.run u config name = (w, ending) := by
  rw [run]
  split <;> simp_all

theorem step_of_none {w : Walk} (h : w.current = none) :
    w.step u config name = .error .exhausted := by
  simp [step, h]

/-- Below the limit the next class is examined: the counter has room for it. -/
theorem step_of_lt {w : Walk} {c : ClassId} (h : w.current = some c)
    (hlimit : w.depth.toNat < config.maxBaseDepth.toNat) :
    w.step u config name = .ok (w.examine u config name c) := by
  have hroom : w.depth.toNat + 1 < counterSize :=
    Nat.lt_of_le_of_lt hlimit config.maxBaseDepth.toNat_lt_size
  have hnext : (w.depth + 1).toNat = w.depth.toNat + 1 := by
    rw [UInt32.toNat_add]
    exact Nat.mod_eq_of_lt hroom
  have hbelow : ¬ config.maxBaseDepth < w.depth + 1 := by
    rw [UInt32.lt_iff_toNat_lt, hnext]
    omega
  simp [step, h, hroom, hbelow]

/-- At the limit a further class ends the walk, and the counter decides in which way. -/
theorem step_of_le {w : Walk} {c : ClassId} (h : w.current = some c)
    (hlimit : config.maxBaseDepth.toNat ≤ w.depth.toNat) :
    w.step u config name =
      .error (if w.depth.toNat + 1 < counterSize then .depthLimit else .counterOverflow) := by
  simp only [step, h]
  split
  · rename_i hroom
    have hnext : (w.depth + 1).toNat = w.depth.toNat + 1 := by
      rw [UInt32.toNat_add]
      exact Nat.mod_eq_of_lt hroom
    have habove : config.maxBaseDepth < w.depth + 1 := by
      rw [UInt32.lt_iff_toNat_lt, hnext]
      omega
    rw [if_pos habove]
  · rfl

end Walk

/-! ## The loop and the recursion -/

/-- What a walk has found and told so far, in front of the rest of its search. -/
def Walk.before (w : Walk) (rest : Traced Search) : Traced Search where
  value := rest.value.after w.found.reverse
  events := w.events.reverse ++ rest.events

section

variable (u : Universe) (config : Config) (name : String) (start : ClassId)

/-- The rest of a search after a class, with what the walk found and told until then. -/
theorem before_examine (w : Walk) (c : ClassId) (left : Nat) :
    (w.examine u config name c).before
        (u.searchFrom config name start left (w.examine u config name c).memory
          (w.examine u config name c).current) =
      w.before (u.searchFrom config name start (left + 1) w.memory (some c)) := by
  rw [searchFrom]
  simp only [Walk.examine]
  cases u.nextInChain? c with
  | some base => simp [Walk.before, Search.after]
  | none =>
    simp only [Walk.leaveChain]
    generalize w.memory.examine u config name c = memory
    obtain ⟨found, accessor, redirected⟩ := memory
    rcases found with _ | _ <;> rcases accessor with _ | accessor
    -- Only a walk that found nothing and remembers an accessor goes on.
    case false.some => simp [Walk.before, Search.after, Traced.tell]
    all_goals cases left <;> simp [Walk.before, Search.after, searchFrom]

/-- A walk that is run to its end finds and tells what it did so far, and then what the recursion
finds and tells with the classes that are left. -/
theorem outcome_run (left : Nat) (w : Walk)
    (hleft : w.depth.toNat + left = config.maxBaseDepth.toNat) :
    (w.run u config name).1.outcome start (w.run u config name).2 =
      w.before (u.searchFrom config name start left w.memory w.current) := by
  induction left generalizing w with
  | zero =>
    cases hcurrent : w.current with
    | none =>
      rw [Walk.run_of_error (Walk.step_of_none hcurrent)]
      simp [Walk.outcome, Walk.before, searchFrom, Search.after, Search.stop]
    | some c =>
      rw [Nat.add_zero] at hleft
      rw [Walk.run_of_error (Walk.step_of_le hcurrent (Nat.le_of_eq hleft.symm)), searchFrom,
        cutOff, hleft]
      split
      · simp [Walk.outcome, Walk.before, Search.after, Search.stop, Traced.tell]
      · simp [Walk.outcome, Walk.before, Search.after, Search.stop]
  | succ left ih =>
    cases hcurrent : w.current with
    | none =>
      rw [Walk.run_of_error (Walk.step_of_none hcurrent)]
      simp [Walk.outcome, Walk.before, searchFrom, Search.after, Search.stop]
    | some c =>
      have hstep : w.step u config name = .ok (w.examine u config name c) :=
        Walk.step_of_lt hcurrent (by omega)
      have hdepth := Walk.depth_of_step hstep
      rw [Walk.run_of_ok hstep, ih _ (by omega), before_examine]

/-- The loop and the recursion are the same search. -/
theorem search_eq_searchFrom :
    u.search config start name =
      u.searchFrom config name start config.maxBaseDepth.toNat {} (some start) := by
  have hrun := u.outcome_run config name start config.maxBaseDepth.toNat
    (.begin start) (Nat.zero_add _)
  simpa [search, Walk.before, Search.after, Walk.begin] using hrun

end

end Universe

end SignalSlot
