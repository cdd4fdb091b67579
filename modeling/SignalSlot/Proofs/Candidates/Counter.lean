import SignalSlot.Proofs.Candidates.Chain

set_option autoImplicit false

/-!
# The counter of a search

A chain of first bases may lead back into itself, so nothing but the counter of
examined classes ends a search.  `Universe.Examines` follows the loop from state
to state with the classes it examines.  Along every such run the counter is their
number and the limit is never passed.

The counter has as many bits as the limit.  In front of a class it is incremented
before it is compared, so the largest limit that it can hold is never exceeded:
a search with that limit counts until it leaves the range of its counter.
`search_counts_to_limit` says that this is the only way to get there, and
`search_overflows_selfBased` that a single class gets there.
-/

namespace SignalSlot

namespace Universe

/-! ## Runs -/

/-- A run of the loop: the classes that it examines between two of its states, in order. -/
inductive Examines (u : Universe) (config : Config) (name : String) :
    Walk → List ClassId → Walk → Prop where
  | refl (w : Walk) : Examines u config name w [] w
  | step {w next last : Walk} {c : ClassId} {classes : List ClassId} (current : w.current = some c)
      (step : w.step u config name = .ok next) (rest : Examines u config name next classes last) :
      Examines u config name w (c :: classes) last

section

variable {u : Universe} {config : Config} {name : String}

/-- A step is made below the limit only, and examines the class in front of the walk. -/
theorem Walk.step_eq_ok_iff {w next : Walk} :
    w.step u config name = .ok next ↔
      ∃ c, w.current = some c ∧ w.depth.toNat < config.maxBaseDepth.toNat ∧
        next = w.examine u config name c := by
  cases hcurrent : w.current with
  | none => simp [Walk.step_of_none hcurrent]
  | some c =>
    by_cases hlimit : w.depth.toNat < config.maxBaseDepth.toNat
    · simp [Walk.step_of_lt hcurrent hlimit, hlimit, eq_comm]
    · simp [Walk.step_of_le hcurrent (Nat.not_lt.1 hlimit), hlimit]

theorem Examines.snoc {w last next : Walk} {c : ClassId} {classes : List ClassId}
    (h : u.Examines config name w classes last) (current : last.current = some c)
    (step : last.step u config name = .ok next) :
    u.Examines config name w (classes ++ [c]) next := by
  induction h with
  | refl w => exact .step current step (.refl next)
  | step hcurrent hstep _ ih => exact .step hcurrent hstep (ih current step)

/-- The counter counts the classes of a run. -/
theorem Examines.depth_eq {w last : Walk} {classes : List ClassId}
    (h : u.Examines config name w classes last) :
    last.depth.toNat = w.depth.toNat + classes.length := by
  induction h with
  | refl w => rfl
  | step _ hstep _ ih =>
    have hdepth := Walk.depth_of_step hstep
    rw [ih, hdepth, List.length_cons]
    omega

/-- No run passes the limit. -/
theorem Examines.depth_le {w last : Walk} {classes : List ClassId}
    (h : u.Examines config name w classes last)
    (hw : w.depth.toNat ≤ config.maxBaseDepth.toNat) :
    last.depth.toNat ≤ config.maxBaseDepth.toNat := by
  induction h with
  | refl w => exact hw
  | step _ hstep _ ih =>
    have hdepth := Walk.depth_of_step hstep
    obtain ⟨_, _, hlimit, _⟩ := Walk.step_eq_ok_iff.1 hstep
    exact ih (by omega)

theorem Examines.run_eq {w last : Walk} {classes : List ClassId}
    (h : u.Examines config name w classes last) :
    w.run u config name = last.run u config name := by
  induction h with
  | refl w => rfl
  | step _ hstep _ ih => rw [Walk.run_of_ok hstep, ih]

/-- The loop ends, in a state that a run reaches. -/
theorem exists_examines_run (u : Universe) (config : Config) (name : String) (w : Walk) :
    ∃ classes, u.Examines config name w classes (w.run u config name).1 ∧
      (w.run u config name).1.step u config name = .error (w.run u config name).2 := by
  induction w using Walk.run.induct u config name with
  | case1 w next hstep ih =>
    obtain ⟨classes, hrun, hend⟩ := ih
    obtain ⟨c, hcurrent, _, _⟩ := Walk.step_eq_ok_iff.1 hstep
    rw [Walk.run_of_ok hstep]
    exact ⟨c :: classes, .step hcurrent hstep hrun, hend⟩
  | case2 w ending hstep =>
    rw [Walk.run_of_error hstep]
    exact ⟨[], .refl w, hstep⟩

/-! ## The range of the counter -/

/-- A walk within its limit leaves the range of the counter exactly when it stands at the limit,
in front of a class, and the counter cannot hold the limit and one more. -/
theorem Walk.step_eq_overflow_iff {w : Walk}
    (h : w.depth.toNat ≤ config.maxBaseDepth.toNat) :
    w.step u config name = .error .counterOverflow ↔
      ¬ config.Countable ∧ w.depth.toNat = config.maxBaseDepth.toNat ∧ w.current.isSome := by
  cases hcurrent : w.current with
  | none => simp [Walk.step_of_none hcurrent]
  | some c =>
    rcases Nat.lt_or_eq_of_le h with hlimit | hlimit
    · simp [Walk.step_of_lt hcurrent hlimit, hlimit.ne]
    · rw [Walk.step_of_le hcurrent hlimit.ge, hlimit]
      by_cases hcountable : config.Countable
      · simp [if_pos (show config.maxBaseDepth.toNat + 1 < counterSize from hcountable),
          hcountable]
      · simp [if_neg (show ¬ config.maxBaseDepth.toNat + 1 < counterSize from hcountable),
          hcountable]

end

/--
Every search ends after it has examined at most as many classes as the limit
says, whatever the declarations are.  Its counter is the number of classes
examined and has room for one more, unless the limit is the largest number that
it holds: with that limit, and with no other, a search with a further class
behind the last one leaves the range of its counter.
-/
theorem search_counts_to_limit (u : Universe) (config : Config) (start : ClassId) (name : String) :
    (∃ classes w ending, u.Examines config name (.begin start) classes w ∧
      w.step u config name = .error ending ∧
      (u.search config start name).value = ⟨w.found.reverse, ending⟩ ∧
      classes.length ≤ config.maxBaseDepth.toNat ∧
      (ending = .counterOverflow ↔
        ¬ config.Countable ∧ classes.length = config.maxBaseDepth.toNat ∧ w.current.isSome)) ∧
    ∀ classes w, u.Examines config name (.begin start) classes w →
      w.depth.toNat = classes.length ∧ classes.length ≤ config.maxBaseDepth.toNat ∧
      (config.Countable → w.depth.toNat + 1 < UInt32.size) := by
  have hcounter : ∀ classes w, u.Examines config name (.begin start) classes w →
      w.depth.toNat = classes.length ∧ classes.length ≤ config.maxBaseDepth.toNat := by
    intro classes w hrun
    have hdepth : w.depth.toNat = classes.length := hrun.depth_eq.trans (Nat.zero_add _)
    exact ⟨hdepth, hdepth ▸ hrun.depth_le (Nat.zero_le _)⟩
  constructor
  · obtain ⟨classes, hrun, hend⟩ := u.exists_examines_run config name (.begin start)
    obtain ⟨hdepth, hlimit⟩ := hcounter classes _ hrun
    refine ⟨classes, _, _, hrun, hend, rfl, hlimit, ?_⟩
    rw [← hdepth, ← Walk.step_eq_overflow_iff (hdepth ▸ hlimit), hend, Except.error.injEq]
  · intro classes w hrun
    obtain ⟨hdepth, hlimit⟩ := hcounter classes w hrun
    refine ⟨hdepth, hlimit, fun hcountable => ?_⟩
    unfold Config.Countable counterSize at hcountable
    omega

/-! ## A chain that leads back into itself -/

/-- A class that is its own next class is examined again and again, up to the limit. -/
theorem examines_replicate {u : Universe} {config : Config} {c : ClassId}
    (hnext : u.nextInChain? c = some c) (name : String) (count : Nat)
    (hcount : count ≤ config.maxBaseDepth.toNat) :
    ∃ w, u.Examines config name (.begin c) (List.replicate count c) w ∧ w.current = some c := by
  induction count with
  | zero => exact ⟨.begin c, .refl _, rfl⟩
  | succ count ih =>
    obtain ⟨w, hrun, hcurrent⟩ := ih (by omega)
    have hdepth : w.depth.toNat = count := by
      simpa [Walk.begin] using hrun.depth_eq
    have hstep : w.step u config name = .ok (w.examine u config name c) :=
      Walk.step_of_lt hcurrent (by omega)
    refine ⟨w.examine u config name c, ?_, by simp [Walk.examine, hnext]⟩
    rw [List.replicate_succ']
    exact hrun.snoc hcurrent hstep

/-- When the counter cannot count one class more than the limit, such a class drives it to its
largest value and then out of its range. -/
theorem overflows_of_nextInChain? {u : Universe} {config : Config} {c : ClassId}
    (hnext : u.nextInChain? c = some c) (hconfig : ¬ config.Countable) (name : String) :
    (∃ classes w, u.Examines config name (.begin c) classes w ∧
      w.current = some c ∧ ¬ w.depth.toNat + 1 < UInt32.size) ∧
    (u.search config c name).value.ending = .counterOverflow := by
  obtain ⟨w, hrun, hcurrent⟩ :=
    examines_replicate hnext name config.maxBaseDepth.toNat (Nat.le_refl _)
  have hdepth : w.depth.toNat = config.maxBaseDepth.toNat := by
    simpa [Walk.begin] using hrun.depth_eq
  have hfull : ¬ w.depth.toNat + 1 < UInt32.size := hdepth ▸ hconfig
  refine ⟨⟨_, w, hrun, hcurrent, hfull⟩, ?_⟩
  have hend : w.step u config name = .error .counterOverflow := by
    rw [Walk.step_of_le hcurrent hdepth.ge, counterSize, if_neg hfull]
  rw [search, hrun.run_eq, Walk.run_of_error hend]
  rfl

/-- A class that names itself as its first base. -/
def selfBased : Universe where
  classes := [⟨"Loop", true, ["Loop"], []⟩]

/-- The largest limit that a configuration can hold. -/
def largestLimit : Config := { maxBaseDepth := 4294967295 }

-- The counter reaches its largest value in front of a class, and the next increment has no room.
theorem search_overflows_selfBased :
    ofClasses [{ name := "Loop", bases := ["Loop"] }] = .ok selfBased ∧
    (∃ classes w, selfBased.Examines largestLimit "ping" (.begin ⟨0⟩) classes w ∧
      w.current = some ⟨0⟩ ∧ ¬ w.depth.toNat + 1 < UInt32.size) ∧
    (selfBased.search largestLimit ⟨0⟩ "ping").value.ending = .counterOverflow :=
  ⟨by decide, overflows_of_nextInChain? (by decide) (by decide) "ping"⟩

end Universe

end SignalSlot
