import SignalSlot.Proofs.Use.Recorder
import SignalSlot.Universe

set_option autoImplicit false

/-!
# Workers that share a recorder

Several workers register uses with one recorder.  A lock makes every call one
step, so that a run is an order of all calls in which the calls of each worker
keep their own order, and nothing else is known about it.

`Crew.Step` is one call of one worker, and `Crew.Run` is a run, with the calls
that were made on the way.  `Crew.Run.holdsEarliest` says what the recorder holds
after any run: of the calls made so far, the earliest one of each pair, in the
order of these calls.  Which pairs these are in the end does not depend on the
run.
-/

namespace SignalSlot

variable {δ : Type}

/-! ## Runs -/

/-- The calls that each worker has still to make, and the recorder that all of them share. -/
structure Crew (δ : Type) where
  pending : List (List (Use δ))
  recorder : Recorder δ

namespace Crew

/-- Workers in front of their first calls, and a recorder that holds nothing. -/
def start (workers : List (List (Use δ))) : Crew δ := ⟨workers, .empty⟩

@[simp] theorem pending_start (workers : List (List (Use δ))) : (start workers).pending = workers :=
  rfl

@[simp] theorem recorder_start (workers : List (List (Use δ))) :
    (start workers).recorder = .empty := rfl

/-- All workers have made all their calls. -/
def Done (crew : Crew δ) : Prop := ∀ calls ∈ crew.pending, calls = []

variable [DecidableEq δ]

/-- Some worker makes its next call, while all others wait. -/
inductive Step : Crew δ → Use δ → Crew δ → Prop
  | call (before after : List (List (Use δ))) (use : Use δ) (rest : List (Use δ))
      (recorder : Recorder δ) :
      Step ⟨before ++ (use :: rest) :: after, recorder⟩ use
        ⟨before ++ rest :: after, recorder.register use⟩

/-- The calls that lead from one state to another, in order. -/
inductive Run : Crew δ → List (Use δ) → Crew δ → Prop
  | refl (crew : Crew δ) : Run crew [] crew
  | step {crew next final : Crew δ} {use : Use δ} {calls : List (Use δ)} :
      Step crew use next → Run next calls final → Run crew (use :: calls) final

/-- A call hands its use to the recorder. -/
theorem Step.recorder_eq {crew next : Crew δ} {use : Use δ} (h : Step crew use next) :
    next.recorder = crew.recorder.register use := by
  cases h
  rfl

/-- A call is taken off the calls to be made. -/
theorem Step.perm {crew next : Crew δ} {use : Use δ} (h : Step crew use next) :
    crew.pending.flatten.Perm (use :: next.pending.flatten) := by
  cases h with
  | call before after use rest recorder =>
    simp only [List.flatten_append, List.flatten_cons, List.cons_append]
    exact List.perm_middle

/-- A run hands its calls to the recorder, in order. -/
theorem Run.recorder_eq {crew final : Crew δ} {calls : List (Use δ)} (h : Run crew calls final) :
    final.recorder = crew.recorder.registerAll calls := by
  induction h with
  | refl crew => rfl
  | step hstep _ ih =>
    rw [ih, hstep.recorder_eq]
    rfl

/-- No call is lost and none is made twice. -/
theorem Run.perm {crew final : Crew δ} {calls : List (Use δ)} (h : Run crew calls final) :
    crew.pending.flatten.Perm (calls ++ final.pending.flatten) := by
  induction h with
  | refl crew => exact .refl _
  | step hstep _ ih => exact hstep.perm.trans (ih.cons _)

/-- A run to the end makes the calls of all workers. -/
theorem Run.mem_iff_of_done {workers : List (List (Use δ))} {calls : List (Use δ)}
    {final : Crew δ} (h : Run (start workers) calls final) (hdone : final.Done) (use : Use δ) :
    use ∈ calls ↔ ∃ worker ∈ workers, use ∈ worker := by
  have hrest : final.pending.flatten = [] := List.flatten_eq_nil_iff.2 hdone
  have hperm : workers.flatten.Perm calls := by
    simpa only [hrest, List.append_nil, pending_start] using h.perm
  rw [← hperm.mem_iff, List.mem_flatten]

/-- While a call is left, some worker can make its next one. -/
theorem exists_step {crew : Crew δ} (h : ¬ crew.Done) : ∃ use next, Step crew use next := by
  obtain ⟨pending, recorder⟩ := crew
  simp only [Done, Classical.not_forall] at h
  obtain ⟨calls, hmem, hne⟩ := h
  obtain ⟨before, after, rfl⟩ := List.append_of_mem hmem
  obtain ⟨use, rest, rfl⟩ := List.exists_cons_of_ne_nil hne
  exact ⟨use, _, .call before after use rest recorder⟩

/-- Every run can be continued until all calls are made. -/
theorem exists_run_done (crew : Crew δ) : ∃ calls final, Run crew calls final ∧ final.Done := by
  induction hleft : crew.pending.flatten.length generalizing crew with
  | zero =>
    have hdone : crew.Done := List.flatten_eq_nil_iff.1 (List.length_eq_zero_iff.1 hleft)
    exact ⟨[], crew, .refl crew, hdone⟩
  | succ left ih =>
    have hdone : ¬ crew.Done := by
      intro hdone
      rw [List.flatten_eq_nil_iff.2 hdone] at hleft
      cases hleft
    obtain ⟨use, next, hstep⟩ := exists_step hdone
    have hnext := hstep.perm.length_eq
    rw [List.length_cons] at hnext
    obtain ⟨calls, final, hrun, hfinal⟩ := ih next (by omega)
    exact ⟨use :: calls, final, .step hstep hrun, hfinal⟩

end Crew

/-! ## What the recorder holds -/

variable [DecidableEq δ]

namespace Recorder

/-- The pairs that were seen are those of the uses that are held. -/
def Consistent (r : Recorder δ) : Prop :=
  ∀ pair, pair ∈ r.seen ↔ pair ∈ r.uses.map Use.key

/-- Seen pairs and uses are changed together. -/
theorem Consistent.register {r : Recorder δ} (h : r.Consistent) (use : Use δ) :
    (r.register use).Consistent := by
  by_cases hseen : use.key ∈ r.seen
  · rwa [register_of_mem hseen]
  · intro pair
    rw [register_of_not_mem hseen, List.mem_cons, h pair, List.map_append, List.mem_append,
      List.map_singleton, List.mem_singleton, or_comm]

end Recorder

namespace Crew

/-- Seen pairs and uses agree all along a run. -/
theorem Run.consistent {crew final : Crew δ} {calls : List (Use δ)} (h : Run crew calls final)
    (hstart : crew.recorder.Consistent) : final.recorder.Consistent := by
  induction h with
  | refl crew => exact hstart
  | step hstep _ ih =>
    apply ih
    rw [hstep.recorder_eq]
    exact hstart.register _

/-- The position of the earliest call of a pair. -/
def earliest (calls : List (Use δ)) (pair : δ × SourceRange) : Nat :=
  calls.findIdx fun call => call.key = pair

/-- Uses are the earliest calls of all pairs, each once and in the order of these calls. -/
structure HoldsEarliest (calls uses : List (Use δ)) : Prop where
  once : (uses.map Use.key).Nodup
  pairs : ∀ pair, pair ∈ uses.map Use.key ↔ pair ∈ calls.map Use.key
  first : ∀ use ∈ uses, calls[earliest calls use.key]? = some use
  ordered : uses.Pairwise fun a b => earliest calls a.key < earliest calls b.key

theorem holdsEarliest_firstsBy (calls : List (Use δ)) :
    HoldsEarliest calls (firstsBy Use.key calls) where
  once := by
    refine List.pairwise_map.2 ((pairwise_firstsBy Use.key calls).imp ?_)
    intro a b hlt hkey
    rw [hkey] at hlt
    exact Nat.lt_irrefl _ hlt
  pairs := mem_map_firstsBy_iff Use.key calls
  first := by
    intro use huse
    rw [earliest, ← find?_of_mem_firstsBy huse, List.find?_eq_getElem?_findIdx]
  ordered := pairwise_firstsBy Use.key calls

/-- After any run the recorder holds the earliest calls of the run. -/
theorem Run.holdsEarliest {workers : List (List (Use δ))} {calls : List (Use δ)} {final : Crew δ}
    (h : Run (start workers) calls final) : HoldsEarliest calls final.recorder.uses := by
  rw [h.recorder_eq, recorder_start, Recorder.uses_registerAll_empty]
  exact holdsEarliest_firstsBy calls

/-- In the end the pairs that are held are those of the workers' calls. -/
theorem Run.pairs_of_done {workers : List (List (Use δ))} {calls : List (Use δ)} {final : Crew δ}
    (h : Run (start workers) calls final) (hdone : final.Done) (pair : δ × SourceRange) :
    pair ∈ final.recorder.uses.map Use.key ↔
      ∃ worker ∈ workers, ∃ use ∈ worker, use.key = pair := by
  rw [h.holdsEarliest.pairs, List.mem_map]
  constructor
  · rintro ⟨use, huse, hkey⟩
    obtain ⟨worker, hworker, hmem⟩ := (h.mem_iff_of_done hdone use).1 huse
    exact ⟨worker, hworker, use, hmem, hkey⟩
  · rintro ⟨worker, hworker, use, hmem, hkey⟩
    exact ⟨use, (h.mem_iff_of_done hdone use).2 ⟨worker, hworker, hmem⟩, hkey⟩

/--
A recorder that workers share neither loses a use nor holds one twice.  At every
moment of a run the seen pairs are those of the uses, the uses are the earliest
calls so far, each pair once and in the order of these calls, and the run can be
completed.  When all calls are made, the pairs are those that some worker
registered, so that any two complete runs end with the same pairs.
-/
theorem run_holds_each_pair_once {workers : List (List (Use δ))} {calls : List (Use δ)}
    {crew : Crew δ} (h : Run (start workers) calls crew) :
    (∀ pair, pair ∈ crew.recorder.seen ↔ pair ∈ crew.recorder.uses.map Use.key) ∧
    HoldsEarliest calls crew.recorder.uses ∧
    (∃ rest final, Run crew rest final ∧ final.Done) ∧
    (crew.Done →
      (∀ pair, pair ∈ crew.recorder.uses.map Use.key ↔
        ∃ worker ∈ workers, ∃ use ∈ worker, use.key = pair) ∧
      ∀ calls' crew', Run (start workers) calls' crew' → crew'.Done → ∀ pair,
        pair ∈ crew'.recorder.uses.map Use.key ↔ pair ∈ crew.recorder.uses.map Use.key) := by
  refine ⟨h.consistent fun pair => .rfl, h.holdsEarliest, exists_run_done crew,
    fun hdone => ⟨?_, ?_⟩⟩
  · exact h.pairs_of_done hdone
  · intro calls' crew' h' hdone' pair
    rw [h'.pairs_of_done hdone', h.pairs_of_done hdone]

/-- A use that two workers meet, each in a function of its own. -/
def commonUse (context : String) : Use MethodId :=
  { declaration := ⟨0⟩, range := ⟨10, 20⟩, context := some context }

/-- Another method at the same range. -/
def ownUse : Use MethodId := { declaration := ⟨1⟩, range := ⟨10, 20⟩ }

/-- Two workers that both register the use in common. -/
def twoReaders : List (List (Use MethodId)) := [[commonUse "open", ownUse], [commonUse "close"]]

-- The second worker makes its call first, so the use in common is held with its context.
theorem run_holds_each_pair_once_twoReaders :
    ∃ crew, Run (start twoReaders) [commonUse "close", commonUse "open", ownUse] crew ∧
      crew.Done ∧ crew.recorder.uses = [commonUse "close", ownUse] ∧
      (∀ pair, pair ∈ crew.recorder.seen ↔ pair ∈ [commonUse "close", ownUse].map Use.key) ∧
      HoldsEarliest [commonUse "close", commonUse "open", ownUse] [commonUse "close", ownUse] ∧
      ∀ calls' crew', Run (start twoReaders) calls' crew' → crew'.Done → ∀ pair,
        pair ∈ crew'.recorder.uses.map Use.key ↔
          pair ∈ [commonUse "close", ownUse].map Use.key := by
  let crew : Crew MethodId :=
    ⟨[[], []], Recorder.empty.registerAll [commonUse "close", commonUse "open", ownUse]⟩
  have hrun : Run (start twoReaders) [commonUse "close", commonUse "open", ownUse] crew :=
    .step (.call [_] [] _ [] _) (.step (.call [] [_] _ _ _) (.step (.call [] [_] _ [] _) (.refl _)))
  have hdone : crew.Done := by
    intro calls hcalls
    simpa [crew] using hcalls
  have huses : crew.recorder.uses = [commonUse "close", ownUse] := by decide
  obtain ⟨hseen, hearliest, _, hend⟩ := run_holds_each_pair_once hrun
  have hpairs := (hend hdone).2
  rw [huses] at hseen hearliest hpairs
  exact ⟨crew, hrun, hdone, huses, hseen, hearliest, hpairs⟩

end Crew

end SignalSlot
