import SignalSlot.Use

set_option autoImplicit false

/-!
# What a recorder holds

A recorder is fed one use at a time and remembers the pairs it has seen.  What
it holds at the end is said without a state: of all uses that were registered,
the first one of each pair, in order.
-/

namespace SignalSlot

/-! ## First elements -/

section FirstsBy

variable {α β : Type} [DecidableEq β]

/-- The elements whose key no element in front of them has, in order. -/
def firstsBy (key : α → β) : List α → List α
  | [] => []
  | a :: rest => a :: (firstsBy key rest).filter fun b => key b ≠ key a

/-- Dropping keys before or after taking the first elements is the same. -/
theorem filter_firstsBy (key : α → β) (keep : β → Bool) (items : List α) :
    (firstsBy key items).filter (fun a => keep (key a)) =
      firstsBy key (items.filter fun a => keep (key a)) := by
  induction items with
  | nil => rfl
  | cons a rest ih =>
    rw [firstsBy, List.filter_cons, List.filter_cons, List.filter_filter]
    split
    · rw [firstsBy, ← ih, List.filter_filter]
      simp only [Bool.and_comm]
    · rename_i hdropped
      rw [← ih]
      refine List.filter_congr fun b _ => ?_
      -- A key that is kept differs from the one that is dropped.
      by_cases hkey : key b = key a
      · simp [hkey, hdropped]
      · simp [hkey]

/-- Every key that an element has is the key of a first element. -/
theorem mem_map_firstsBy_iff (key : α → β) (items : List α) (k : β) :
    k ∈ (firstsBy key items).map key ↔ k ∈ items.map key := by
  induction items with
  | nil => rfl
  | cons a rest ih =>
    rw [firstsBy, List.map_cons, List.map_cons, List.mem_cons, List.mem_cons, ← ih]
    by_cases hk : k = key a
    · simp [hk]
    · simp only [List.mem_map, List.mem_filter]
      grind

/-- A first element is the one that a search for its key finds. -/
theorem find?_of_mem_firstsBy {key : α → β} {items : List α} {a : α}
    (h : a ∈ firstsBy key items) : items.find? (fun b => key b = key a) = some a := by
  induction items with
  | nil => cases h
  | cons b rest ih =>
    rw [firstsBy, List.mem_cons, List.mem_filter, decide_eq_true_iff] at h
    rcases h with rfl | ⟨hmem, hkey⟩
    · simp
    · rw [List.find?_cons_of_neg (by simpa using Ne.symm hkey)]
      exact ih hmem

/-- First elements stand in the order in which their keys come first. -/
theorem pairwise_firstsBy (key : α → β) (items : List α) :
    (firstsBy key items).Pairwise fun a b =>
      items.findIdx (fun c => key c = key a) < items.findIdx (fun c => key c = key b) := by
  induction items with
  | nil => exact .nil
  | cons a rest ih =>
    -- A key that differs from the one in front is found one place later than without it.
    have hlater : ∀ b, key b ≠ key a →
        (a :: rest).findIdx (fun c => key c = key b) =
          rest.findIdx (fun c => key c = key b) + 1 := by
      intro b hb
      simp [List.findIdx_cons, Ne.symm hb]
    rw [firstsBy, List.pairwise_cons]
    constructor
    · intro b hb
      have hkey : key b ≠ key a := by simpa using (List.mem_filter.1 hb).2
      rw [hlater b hkey]
      simp [List.findIdx_cons]
    · refine (ih.filter _).imp_of_mem fun {b c} hb hc hlt => ?_
      have hbkey : key b ≠ key a := by simpa using (List.mem_filter.1 hb).2
      have hckey : key c ≠ key a := by simpa using (List.mem_filter.1 hc).2
      rw [hlater b hbkey, hlater c hckey]
      exact Nat.succ_lt_succ hlt

end FirstsBy

/-! ## The recorder -/

namespace Recorder

variable {δ : Type} [DecidableEq δ]

theorem register_of_not_mem {r : Recorder δ} {use : Use δ} (h : use.key ∉ r.seen) :
    r.register use = { seen := use.key :: r.seen, uses := r.uses ++ [use] } := by
  simp [register, h]

/-- The uses registered after a recorder's own are the first ones of the pairs it has not seen. -/
theorem uses_registerAll (r : Recorder δ) (uses : List (Use δ)) :
    (r.registerAll uses).uses =
      r.uses ++ firstsBy Use.key (uses.filter fun use => use.key ∉ r.seen) := by
  induction uses generalizing r with
  | nil => simp [firstsBy]
  | cons use rest ih =>
    have hstep : r.registerAll (use :: rest) = (r.register use).registerAll rest := rfl
    rw [hstep, ih, List.filter_cons]
    by_cases hseen : use.key ∈ r.seen
    · simp [register_of_mem hseen, hseen]
    · have hrest : (rest.filter fun other => other.key ∉ use.key :: r.seen) =
          (rest.filter fun other => other.key ∉ r.seen).filter fun other =>
            other.key ≠ use.key := by
        rw [List.filter_filter]
        refine List.filter_congr fun other _ => ?_
        simp [not_or]
      have hfirsts := filter_firstsBy Use.key (fun k => decide (k ≠ use.key))
        (rest.filter fun other => other.key ∉ r.seen)
      simp only [register_of_not_mem hseen, hrest, hseen, not_false_eq_true, decide_true, if_true,
        firstsBy, hfirsts, List.append_assoc, List.singleton_append]

/-- A recorder that starts empty holds the first use of each pair. -/
theorem uses_registerAll_empty (uses : List (Use δ)) :
    ((empty : Recorder δ).registerAll uses).uses = firstsBy Use.key uses := by
  have hall : (uses.filter fun use => use.key ∉ (empty : Recorder δ).seen) = uses :=
    List.filter_eq_self.2 fun _ _ => rfl
  rw [uses_registerAll, hall]
  rfl

end Recorder

end SignalSlot
