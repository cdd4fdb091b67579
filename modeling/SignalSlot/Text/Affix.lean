set_option autoImplicit false

/-!
# Beginnings and ends of texts

What is left of a text when a given beginning, or a given end, is taken off.
-/

namespace SignalSlot.Text

variable {α : Type} [DecidableEq α]

/-- What follows `front` in a text that starts with it. -/
def after? : List α → List α → Option (List α)
  | [], text => some text
  | _ :: _, [] => none
  | a :: front, b :: text => if a = b then after? front text else none

/-- What stands in front of `back` in a text that ends with it. -/
def before? (back text : List α) : Option (List α) :=
  (after? back.reverse text.reverse).map List.reverse

/-- A rest is found exactly when the text is the beginning followed by it. -/
theorem after?_eq_some_iff {front text rest : List α} :
    after? front text = some rest ↔ text = front ++ rest := by
  induction front generalizing text with
  | nil => simp [after?, eq_comm]
  | cons a front ih =>
    cases text with
    | nil => simp [after?]
    | cons b text =>
      by_cases h : a = b
      · simp [after?, h, ih]
      · simp [after?, h, Ne.symm h]

/-- A rest is found exactly when the text is it followed by the end. -/
theorem before?_eq_some_iff {back text rest : List α} :
    before? back text = some rest ↔ text = rest ++ back := by
  unfold before?
  constructor
  · intro h
    obtain ⟨r, hr, rfl⟩ := Option.map_eq_some_iff.1 h
    have ht := after?_eq_some_iff.1 hr
    rw [← List.reverse_reverse text, ht]
    simp
  · intro h
    subst h
    refine Option.map_eq_some_iff.2 ⟨rest.reverse, ?_, by simp⟩
    exact after?_eq_some_iff.2 (by simp)

end SignalSlot.Text
