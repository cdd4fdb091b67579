set_option autoImplicit false

/-!
# Blank characters

The characters with the Unicode property `White_Space`, and trimming at both
ends.  Zero-width characters, the byte-order mark, NUL and the ASCII separator
controls U+001C to U+001F do not have the property and are kept.
-/

namespace SignalSlot.Text

/-- Whether a character has the property `White_Space`. -/
def isBlank (c : Char) : Bool :=
  let n := c.toNat
  (9 ≤ n && n ≤ 13) || n == 0x20 || n == 0x85 || n == 0xA0 || n == 0x1680 ||
    (0x2000 ≤ n && n ≤ 0x200A) || n == 0x2028 || n == 0x2029 || n == 0x202F ||
    n == 0x205F || n == 0x3000

/-- Drops the blank characters in front. -/
def trimLeft (s : List Char) : List Char :=
  s.dropWhile isBlank

/-- Drops the blank characters at the end. -/
def trimRight (s : List Char) : List Char :=
  (s.reverse.dropWhile isBlank).reverse

/-- Drops the blank characters at both ends. -/
def trim (s : List Char) : List Char :=
  trimRight (trimLeft s)

/-- Drops the blank characters at both ends of a string. -/
def trimmed (s : String) : String :=
  String.ofList (trim s.toList)

@[simp] theorem trim_nil : trim [] = [] := rfl

/-- Trimming only drops characters. -/
theorem trim_sublist (s : List Char) : (trim s).Sublist s := by
  have hright : (trimRight (trimLeft s)).Sublist (trimLeft s) := by
    have := (List.dropWhile_sublist isBlank (l := (trimLeft s).reverse)).reverse
    rwa [List.reverse_reverse] at this
  exact hright.trans (List.dropWhile_sublist _)

/-- What is left of a text, and the blanks dropped behind it, are its end. -/
theorem exists_trim_append_suffix (s : List Char) :
    ∃ back, trim s ++ back <:+ s ∧ ∀ c ∈ back, isBlank c = true := by
  refine ⟨((trimLeft s).reverse.takeWhile isBlank).reverse, ?_, ?_⟩
  · rw [trim, trimRight, ← List.reverse_append, List.takeWhile_append_dropWhile,
      List.reverse_reverse]
    exact List.dropWhile_suffix _
  · intro c hc
    exact List.all_eq_true.1 List.all_takeWhile c (List.mem_reverse.1 hc)

/-- A text that neither starts nor ends with a blank is left as it is. -/
theorem trim_eq_self {s : List Char} (hfront : ∀ c ∈ s.head?, isBlank c = false)
    (hback : ∀ c ∈ s.getLast?, isBlank c = false) : trim s = s := by
  have hleft : trimLeft s = s := by
    cases s with
    | nil => rfl
    | cons c s => simp [trimLeft, hfront c rfl]
  have hright : trimRight s = s := by
    rw [← List.head?_reverse] at hback
    unfold trimRight
    cases hs : s.reverse with
    | nil => simpa using hs.symm
    | cons c r =>
      rw [List.dropWhile_cons_of_neg (by simp [hback c (by simp [hs])]), ← hs, List.reverse_reverse]
  rw [trim, hleft, hright]

/-- No blank is left in front. -/
theorem isBlank_of_mem_head?_trimLeft {s : List Char} {c : Char} (h : c ∈ (trimLeft s).head?) :
    isBlank c = false := by
  have hhead := List.head?_dropWhile_not isBlank s
  rw [trimLeft] at h
  rw [Option.mem_def.1 h] at hhead
  exact hhead

/-- No blank is left at either end, so trimming twice is trimming once. -/
@[simp] theorem trim_trim (s : List Char) : trim (trim s) = trim s := by
  have hcut : trim s <+: trimLeft s := by
    rw [← List.reverse_suffix, trim, trimRight, List.reverse_reverse]
    exact List.dropWhile_suffix _
  apply trim_eq_self
  · intro c hc
    -- What is trimmed at the end starts as the text did before.
    obtain ⟨rest, hrest⟩ := hcut
    refine isBlank_of_mem_head?_trimLeft (s := s) ?_
    rw [← hrest, List.head?_append, Option.mem_def.1 hc]
    rfl
  · intro c hc
    rw [trim, trimRight, List.getLast?_reverse] at hc
    exact isBlank_of_mem_head?_trimLeft hc

/-- A blank at the end is dropped, whatever stands in front of it. -/
theorem trim_concat_blank {c : Char} (hc : isBlank c = true) (s : List Char) :
    trim (s ++ [c]) = trim s := by
  have hright : ∀ t, trimRight (t ++ [c]) = trimRight t := by
    intro t
    rw [trimRight, List.reverse_concat, List.dropWhile_cons_of_pos hc, trimRight]
  rw [trim, trim, trimLeft, List.dropWhile_append]
  split
  · rename_i hblank
    rw [trimLeft, List.isEmpty_iff.1 hblank, List.dropWhile_cons_of_pos hc, List.dropWhile_nil]
  · exact hright _

end SignalSlot.Text
