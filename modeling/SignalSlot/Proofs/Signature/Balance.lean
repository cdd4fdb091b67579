import Mathlib.Data.List.Infix
import SignalSlot.Proofs.Signature.Written

set_option autoImplicit false

/-!
# Brackets of arguments

The splitter counts the brackets of the three kinds with one counter, which stays
at zero when a closer comes without an opener.  So it refuses texts that leave a
bracket open, but closers of the wrong kind and closers of nothing pass.

`parse?_balanced_iff` says what is left of balance: behind every opener of an
argument there is a closer of its own, of whatever kind, and an argument is
balanced exactly when every closer has an opener of its kind in front of it.
`parse?_unbalanced_strayCloser` is a signature in which closers have none.
-/

namespace SignalSlot.Signature

/-- Every closer of a kind has an opener of that kind in front of it that is still open. -/
def Matched (text : List Char) : Prop :=
  ∀ pair ∈ brackets, ∀ front, front <+: text → front.count pair.2 ≤ front.count pair.1

/-- Every closer has an opener of its kind, and nothing is left open. -/
structure Balanced (text : List Char) : Prop where
  matched : Matched text
  settled : ∀ pair ∈ brackets, text.count pair.1 = text.count pair.2

instance (text : List Char) : Decidable (Matched text) :=
  decidable_of_iff
    (∀ pair ∈ brackets, ∀ front ∈ text.inits, front.count pair.2 ≤ front.count pair.1) <| by
    simp only [Matched, List.mem_inits]

instance (text : List Char) : Decidable (Balanced text) :=
  decidable_of_iff
    (Matched text ∧ ∀ pair ∈ brackets, text.count pair.1 = text.count pair.2)
    ⟨fun h => ⟨h.1, h.2⟩, fun h => ⟨h.matched, h.settled⟩⟩

/-- The number of openers of a text, of whatever kind. -/
def openers (text : List Char) : Nat :=
  text.countP (· ∈ ['(', '[', '{'])

/-- The number of closers of a text, of whatever kind. -/
def closers (text : List Char) : Nat :=
  text.countP (· ∈ [')', ']', '}'])

/-! ## One counter -/

theorem countP_mem_three {a b c : Char} (hdistinct : [a, b, c].Nodup) (text : List Char) :
    text.countP (· ∈ [a, b, c]) = text.count a + text.count b + text.count c := by
  induction text with
  | nil => rfl
  | cons d text ih =>
    simp only [List.countP_cons, List.count_cons, ih]
    grind

/-- Where no closer comes without its opener, as many closers as openers settle every kind. -/
theorem Matched.balanced {text : List Char} (h : Matched text)
    (hcount : openers text ≤ closers text) : Balanced text := by
  refine ⟨h, ?_⟩
  have hle : ∀ pair ∈ brackets, text.count pair.2 ≤ text.count pair.1 :=
    fun pair hpair => h pair hpair text List.prefix_rfl
  rw [openers, closers, countP_mem_three (by decide), countP_mem_three (by decide)] at hcount
  simp only [brackets, List.forall_mem_cons, List.not_mem_nil, false_implies, implies_true,
    and_true] at hle ⊢
  omega

/-- A text that closes from a nesting has a closer for every bracket that is open in front of it
and for every one that it opens. -/
theorem Closes.groups_add_openers_le {n : Nesting} {text : List Char} (h : Closes n text) :
    n.groups + openers text ≤ closers text := by
  have hapart : (∀ c ∈ ['(', '[', '{'], c ∉ [')', ']', '}']) ∧
      ∀ c ∈ [')', ']', '}'], c ∉ ['(', '[', '{'] := by simp
  induction h with
  | done => exact Nat.le_refl 0
  | @opener groups angles c text kind _ ih =>
    have hopen : openers (c :: text) = openers text + 1 :=
      List.countP_cons_of_pos (by simpa using kind)
    have hclose : closers (c :: text) = closers text :=
      List.countP_cons_of_neg (by simpa using hapart.1 c kind)
    simp only [hopen, hclose] at ih ⊢
    omega
  | @closer groups angles c text kind _ _ ih =>
    -- A closer of nothing leaves the counter at zero, so only one direction is left.
    have hopen : openers (c :: text) = openers text :=
      List.countP_cons_of_neg (by simpa using hapart.2 c kind)
    have hclose : closers (c :: text) = closers text + 1 :=
      List.countP_cons_of_pos (by simpa using kind)
    simp only [hopen, hclose] at ih ⊢
    omega
  | openAngle _ ih => exact ih
  | closeAngle _ ih => exact ih
  | @plain n c text passes _ ih =>
    have hkind := passes.1
    have hopen : openers (c :: text) = openers text := List.countP_cons_of_neg (by simp_all)
    have hclose : closers (c :: text) = closers text := List.countP_cons_of_neg (by simp_all)
    rwa [hopen, hclose]

theorem Closes.of_append {n : Nesting} {front back : List Char} (h : Closes n (front ++ back)) :
    ∃ inner, Closes inner back := by
  induction front generalizing n with
  | nil => exact ⟨n, h⟩
  | cons c front ih => exact ih h.of_cons.2

/-- Behind every opener of a field there is a closer of its own. -/
theorem SelfContained.openers_le {field back : List Char} (h : SelfContained field)
    (hback : back <:+ field) : openers back ≤ closers back := by
  obtain ⟨front, rfl⟩ := hback
  obtain ⟨inner, hinner⟩ := Closes.of_append h
  have := hinner.groups_add_openers_le
  omega

/-! ## Arguments -/

/-- An argument, and what trimming and unwrapping took off behind it, are the end of its field.
What was taken off holds no bracket. -/
theorem exists_unwrap_append_suffix (field : List Char) :
    ∃ back, TypeText.unwrap (Text.trim field) ++ back <:+ field ∧
      ∀ c ∈ back, c ∉ ['(', '[', '{', ')', ']', '}'] := by
  have hblank : ∀ c, Text.isBlank c = true → c ∉ ['(', '[', '{', ')', ']', '}'] := by
    intro c hc hmem
    simp only [List.mem_cons, List.not_mem_nil, or_false] at hmem
    rcases hmem with rfl | rfl | rfl | rfl | rfl | rfl <;> revert hc <;> decide
  obtain ⟨blanks, hsuffix, hblanks⟩ := Text.exists_trim_append_suffix field
  unfold TypeText.unwrap
  cases hwrapped : TypeText.constReferent? (Text.trim field) with
  | none => exact ⟨blanks, hsuffix, fun c hc => hblank c (hblanks c hc)⟩
  | some inner =>
    obtain ⟨more, hinner, hmore⟩ := Text.exists_trim_append_suffix inner
    rw [TypeText.constReferent?_eq_some_iff.1 hwrapped] at hsuffix
    refine ⟨more ++ '&' :: blanks, ?_, ?_⟩
    · obtain ⟨front, hfront⟩ := hinner
      refine List.IsSuffix.trans ⟨"const ".toList ++ front, ?_⟩ hsuffix
      calc "const ".toList ++ front ++ (Text.trim inner ++ (more ++ '&' :: blanks))
          = "const ".toList ++ (front ++ (Text.trim inner ++ more) ++ ['&']) ++ blanks := by simp
        _ = "const ".toList ++ (inner ++ ['&']) ++ blanks := by rw [hfront]
    · intro c hc
      rcases List.mem_append.1 hc with hc | hc
      · exact hblank c (hmore c hc)
      · rcases List.mem_cons.1 hc with rfl | hc
        · decide
        · exact hblank c (hblanks c hc)

/-- Behind every opener of an argument there is a closer of its own. -/
theorem openers_le_of_suffix_argument {field back : List Char} (h : SelfContained field)
    (hback : back <:+ TypeText.unwrap (Text.trim field)) : openers back ≤ closers back := by
  obtain ⟨dropped, hsuffix, hdropped⟩ := exists_unwrap_append_suffix field
  obtain ⟨front, hfront⟩ := hback
  have hcut : back ++ dropped <:+ field := by
    refine List.IsSuffix.trans ⟨front, ?_⟩ hsuffix
    rw [← hfront, List.append_assoc]
  have hopen : openers dropped = 0 := List.countP_eq_zero.2 fun c hc => by
    have := hdropped c hc
    simp_all
  have hclose : closers dropped = 0 := List.countP_eq_zero.2 fun c hc => by
    have := hdropped c hc
    simp_all
  have hle := h.openers_le hcut
  simp only [openers, closers, List.countP_append] at hle hopen hclose ⊢
  omega

theorem exists_field_of_mem_arguments {raw : String} {s : Signature} (h : parse? raw = some s)
    {a : String} (ha : a ∈ s.arguments) :
    ∃ field, SelfContained field ∧ a.toList = TypeText.unwrap (Text.trim field) := by
  rw [parse?_eq_ofTrimmed?] at h
  obtain ⟨p, _, rfl⟩ := ofTrimmed?_eq_some_iff.1 h
  simp only [Spelling.signature, Spelling.arguments] at ha
  split at ha
  · cases ha
  · obtain ⟨field, hfield, rfl⟩ := List.mem_map.1 ha
    exact ⟨field, p.fields_closed field hfield, by simp [TypeText.stripConstRef]⟩

/--
In every argument of a signature that is read, each end has at least as many
closers as openers, so no bracket is left open as long as kinds are not told
apart.  The argument is balanced exactly when every closer of a kind has an
opener of that kind in front of it that is still open.
-/
theorem parse?_balanced_iff (raw : String) (s : Signature) (h : parse? raw = some s) :
    ∀ a ∈ s.arguments,
      (∀ back, back <:+ a.toList → openers back ≤ closers back) ∧
      (Balanced a.toList ↔ Matched a.toList) := by
  intro a ha
  obtain ⟨field, hclosed, hfield⟩ := exists_field_of_mem_arguments h ha
  have hends : ∀ back, back <:+ a.toList → openers back ≤ closers back := by
    intro back hback
    rw [hfield] at hback
    exact openers_le_of_suffix_argument hclosed hback
  refine ⟨hends, fun hbalanced => hbalanced.matched, fun hmatched => ?_⟩
  exact hmatched.balanced (hends _ List.suffix_rfl)

-- A function type and an array: every closer has its opener.
theorem parse?_balanced_iff_functionType :
    parse? "1set(void(*)(int[2]))" = some ⟨"set", ["void(*)(int[2])"]⟩ ∧
    Matched "void(*)(int[2])".toList ∧ Balanced "void(*)(int[2])".toList := by
  have hparse : parse? "1set(void(*)(int[2]))" = some ⟨"set", ["void(*)(int[2])"]⟩ := by
    decide +kernel
  have hmatched : Matched "void(*)(int[2])".toList := by decide +kernel
  have hiff := (parse?_balanced_iff _ _ hparse _ List.mem_cons_self).2
  exact ⟨hparse, hmatched, hiff.2 hmatched⟩

-- The bracket of the first argument closes nothing, that of the second one a parenthesis.
theorem parse?_unbalanced_strayCloser :
    parse? "1f(a],(b])" = some ⟨"f", ["a]", "(b]"]⟩ ∧
    ¬ Balanced "a]".toList ∧ ¬ Balanced "(b]".toList := by
  decide +kernel

end SignalSlot.Signature
