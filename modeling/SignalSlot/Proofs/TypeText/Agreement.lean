import SignalSlot.TypeText

set_option autoImplicit false

/-!
# Spellings that agree

The comparison of two spellings goes forward on both sides and never back, so
what it accepts has to be said without it.  This file says it from both ends.

Spellings that agree leave a common text when spaces and markers are taken out of
them (`agree_leaves_common`), so nothing else can differ.  And spellings agree
when they differ in spaces and in the way in which any number of markers is
written (`agree_respelled`): a stretch between two markers is compared by itself,
since no marker is skipped while both sides are inside it.
-/

namespace SignalSlot.TypeText

/-! ## The bytes of markers -/

/-- The first letter of a marker. -/
def letterU : UInt8 := 0x75

/-- The second letter of a marker. -/
def letterN : UInt8 := 0x6e

theorem unsignedMarker_eq_cons : unsignedMarker = letterU :: unsignedTail := by decide

theorem unsignedTail_eq_cons : unsignedTail = letterN :: unsignedTail.tail := by decide

theorem space_mem_unsignedMarker : space ∈ unsignedMarker := by decide

/-- A text without its spaces. -/
def unspaced (s : List UInt8) : List UInt8 := s.filter (· ≠ space)

@[simp] theorem unspaced_space (s : List UInt8) : unspaced (space :: s) = unspaced s := by
  simp [unspaced]

theorem unspaced_cons {b : UInt8} (hb : b ≠ space) (s : List UInt8) :
    unspaced (b :: s) = b :: unspaced s := by
  simp [unspaced, hb]

@[simp] theorem unspaced_append (s t : List UInt8) :
    unspaced (s ++ t) = unspaced s ++ unspaced t := by
  simp [unspaced]

/-! ## What agreeing spellings have in common -/

/--
What is left of a spelling when some of its spaces and some of its markers,
whole or behind their first letter, are taken out.
-/
inductive Leaves : List UInt8 → List UInt8 → Prop
  | nil : Leaves [] []
  | keep {s r : List UInt8} (b : UInt8) : Leaves s r → Leaves (b :: s) (b :: r)
  | space {s r : List UInt8} : Leaves s r → Leaves (space :: s) r
  | marker {s r : List UInt8} : Leaves s r → Leaves (unsignedMarker ++ s) r
  | tail {s r : List UInt8} : Leaves s r → Leaves (unsignedTail ++ s) r

/-- A skipped marker is one that was taken out. -/
theorem Leaves.of_afterUnsigned? {s s' r : List UInt8} (h : afterUnsigned? s = some s')
    (hleaves : Leaves s' r) : Leaves s r := by
  rcases Option.or_eq_some_iff.1 h with h | ⟨_, h⟩
  · rw [Text.after?_eq_some_iff.1 h]
    exact .marker hleaves
  · rw [Text.after?_eq_some_iff.1 h]
    exact .tail hleaves

/-- Spellings that agree leave the same text behind. -/
theorem exists_leaves_of_agree {s t : List UInt8} (h : agree s t = true) :
    ∃ r, Leaves s r ∧ Leaves t r := by
  fun_induction agree s t with
  | case1 t =>
    rw [List.isEmpty_iff.1 h]
    exact ⟨[], .nil, .nil⟩
  | case2 => cases h
  | case3 s b t ih =>
    obtain ⟨r, hs, ht⟩ := ih h
    exact ⟨b :: r, .keep b hs, .keep b ht⟩
  | case4 s b t _ ih =>
    obtain ⟨r, hs, ht⟩ := ih h
    exact ⟨r, .space hs, ht⟩
  | case5 a s t _ _ ih =>
    obtain ⟨r, hs, ht⟩ := ih h
    exact ⟨r, hs, .space ht⟩
  | case6 a s b t _ _ _ s' hafter ih =>
    obtain ⟨r, hs, ht⟩ := ih h
    exact ⟨r, hs.of_afterUnsigned? hafter, ht⟩
  | case7 a s b t _ _ _ _ t' hafter ih =>
    obtain ⟨r, hs, ht⟩ := ih h
    exact ⟨r, hs, ht.of_afterUnsigned? hafter⟩
  | case8 => cases h

/-- Bytes that no marker has are all left behind. -/
theorem Leaves.filter_eq {s r : List UInt8} (h : Leaves s r) (keep : UInt8 → Bool)
    (hkeep : ∀ b ∈ unsignedMarker, keep b = false) : s.filter keep = r.filter keep := by
  have hmarker : unsignedMarker.filter keep = [] :=
    List.filter_eq_nil_iff.2 fun b hb => by simp [hkeep b hb]
  have htail : unsignedTail.filter keep = [] := by
    refine List.filter_eq_nil_iff.2 fun b hb => ?_
    simp [hkeep b (by rw [unsignedMarker_eq_cons]; exact List.mem_cons_of_mem _ hb)]
  induction h with
  | nil => rfl
  | keep b _ ih => rw [List.filter_cons, List.filter_cons, ih]
  | space _ ih => rw [List.filter_cons_of_neg (by simp [hkeep _ space_mem_unsignedMarker]), ih]
  | marker _ ih => rw [List.filter_append, hmarker, List.nil_append, ih]
  | tail _ ih => rw [List.filter_append, htail, List.nil_append, ih]

/-- A spelling without markers loses spaces only. -/
theorem Leaves.unspaced_eq {s r : List UInt8} (h : Leaves s r) (hs : ¬ unsignedTail <:+: s) :
    unspaced s = unspaced r := by
  induction h with
  | nil => rfl
  | keep b _ ih =>
    have hrest := ih fun hpart => hs (hpart.trans (List.suffix_cons b _).isInfix)
    by_cases hb : b = TypeText.space
    · rw [hb, unspaced_space, unspaced_space, hrest]
    · rw [unspaced_cons hb, unspaced_cons hb, hrest]
  | space _ ih =>
    rw [unspaced_space]
    exact ih fun hpart => hs (hpart.trans (List.suffix_cons _ _).isInfix)
  | @marker s r _ _ =>
    refine absurd ?_ hs
    rw [unsignedMarker_eq_cons]
    exact ⟨[letterU], s, rfl⟩
  | tail _ _ => exact absurd (List.prefix_append _ _).isInfix hs

/--
Spellings that agree differ in spaces and markers only.  A common text is left
when some spaces and some markers are taken out of each.  So the bytes that no
marker has are the same, in number and in order, and spellings in which no
marker stands are equal without their spaces.
-/
theorem agree_leaves_common {s t : List UInt8} (h : agree s t = true) :
    (∃ r, Leaves s r ∧ Leaves t r) ∧
    s.filter (· ∉ unsignedMarker) = t.filter (· ∉ unsignedMarker) ∧
    (∀ b ∉ unsignedMarker, s.count b = t.count b) ∧
    (¬ unsignedTail <:+: s → ¬ unsignedTail <:+: t → unspaced s = unspaced t) := by
  obtain ⟨r, hs, ht⟩ := exists_leaves_of_agree h
  have hothers : s.filter (· ∉ unsignedMarker) = t.filter (· ∉ unsignedMarker) := by
    have hdropped : ∀ b ∈ unsignedMarker, decide (b ∉ unsignedMarker) = false := by simp
    rw [hs.filter_eq _ hdropped, ht.filter_eq _ hdropped]
  refine ⟨⟨r, hs, ht⟩, hothers, ?_, ?_⟩
  · intro b hb
    have hcount : ∀ text : List UInt8,
        (text.filter (· ∉ unsignedMarker)).count b = text.count b := by
      intro text
      exact List.count_filter (by simpa using hb)
    rw [← hcount s, hothers, hcount t]
  · intro hsplain htplain
    rw [hs.unspaced_eq hsplain, ht.unspaced_eq htplain]

-- The first two spellings leave `QList<ulong>`, the other two have no marker to lose.
theorem agree_leaves_common_ulong :
    (agree (Text.bytes "QList<unsigned long>") (Text.bytes "QList< ulong >") = true ∧
      (∃ r, Leaves (Text.bytes "QList<unsigned long>") r ∧ Leaves (Text.bytes "QList< ulong >") r) ∧
      (Text.bytes "QList<unsigned long>").filter (· ∉ unsignedMarker) =
        (Text.bytes "QList< ulong >").filter (· ∉ unsignedMarker)) ∧
    agree (Text.bytes "const char *") (Text.bytes "const char*") = true ∧
      ¬ unsignedTail <:+: Text.bytes "const char *" ∧ ¬ unsignedTail <:+: Text.bytes "const char*" ∧
      unspaced (Text.bytes "const char *") = unspaced (Text.bytes "const char*") := by
  have hlong : agree (Text.bytes "QList<unsigned long>") (Text.bytes "QList< ulong >") = true := by
    decide +kernel
  have hchar : agree (Text.bytes "const char *") (Text.bytes "const char*") = true := by
    decide +kernel
  have hplain : ∀ text, 0x67 ∉ text → ¬ unsignedTail <:+: text := by
    intro text htext hpart
    exact htext (hpart.subset (by decide))
  have hleft := hplain (Text.bytes "const char *") (by decide)
  have hright := hplain (Text.bytes "const char*") (by decide)
  obtain ⟨hcommon, hothers, _⟩ := agree_leaves_common hlong
  obtain ⟨_, _, _, hunspaced⟩ := agree_leaves_common hchar
  exact ⟨⟨hlong, hcommon, hothers⟩, hchar, hleft, hright, hunspaced hleft hright⟩

/-! ## One step of the comparison -/

theorem agree_cons_self (b : UInt8) (s t : List UInt8) : agree (b :: s) (b :: t) = agree s t := by
  rw [agree, if_pos rfl]

theorem agree_space_left {b : UInt8} (hb : b ≠ space) (s t : List UInt8) :
    agree (space :: s) (b :: t) = agree s (b :: t) := by
  rw [agree, if_neg (Ne.symm hb), if_pos rfl]

theorem agree_space_right {a : UInt8} (ha : a ≠ space) (s t : List UInt8) :
    agree (a :: s) (space :: t) = agree (a :: s) t := by
  rw [agree, if_neg ha, if_neg ha, if_pos rfl]

/-- A marker of the first spelling is skipped in front of another byte. -/
theorem agree_marker_left {a b : UInt8} {s s' t : List UInt8} (hab : a ≠ b) (ha : a ≠ space)
    (hb : b ≠ space) (h : afterUnsigned? (a :: s) = some s') :
    agree (a :: s) (b :: t) = agree s' (b :: t) := by
  rw [agree, if_neg hab, if_neg ha, if_neg hb]
  split
  · rename_i rest hrest
    rw [Option.some.inj (h.symm.trans hrest)]
  · rename_i hnone
    rw [h] at hnone
    cases hnone

/-- A marker of the second spelling is skipped where the first one has none. -/
theorem agree_marker_right {a b : UInt8} {s t t' : List UInt8} (hab : a ≠ b) (ha : a ≠ space)
    (hb : b ≠ space) (hnone : afterUnsigned? (a :: s) = none)
    (h : afterUnsigned? (b :: t) = some t') : agree (a :: s) (b :: t) = agree (a :: s) t' := by
  rw [agree, if_neg hab, if_neg ha, if_neg hb]
  split
  · rename_i hsome
    rw [hnone] at hsome
    cases hsome
  · split
    · rename_i rest hrest
      rw [Option.some.inj (h.symm.trans hrest)]
    · rename_i hnone'
      rw [h] at hnone'
      cases hnone'

/-! ## Stretches without markers -/

/-- Where both spellings go on, the parts in front that differ in spaces only do not matter. -/
theorem agree_append {s t : List UInt8} (h : unspaced s = unspaced t) {a b : UInt8}
    (ha : a ≠ space) (hb : b ≠ space) (u v : List UInt8) :
    agree (s ++ a :: u) (t ++ b :: v) = agree (a :: u) (b :: v) := by
  -- Each turn takes a byte off one part or off both, so the two inductions are nested.
  induction s generalizing t with
  | nil =>
    induction t with
    | nil => rfl
    | cons d t iht =>
      by_cases hd : d = space
      · subst hd
        rw [unspaced_space] at h
        exact (agree_space_right ha u (t ++ b :: v)).trans (iht h)
      · rw [unspaced_cons hd] at h
        cases h
  | cons c s ihs =>
    induction t with
    | nil =>
      by_cases hc : c = space
      · subst hc
        rw [unspaced_space] at h
        exact (agree_space_left hb (s ++ a :: u) v).trans (ihs h)
      · rw [unspaced_cons hc] at h
        cases h
    | cons d t iht =>
      by_cases hcd : c = d
      · subst hcd
        have hrest : unspaced s = unspaced t := by
          by_cases hc : c = space
          · rwa [hc, unspaced_space, unspaced_space] at h
          · rw [unspaced_cons hc, unspaced_cons hc] at h
            exact (List.cons.inj h).2
        exact (agree_cons_self c (s ++ a :: u) (t ++ b :: v)).trans (ihs hrest)
      by_cases hc : c = space
      · subst hc
        rw [unspaced_space] at h
        exact (agree_space_left (Ne.symm hcd) (s ++ a :: u) (t ++ b :: v)).trans (ihs h)
      by_cases hd : d = space
      · subst hd
        rw [unspaced_space] at h
        exact (agree_space_right hc (s ++ a :: u) (t ++ b :: v)).trans (iht h)
      · rw [unspaced_cons hc, unspaced_cons hd] at h
        exact absurd (List.cons.inj h).1 hcd

theorem unspaced_concat_ne_nil {s : List UInt8} {b : UInt8} (hb : b ≠ space) :
    unspaced (s ++ [b]) ≠ [] := by
  rw [unspaced_append, unspaced_cons hb]
  simp

/-- Spellings that differ in spaces only agree, unless spaces stand at an end. -/
theorem agree_of_unspaced_eq {s t : List UInt8} (h : unspaced s = unspaced t)
    (hs : s.getLast? ≠ some space) (ht : t.getLast? ≠ some space) : agree s t = true := by
  rcases hslast : s.getLast? with _ | a <;> rcases htlast : t.getLast? with _ | b
  · rw [List.getLast?_eq_none_iff.1 hslast, List.getLast?_eq_none_iff.1 htlast, agree,
      List.isEmpty_nil]
  · obtain ⟨t, rfl⟩ := List.getLast?_eq_some_iff.1 htlast
    have hb : b ≠ space := by simpa using ht
    rw [List.getLast?_eq_none_iff.1 hslast] at h
    exact absurd h.symm (unspaced_concat_ne_nil hb)
  · obtain ⟨s, rfl⟩ := List.getLast?_eq_some_iff.1 hslast
    have ha : a ≠ space := by simpa using hs
    rw [List.getLast?_eq_none_iff.1 htlast] at h
    exact absurd h (unspaced_concat_ne_nil ha)
  · obtain ⟨s, rfl⟩ := List.getLast?_eq_some_iff.1 hslast
    obtain ⟨t, rfl⟩ := List.getLast?_eq_some_iff.1 htlast
    have ha : a ≠ space := by simpa using hs
    have hb : b ≠ space := by simpa using ht
    rw [unspaced_append, unspaced_append, unspaced_cons ha, unspaced_cons hb] at h
    obtain ⟨hfront, hlast⟩ := List.append_inj' h rfl
    obtain rfl := (List.cons.inj hlast).1
    rw [agree_append hfront ha ha, agree_cons_self, agree, List.isEmpty_nil]

/-! ## Markers written in two ways -/

theorem afterUnsigned?_marker (s : List UInt8) : afterUnsigned? (unsignedMarker ++ s) = some s := by
  rw [afterUnsigned?, Text.after?_eq_some_iff.2 rfl, Option.some_or]

theorem afterUnsigned?_eq_none {b : UInt8} (hu : b ≠ letterU) (hn : b ≠ letterN)
    (s : List UInt8) : afterUnsigned? (b :: s) = none := by
  rw [afterUnsigned?, unsignedMarker_eq_cons, unsignedTail_eq_cons, Text.after?, Text.after?,
    if_neg (Ne.symm hu), if_neg (Ne.symm hn), Option.none_or]

theorem afterUnsigned?_tail (s : List UInt8) : afterUnsigned? (unsignedTail ++ s) = some s := by
  have hmarker : Text.after? unsignedMarker (unsignedTail ++ s) = none := by
    rw [unsignedMarker_eq_cons, unsignedTail_eq_cons, List.cons_append, Text.after?,
      if_neg (by decide)]
  rw [afterUnsigned?, hmarker, Option.none_or, Text.after?_eq_some_iff.2 rfl]

/-- The ways to write one marker on two sides: on one side only, or as its first letter. -/
inductive Respelling where
  | leftOnly
  | rightOnly
  | shortRight
  | shortLeft
  deriving DecidableEq, Repr

namespace Respelling

/-- What stands for the marker in the first spelling. -/
def left : Respelling → List UInt8
  | .leftOnly | .shortRight => unsignedMarker
  | .rightOnly => []
  | .shortLeft => [letterU]

/-- What stands for the marker in the second spelling. -/
def right : Respelling → List UInt8
  | .rightOnly | .shortLeft => unsignedMarker
  | .leftOnly => []
  | .shortRight => [letterU]

/-- What can stand for a marker on one side. -/
def forms : List (List UInt8) := [[], [letterU], unsignedMarker]

theorem left_mem_forms (m : Respelling) : m.left ∈ forms := by
  cases m <;> simp [left, forms]

theorem right_mem_forms (m : Respelling) : m.right ∈ forms := by
  cases m <;> simp [right, forms]

end Respelling

/--
A marker written in two ways, and the text behind it up to the next one.  On both
sides that text starts with the same byte, which is no space and starts no
marker, and goes on with `left` or `right`, which differ in spaces only.
-/
structure Stretch where
  marker : Respelling
  first : UInt8
  left : List UInt8
  right : List UInt8
  first_ne_space : first ≠ space
  first_ne_letterU : first ≠ letterU
  first_ne_letterN : first ≠ letterN
  unspaced_eq : unspaced left = unspaced right

namespace Stretch

/-- A text and the stretches behind it, as the first spelling writes them. -/
def leftText (s : List UInt8) (stretches : List Stretch) : List UInt8 :=
  s ++ stretches.flatMap fun x => x.marker.left ++ x.first :: x.left

/-- A text and the stretches behind it, as the second spelling writes them. -/
def rightText (t : List UInt8) (stretches : List Stretch) : List UInt8 :=
  t ++ stretches.flatMap fun x => x.marker.right ++ x.first :: x.right

theorem leftText_cons (s : List UInt8) (x : Stretch) (stretches : List Stretch) :
    leftText s (x :: stretches) = s ++ (x.marker.left ++ x.first :: leftText x.left stretches) := by
  simp [leftText]

theorem rightText_cons (t : List UInt8) (x : Stretch) (stretches : List Stretch) :
    rightText t (x :: stretches) =
      t ++ (x.marker.right ++ x.first :: rightText x.right stretches) := by
  simp [rightText]

/-- Whatever stands for a marker, the next byte is no space. -/
theorem exists_cons_of_mem_forms (x : Stretch) {form : List UInt8}
    (h : form ∈ Respelling.forms) (u : List UInt8) :
    ∃ a v, form ++ x.first :: u = a :: v ∧ a ≠ space := by
  simp only [Respelling.forms, List.mem_cons, List.not_mem_nil, or_false] at h
  rcases h with rfl | rfl | rfl
  · exact ⟨x.first, u, rfl, x.first_ne_space⟩
  · exact ⟨letterU, x.first :: u, rfl, by decide⟩
  · exact ⟨letterU, unsignedTail ++ x.first :: u, by rw [unsignedMarker_eq_cons]; rfl, by decide⟩

/-- A marker that is written in two ways is skipped. -/
theorem agree_marker (x : Stretch) (u v : List UInt8) :
    agree (x.marker.left ++ x.first :: u) (x.marker.right ++ x.first :: v) =
      agree (x.first :: u) (x.first :: v) := by
  have hmarker : ∀ w, unsignedMarker ++ w = letterU :: (unsignedTail ++ w) := by
    intro w
    rw [unsignedMarker_eq_cons, List.cons_append]
  have htail : ∀ w, unsignedTail ++ w = letterN :: (unsignedTail.tail ++ w) := by
    intro w
    rw [← List.cons_append, ← unsignedTail_eq_cons]
  have hnone := afterUnsigned?_eq_none x.first_ne_letterU x.first_ne_letterN
  cases x.marker with
  | leftOnly =>
    have hafter := afterUnsigned?_marker (x.first :: u)
    simp only [Respelling.left, Respelling.right, List.nil_append]
    rw [hmarker] at hafter ⊢
    exact agree_marker_left x.first_ne_letterU.symm (by decide) x.first_ne_space hafter
  | rightOnly =>
    have hafter := afterUnsigned?_marker (x.first :: v)
    simp only [Respelling.left, Respelling.right, List.nil_append]
    rw [hmarker] at hafter ⊢
    exact agree_marker_right x.first_ne_letterU x.first_ne_space (by decide) (hnone u) hafter
  | shortRight =>
    have hafter := afterUnsigned?_tail (x.first :: u)
    simp only [Respelling.left, Respelling.right, List.singleton_append]
    rw [hmarker, agree_cons_self]
    rw [htail] at hafter ⊢
    exact agree_marker_left x.first_ne_letterN.symm (by decide) x.first_ne_space hafter
  | shortLeft =>
    have hafter := afterUnsigned?_tail (x.first :: v)
    simp only [Respelling.left, Respelling.right, List.singleton_append]
    rw [hmarker, agree_cons_self]
    rw [htail] at hafter ⊢
    exact agree_marker_right x.first_ne_letterN x.first_ne_space (by decide) (hnone u) hafter

/-- A stretch, and the text in front of it that differs in spaces only, are passed. -/
theorem agree_text_cons {s t : List UInt8} (h : unspaced s = unspaced t) (x : Stretch)
    (stretches : List Stretch) :
    agree (leftText s (x :: stretches)) (rightText t (x :: stretches)) =
      agree (leftText x.left stretches) (rightText x.right stretches) := by
  rw [leftText_cons, rightText_cons]
  have hmarker := x.agree_marker (leftText x.left stretches) (rightText x.right stretches)
  obtain ⟨a, u, hleft, ha⟩ :=
    x.exists_cons_of_mem_forms x.marker.left_mem_forms (leftText x.left stretches)
  obtain ⟨b, v, hright, hb⟩ :=
    x.exists_cons_of_mem_forms x.marker.right_mem_forms (rightText x.right stretches)
  rw [hleft, hright] at hmarker ⊢
  rw [agree_append h ha hb, hmarker, agree_cons_self]

/-- Texts of stretches agree unless spaces stand at an end. -/
theorem agree_texts {s t : List UInt8} (h : unspaced s = unspaced t) (stretches : List Stretch)
    (hs : (leftText s stretches).getLast? ≠ some space)
    (ht : (rightText t stretches).getLast? ≠ some space) :
    agree (leftText s stretches) (rightText t stretches) = true := by
  induction stretches generalizing s t with
  | nil =>
    simp only [leftText, rightText, List.flatMap_nil, List.append_nil] at hs ht ⊢
    exact agree_of_unspaced_eq h hs ht
  | cons x stretches ih =>
    rw [agree_text_cons h]
    apply ih x.unspaced_eq
    · intro hlast
      simp [leftText_cons, List.getLast?_append, List.getLast?_cons, hlast] at hs
    · intro hlast
      simp [rightText_cons, List.getLast?_append, List.getLast?_cons, hlast] at ht

end Stretch

/--
Spellings agree that differ in spaces and in the way in which any number of
markers is written, unless spaces stand at an end: two texts that differ in
spaces only, followed by any number of markers, each written in one of four ways
and followed by texts that differ in spaces only.
-/
theorem agree_respelled {s t : List UInt8} (h : unspaced s = unspaced t)
    (stretches : List Stretch) (hs : (Stretch.leftText s stretches).getLast? ≠ some space)
    (ht : (Stretch.rightText t stretches).getLast? ≠ some space) :
    agree (Stretch.leftText s stretches) (Stretch.rightText t stretches) = true ∧
    ∀ argument parameter : String, Text.bytes argument = Stretch.leftText s stretches →
      Text.bytes parameter = Stretch.rightText t stretches → spells argument parameter = true := by
  have hagree := Stretch.agree_texts h stretches hs ht
  refine ⟨hagree, ?_⟩
  intro argument parameter hargument hparameter
  rw [spells, hargument, hparameter]
  exact hagree

/-- The arguments of a template: one abbreviated on the left, one without a marker on the right. -/
def keyAndValue : List Stretch :=
  [{ marker := .shortLeft
     first := 0x69
     left := Text.bytes "nt, "
     right := Text.bytes "nt,"
     first_ne_space := by decide
     first_ne_letterU := by decide
     first_ne_letterN := by decide
     unspaced_eq := by decide },
    { marker := .leftOnly
      first := 0x63
      left := Text.bytes "har >"
      right := Text.bytes "har>"
      first_ne_space := by decide
      first_ne_letterU := by decide
      first_ne_letterN := by decide
      unspaced_eq := by decide }]

theorem agree_respelled_keyAndValue :
    unspaced (Text.bytes "QMap<") = unspaced (Text.bytes "QMap <") ∧
    (Stretch.leftText (Text.bytes "QMap<") keyAndValue).getLast? ≠ some space ∧
    (Stretch.rightText (Text.bytes "QMap <") keyAndValue).getLast? ≠ some space ∧
    spells "QMap<uint, unsigned char >" "QMap <unsigned int,char>" = true := by
  have h : unspaced (Text.bytes "QMap<") = unspaced (Text.bytes "QMap <") := by decide
  have hleft : (Stretch.leftText (Text.bytes "QMap<") keyAndValue).getLast? ≠ some space := by
    decide
  have hright : (Stretch.rightText (Text.bytes "QMap <") keyAndValue).getLast? ≠ some space := by
    decide
  obtain ⟨_, hspells⟩ := agree_respelled h keyAndValue hleft hright
  exact ⟨h, hleft, hright, hspells _ _ (by decide) (by decide)⟩

end SignalSlot.TypeText
