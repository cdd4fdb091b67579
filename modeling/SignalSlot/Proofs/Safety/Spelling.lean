import SignalSlot.Proofs.Safety.Offsets
import SignalSlot.TypeDesc
import SignalSlot.TypeText

set_option autoImplicit false

/-!
# Comparing spellings with cursors

Two spellings of a type are compared by a loop with a cursor into the bytes of
each.  `TypeText.compare` is this loop with every access checked: a byte is read
where a cursor stands, and the bytes from a cursor on are looked at for a marker.
`compare_eq` says that no cursor leaves its bytes.

A type is printed without its scope by searching for a bracket and for the last
`::` in front of it, and by cutting the name at the offsets found.
`TypeDesc.printChecked_eq` says that the name can be cut there.
-/

namespace SignalSlot

open Text

namespace TypeText

/-! ## The comparison -/

/-- The length of the marker that bytes start with. -/
def markerLength? (bytes : List UInt8) : Option Nat :=
  if unsignedMarker <+: bytes then some unsignedMarker.length
  else if unsignedTail <+: bytes then some unsignedTail.length
  else none

theorem pos_of_markerLength? {bytes : List UInt8} {skip : Nat}
    (h : markerLength? bytes = some skip) : 0 < skip := by
  unfold markerLength? at h
  split at h
  · rw [← Option.some.inj h, length_unsignedMarker]
    decide
  · split at h
    · rw [← Option.some.inj h, length_unsignedTail]
      decide
    · cases h

/-- The bytes from an index on. -/
def suffix (bytes : List UInt8) (start : Nat) : Checked (List UInt8) :=
  .demand .slice (if start ≤ bytes.length then some (bytes.drop start) else none)

/-- Compares two spellings from two cursors on. -/
def compare (s t : List UInt8) (i j : Nat) : Checked Bool :=
  if _h : i < s.length ∧ j < t.length then do
    let a ← Checked.get s i
    let b ← Checked.get t j
    if a = b then compare s t (i + 1) (j + 1)
    else if a = space then compare s t (i + 1) j
    else if b = space then compare s t i (j + 1)
    else
      match _hs : markerLength? (← suffix s i) with
      | some skip => compare s t (i + skip) j
      | none =>
        match _ht : markerLength? (← suffix t j) with
        | some skip => compare s t i (j + skip)
        | none => .ok (i == s.length && j == t.length)
  else .ok (i == s.length && j == t.length)
  termination_by s.length - i + (t.length - j)
  decreasing_by
    · omega
    · omega
    · omega
    · have := pos_of_markerLength? _hs
      omega
    · have := pos_of_markerLength? _ht
      omega

/-- Skipping a marker is dropping as many bytes as it has. -/
theorem afterUnsigned?_eq_drop (bytes : List UInt8) :
    afterUnsigned? bytes = (markerLength? bytes).map fun skip => bytes.drop skip := by
  have hafter : ∀ front : List UInt8, after? front bytes =
      if front <+: bytes then some (bytes.drop front.length) else none := by
    intro front
    split
    · rename_i hprefix
      obtain ⟨rest, rfl⟩ := hprefix
      rw [List.drop_left, after?_eq_some_iff]
    · rename_i hprefix
      rw [Option.eq_none_iff_forall_ne_some]
      intro rest hrest
      exact hprefix ⟨rest, (after?_eq_some_iff.1 hrest).symm⟩
  rw [afterUnsigned?, hafter, hafter, markerLength?]
  split
  · rfl
  · split <;> rfl

theorem le_of_markerLength? {bytes : List UInt8} {skip : Nat}
    (h : markerLength? bytes = some skip) : skip ≤ bytes.length := by
  unfold markerLength? at h
  split at h
  · rename_i hprefix
    rw [← Option.some.inj h]
    exact hprefix.length_le
  · split at h
    · rename_i hprefix
      rw [← Option.some.inj h]
      exact hprefix.length_le
    · cases h

theorem suffix_of_le {bytes : List UInt8} {start : Nat} (h : start ≤ bytes.length) :
    suffix bytes start = .ok (bytes.drop start) := by
  rw [suffix, if_pos h, Checked.demand_some]

/-- One turn of the loop, with the bytes in front of the cursors. -/
theorem compare_step {s t s' t' : List UInt8} {i j : Nat} {a b : UInt8}
    (hs : s.drop i = a :: s') (ht : t.drop j = b :: t') :
    compare s t i j =
      if a = b then compare s t (i + 1) (j + 1)
      else if a = space then compare s t (i + 1) j
      else if b = space then compare s t i (j + 1)
      else
        match markerLength? (a :: s') with
        | some skip => compare s t (i + skip) j
        | none =>
          match markerLength? (b :: t') with
          | some skip => compare s t i (j + skip)
          | none => .ok false := by
  have hi : i < s.length := by
    rw [← Nat.not_le, ← List.drop_eq_nil_iff, hs]
    exact List.cons_ne_nil a s'
  have hj : j < t.length := by
    rw [← Nat.not_le, ← List.drop_eq_nil_iff, ht]
    exact List.cons_ne_nil b t'
  have hsi : Checked.get s i = .ok a := by
    apply Checked.get_of_getElem?
    rw [← List.head?_drop, hs, List.head?_cons]
  have htj : Checked.get t j = .ok b := by
    apply Checked.get_of_getElem?
    rw [← List.head?_drop, ht, List.head?_cons]
  have hssuffix := suffix_of_le (Nat.le_of_lt hi)
  have htsuffix := suffix_of_le (Nat.le_of_lt hj)
  rw [hs] at hssuffix
  rw [ht] at htsuffix
  have hbreak : (i == s.length && j == t.length) = false := by
    simp [Nat.ne_of_lt hi]
  rw [compare, dif_pos ⟨hi, hj⟩]
  simp only [hsi, htj, hssuffix, htsuffix, hbreak, bind, Except.bind]
  refine if_congr Iff.rfl rfl (if_congr Iff.rfl rfl (if_congr Iff.rfl rfl ?_))
  cases markerLength? (a :: s') with
  | some skip => rfl
  | none => cases markerLength? (b :: t') <;> rfl

/-- One turn of the comparison of bytes, with the lengths of markers. -/
theorem agree_step (a b : UInt8) (s t : List UInt8) :
    agree (a :: s) (b :: t) =
      if a = b then agree s t
      else if a = space then agree s (b :: t)
      else if b = space then agree (a :: s) t
      else
        match markerLength? (a :: s) with
        | some skip => agree ((a :: s).drop skip) (b :: t)
        | none =>
          match markerLength? (b :: t) with
          | some skip => agree (a :: s) ((b :: t).drop skip)
          | none => false := by
  have hs := afterUnsigned?_eq_drop (a :: s)
  have ht := afterUnsigned?_eq_drop (b :: t)
  rw [agree]
  refine if_congr Iff.rfl rfl (if_congr Iff.rfl rfl (if_congr Iff.rfl rfl ?_))
  split
  · rename_i rest hafter
    rw [hs] at hafter
    obtain ⟨skip, hskip, rfl⟩ := Option.map_eq_some_iff.1 hafter
    rw [hskip]
  · rename_i hafter
    rw [hs, Option.map_eq_none_iff] at hafter
    rw [hafter]
    split
    · rename_i rest hafter
      rw [ht] at hafter
      obtain ⟨skip, hskip, rfl⟩ := Option.map_eq_some_iff.1 hafter
      rw [hskip]
    · rename_i hafter
      rw [ht, Option.map_eq_none_iff] at hafter
      rw [hafter]

/-- The comparison with cursors gives what the comparison of the remaining bytes gives. -/
theorem compare_eq {s t : List UInt8} {i j : Nat} (hi : i ≤ s.length) (hj : j ≤ t.length) :
    compare s t i j = .ok (agree (s.drop i) (t.drop j)) := by
  induction hn : s.length - i + (t.length - j) using Nat.strongRecOn generalizing i j with
  | ind n ih =>
    subst hn
    -- Every turn moves a cursor, so less is left of the two spellings.
    have hnext : ∀ {k l}, k ≤ s.length → l ≤ t.length → i + j < k + l →
        compare s t k l = .ok (agree (s.drop k) (t.drop l)) := by
      intro k l hk hl hlt
      exact ih _ (by omega) hk hl rfl
    cases hs : s.drop i with
    | nil =>
      have hend : s.length ≤ i := List.drop_eq_nil_iff.1 hs
      have hi' : i = s.length := Nat.le_antisymm hi hend
      rw [compare, dif_neg (by omega), agree, hi']
      simp only [beq_self_eq_true, Bool.true_and, Except.ok.injEq]
      rw [Bool.eq_iff_iff, beq_iff_eq, List.isEmpty_iff, List.drop_eq_nil_iff]
      omega
    | cons a s' =>
      cases ht : t.drop j with
      | nil =>
        have hend : t.length ≤ j := List.drop_eq_nil_iff.1 ht
        have hlt : i ≠ s.length := by
          rintro rfl
          rw [List.drop_length] at hs
          cases hs
        rw [compare, dif_neg (by omega), agree, beq_false_of_ne hlt, Bool.false_and]
      | cons b t' =>
        have hs' : s.drop (i + 1) = s' := by
          rw [← List.tail_drop, hs, List.tail_cons]
        have ht' : t.drop (j + 1) = t' := by
          rw [← List.tail_drop, ht, List.tail_cons]
        have hlengths : (a :: s').length = s.length - i := by
          rw [← hs, List.length_drop]
        have hlengtht : (b :: t').length = t.length - j := by
          rw [← ht, List.length_drop]
        rw [List.length_cons] at hlengths hlengtht
        rw [compare_step hs ht, agree_step]
        split
        · rw [hnext (by omega) (by omega) (by omega), hs', ht']
        split
        · rw [hnext (by omega) (by omega) (by omega), hs', ht]
        split
        · rw [hnext (by omega) (by omega) (by omega), hs, ht']
        cases hskip : markerLength? (a :: s') with
        | some skip =>
          have hpos := pos_of_markerLength? hskip
          have hle := le_of_markerLength? hskip
          rw [List.length_cons] at hle
          simp only
          rw [hnext (by omega) (by omega) (by omega), ← List.drop_drop, hs, ht]
        | none =>
          cases hskip' : markerLength? (b :: t') with
          | some skip =>
            have hpos := pos_of_markerLength? hskip'
            have hle := le_of_markerLength? hskip'
            rw [List.length_cons] at hle
            simp only
            rw [hnext (by omega) (by omega) (by omega), ← List.drop_drop, hs, ht]
          | none => rfl

/-- Whether an argument spells the printed type of a parameter, with cursors. -/
def spellsChecked (argument parameter : String) : Checked Bool :=
  compare (bytes argument) (bytes parameter) 0 0

theorem spellsChecked_eq (argument parameter : String) :
    spellsChecked argument parameter = .ok (spells argument parameter) :=
  compare_eq (Nat.zero_le _) (Nat.zero_le _)

end TypeText

/-! ## Searching for texts -/

namespace Text

/-- The offset of the first place where a character stands. -/
def find? (c : Char) : List Char → Option Nat
  | [] => none
  | d :: text => if d = c then some 0 else (find? c text).map (d.utf8Size + ·)

/-- The offset of the last place where a part of a text starts. -/
def findLast? (part : List Char) : List Char → Option Nat
  | [] => if part = [] then some 0 else none
  | d :: text =>
    match findLast? part text with
    | some offset => some (d.utf8Size + offset)
    | none => if part <+: d :: text then some 0 else none

/-- A character is found behind the part of a text that lacks it. -/
theorem getD_find? (c : Char) (text : List Char) :
    (find? c text).getD (utf8 text).length = byteLength (text.takeWhile (· ≠ c)) := by
  induction text with
  | nil => rfl
  | cons d text ih =>
    rw [length_utf8] at ih ⊢
    rw [find?]
    by_cases hd : d = c
    · rw [if_pos hd, List.takeWhile_cons_of_neg (by simp [hd])]
      rfl
    · rw [if_neg hd, List.takeWhile_cons_of_pos (by simp [hd]), byteLength, byteLength, ← ih]
      cases find? c text <;> rfl

end Text

namespace TypeDesc

/-! ## Printing -/

/-- The name without the qualifiers of the outermost name, cut out by offsets. -/
def unqualifiedChecked (name : List Char) : Checked (List Char) := do
  let head ← upTo name ((find? '<' name).getD (utf8 name).length)
  match findLast? "::".toList head with
  | some offset => startingAt name (offset + 2)
  | none => .ok name

theorem afterLastScope?_cons {c : Char} (hc : c ≠ '<') (text : List Char) :
    afterLastScope? (c :: text) =
      (afterLastScope? text).or
        (if c = ':' ∧ text.head? = some ':' then some text.tail else none) := by
  conv_lhs => unfold afterLastScope?
  rw [if_neg hc]
  cases afterLastScope? text with
  | some rest => rfl
  | none =>
    simp only [Option.none_or]
    split
    · rfl
    · rename_i hscope
      rw [if_neg]
      rintro ⟨rfl, hhead⟩
      obtain ⟨rest, rfl⟩ := List.head?_eq_some_iff.1 hhead
      exact hscope rest rfl rfl

/--
The last `::` of a head without brackets.  Either it is found, and the name goes
on behind it, or there is none and nothing of the name is dropped.
-/
theorem findLast?_cases {head tail : List Char} (hhead : '<' ∉ head)
    (htail : ∀ c ∈ tail.head?, c = '<') :
    (∃ front back, head = front ++ ':' :: ':' :: back ∧
      findLast? "::".toList head = some (byteLength front) ∧
      afterLastScope? (head ++ tail) = some (back ++ tail)) ∨
    (findLast? "::".toList head = none ∧ afterLastScope? (head ++ tail) = none) := by
  induction head with
  | nil =>
    refine .inr ⟨rfl, ?_⟩
    cases tail with
    | nil => rfl
    | cons c tail =>
      obtain rfl := htail c rfl
      rfl
  | cons c head ih =>
    rw [List.mem_cons, not_or] at hhead
    have hc : ¬ c = '<' := fun heq => hhead.1 heq.symm
    rw [findLast?, List.cons_append, afterLastScope?_cons hc]
    rcases ih hhead.2 with ⟨front, back, rfl, hfind, hscope⟩ | ⟨hfind, hscope⟩
    · refine .inl ⟨c :: front, back, rfl, ?_, ?_⟩
      · rw [hfind]
        rfl
      · rw [hscope]
        rfl
    · rw [hfind, hscope, Option.none_or]
      -- A `::` can only start with this character, and it cannot reach behind the head.
      by_cases hstart : c = ':' ∧ head.head? = some ':'
      · obtain ⟨rfl, hhead'⟩ := hstart
        obtain ⟨back, rfl⟩ := List.head?_eq_some_iff.1 hhead'
        exact .inl ⟨[], back, rfl, by simp [byteLength], by simp⟩
      · refine .inr ⟨?_, ?_⟩
        · have hpart : ¬ "::".toList <+: c :: head := by
            rintro ⟨back, hback⟩
            obtain ⟨rfl, rfl⟩ := List.cons.inj hback
            exact hstart ⟨rfl, rfl⟩
          simp only [hpart, if_false]
        · rw [if_neg]
          rintro ⟨rfl, hnext⟩
          cases head with
          | nil => exact absurd (htail ':' hnext) (by decide)
          | cons d head => exact hstart ⟨rfl, hnext⟩

theorem unqualifiedChecked_eq (name : List Char) :
    unqualifiedChecked name = .ok (unqualified name) := by
  have hhead : '<' ∉ name.takeWhile (· ≠ '<') := by
    intro hmem
    have hne := List.all_eq_true.1 List.all_takeWhile _ hmem
    simp at hne
  have htail : ∀ c ∈ (name.dropWhile (· ≠ '<')).head?, c = '<' := by
    intro c hc
    have hfirst := List.head?_dropWhile_not (· ≠ '<') name
    rw [Option.mem_def.1 hc] at hfirst
    simpa using hfirst
  have hname : name.takeWhile (· ≠ '<') ++ name.dropWhile (· ≠ '<') = name :=
    List.takeWhile_append_dropWhile
  rw [unqualifiedChecked, getD_find?]
  generalize name.takeWhile (· ≠ '<') = head at *
  generalize name.dropWhile (· ≠ '<') = tail at *
  subst hname
  rw [upTo_append, unqualified]
  rcases findLast?_cases hhead htail with ⟨front, back, rfl, hfind, hscope⟩ | ⟨hfind, hscope⟩
  · have hcut := startingAt_append (front ++ [':', ':']) (back ++ tail)
    have hoffset : byteLength (front ++ [':', ':']) = byteLength front + 2 := by
      rw [byteLength_append]
      rfl
    rw [hoffset] at hcut
    simp only [bind, Except.bind, hfind, hscope, Option.getD_some]
    simpa using hcut
  · simp only [bind, Except.bind, hfind, hscope, Option.getD_none]

/-- Prints a type, with its name cut out by offsets. -/
def printChecked (ty : TypeDesc) (scope : Scope) : Checked (List Char) := do
  let name ← match scope with
    | .full => .ok ty.name.toList
    | .suppressed => unqualifiedChecked ty.name.toList
  .ok ((if ty.isConst then "const ".toList else []) ++ name ++
    (if ty.pointer = 0 then [] else ' ' :: List.replicate ty.pointer.toNat '*') ++
    (if ty.reference then " &".toList else []))

/-- Printing by offsets never fails, and prints the type. -/
theorem printChecked_eq (ty : TypeDesc) (scope : Scope) :
    ty.printChecked scope = .ok (ty.text scope) := by
  cases scope with
  | full => rfl
  | suppressed =>
    rw [printChecked, unqualifiedChecked_eq]
    rfl

/-- The text an argument of a signature is compared with. -/
def parameterTextChecked (ty : TypeDesc) : Checked String := do
  let text ← ty.normalized.printChecked .suppressed
  .ok (String.ofList (trim text))

theorem parameterTextChecked_eq (ty : TypeDesc) :
    ty.parameterTextChecked = .ok ty.parameterText := by
  rw [parameterTextChecked, printChecked_eq]
  rfl

end TypeDesc

end SignalSlot
