import Mathlib.Data.List.Basic
import SignalSlot.Text.Bytes

set_option autoImplicit false

/-!
# Texts by their offsets

A text can be taken apart by the offsets of its bytes.  Such an access may fail:
an index must lie inside its list, and a text can only be cut where a character
starts or where the text ends.  `Checked` is a computation that stops at the
first access that fails.

The characters that are searched for are ASCII.  Their bytes occur in no other
character, so the offset at which a search over bytes finds one is a place where
the text can be cut: `memchr_utf8`.
-/

namespace SignalSlot

/-- An access that fails. -/
inductive AccessFault where
  /-- An index outside its list. -/
  | index
  /-- A slice that leaves its text or cuts a character. -/
  | slice
  /-- A counter or an offset that leaves its range. -/
  | overflow
  deriving DecidableEq, Repr, Inhabited

/-- A computation that stops at the first access that fails. -/
abbrev Checked := Except AccessFault

namespace Checked

/-- The result of an access that may fail. -/
def demand {α : Type} (fault : AccessFault) : Option α → Checked α
  | some a => .ok a
  | none => .error fault

@[simp] theorem demand_some {α : Type} (fault : AccessFault) (a : α) :
    demand fault (some a) = .ok a := rfl

/-- The element at an index. -/
def get {α : Type} (items : List α) (index : Nat) : Checked α :=
  demand .index items[index]?

theorem get_of_getElem? {α : Type} {items : List α} {index : Nat} {a : α}
    (h : items[index]? = some a) : get items index = .ok a := by
  rw [get, h, demand_some]

end Checked

namespace Text

/-! ## Bytes -/

/-- The bytes of a list of characters in UTF-8. -/
def utf8 (text : List Char) : List UInt8 :=
  text.flatMap String.utf8EncodeChar

@[simp] theorem utf8_nil : utf8 [] = [] := rfl

@[simp] theorem utf8_cons (c : Char) (text : List Char) :
    utf8 (c :: text) = String.utf8EncodeChar c ++ utf8 text := rfl

@[simp] theorem utf8_append (s t : List Char) : utf8 (s ++ t) = utf8 s ++ utf8 t :=
  List.flatMap_append

@[simp] theorem length_utf8 (text : List Char) : (utf8 text).length = byteLength text := by
  induction text with
  | nil => rfl
  | cons c text ih => simp [byteLength, ih]

/-- The byte of a character below 128. -/
def ascii (c : Char) : UInt8 := UInt8.ofNat c.toNat

/-- A character is its own byte, or none of its bytes is that of an ASCII character. -/
theorem utf8EncodeChar_cases (c : Char) :
    (c.toNat < 128 ∧ String.utf8EncodeChar c = [ascii c]) ∨
      (128 ≤ c.toNat ∧ ∀ b ∈ String.utf8EncodeChar c, 128 ≤ b.toNat) := by
  have hc : c.val.toNat = c.toNat := rfl
  have hbyte : ∀ n, 128 ≤ n → n < 256 → 128 ≤ (UInt8.ofNat n).toNat := by
    intro n hlow hhigh
    rwa [UInt8.toNat_ofNat_of_lt' (by simpa using hhigh)]
  unfold String.utf8EncodeChar
  simp only [hc]
  split
  · exact .inl ⟨by omega, rfl⟩
  split
  · refine .inr ⟨by omega, ?_⟩
    simp only [List.forall_mem_cons]
    exact ⟨hbyte _ (by omega) (by omega), hbyte _ (by omega) (by omega), by simp⟩
  split
  · refine .inr ⟨by omega, ?_⟩
    simp only [List.forall_mem_cons]
    exact ⟨hbyte _ (by omega) (by omega), hbyte _ (by omega) (by omega),
      hbyte _ (by omega) (by omega), by simp⟩
  · refine .inr ⟨by omega, ?_⟩
    simp only [List.forall_mem_cons]
    exact ⟨hbyte _ (by omega) (by omega), hbyte _ (by omega) (by omega),
      hbyte _ (by omega) (by omega), hbyte _ (by omega) (by omega), by simp⟩

theorem ascii_inj {c d : Char} (hc : c.toNat < 128) (hd : d.toNat < 128) :
    ascii c = ascii d ↔ c = d := by
  constructor
  · intro h
    have hnat := congrArg UInt8.toNat h
    rw [ascii, ascii, UInt8.toNat_ofNat_of_lt' (Nat.lt_trans hc (by decide)),
      UInt8.toNat_ofNat_of_lt' (Nat.lt_trans hd (by decide))] at hnat
    exact Char.toNat_inj.1 hnat
  · intro h
    rw [h]

/-! ## Cutting -/

/--
The two parts of a text at a byte offset.  There are none when the offset lies
behind the end of the text or inside one of its characters.
-/
def splitAt? : List Char → Nat → Option (List Char × List Char)
  | text, 0 => some ([], text)
  | [], _ + 1 => none
  | c :: text, offset =>
    if c.utf8Size ≤ offset then
      (splitAt? text (offset - c.utf8Size)).map fun parts => (c :: parts.1, parts.2)
    else none

@[simp] theorem splitAt?_zero (text : List Char) : splitAt? text 0 = some ([], text) := by
  cases text <;> rfl

theorem splitAt?_cons (c : Char) (text : List Char) {offset : Nat} (h : 0 < offset) :
    splitAt? (c :: text) offset =
      if c.utf8Size ≤ offset then
        (splitAt? text (offset - c.utf8Size)).map fun parts => (c :: parts.1, parts.2)
      else none := by
  cases offset with
  | zero => cases h
  | succ offset =>
    rw [splitAt?]
    exact Nat.succ_ne_zero offset

/-- The number of bytes in front of a rest is a place where the text can be cut. -/
theorem splitAt?_append (front back : List Char) :
    splitAt? (front ++ back) (byteLength front) = some (front, back) := by
  induction front with
  | nil => exact splitAt?_zero back
  | cons c front ih =>
    have hpos := c.utf8Size_pos
    rw [byteLength, List.cons_append, splitAt?_cons _ _ (by omega), if_pos (by omega),
      Nat.add_sub_cancel_left, ih]
    rfl

/-- A text can be cut at its end and at the bytes with which its characters start, and nowhere
else. -/
theorem isSome_splitAt?_iff {text : List Char} {offset : Nat} :
    (splitAt? text offset).isSome = true ↔
      offset = (utf8 text).length ∨
        ∃ b, (utf8 text)[offset]? = some b ∧ b.IsUTF8FirstByte := by
  induction text generalizing offset with
  | nil => cases offset <;> simp [splitAt?]
  | cons c text ih =>
    have hsize := String.length_utf8EncodeChar c
    have hbyte : ∀ k < c.utf8Size, ∃ b, (utf8 (c :: text))[k]? = some b ∧
        (b.IsUTF8FirstByte ↔ k = 0) := by
      intro k hk
      have hlength : k < (String.utf8EncodeChar c).length := by omega
      refine ⟨(String.utf8EncodeChar c)[k], ?_, UInt8.isUTF8FirstByte_getElem_utf8EncodeChar⟩
      rw [utf8_cons, List.getElem?_append_left hlength, List.getElem?_eq_getElem hlength]
    rcases Nat.eq_zero_or_pos offset with rfl | hpos
    · obtain ⟨b, hb, hfirst⟩ := hbyte 0 c.utf8Size_pos
      simp only [splitAt?_zero, Option.isSome_some, true_iff]
      exact .inr ⟨b, hb, hfirst.2 rfl⟩
    rw [splitAt?_cons c text hpos]
    by_cases hle : c.utf8Size ≤ offset
    · rw [if_pos hle, Option.isSome_map, ih, utf8_cons, List.length_append, hsize,
        List.getElem?_append_right (by omega), hsize]
      refine or_congr ?_ Iff.rfl
      omega
    · obtain ⟨b, hb, hfirst⟩ := hbyte offset (by omega)
      have hend : offset ≠ (utf8 (c :: text)).length := by
        rw [utf8_cons, List.length_append, hsize]
        omega
      rw [if_neg hle, hb]
      simp only [Option.isSome_none, Bool.false_eq_true, hend, Option.some.injEq, exists_eq_left',
        hfirst, false_or, false_iff]
      omega

/-- The part in front of an offset. -/
def upTo (text : List Char) (stop : Nat) : Checked (List Char) :=
  .demand .slice ((splitAt? text stop).map Prod.fst)

/-- The part from an offset on. -/
def startingAt (text : List Char) (start : Nat) : Checked (List Char) :=
  .demand .slice ((splitAt? text start).map Prod.snd)

/-- The part between two offsets, if they are in order and the text can be cut there. -/
def between? (text : List Char) (start stop : Nat) : Option (List Char) := do
  let (front, _) ← splitAt? text stop
  let (_, middle) ← splitAt? front start
  pure middle

/-- The part between two offsets. -/
def between (text : List Char) (start stop : Nat) : Checked (List Char) :=
  .demand .slice (between? text start stop)

theorem upTo_append (front back : List Char) :
    upTo (front ++ back) (byteLength front) = .ok front := by
  rw [upTo, splitAt?_append]
  rfl

theorem startingAt_append (front back : List Char) :
    startingAt (front ++ back) (byteLength front) = .ok back := by
  rw [startingAt, splitAt?_append]
  rfl

theorem between?_append (front middle back : List Char) :
    between? (front ++ (middle ++ back)) (byteLength front) (byteLength front + byteLength middle) =
      some middle := by
  rw [between?, ← List.append_assoc, ← byteLength_append, splitAt?_append]
  simp [splitAt?_append]

theorem between_append (front middle back : List Char) :
    between (front ++ (middle ++ back)) (byteLength front) (byteLength front + byteLength middle) =
      .ok middle := by
  rw [between, between?_append]
  rfl

/-! ## Searching -/

/-- The index of the first byte of a value. -/
def memchr (byte : UInt8) (bytes : List UInt8) : Option Nat :=
  bytes.findIdx? (· == byte)

theorem utf8EncodeChar_of_ascii {c : Char} (hc : c.toNat < 128) :
    String.utf8EncodeChar c = [ascii c] := by
  rcases utf8EncodeChar_cases c with ⟨_, h⟩ | ⟨h, _⟩
  · exact h
  · omega

/-- The byte of an ASCII character stands in no text without the character. -/
theorem ascii_not_mem_utf8 {c : Char} (hc : c.toNat < 128) {text : List Char} (h : c ∉ text) :
    ascii c ∉ utf8 text := by
  intro hmem
  obtain ⟨d, hd, hbyte⟩ := List.mem_flatMap.1 hmem
  rcases utf8EncodeChar_cases d with ⟨hsmall, hencode⟩ | ⟨_, hlarge⟩
  · rw [hencode, List.mem_singleton, ascii_inj hc hsmall] at hbyte
    rw [hbyte] at h
    exact h hd
  · have hlow := hlarge _ hbyte
    rw [ascii, UInt8.toNat_ofNat_of_lt' (Nat.lt_trans hc (by decide))] at hlow
    omega

theorem memchr_of_not_mem {c : Char} (hc : c.toNat < 128) {text : List Char} (h : c ∉ text) :
    memchr (ascii c) (utf8 text) = none := by
  rw [memchr, List.findIdx?_eq_none_iff]
  intro b hb
  rw [beq_eq_false_iff_ne]
  rintro rfl
  exact ascii_not_mem_utf8 hc h hb

/-- The byte of an ASCII character is first found where the character first stands. -/
theorem memchr_utf8 {c : Char} (hc : c.toNat < 128) {front : List Char} (h : c ∉ front)
    (back : List Char) :
    memchr (ascii c) (utf8 (front ++ c :: back)) = some (byteLength front) := by
  have hnone := memchr_of_not_mem hc h
  rw [memchr] at hnone ⊢
  rw [utf8_append, List.findIdx?_append, hnone, utf8_cons, utf8EncodeChar_of_ascii hc]
  simp [List.findIdx?_cons]

end Text

end SignalSlot
