set_option autoImplicit false

/-!
# Texts as bytes

Lengths and offsets count the bytes of the UTF-8 form.
-/

namespace SignalSlot.Text

/-- The bytes of a text in UTF-8. -/
def bytes (s : String) : List UInt8 :=
  s.toList.flatMap String.utf8EncodeChar

/-- The number of bytes of a list of characters in UTF-8. -/
def byteLength : List Char → Nat
  | [] => 0
  | c :: rest => c.utf8Size + byteLength rest

@[simp] theorem byteLength_append (s t : List Char) :
    byteLength (s ++ t) = byteLength s + byteLength t := by
  induction s with
  | nil => simp [byteLength]
  | cons c s ih => simp [byteLength, ih, Nat.add_assoc]

/-- A text that is left of another one by dropping characters has no more bytes. -/
theorem byteLength_le_of_sublist {s t : List Char} (h : s.Sublist t) :
    byteLength s ≤ byteLength t := by
  induction h with
  | slnil => exact Nat.le_refl _
  | cons c _ ih => exact Nat.le_trans ih (Nat.le_add_left _ _)
  | cons_cons c _ ih => exact Nat.add_le_add_left ih _

/-- A text has as many bytes as its characters take. -/
theorem length_bytes (s : String) : (bytes s).length = byteLength s.toList := by
  unfold bytes
  induction s.toList with
  | nil => rfl
  | cons c s ih => simp [byteLength, ih]

end SignalSlot.Text
