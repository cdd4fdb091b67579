import SignalSlot.Text.Affix
import SignalSlot.Text.Blank
import SignalSlot.Text.Bytes

set_option autoImplicit false

/-!
# Type texts

A signature spells its argument types in one normal form and a declaration
prints its parameter types in another.  This file holds the two operations that
bring them together: a `const …&` wrapper is taken off an argument, and two
spellings are compared with spaces ignored and with the marker `unsigned`
optional on either side.

The comparison works on bytes and never goes back: at each step it consumes
something of at least one side.
-/

namespace SignalSlot.TypeText

/-! ## The `const …&` wrapper -/

/-- What stands between a leading `const ` and a trailing `&`. -/
def constReferent? (argument : List Char) : Option (List Char) :=
  (Text.after? "const ".toList argument).bind (Text.before? ['&'])

/-- Takes a `const …&` wrapper off; every other text stays as it is. -/
def unwrap (argument : List Char) : List Char :=
  match constReferent? argument with
  | some inner => Text.trim inner
  | none => argument

theorem constReferent?_eq_some_iff {argument inner : List Char} :
    constReferent? argument = some inner ↔ argument = "const ".toList ++ (inner ++ ['&']) := by
  unfold constReferent?
  rw [Option.bind_eq_some_iff]
  constructor
  · rintro ⟨rest, hrest, hinner⟩
    rw [Text.after?_eq_some_iff.1 hrest, Text.before?_eq_some_iff.1 hinner]
  · intro h
    exact ⟨inner ++ ['&'], Text.after?_eq_some_iff.2 h, Text.before?_eq_some_iff.2 rfl⟩

/-- Takes a `const …&` wrapper off a string. -/
def stripConstRef (argument : String) : String :=
  String.ofList (unwrap argument.toList)

/-! ## The comparison -/

/-- The byte of a space. -/
def space : UInt8 := 0x20

/-- The marker that may be present on one side only. -/
def unsignedMarker : List UInt8 := Text.bytes "unsigned "

/-- The marker after its first letter has matched, as in `uint`. -/
def unsignedTail : List UInt8 := Text.bytes "nsigned "

/-- What follows a marker, when the text starts with one. -/
def afterUnsigned? (text : List UInt8) : Option (List UInt8) :=
  (Text.after? unsignedMarker text).or (Text.after? unsignedTail text)

theorem length_unsignedMarker : unsignedMarker.length = 9 := by
  simp only [unsignedMarker, Text.length_bytes]
  rfl

theorem length_unsignedTail : unsignedTail.length = 8 := by
  simp only [unsignedTail, Text.length_bytes]
  rfl

/-- A skipped marker makes the text shorter. -/
theorem length_afterUnsigned? {s r : List UInt8} (h : afterUnsigned? s = some r) :
    r.length < s.length := by
  unfold afterUnsigned? at h
  rcases Option.or_eq_some_iff.1 h with h | ⟨_, h⟩
  · rw [Text.after?_eq_some_iff.1 h, List.length_append, length_unsignedMarker]
    omega
  · rw [Text.after?_eq_some_iff.1 h, List.length_append, length_unsignedTail]
    omega

/--
Whether two spellings denote the same type.  Equal bytes are consumed together;
otherwise a space of the first text, a space of the second, a marker of the
first or a marker of the second is skipped, in this order of preference.  The
spellings agree when both end together.
-/
def agree : List UInt8 → List UInt8 → Bool
  | [], t => t.isEmpty
  | _ :: _, [] => false
  | a :: s, b :: t =>
    if a = b then agree s t
    else if a = space then agree s (b :: t)
    else if b = space then agree (a :: s) t
    else
      match _h : afterUnsigned? (a :: s) with
      | some s' => agree s' (b :: t)
      | none =>
        match _h' : afterUnsigned? (b :: t) with
        | some t' => agree (a :: s) t'
        | none => false
  termination_by s t => s.length + t.length
  decreasing_by
    · simp only [List.length_cons]; omega
    · simp only [List.length_cons]; omega
    · simp only [List.length_cons]; omega
    · have := length_afterUnsigned? _h; simp only [List.length_cons] at *; omega
    · have := length_afterUnsigned? _h'; simp only [List.length_cons] at *; omega

/-- Whether an argument of a signature spells the printed type of a parameter. -/
def spells (argument parameter : String) : Bool :=
  agree (Text.bytes argument) (Text.bytes parameter)

end SignalSlot.TypeText
