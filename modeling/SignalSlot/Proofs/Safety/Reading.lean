import Mathlib.Data.List.TakeWhile
import SignalSlot.Proofs.Safety.Offsets
import SignalSlot.Proofs.Signature.Grammar

set_option autoImplicit false

/-!
# Reading signatures by offsets

A signature can be read from the bytes of its text: the parentheses are searched
for, a loop over bytes looks for the end of each argument, and the name and the
arguments are cut out at the offsets that were found.  `readChecked` does so with
every access checked.  `readChecked_eq` says that no access fails, whatever the
text is, and that the signature is the one that is read character by character.

`Fields.cut?` is what both ways have in common: one field and the character that
ends it.
-/

namespace SignalSlot.Signature

open Text

/-! ## One field -/

namespace Fields

/-- A field, the separator that ends it and the rest, read from a nesting. -/
def cut? : Nesting → List Char → Option (List Char × Char × List Char)
  | _, [] => none
  | n, c :: text =>
    if n = .outside ∧ (c = ',' ∨ c = ')') then some ([], c, text)
    else (cut? (n.step c) text).map fun parts => (c :: parts.1, parts.2)

theorem cut?_sound {n : Nesting} {text field rest : List Char} {separator : Char}
    (h : cut? n text = some (field, separator, rest)) :
    text = field ++ separator :: rest ∧ (separator = ',' ∨ separator = ')') := by
  induction text generalizing n field with
  | nil => cases h
  | cons c text ih =>
    rw [cut?] at h
    split at h
    · rename_i hends
      obtain ⟨rfl, hrest⟩ := Prod.mk.inj (Option.some.inj h)
      obtain ⟨rfl, rfl⟩ := Prod.mk.inj hrest
      exact ⟨rfl, hends.2⟩
    · obtain ⟨⟨front, parts⟩, hcut, heq⟩ := Option.map_eq_some_iff.1 h
      obtain ⟨rfl, rfl⟩ := Prod.mk.inj heq
      obtain ⟨rfl, hseparator⟩ := ih hcut
      exact ⟨rfl, hseparator⟩

/-- Fields are read one after the other: a parenthesis ends them, a comma leads to the next. -/
theorem read?_eq_cut? (n : Nesting) (text : List Char) :
    read? n text = (cut? n text).bind fun (field, separator, rest) =>
      if separator = ')' then some ⟨field, [], rest⟩
      else (read? .outside rest).map fun f => ⟨field, f.all, f.rest⟩ := by
  induction text generalizing n with
  | nil => rfl
  | cons c text ih =>
    rw [read?, cut?]
    by_cases hparen : n = .outside ∧ c = ')'
    · obtain ⟨rfl, rfl⟩ := hparen
      simp
    by_cases hcomma : n = .outside ∧ c = ','
    · obtain ⟨rfl, rfl⟩ := hcomma
      rw [if_neg (by simp), if_pos ⟨rfl, rfl⟩, if_pos ⟨rfl, .inl rfl⟩]
      rfl
    · have hends : ¬ (n = .outside ∧ (c = ',' ∨ c = ')')) := by
        rintro ⟨hn, hc | hc⟩
        · exact hcomma ⟨hn, hc⟩
        · exact hparen ⟨hn, hc⟩
      rw [if_neg hparen, if_neg hcomma, if_neg hends, ih]
      cases cut? (n.step c) text with
      | none => rfl
      | some parts =>
        obtain ⟨field, separator, rest⟩ := parts
        by_cases hseparator : separator = ')'
        · simp [hseparator, grow]
        · simp [hseparator, grow, Function.comp_def]

end Fields

/-! ## The end of a field -/

/--
How many bytes stand in front of the separator that ends a field.  Each byte is
compared with ASCII characters, so the bytes of other characters are passed over.
-/
def fieldLength? : Nesting → List UInt8 → Option Nat
  | _, [] => none
  | n, b :: bytes =>
    if n = .outside ∧ (Char.ofUInt8 b = ',' ∨ Char.ofUInt8 b = ')') then some 0
    else (fieldLength? (n.step (.ofUInt8 b)) bytes).map (· + 1)

/-- The offset of the separator that ends the field at an offset. -/
def argumentEnd? (bytes : List UInt8) (start : Nat) : Option Nat :=
  if start ≤ bytes.length then
    (fieldLength? .outside (bytes.drop start)).map (start + ·)
  else none

theorem toNat_ofUInt8 (b : UInt8) : (Char.ofUInt8 b).toNat = b.toNat := by
  show b.toUInt32.toNat = b.toNat
  exact UInt8.toNat_toUInt32 b

theorem ofUInt8_ascii {c : Char} (hc : c.toNat < 128) : Char.ofUInt8 (ascii c) = c := by
  rw [← Char.toNat_inj, toNat_ofUInt8, ascii,
    UInt8.toNat_ofNat_of_lt' (Nat.lt_trans hc (by decide))]

/-- Outside ASCII, nothing separates and nothing nests. -/
theorem passes_of_le {n : Nesting} {c : Char} (hc : 128 ≤ c.toNat) :
    ¬ (n = .outside ∧ (c = ',' ∨ c = ')')) ∧ n.step c = n := by
  have hne : ∀ d : Char, d.toNat < 128 → c ≠ d := by
    intro d hd heq
    rw [heq] at hc
    omega
  constructor
  · rintro ⟨_, hc | hc⟩
    · exact hne ',' (by decide) hc
    · exact hne ')' (by decide) hc
  · simp [Nesting.step, hne]

/-- The bytes of a character outside ASCII are passed over. -/
theorem fieldLength?_append {n : Nesting} {bytes rest : List UInt8}
    (h : ∀ b ∈ bytes, 128 ≤ b.toNat) :
    fieldLength? n (bytes ++ rest) = (fieldLength? n rest).map (bytes.length + ·) := by
  induction bytes with
  | nil => simp
  | cons b bytes ih =>
    rw [List.forall_mem_cons] at h
    have hb : 128 ≤ (Char.ofUInt8 b).toNat := by
      rw [toNat_ofUInt8]
      exact h.1
    obtain ⟨hends, hstep⟩ := passes_of_le (n := n) hb
    rw [List.cons_append, fieldLength?, if_neg hends, hstep, ih h.2, Option.map_map]
    congr 1
    funext k
    simp only [Function.comp_apply, List.length_cons]
    omega

/-- Over the bytes of a text, a field ends where it ends over its characters. -/
theorem fieldLength?_utf8 (n : Nesting) (text : List Char) :
    fieldLength? n (utf8 text) = (Fields.cut? n text).map fun parts => byteLength parts.1 := by
  induction text generalizing n with
  | nil => rfl
  | cons c text ih =>
    rw [utf8_cons, Fields.cut?]
    rcases utf8EncodeChar_cases c with ⟨hc, hencode⟩ | ⟨hc, hbytes⟩
    · have hsize : c.utf8Size = 1 := by
        rw [← String.length_utf8EncodeChar, hencode, List.length_singleton]
      rw [hencode, List.singleton_append, fieldLength?, ofUInt8_ascii hc, ih]
      split
      · rfl
      · rw [Option.map_map, Option.map_map]
        congr 1
        funext parts
        simp only [Function.comp_apply, byteLength, hsize]
        omega
    · obtain ⟨hends, hstep⟩ := passes_of_le (n := n) hc
      rw [fieldLength?_append hbytes, if_neg hends, hstep, ih, Option.map_map, Option.map_map]
      congr 1
      funext parts
      simp only [Function.comp_apply, byteLength, String.length_utf8EncodeChar]

theorem argumentEnd?_utf8 (front body : List Char) :
    argumentEnd? (utf8 (front ++ body)) (byteLength front) =
      (Fields.cut? .outside body).map fun parts => byteLength front + byteLength parts.1 := by
  have hlength : byteLength front ≤ (utf8 (front ++ body)).length := by
    rw [length_utf8, byteLength_append]
    omega
  rw [argumentEnd?, if_pos hlength, utf8_append, ← length_utf8 front, List.drop_left,
    fieldLength?_utf8, Option.map_map]
  rfl

theorem lt_of_fieldLength? {n : Nesting} {bytes : List UInt8} {k : Nat}
    (h : fieldLength? n bytes = some k) : k < bytes.length := by
  induction bytes generalizing n k with
  | nil => cases h
  | cons b bytes ih =>
    rw [fieldLength?] at h
    split at h
    · obtain rfl := Option.some.inj h
      simp
    · obtain ⟨j, hj, rfl⟩ := Option.map_eq_some_iff.1 h
      have := ih hj
      simp only [List.length_cons]
      omega

theorem argumentEnd?_bounds {bytes : List UInt8} {start stop : Nat}
    (h : argumentEnd? bytes start = some stop) : start ≤ stop ∧ stop < bytes.length := by
  unfold argumentEnd? at h
  split at h
  · obtain ⟨k, hk, rfl⟩ := Option.map_eq_some_iff.1 h
    have hlt := lt_of_fieldLength? hk
    rw [List.length_drop] at hlt
    omega
  · cases h

/-! ## The loop over arguments -/

/-- The text of an argument that a field holds. -/
def argumentOf (field : List Char) : List Char := TypeText.unwrap (trim field)

/--
Reads arguments from an offset on, behind those that were read before.  The
result is given with the offset behind the parenthesis that ends the last one; a
single argument that spells nothing is none.
-/
def readArguments (text : List Char) (start : Nat) (arguments : List (List Char)) :
    Checked (Option (List (List Char) × Nat)) :=
  match _h : argumentEnd? (utf8 text) start with
  | none => .ok none
  | some stop => do
    let field ← between text start stop
    let argument := argumentOf field
    let separator ← Checked.get (utf8 text) stop
    if argument = [] ∧ separator = ascii ')' ∧ arguments = [] then
      .ok (some (arguments, stop + 1))
    else if separator = ascii ')' then .ok (some (arguments ++ [argument], stop + 1))
    else readArguments text (stop + 1) (arguments ++ [argument])
  termination_by (utf8 text).length - start
  decreasing_by
    have := argumentEnd?_bounds _h
    omega

theorem getElem?_utf8 (front : List Char) {c : Char} (hc : c.toNat < 128) (back : List Char) :
    (utf8 (front ++ c :: back))[byteLength front]? = some (ascii c) := by
  rw [utf8_append, List.getElem?_append_right (Nat.le_of_eq (length_utf8 front)), length_utf8,
    Nat.sub_self, utf8_cons, utf8EncodeChar_of_ascii hc]
  rfl

/-- One turn of the loop: the field is cut out, and its separator says how it goes on. -/
theorem readArguments_step {front body field rest : List Char} {separator : Char}
    (h : Fields.cut? .outside body = some (field, separator, rest))
    (arguments : List (List Char)) :
    readArguments (front ++ body) (byteLength front) arguments =
      if separator = ')' then
        .ok (some (if argumentOf field = [] ∧ arguments = [] then []
            else arguments ++ [argumentOf field],
          byteLength (front ++ field ++ [separator])))
      else readArguments (front ++ field ++ [separator] ++ rest)
        (byteLength (front ++ field ++ [separator])) (arguments ++ [argumentOf field]) := by
  obtain ⟨rfl, hseparator⟩ := Fields.cut?_sound h
  have hsmall : separator.toNat < 128 := by
    rcases hseparator with rfl | rfl <;> decide
  have hsize : separator.utf8Size = 1 := by
    rcases hseparator with rfl | rfl <;> decide
  have hend := argumentEnd?_utf8 front (field ++ separator :: rest)
  rw [h, Option.map_some] at hend
  have hfield := between_append front field (separator :: rest)
  have hbyte : Checked.get (utf8 (front ++ (field ++ separator :: rest)))
      (byteLength front + byteLength field) = .ok (ascii separator) := by
    have hget := getElem?_utf8 (front ++ field) hsmall rest
    rw [List.append_assoc, byteLength_append] at hget
    exact Checked.get_of_getElem? hget
  have hstart : byteLength (front ++ field ++ [separator]) =
      byteLength front + byteLength field + 1 := by
    simp only [byteLength_append, byteLength, hsize]
  have htext : front ++ field ++ [separator] ++ rest = front ++ (field ++ separator :: rest) := by
    simp
  rw [readArguments, htext, hstart]
  split
  · rename_i hnone
    rw [hend] at hnone
    cases hnone
  · rename_i stop hstop
    obtain rfl : byteLength front + byteLength field = stop :=
      Option.some.inj (hend.symm.trans hstop)
    simp only [hfield, hbyte, bind, Except.bind, ascii_inj hsmall (d := ')') (by decide)]
    by_cases hparen : separator = ')'
    · simp only [hparen, true_and, if_true]
      split
      · rename_i hempty
        rw [hempty.2]
      · rfl
    · simp [hparen]

/-- Arguments behind those that were read before. -/
def collect (arguments texts : List (List Char)) : List (List Char) :=
  if arguments = [] ∧ texts = [[]] then [] else arguments ++ texts

/-- The loop reads the fields that are read character by character, and no access fails. -/
theorem readArguments_eq (front body : List Char) (arguments : List (List Char)) :
    readArguments (front ++ body) (byteLength front) arguments =
      .ok ((Fields.read? .outside body).map fun f =>
        (collect arguments (f.all.map argumentOf),
          byteLength (front ++ body) - byteLength f.rest)) := by
  induction hlength : body.length using Nat.strongRecOn generalizing front body arguments with
  | ind length ih =>
    subst hlength
    rw [Fields.read?_eq_cut?]
    cases hcut : Fields.cut? .outside body with
    | none =>
      have hend := argumentEnd?_utf8 front body
      rw [hcut, Option.map_none] at hend
      rw [readArguments]
      split
      · rfl
      · rename_i hsome
        rw [hend] at hsome
        cases hsome
    | some parts =>
      obtain ⟨field, separator, rest⟩ := parts
      obtain ⟨hbody, _⟩ := Fields.cut?_sound hcut
      have htext : front ++ field ++ [separator] ++ rest = front ++ body := by
        rw [hbody]
        simp
      rw [readArguments_step hcut]
      by_cases hparen : separator = ')'
      · have hstop : byteLength (front ++ field ++ [separator]) =
            byteLength (front ++ body) - byteLength rest := by
          rw [← htext, byteLength_append _ rest, Nat.add_sub_cancel]
        have hcollect : (if argumentOf field = [] ∧ arguments = [] then []
            else arguments ++ [argumentOf field]) = collect arguments [argumentOf field] := by
          unfold collect
          refine if_congr ?_ rfl rfl
          simp [and_comm]
        rw [if_pos hparen, hstop, hcollect]
        simp only [Option.bind_some, if_pos hparen]
        rfl
      · have hlength : rest.length < body.length := by
          rw [hbody, List.length_append, List.length_cons]
          omega
        rw [if_neg hparen, ih rest.length hlength _ rest _ rfl, htext]
        simp only [Option.bind_some, if_neg hparen, Option.map_map]
        congr 2
        funext f
        simp [collect, Fields.all]

/-! ## The whole signature -/

/--
Reads name and arguments of a text whose first opening parenthesis stands at an
offset.  A marker of several bytes is refused; every other access has to succeed.
-/
def readAround (text : List Char) (opening : Nat) : Checked (Option Signature) :=
  match between? text 1 opening with
  | none => .ok none
  | some name => do
    match ← readArguments text (opening + 1) [] with
    | none => .ok none
    | some (arguments, stop) =>
      if stop ≠ (utf8 text).length then .ok none
      else .ok (some ⟨String.ofList (trim name), arguments.map String.ofList⟩)

/-- Reads a signature text that is already trimmed and cut. -/
def readTrimmed (text : List Char) : Checked (Option Signature) :=
  match memchr (ascii '(') (utf8 text), memchr (ascii ')') (utf8 text) with
  | some opening, some closing =>
    if closing < opening ∨ opening < 2 then .ok none else readAround text opening
  | _, _ => .ok none

/-- Reads a signature text that may have blanks around it and a NUL behind it. -/
def readChecked (raw : String) : Checked (Option Signature) :=
  let text := trim raw.toList
  if (utf8 text).length < minimumLength then .ok none
  else
    match memchr (ascii '\x00') (utf8 text) with
    | none => readTrimmed text
    | some nul => do
      let front ← upTo text nul
      readTrimmed (trim front)

theorem takeWhile_ne_eq_self {c : Char} {text : List Char} (h : c ∉ text) :
    text.takeWhile (· ≠ c) = text := by
  rw [List.takeWhile_eq_self_iff]
  intro d hd
  rw [decide_eq_true_iff]
  intro heq
  exact h (heq ▸ hd)

theorem takeWhile_ne_append {c : Char} {front : List Char} (h : c ∉ front) (back : List Char) :
    (front ++ c :: back).takeWhile (· ≠ c) = front := by
  rw [List.takeWhile_append, takeWhile_ne_eq_self h, if_pos rfl]
  simp

/-- A list of fields ends with a parenthesis. -/
theorem paren_mem_of_read? {n : Nesting} {text : List Char} {f : Fields}
    (h : Fields.read? n text = some f) : ')' ∈ text := by
  obtain ⟨htext, _⟩ := Fields.read?_sound h
  rw [htext, Fields.text]
  simp

/-- Where the first closing parenthesis is found, seen from the first opening one. -/
theorem closing_cases (front body : List Char) :
    (')' ∈ front ∧ ∃ k < byteLength front,
      memchr (ascii ')') (utf8 (front ++ '(' :: body)) = some k) ∨
    (')' ∉ front ∧ ')' ∉ body ∧ memchr (ascii ')') (utf8 (front ++ '(' :: body)) = none) ∨
    (')' ∉ front ∧ ')' ∈ body ∧ ∃ k, byteLength front < k ∧
      memchr (ascii ')') (utf8 (front ++ '(' :: body)) = some k) := by
  by_cases hfront : ')' ∈ front
  · obtain ⟨before, after, rfl, hbefore⟩ := List.eq_append_cons_of_mem hfront
    refine .inl ⟨hfront, byteLength before, ?_, ?_⟩
    · have hpos := Char.utf8Size_pos ')'
      rw [byteLength_append, byteLength]
      omega
    · rw [List.append_assoc, List.cons_append]
      exact memchr_utf8 (by decide) hbefore _
  by_cases hbody : ')' ∈ body
  · obtain ⟨before, after, rfl, hbefore⟩ := List.eq_append_cons_of_mem hbody
    refine .inr (.inr ⟨hfront, hbody, byteLength (front ++ '(' :: before), ?_, ?_⟩)
    · have hpos := Char.utf8Size_pos '('
      rw [byteLength_append, byteLength]
      omega
    · have hnone : ')' ∉ front ++ '(' :: before := by
        simp [hfront, hbefore]
      have hfound := memchr_utf8 (by decide) hnone after
      rwa [List.append_assoc, List.cons_append] at hfound
  · refine .inr (.inl ⟨hfront, hbody, memchr_of_not_mem (by decide) ?_⟩)
    simp [hfront, hbody]

/-- The name is cut out behind the marker, if the marker is one byte. -/
theorem between?_marker (marker : Char) (name back : List Char) :
    between? (marker :: name ++ back) 1 (byteLength (marker :: name)) =
      if marker.utf8Size = 1 then some name else none := by
  have hpos := marker.utf8Size_pos
  rw [between?, splitAt?_append]
  show (splitAt? (marker :: name) 1).bind _ = _
  rw [splitAt?_cons marker name Nat.one_pos]
  by_cases hsize : marker.utf8Size = 1
  · simp [hsize]
  · have hlarge : ¬ marker.utf8Size ≤ 1 := by omega
    simp [hsize, hlarge]

/-- The signature of a text, by what stands in front of its first parenthesis and behind it. -/
theorem ofTrimmed?_append {marker : Char} {name : List Char} (h : '(' ∉ marker :: name)
    (body : List Char) :
    ofTrimmed? (marker :: name ++ '(' :: body) =
      if ')' ∈ marker :: name ∨ byteLength (marker :: name) < 2 ∨ marker.utf8Size ≠ 1 then none
      else (Fields.read? .outside body).bind fun f =>
        if f.rest = [] then
          some ⟨String.ofList (trim name), (argumentsOf f.all).map String.ofList⟩
        else none := by
  rw [ofTrimmed?, takeWhile_ne_append h body, List.drop_left]
  simp only
  split
  · rfl
  · cases Fields.read? .outside body with
    | none => rfl
    | some f =>
      obtain ⟨first, others, rest⟩ := f
      cases rest <;> rfl

/-- With both parentheses in place, the loop reads the arguments behind the first one. -/
theorem readArguments_behind (front body : List Char) :
    readArguments (front ++ '(' :: body) (byteLength front + 1) [] =
      .ok ((Fields.read? .outside body).map fun f =>
        (argumentsOf f.all, byteLength (front ++ '(' :: body) - byteLength f.rest)) := by
  have hread := readArguments_eq (front ++ ['(']) body []
  have hstart : byteLength (front ++ ['(']) = byteLength front + 1 := by
    rw [byteLength_append]
    rfl
  rw [hstart, List.append_assoc, List.singleton_append] at hread
  rw [hread]
  simp only [collect, true_and, List.nil_append]
  rfl

/-- The last offset of the loop is the end of the text exactly when nothing is left. -/
theorem stop_eq_iff {body : List Char} {f : Fields} (h : Fields.read? .outside body = some f)
    (front : List Char) :
    byteLength (front ++ '(' :: body) - byteLength f.rest = byteLength (front ++ '(' :: body) ↔
      f.rest = [] := by
  obtain ⟨hbody, _⟩ := Fields.read?_sound h
  have hle : byteLength f.rest ≤ byteLength (front ++ '(' :: body) := by
    apply byteLength_le_of_sublist
    rw [hbody, Fields.text]
    exact ((List.sublist_cons_self ')' f.rest).trans (List.sublist_append_right _ _)).trans
      ((List.sublist_cons_self '(' _).trans (List.sublist_append_right front _))
  constructor
  · intro hstop
    cases hrest : f.rest with
    | nil => rfl
    | cons c rest =>
      have hpos := c.utf8Size_pos
      rw [hrest, byteLength] at hstop hle
      omega
  · intro hrest
    rw [hrest]
    rfl

theorem readAround_eq {marker : Char} {name : List Char} (body : List Char) :
    readAround (marker :: name ++ '(' :: body) (byteLength (marker :: name)) =
      .ok (if marker.utf8Size ≠ 1 then none
        else (Fields.read? .outside body).bind fun f =>
          if f.rest = [] then
            some ⟨String.ofList (trim name), (argumentsOf f.all).map String.ofList⟩
          else none) := by
  rw [readAround, between?_marker]
  by_cases hsize : marker.utf8Size = 1
  · rw [if_pos hsize, if_neg (not_not.2 hsize)]
    simp only [readArguments_behind, bind, Except.bind]
    cases hread : Fields.read? .outside body with
    | none => rfl
    | some f =>
      have hstop := stop_eq_iff hread (marker :: name)
      simp only [Option.map_some, Option.bind_some, length_utf8, ne_eq, hstop, ite_not]
      split <;> rfl
  · rw [if_neg hsize, if_pos hsize]

theorem readTrimmed_eq (text : List Char) : readTrimmed text = .ok (ofTrimmed? text) := by
  by_cases hopening : '(' ∈ text
  · obtain ⟨front, body, rfl, hfront⟩ := List.eq_append_cons_of_mem hopening
    have hopen := memchr_utf8 (by decide) hfront body
    rw [readTrimmed, hopen]
    cases front with
    | nil =>
      cases memchr (ascii ')') (utf8 ([] ++ '(' :: body)) with
      | none => rfl
      | some closing =>
        simp only [byteLength, Nat.zero_lt_two, or_true, if_true]
        rfl
    | cons marker name =>
      rw [ofTrimmed?_append hfront]
      rcases closing_cases (marker :: name) body with ⟨hmem, k, hk, hclose⟩ |
        ⟨hmem, hbody, hclose⟩ | ⟨hmem, hbody, k, hk, hclose⟩
      · rw [hclose, if_pos (.inl hmem)]
        simp only [hk, true_or, if_true]
      · rw [hclose]
        have hread : Fields.read? .outside body = none := by
          rw [Option.eq_none_iff_forall_ne_some]
          intro f hf
          exact hbody (paren_mem_of_read? hf)
        rw [hread]
        simp
      · rw [hclose]
        simp only [Nat.not_lt.2 (Nat.le_of_lt hk), hmem, false_or, readAround_eq]
        split
        · rename_i hshort
          rw [if_pos (.inl hshort)]
        · rename_i hshort
          simp only [hshort, false_or]
  · rw [readTrimmed, memchr_of_not_mem (by decide) hopening, ofTrimmed?,
      takeWhile_ne_eq_self hopening, List.drop_length]
    cases text <;> rfl

/-- Reading by offsets never fails, and reads the signature that the text holds. -/
theorem readChecked_eq (raw : String) : readChecked raw = .ok (parse? raw) := by
  rw [readChecked, parse?]
  simp only [length_utf8]
  split
  · rfl
  by_cases hnul : '\x00' ∈ trim raw.toList
  · obtain ⟨front, back, htext, hfront⟩ := List.eq_append_cons_of_mem hnul
    have hfound := memchr_utf8 (by decide) hfront back
    rw [htext, hfound, beforeNul, takeWhile_ne_append hfront]
    simp only [upTo_append, bind, Except.bind, readTrimmed_eq]
  · rw [memchr_of_not_mem (by decide) hnul, beforeNul, takeWhile_ne_eq_self hnul, trim_trim]
    exact readTrimmed_eq _

end SignalSlot.Signature
