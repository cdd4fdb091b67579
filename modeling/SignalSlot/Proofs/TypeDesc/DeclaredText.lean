import SignalSlot.Proofs.Resolution.OwnSignature
import SignalSlot.Proofs.TypeDesc.Scope
import SignalSlot.Proofs.TypeText.Agreement
import SignalSlot.Text.Alphanumeric

set_option autoImplicit false

/-!
# Parameters spelled as they are declared

A signature may spell a parameter as its declaration prints it.  Then two
normalisations meet: the argument loses a `const …&` wrapper as a text, and the
parameter loses its reference and its `const` as a type, before it is printed.

`spells_declaredText` says that they lead to the same text, except where the
`const` of the text is not that of a reference.  A `const` value keeps the word in
its text and loses it in its type, and it is spelled by its name alone.  The other
exceptions are references to pointers to `const` values, and references to a type that is
named `const`: `spells_declaredText_fails`.
-/

namespace SignalSlot

/-- A letter or a number of any alphabet is no blank. -/
theorem Text.isBlank_of_isAlphanumeric {c : Char} (h : isAlphanumeric c = true) :
    isBlank c = false := by
  let blanks := List.range' 9 5 ++ List.range' 0x2000 11 ++
    [0x20, 0x85, 0xA0, 0x1680, 0x2028, 0x2029, 0x202F, 0x205F, 0x3000]
  have hnone : ∀ n ∈ blanks, isAlphanumeric (Char.ofNat n) = false := by decide +kernel
  rw [Bool.eq_false_iff]
  intro hblank
  have hmem : c.toNat ∈ blanks := by
    simp only [isBlank, Bool.or_eq_true, Bool.and_eq_true, decide_eq_true_eq, beq_iff_eq] at hblank
    simp only [blanks, List.mem_append, List.mem_range'_1, List.mem_cons, List.not_mem_nil,
      or_false]
    omega
  rw [← Char.ofNat_toNat c, hnone _ hmem] at h
  cases h

namespace TypeText

/-- Spellings that agree have the same number of every byte that no marker has. -/
theorem count_eq_of_agree {s t : List UInt8} (h : agree s t = true) {b : UInt8}
    (hb : b ∉ unsignedMarker) : s.count b = t.count b := by
  obtain ⟨r, hs, ht⟩ := exists_leaves_of_agree h
  have hkeep : ∀ a ∈ unsignedMarker, (a == b) = false := by
    intro a ha
    rw [beq_eq_false_iff_ne]
    rintro rfl
    exact hb ha
  rw [List.count_eq_length_filter, List.count_eq_length_filter, hs.filter_eq _ hkeep,
    ht.filter_eq _ hkeep]

end TypeText

namespace TypeDesc

/-- A name of letters, numbers and underscores. -/
structure IsIdentifier (name : String) : Prop where
  ne_empty : name ≠ ""
  word : ∀ c ∈ name.toList, Text.isAlphanumeric c = true ∨ c = '_'

instance (name : String) : Decidable (IsIdentifier name) :=
  decidable_of_iff
    (name ≠ "" ∧ name.toList.all fun c => Text.isAlphanumeric c || c == '_') <| by
    simp only [List.all_eq_true, Bool.or_eq_true, beq_iff_eq]
    exact ⟨fun h => ⟨h.1, h.2⟩, fun h => ⟨h.ne_empty, h.word⟩⟩

/-- What an argument that spells a parameter as its declaration prints it is read as. -/
def declaredText (ty : TypeDesc) : String :=
  TypeText.stripConstRef (Text.trimmed (ty.print .suppressed))

namespace IsIdentifier

variable {name : String}

theorem isBlank_eq_false (h : IsIdentifier name) {c : Char} (hc : c ∈ name.toList) :
    Text.isBlank c = false := by
  rcases h.word c hc with halpha | rfl
  · exact Text.isBlank_of_isAlphanumeric halpha
  · rfl

theorem not_mem (h : IsIdentifier name) {c : Char} (hc : Text.isAlphanumeric c = false)
    (hne : c ≠ '_') : c ∉ name.toList := by
  intro hmem
  rcases h.word c hmem with halpha | heq
  · rw [hc] at halpha
    cases halpha
  · exact hne heq

/-- An identifier has no scope. -/
theorem unqualified_eq (h : IsIdentifier name) : unqualified name.toList = name.toList := by
  rcases afterLastScope_unqualified name.toList with ⟨front, hlast⟩ | ⟨_, hwhole⟩
  · refine absurd ?_ (h.not_mem (c := ':') (by decide +kernel) (by decide))
    rw [hlast.split]
    simp
  · exact hwhole

end IsIdentifier

/-! ## Texts of types -/

/-- The name of a type and the `*` behind it. -/
def stem (ty : TypeDesc) : List Char :=
  ty.name.toList ++ if ty.pointer = 0 then [] else ' ' :: List.replicate ty.pointer.toNat '*'

variable {ty : TypeDesc}

theorem text_eq_stem (h : IsIdentifier ty.name) :
    ty.text .suppressed = (if ty.isConst then "const ".toList else []) ++
      (ty.stem ++ if ty.reference then " &".toList else []) := by
  simp only [text, nameText, h.unqualified_eq, stem, List.append_assoc]

/-- A stem starts with a character that is no blank. -/
theorem exists_stem_eq_cons (h : IsIdentifier ty.name) :
    ∃ c rest, ty.stem = c :: rest ∧ Text.isBlank c = false := by
  obtain ⟨c, rest, hname⟩ : ∃ c rest, ty.name.toList = c :: rest :=
    List.exists_cons_of_ne_nil (by simpa using h.ne_empty)
  refine ⟨c, _, by rw [stem, hname, List.cons_append], h.isBlank_eq_false ?_⟩
  rw [hname]
  exact List.mem_cons_self

/-- A stem ends with a letter or a `*`. -/
theorem exists_stem_eq_concat (h : IsIdentifier ty.name) :
    ∃ front c, ty.stem = front ++ [c] ∧ Text.isBlank c = false ∧ c ≠ '&' := by
  by_cases hpointer : ty.pointer = 0
  · have hne : ty.name.toList ≠ [] := by simpa using h.ne_empty
    obtain ⟨front, c, hname⟩ : ∃ front c, ty.name.toList = front ++ [c] :=
      ⟨_, _, (List.dropLast_concat_getLast hne).symm⟩
    have hmem : c ∈ ty.name.toList := by simp [hname]
    refine ⟨front, c, by simp [stem, hpointer, hname], h.isBlank_eq_false hmem, ?_⟩
    rintro rfl
    exact h.not_mem (by decide +kernel) (by decide) hmem
  · obtain ⟨count, hcount⟩ : ∃ count, ty.pointer.toNat = count + 1 :=
      Nat.exists_eq_succ_of_ne_zero fun hzero => hpointer (UInt8.toNat_inj.1 hzero)
    refine ⟨ty.name.toList ++ ' ' :: List.replicate count '*', '*', ?_, by decide, by decide⟩
    simp [stem, hpointer, hcount, List.replicate_succ']

/-- A stem has no blank at its ends. -/
theorem trim_stem (h : IsIdentifier ty.name) : Text.trim ty.stem = ty.stem := by
  apply Text.trim_eq_self
  · obtain ⟨c, rest, hstem, hc⟩ := exists_stem_eq_cons h
    intro x hx
    rw [hstem] at hx
    obtain rfl := Option.some.inj hx
    exact hc
  · obtain ⟨front, c, hstem, hc, _⟩ := exists_stem_eq_concat h
    intro x hx
    rw [hstem, List.getLast?_concat] at hx
    obtain rfl := Option.some.inj hx
    exact hc

/-- Nor has a printed type. -/
theorem trim_text (h : IsIdentifier ty.name) :
    Text.trim (ty.text .suppressed) = ty.text .suppressed := by
  rw [text_eq_stem h]
  apply Text.trim_eq_self
  · obtain ⟨c, rest, hstem, hc⟩ := exists_stem_eq_cons h
    intro x hx
    cases hconst : ty.isConst with
    | true =>
      rw [if_pos hconst] at hx
      obtain rfl : 'c' = x := Option.some.inj hx
      rfl
    | false =>
      rw [if_neg (Bool.eq_false_iff.1 hconst), hstem] at hx
      obtain rfl := Option.some.inj hx
      exact hc
  · obtain ⟨front, c, hstem, hc, _⟩ := exists_stem_eq_concat h
    intro x hx
    rw [← List.append_assoc, List.getLast?_append] at hx
    cases hreference : ty.reference with
    | true =>
      rw [if_pos hreference] at hx
      obtain rfl : '&' = x := Option.some.inj hx
      rfl
    | false =>
      rw [if_neg (Bool.eq_false_iff.1 hreference), hstem, ← List.append_assoc,
        List.getLast?_concat] at hx
      obtain rfl := Option.some.inj hx
      exact hc

/-- The first word of a stem is the name. -/
theorem takeWhile_stem (h : IsIdentifier ty.name) :
    (ty.stem ++ if ty.reference then " &".toList else []).takeWhile (· ≠ ' ') =
      ty.name.toList := by
  have hword : ∀ c ∈ ty.name.toList, decide (c ≠ ' ') = true := by
    intro c hc
    rw [decide_eq_true_iff]
    rintro rfl
    exact h.not_mem (by decide +kernel) (by decide) hc
  rw [stem, List.append_assoc, List.takeWhile_append_of_pos hword]
  split <;> split <;> exact List.append_nil _

/-! ## The two normalisations -/

/-- A text without the word `const` or without the `&` has no wrapper. -/
theorem unwrap_text (h : IsIdentifier ty.name)
    (hplain : ty.isConst = false ∧ ty.name ≠ "const" ∨ ty.reference = false) :
    TypeText.unwrap (ty.text .suppressed) = ty.text .suppressed := by
  unfold TypeText.unwrap
  cases hwrapped : TypeText.constReferent? (ty.text .suppressed) with
  | none => rfl
  | some inner =>
    have htext := TypeText.constReferent?_eq_some_iff.1 hwrapped
    rw [text_eq_stem h] at htext
    rcases hplain with ⟨hconst, hne⟩ | hreference
    · -- The first word would be the name.
      have hfirst := congrArg (List.takeWhile (· ≠ ' ')) htext
      rw [if_neg (Bool.eq_false_iff.1 hconst), List.nil_append, takeWhile_stem h] at hfirst
      exact absurd (String.toList_injective hfirst) hne
    · obtain ⟨front, c, hstem, _, hc⟩ := exists_stem_eq_concat h
      have hlast := congrArg List.getLast? htext
      rw [if_neg (Bool.eq_false_iff.1 hreference), List.append_nil, hstem, ← List.append_assoc,
        List.getLast?_concat, ← List.append_assoc, List.getLast?_concat] at hlast
      exact absurd (Option.some.inj hlast) hc

/-- The text of a reference has a wrapper when it has the word `const`. -/
theorem unwrap_text_of_wrapped (h : IsIdentifier ty.name) (hconst : ty.isConst = true)
    (hreference : ty.reference = true) : TypeText.unwrap (ty.text .suppressed) = ty.stem := by
  have hwrapped : TypeText.constReferent? (ty.text .suppressed) = some (ty.stem ++ [' ']) := by
    rw [TypeText.constReferent?_eq_some_iff, text_eq_stem h, if_pos hconst, if_pos hreference,
      List.append_assoc]
    rfl
  unfold TypeText.unwrap
  rw [hwrapped]
  exact (Text.trim_concat_blank rfl _).trans (trim_stem h)

theorem declaredText_eq (h : IsIdentifier ty.name) :
    ty.declaredText = String.ofList (TypeText.unwrap (ty.text .suppressed)) := by
  rw [declaredText, TypeText.stripConstRef, Text.trimmed, print, String.toList_ofList,
    String.toList_ofList, trim_text h]

/-- The normal form of a type is the type itself, unless its `const` can be taken off. -/
theorem normalized_eq_self (h : ty.isConst = false ∨ ty.pointer ≠ 0) : ty.normalized = ty := by
  obtain ⟨name, isConst, pointer, reference⟩ := ty
  simp only at h
  rcases h with rfl | hpointer
  · simp [normalized, isConstReferent, stripLocalConst]
  · simp [normalized, isConstReferent, stripLocalConst, hpointer]

/-- The normal form of a `const` value and of a reference to one is the value. -/
theorem normalized_eq_named (hconst : ty.isConst = true) (hpointer : ty.pointer = 0) :
    ty.normalized = named ty.name := by
  obtain ⟨name, isConst, pointer, reference⟩ := ty
  simp only at hconst hpointer
  subst hconst hpointer
  cases reference <;> rfl

theorem parameterText_eq_text (h : IsIdentifier ty.name)
    (hkept : ty.isConst = false ∨ ty.pointer ≠ 0) :
    ty.parameterText = String.ofList (ty.text .suppressed) := by
  rw [parameterText, normalized_eq_self hkept, trim_text h]

theorem stem_eq_name (hpointer : ty.pointer = 0) : ty.stem = ty.name.toList := by
  rw [stem, if_pos hpointer, List.append_nil]

theorem parameterText_eq_name (h : IsIdentifier ty.name) (hconst : ty.isConst = true)
    (hpointer : ty.pointer = 0) : ty.parameterText = ty.name := by
  have hnamed : IsIdentifier (named ty.name).name := h
  have htext : (named ty.name).text .suppressed = ty.name.toList := by
    rw [text_eq_stem hnamed, stem_eq_name rfl]
    exact List.append_nil _
  rw [parameterText, normalized_eq_named hconst hpointer, trim_text hnamed, htext,
    String.ofList_toList]

/-- The two normalisations agree where the word `const` is missing, belongs to the value of a
reference, or stays behind a pointer. -/
theorem declaredText_eq_parameterText (h : IsIdentifier ty.name)
    (hconst : ty.isConst = true → (ty.reference = true ↔ ty.pointer = 0))
    (hname : ty.isConst = false → ty.reference = true → ty.name ≠ "const") :
    ty.declaredText = ty.parameterText := by
  rw [declaredText_eq h]
  cases hisConst : ty.isConst with
  | false =>
    have hplain : ty.isConst = false ∧ ty.name ≠ "const" ∨ ty.reference = false := by
      cases hreference : ty.reference with
      | true => exact .inl ⟨hisConst, hname hisConst hreference⟩
      | false => exact .inr rfl
    rw [unwrap_text h hplain, parameterText_eq_text h (.inl hisConst)]
  | true =>
    by_cases hpointer : ty.pointer = 0
    · have hreference := (hconst hisConst).2 hpointer
      rw [unwrap_text_of_wrapped h hisConst hreference, stem_eq_name hpointer,
        String.ofList_toList, parameterText_eq_name h hisConst hpointer]
    · have hreference : ty.reference = false :=
        Bool.eq_false_iff.2 fun htrue => hpointer ((hconst hisConst).1 htrue)
      rw [unwrap_text h (.inr hreference), parameterText_eq_text h (.inr hpointer)]

/-- A `const` value keeps the word in its text, and a text with one more `c` does not agree. -/
theorem spells_declaredText_of_constValue (h : IsIdentifier ty.name) (hconst : ty.isConst = true)
    (hreference : ty.reference = false) (hpointer : ty.pointer = 0) :
    TypeText.spells ty.declaredText ty.parameterText = false := by
  have hbytes : Text.bytes ty.declaredText = Text.bytes "const " ++ Text.bytes ty.name := by
    rw [declaredText_eq h, unwrap_text h (.inr hreference), text_eq_stem h, if_pos hconst,
      if_neg (Bool.eq_false_iff.1 hreference), stem_eq_name hpointer, List.append_nil, Text.bytes,
      String.toList_ofList, List.flatMap_append]
    rfl
  rw [Bool.eq_false_iff]
  intro hspells
  have hcount := TypeText.count_eq_of_agree hspells (show 0x63 ∉ TypeText.unsignedMarker by decide)
  rw [hbytes, parameterText_eq_name h hconst hpointer, List.count_append,
    show (Text.bytes "const ").count 0x63 = 1 by decide] at hcount
  omega

/--
A parameter is spelled as it is declared.  An argument that spells a type as its
declaration prints it is read as the text the parameter is compared with, where
the type is not `const`, is a reference to a `const` value, or is a pointer to
one, and is no reference to a type named `const`.  A `const` value is spelled by
its name alone: with the word `const`, which is taken off together with a `&`
only, it is not.
-/
theorem spells_declaredText (ty : TypeDesc) (h : IsIdentifier ty.name) :
    ((ty.isConst = true → (ty.reference = true ↔ ty.pointer = 0)) →
      (ty.isConst = false → ty.reference = true → ty.name ≠ "const") →
      ty.declaredText = ty.parameterText ∧
      TypeText.spells ty.declaredText ty.parameterText = true) ∧
    (ty.isConst = true → ty.reference = false → ty.pointer = 0 →
      TypeText.spells ty.name ty.parameterText = true ∧
      TypeText.spells ty.declaredText ty.parameterText = false) := by
  constructor
  · intro hconst hname
    have htexts := declaredText_eq_parameterText h hconst hname
    refine ⟨htexts, ?_⟩
    rw [htexts]
    exact TypeText.spells_self _
  · intro hconst hreference hpointer
    refine ⟨?_, spells_declaredText_of_constValue h hconst hreference hpointer⟩
    rw [parameterText_eq_name h hconst hpointer]
    exact TypeText.spells_self _

/-- The `const` value of a type. -/
def constValue (name : String) : TypeDesc :=
  { name, isConst := true }

-- A reference to a `const` value is spelled as it is declared, the value itself is not.
theorem spells_declaredText_label :
    IsIdentifier "Label_2" ∧
    (constRef "Label_2").declaredText = "Label_2" ∧
    TypeText.spells (constRef "Label_2").declaredText (constRef "Label_2").parameterText = true ∧
    TypeText.spells "Label_2" (constValue "Label_2").parameterText = true ∧
    TypeText.spells (constValue "Label_2").declaredText (constValue "Label_2").parameterText =
      false := by
  have hname : IsIdentifier "Label_2" := by decide +kernel
  obtain ⟨hreference, _⟩ := spells_declaredText (constRef "Label_2") hname
  obtain ⟨_, hvalue⟩ := spells_declaredText (constValue "Label_2") hname
  obtain ⟨htext, hspells⟩ :=
    hreference (fun _ => ⟨fun _ => rfl, fun _ => rfl⟩) (fun _ _ => by decide)
  exact ⟨hname, htext.trans (by decide +kernel), hspells, hvalue rfl rfl rfl⟩

/-- A reference to a pointer to `const` values of a type. -/
def constPointerRef (name : String) : TypeDesc :=
  { name, isConst := true, pointer := 1, reference := true }

-- The three exceptions: `const int`, `const char * &` and `const &`.
theorem spells_declaredText_fails :
    (IsIdentifier "int" ∧
      TypeText.spells (constValue "int").declaredText (constValue "int").parameterText = false) ∧
    (IsIdentifier "char" ∧
      TypeText.spells (constPointerRef "char").declaredText
        (constPointerRef "char").parameterText = false) ∧
    IsIdentifier "const" ∧
      TypeText.spells { name := "const", reference := true : TypeDesc }.declaredText
        { name := "const", reference := true : TypeDesc }.parameterText = false := by
  decide +kernel

end TypeDesc

end SignalSlot
