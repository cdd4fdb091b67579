import Mathlib.Logic.ExistsUnique
import SignalSlot.Proofs.Signature.Grammar

set_option autoImplicit false

/-!
# The language of signatures

`Spelling` is the declarative side of `Signature.parse?`: a marker, a name and a
non-empty list of self-contained fields, with the conditions on each.  A text is
a signature exactly when what counts of it is the text of a spelling; the
spelling is then unique, and the signature is read off it.

The guard on the length of a text is redundant: `parse?_eq_ofTrimmed?`.
-/

namespace SignalSlot.Signature

/-- What counts of a signature text: it is trimmed, cut at the first NUL and trimmed again. -/
def content (raw : String) : List Char :=
  Text.trim (beforeNul (Text.trim raw.toList))

/-! ## Spellings -/

/-- A marker, a name and the fields of an argument list, written `m n(f₁,…,fₖ)`. -/
@[ext] structure Spelling where
  marker : Char
  name : List Char
  fields : List (List Char)
  marker_size : marker.utf8Size = 1
  marker_ne : marker ≠ '(' ∧ marker ≠ ')'
  name_ne_nil : name ≠ []
  name_plain : ∀ c ∈ name, c ≠ '(' ∧ c ≠ ')'
  fields_ne_nil : fields ≠ []
  fields_closed : ∀ f ∈ fields, SelfContained f

namespace Spelling

/-- The characters of a spelling. -/
def text (p : Spelling) : List Char :=
  p.marker :: p.name ++ '(' :: [','].intercalate p.fields ++ [')']

/-- The argument types that the fields spell; one field that spells nothing stands for none. -/
def arguments (p : Spelling) : List String :=
  let texts := p.fields.map fun f => TypeText.stripConstRef (String.ofList (Text.trim f))
  if texts = [""] then [] else texts

/-- The signature that a spelling stands for. -/
def signature (p : Spelling) : Signature :=
  ⟨String.ofList (Text.trim p.name), p.arguments⟩

/-- The fields as the splitter returns them, with nothing behind the last parenthesis. -/
def split (p : Spelling) : Fields :=
  ⟨p.fields.head p.fields_ne_nil, p.fields.tail, []⟩

theorem all_split (p : Spelling) : p.split.all = p.fields :=
  List.cons_head_tail p.fields_ne_nil

theorem text_eq (p : Spelling) : p.text = p.marker :: p.name ++ '(' :: p.split.text := by
  rw [Fields.text, all_split]
  simp [text, split]

theorem closesFrom_split (p : Spelling) : p.split.ClosesFrom .outside where
  first := p.fields_closed _ (List.head_mem _)
  others := fun f hf => p.fields_closed f (List.mem_of_mem_tail hf)

theorem read?_split (p : Spelling) : Fields.read? .outside p.split.text = some p.split :=
  Fields.read?_eq_some_iff.2 ⟨rfl, p.closesFrom_split⟩

theorem ne_of_mem_front {p : Spelling} {c : Char} (h : c ∈ p.marker :: p.name) :
    c ≠ '(' ∧ c ≠ ')' := by
  rcases List.mem_cons.1 h with rfl | h
  · exact p.marker_ne
  · exact p.name_plain c h

/-- The search for the first parenthesis finds the end of the name. -/
theorem takeWhile_text (p : Spelling) : p.text.takeWhile (· ≠ '(') = p.marker :: p.name := by
  rw [text_eq, List.takeWhile_append_of_pos]
  · simp
  · intro c hc
    simpa using (ne_of_mem_front hc).1

theorem drop_text (p : Spelling) :
    p.text.drop (p.marker :: p.name).length = '(' :: p.split.text := by
  rw [text_eq, List.drop_left]

theorem two_le_byteLength_front (p : Spelling) :
    2 ≤ Text.byteLength (p.marker :: p.name) := by
  obtain ⟨c, name, hname⟩ := List.exists_cons_of_ne_nil p.name_ne_nil
  have hc : 0 < c.utf8Size := c.utf8Size_pos
  simp only [hname, Text.byteLength, p.marker_size]
  omega

/-- A spelling has a marker, a name and two parentheses, so the guard on the length never
refuses one. -/
theorem minimumLength_le_text (p : Spelling) : minimumLength ≤ Text.byteLength p.text := by
  have hfront := p.two_le_byteLength_front
  have hopen : '('.utf8Size = 1 := rfl
  have hclose : ')'.utf8Size = 1 := rfl
  rw [text_eq, Text.byteLength_append, Fields.text, Text.byteLength.eq_2 '(',
    Text.byteLength_append, Text.byteLength.eq_2 ')', hopen, hclose, minimumLength]
  omega

theorem map_argumentsOf (p : Spelling) :
    (argumentsOf p.fields).map String.ofList = p.arguments := by
  have htexts : (p.fields.map fun f => TypeText.stripConstRef (String.ofList (Text.trim f))) =
      (p.fields.map fun f => TypeText.unwrap (Text.trim f)).map String.ofList := by
    simp [TypeText.stripConstRef]
  have hempty : ∀ texts : List (List Char), texts.map String.ofList = [""] ↔ texts = [[]] := by
    intro texts
    rw [show [""] = [[]].map String.ofList from rfl]
    exact List.map_inj_right fun _ _ h => String.ofList_injective h
  simp only [argumentsOf, arguments, htexts, hempty]
  split <;> rfl

end Spelling

/-! ## Reading -/

/-- Every spelling is read, and as the signature it stands for. -/
theorem ofTrimmed?_text (p : Spelling) : ofTrimmed? p.text = some p.signature := by
  have hguard : ¬ (')' ∈ p.marker :: p.name ∨ Text.byteLength (p.marker :: p.name) < 2 ∨
      p.marker.utf8Size ≠ 1) := by
    rintro (h | h | h)
    · exact (Spelling.ne_of_mem_front h).2 rfl
    · exact absurd p.two_le_byteLength_front (Nat.not_le.2 h)
    · exact h p.marker_size
  have hall : p.fields.head p.fields_ne_nil :: p.fields.tail = p.fields := p.all_split
  simp only [ofTrimmed?, p.takeWhile_text, p.drop_text]
  rw [if_neg hguard, p.read?_split]
  simp only [Spelling.split, hall, p.map_argumentsOf, Spelling.signature]

/-- What is read is the text of a spelling. -/
theorem exists_spelling_of_ofTrimmed? {text : List Char} {s : Signature}
    (h : ofTrimmed? text = some s) : ∃ p : Spelling, p.text = text := by
  have hcut := List.prefix_iff_eq_append.1 (List.takeWhile_prefix (· ≠ '(') (l := text))
  have hplain := List.all_eq_true.1 (List.all_takeWhile (p := (· ≠ '(')) (l := text))
  simp only [ofTrimmed?] at h
  -- What stands in front of the first parenthesis, and what begins with it.
  generalize text.takeWhile (· ≠ '(') = front at h hcut hplain
  generalize text.drop front.length = back at h hcut
  split at h
  · rename_i marker name body
    split at h
    · simp at h
    · rename_i hguard
      simp only [not_or, Nat.not_lt, Decidable.not_not] at hguard
      obtain ⟨hparen, hlength, hsize⟩ := hguard
      split at h
      · rename_i first others hread
        obtain ⟨rfl, hclosed⟩ := Fields.read?_eq_some_iff.1 hread
        have hname : name ≠ [] := by
          rintro rfl
          simp [Text.byteLength, hsize] at hlength
        have hne : ∀ c ∈ marker :: name, c ≠ '(' ∧ c ≠ ')' := by
          intro c hc
          refine ⟨by simpa using hplain c hc, ?_⟩
          rintro rfl
          exact hparen hc
        refine ⟨⟨marker, name, first :: others, hsize, hne marker (by simp), hname,
          fun c hc => hne c (by simp [hc]), by simp, ?_⟩, ?_⟩
        · intro f hf
          rcases List.mem_cons.1 hf with rfl | hf
          · exact hclosed.first
          · exact hclosed.others f hf
        · exact (Spelling.text_eq _).trans hcut
      · simp at h
  · simp at h

/-- A text that is already trimmed and cut is read exactly when it is the text of a spelling. -/
theorem ofTrimmed?_eq_some_iff {text : List Char} {s : Signature} :
    ofTrimmed? text = some s ↔ ∃ p : Spelling, p.text = text ∧ p.signature = s := by
  constructor
  · intro h
    obtain ⟨p, rfl⟩ := exists_spelling_of_ofTrimmed? h
    rw [ofTrimmed?_text] at h
    exact ⟨p, rfl, Option.some.inj h⟩
  · rintro ⟨p, rfl, rfl⟩
    exact ofTrimmed?_text p

/-- Marker, name and fields can be found again in a spelling's text, so no text has two. -/
theorem Spelling.text_injective {p q : Spelling} (h : p.text = q.text) : p = q := by
  have hfront : p.marker :: p.name = q.marker :: q.name := by
    rw [← p.takeWhile_text, h, q.takeWhile_text]
  have hbody : '(' :: p.split.text = '(' :: q.split.text := by
    rw [← p.drop_text, h, hfront, q.drop_text]
  have hread : Fields.read? .outside p.split.text = some q.split := by
    rw [List.tail_eq_of_cons_eq hbody, q.read?_split]
  rw [p.read?_split] at hread
  have hfields : p.fields = q.fields := by
    rw [← p.all_split, Option.some.inj hread, q.all_split]
  obtain ⟨hmarker, hname⟩ := List.cons.inj hfront
  exact Spelling.ext hmarker hname hfields

/-- The guard on the length, which looks at the text before it is cut, decides nothing. -/
theorem parse?_eq_ofTrimmed? (raw : String) : parse? raw = ofTrimmed? (content raw) := by
  simp only [parse?]
  split
  · rename_i hshort
    symm
    rw [Option.eq_none_iff_forall_ne_some]
    intro s h
    obtain ⟨p, hp⟩ := exists_spelling_of_ofTrimmed? h
    -- Cutting and trimming only drop characters, so a short text has no room for a spelling.
    have hsub : (content raw).Sublist (Text.trim raw.toList) :=
      (Text.trim_sublist _).trans (List.takeWhile_sublist _)
    have hle := Text.byteLength_le_of_sublist hsub
    rw [← hp] at hle
    have := p.minimumLength_le_text
    omega
  · rfl

/--
A text is a signature exactly when what counts of it is spelled as a marker, a
name and fields, and it is spelled so in one way only.  What is read is the
signature that the spelling stands for, and the guard on the length takes no
part in this.
-/
theorem parse?_accepts_spellings (raw : String) :
    ((parse? raw).isSome ↔ ∃! p : Spelling, p.text = content raw) ∧
    (∀ s, parse? raw = some s ↔ ∃ p : Spelling, p.text = content raw ∧ p.signature = s) ∧
    parse? raw = ofTrimmed? (content raw) := by
  have hread : ∀ s, parse? raw = some s ↔
      ∃ p : Spelling, p.text = content raw ∧ p.signature = s := by
    intro s
    rw [parse?_eq_ofTrimmed?, ofTrimmed?_eq_some_iff]
  refine ⟨?_, hread, parse?_eq_ofTrimmed? raw⟩
  rw [Option.isSome_iff_exists]
  constructor
  · rintro ⟨s, hs⟩
    obtain ⟨p, hp, _⟩ := (hread s).1 hs
    exact ⟨p, hp, fun q hq => Spelling.text_injective (hq.trans hp.symm)⟩
  · rintro ⟨p, hp, _⟩
    exact ⟨p.signature, (hread _).2 ⟨p, hp, rfl⟩⟩

-- The comma inside the angle brackets separates nothing, and what follows the NUL is cut off.
example :
    parse? " 2moved(const Map<int,int>&, int) \x00tail)" =
      some ⟨"moved", ["Map<int,int>", "int"]⟩ := by
  decide +kernel

end SignalSlot.Signature
