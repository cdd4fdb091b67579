import Mathlib.Data.List.TakeWhile
import SignalSlot.Proofs.Signature.Language

set_option autoImplicit false

/-!
# Written signatures

`Signature.written` writes a signature text from its parts.  Reading it gives the
parts back when the fields are self-contained: `parse?_written`.

The second half says which texts people write as types.  `WellNested` is the
grammar of such texts: brackets of each kind closed by their own closer, and
angle brackets around template arguments.  The splitter knows less, two counters
that tell neither the kinds of brackets apart nor angle brackets inside them,
and `Closes.append_wellNested` shows that this is enough.
-/

namespace SignalSlot.Signature

/-- A signature text: a marker, a name and the fields of its argument list. -/
def written (marker : Char) (name : String) (fields : List String) : String :=
  String.singleton marker ++ name ++ "(" ++ ",".intercalate fields ++ ")"

/-- The argument types that fields spell; one field that spells nothing stands for none. -/
def spelledTypes (fields : List String) : List String :=
  let texts := fields.map fun f => TypeText.stripConstRef (Text.trimmed f)
  if fields = [] ∨ texts = [""] then [] else texts

/-- A character that can mark a signature text. -/
structure IsMarker (c : Char) : Prop where
  size : c.utf8Size = 1
  not_blank : Text.isBlank c = false
  plain : c ∉ ['(', ')', '\x00']

/-- A text that can stand as the name in a signature text. -/
structure IsName (name : String) : Prop where
  ne_empty : name ≠ ""
  plain : ∀ c ∈ name.toList, c ∉ ['(', ')', '\x00']

/-! ## What counts of a written text -/

theorem toList_written (marker : Char) (name : String) (fields : List String) :
    (written marker name fields).toList =
      marker :: name.toList ++ '(' :: [','].intercalate (fields.map String.toList) ++ [')'] := by
  simp [written, String.toList_intercalate]

theorem beforeNul_eq_self {text : List Char} (h : '\x00' ∉ text) : beforeNul text = text := by
  refine List.takeWhile_eq_self_iff.2 fun c hc => ?_
  rw [decide_eq_true_iff]
  rintro rfl
  exact h hc

theorem nul_not_mem_intercalate {fields : List String} (h : ∀ f ∈ fields, '\x00' ∉ f.toList) :
    '\x00' ∉ [','].intercalate (fields.map String.toList) := by
  induction fields with
  | nil => simp
  | cons first others ih =>
    have hothers := ih fun f hf => h f (List.mem_cons_of_mem _ hf)
    have hfirst := h first (List.mem_cons_self)
    cases others with
    | nil => simpa [List.intercalate] using hfirst
    | cons second others =>
      simp only [List.map_cons, List.intercalate, List.intersperse_cons_cons,
        List.flatten_cons] at hothers ⊢
      simp [hfirst, hothers]

/-- A written text counts as a whole: nothing of it is blank at an end or behind a NUL. -/
theorem content_written {marker : Char} {name : String} {fields : List String}
    (hmarker : IsMarker marker) (hname : IsName name)
    (hfields : ∀ f ∈ fields, '\x00' ∉ f.toList) :
    content (written marker name fields) = (written marker name fields).toList := by
  have htrim : Text.trim (written marker name fields).toList =
      (written marker name fields).toList := by
    rw [toList_written]
    apply Text.trim_eq_self
    · intro c hc
      obtain rfl : marker = c := by simpa using hc
      exact hmarker.not_blank
    · intro c hc
      rw [List.getLast?_append, List.getLast?_singleton] at hc
      obtain rfl := Option.some.inj hc
      rfl
  have hnul : '\x00' ∉ (written marker name fields).toList := by
    have hfront : '\x00' ∉ name.toList := fun h => by simpa using hname.plain _ h
    have hback := nul_not_mem_intercalate hfields
    have hmark : '\x00' ≠ marker := by
      rintro rfl
      simpa using hmarker.plain
    rw [toList_written]
    simp [hmark, hfront, hback]
  rw [content, htrim, beforeNul_eq_self hnul, htrim]

/-! ## Reading it back -/

/-- The fields of the spelling that a text is written as; empty parentheses hold an empty one. -/
def fieldTexts (fields : List String) : List (List Char) :=
  if fields = [] then [[]] else fields.map String.toList

theorem intercalate_fieldTexts (fields : List String) :
    [','].intercalate (fieldTexts fields) = [','].intercalate (fields.map String.toList) := by
  unfold fieldTexts
  split
  · rename_i h
    subst h
    rfl
  · rfl

/-- The spelling that a text is written as. -/
def Spelling.ofWritten {marker : Char} {name : String} {fields : List String}
    (hmarker : IsMarker marker) (hname : IsName name)
    (hfields : ∀ f ∈ fields, SelfContained f.toList) : Spelling where
  marker := marker
  name := name.toList
  fields := fieldTexts fields
  marker_size := hmarker.size
  marker_ne := by
    have := hmarker.plain
    simp only [List.mem_cons, not_or] at this
    exact ⟨this.1, this.2.1⟩
  name_ne_nil := by simpa using hname.ne_empty
  name_plain := by
    intro c hc
    have := hname.plain c hc
    simp only [List.mem_cons, not_or] at this
    exact ⟨this.1, this.2.1⟩
  fields_ne_nil := by
    unfold fieldTexts
    split <;> simp_all
  fields_closed := by
    unfold fieldTexts
    split
    · rintro f hf
      obtain rfl : f = [] := by simpa using hf
      exact .done
    · intro f hf
      obtain ⟨field, hfield, rfl⟩ := List.mem_map.1 hf
      exact hfields field hfield

theorem Spelling.text_ofWritten {marker : Char} {name : String} {fields : List String}
    (hmarker : IsMarker marker) (hname : IsName name)
    (hfields : ∀ f ∈ fields, SelfContained f.toList) :
    (ofWritten hmarker hname hfields).text = (written marker name fields).toList := by
  rw [toList_written, ← intercalate_fieldTexts]
  rfl

theorem Spelling.arguments_ofWritten {marker : Char} {name : String} {fields : List String}
    (hmarker : IsMarker marker) (hname : IsName name)
    (hfields : ∀ f ∈ fields, SelfContained f.toList) :
    (ofWritten hmarker hname hfields).arguments = spelledTypes fields := by
  by_cases hnone : fields = []
  · subst hnone
    rfl
  · have hfields : (ofWritten hmarker hname hfields).fields = fields.map String.toList :=
      if_neg hnone
    simp only [arguments, spelledTypes, hfields, List.map_map, hnone, false_or]
    rfl

/-- A written signature with self-contained fields is read as what was written. -/
theorem parse?_written {marker : Char} {name : String} {fields : List String}
    (hmarker : IsMarker marker) (hname : IsName name)
    (hfields : ∀ f ∈ fields, '\x00' ∉ f.toList ∧ SelfContained f.toList) :
    parse? (written marker name fields) = some ⟨Text.trimmed name, spelledTypes fields⟩ := by
  have hclosed : ∀ f ∈ fields, SelfContained f.toList := fun f hf => (hfields f hf).2
  rw [parse?_eq_ofTrimmed?, content_written hmarker hname fun f hf => (hfields f hf).1,
    ← Spelling.text_ofWritten hmarker hname hclosed, ofTrimmed?_text, Spelling.signature,
    Spelling.arguments_ofWritten]
  rfl

/-! ## Well-nested texts -/

/-- What a character stands in. -/
inductive Level where
  /-- No bracket at all. -/
  | outside
  /-- Angle brackets, and no bracket of another kind inside them. -/
  | angles
  /-- A bracket of another kind, with or without angle brackets. -/
  | group
  deriving DecidableEq, Repr

/-- A character that stands for itself.  Commas do inside every bracket, and angle
brackets inside a group. -/
def Level.Admits (level : Level) (c : Char) : Prop :=
  c ∉ ['(', ')', '[', ']', '{', '}', '\x00'] ∧ (c = ',' → level ≠ .outside) ∧
    (c = '<' ∨ c = '>' → level = .group)

instance (level : Level) (c : Char) : Decidable (level.Admits c) :=
  inferInstanceAs (Decidable (_ ∧ _ ∧ _))

/-- The openers of groups, each with its closer. -/
def brackets : List (Char × Char) := [('(', ')'), ('[', ']'), ('{', '}')]

/--
Texts in which every bracket is closed by its own closer.  Angle brackets are
brackets outside groups, and characters like others inside them.
-/
inductive WellNested : Level → List Char → Prop where
  | nil {level : Level} : WellNested level []
  | char {level : Level} {c : Char} {text : List Char} (admitted : level.Admits c)
      (rest : WellNested level text) : WellNested level (c :: text)
  | angles {level : Level} {inner text : List Char} (outside : level ≠ .group)
      (content : WellNested .angles inner) (rest : WellNested level text) :
      WellNested level ('<' :: inner ++ '>' :: text)
  | group {level : Level} {opener closer : Char} {inner text : List Char}
      (pair : (opener, closer) ∈ brackets) (content : WellNested .group inner)
      (rest : WellNested level text) : WellNested level (opener :: inner ++ closer :: text)

/-- A well-nested text that can stand as a field: its commas are inside brackets. -/
def Fragment (text : List Char) : Prop :=
  WellNested .outside text

theorem WellNested.of_admits {level : Level} {text : List Char}
    (h : ∀ c ∈ text, level.Admits c) : WellNested level text := by
  induction text with
  | nil => exact .nil
  | cons c text ih =>
    exact .char (h c List.mem_cons_self) (ih fun d hd => h d (List.mem_cons_of_mem _ hd))

/-- The counters of the splitter inside a level. -/
def Level.Reads : Level → Nesting → Prop
  | .outside, n => n = .outside
  | .angles, n => n.groups = 0 ∧ n.angles ≠ 0
  | .group, n => n.groups ≠ 0

theorem Level.Reads.groups_eq_zero {level : Level} {n : Nesting} (h : level.Reads n)
    (houtside : level ≠ .group) : n.groups = 0 := by
  cases level with
  | outside => rw [show n = .outside from h]; rfl
  | angles => exact h.1
  | group => exact absurd rfl houtside

/-- A character that stands for itself moves no counter and ends no field. -/
theorem Level.Admits.passes {level : Level} {c : Char} {n : Nesting} (h : level.Admits c)
    (hn : level.Reads n) : n.Passes c := by
  obtain ⟨hplain, hcomma, hangle⟩ := h
  refine ⟨by simp_all, ?_, ?_⟩
  · intro hc
    obtain rfl := hangle hc
    exact hn
  · rintro hc rfl
    have hlevel := hcomma hc
    cases level with
    | outside => exact hlevel rfl
    | angles => exact hn.2 rfl
    | group => exact hn rfl

theorem mem_openers_closers {opener closer : Char} (h : (opener, closer) ∈ brackets) :
    opener ∈ ['(', '[', '{'] ∧ closer ∈ [')', ']', '}'] := by
  simp only [brackets, List.mem_cons, List.not_mem_nil, or_false, Prod.mk.injEq] at h
  rcases h with ⟨rfl, rfl⟩ | ⟨rfl, rfl⟩ | ⟨rfl, rfl⟩ <;> simp

/--
A well-nested text leaves the counters as it finds them.  The induction is on the
grammar; each group is read with one more bracket open, from where its closer
leads back.
-/
theorem Closes.append_wellNested {level : Level} {text : List Char} (h : WellNested level text)
    {n : Nesting} {rest : List Char} (hn : level.Reads n) (hrest : Closes n rest) :
    Closes n (text ++ rest) := by
  induction h generalizing n rest with
  | nil => exact hrest
  | char admitted _ ih => exact .plain (admitted.passes hn) (ih hn hrest)
  | @angles level inner text outside _ _ ihInner ihText =>
    obtain ⟨groups, open'⟩ := n
    obtain rfl : groups = 0 := hn.groups_eq_zero outside
    have hafter : Closes ⟨0, open' + 1⟩ ('>' :: (text ++ rest)) := .closeAngle (ihText hn hrest)
    have hinner := ihInner (n := ⟨0, open' + 1⟩) ⟨rfl, Nat.succ_ne_zero _⟩ hafter
    simpa using Closes.openAngle hinner
  | @group level opener closer inner text pair _ _ ihInner ihText =>
    obtain ⟨groups, open'⟩ := n
    obtain ⟨hopener, hcloser⟩ := mem_openers_closers pair
    have hafter : Closes ⟨groups + 1, open'⟩ (closer :: (text ++ rest)) :=
      .closer hcloser (fun _ => .inl (Nat.succ_ne_zero _)) (ihText hn hrest)
    have hinner := ihInner (n := ⟨groups + 1, open'⟩) (Nat.succ_ne_zero _) hafter
    simpa using Closes.opener hopener hinner

theorem Fragment.selfContained {text : List Char} (h : Fragment text) : SelfContained text := by
  have hclosed := Closes.append_wellNested h (n := .outside) rfl .done
  rwa [List.append_nil] at hclosed

theorem WellNested.nul_not_mem {level : Level} {text : List Char} (h : WellNested level text) :
    '\x00' ∉ text := by
  induction h with
  | nil => simp
  | char admitted _ ih =>
    have hne := admitted.1
    simp only [List.mem_cons, not_or] at hne ⊢
    exact ⟨fun hc => hne.2.2.2.2.2.2.1 hc.symm, ih⟩
  | angles _ _ _ ihInner ihText => simp [ihInner, ihText]
  | group pair _ _ ihInner ihText =>
    simp only [brackets, List.mem_cons, List.not_mem_nil, or_false, Prod.mk.injEq] at pair
    rcases pair with ⟨rfl, rfl⟩ | ⟨rfl, rfl⟩ | ⟨rfl, rfl⟩ <;> simp [ihInner, ihText]

/--
A signature that is written with well-nested types is read as it was written:
the name is trimmed, every type is trimmed and loses a `const …&` wrapper, and no
type is split, joined or dropped.
-/
theorem parse?_written_fragments (marker : Char) (name : String) (fragments : List String)
    (hmarker : IsMarker marker) (hname : IsName name)
    (hfragments : ∀ f ∈ fragments, Fragment f.toList) :
    parse? (written marker name fragments) = some
      { name := Text.trimmed name
        arguments :=
          let texts := fragments.map fun f => TypeText.stripConstRef (Text.trimmed f)
          if fragments = [] ∨ texts = [""] then [] else texts } := by
  refine parse?_written hmarker hname fun f hf => ?_
  exact ⟨(hfragments f hf).nul_not_mem, (hfragments f hf).selfContained⟩

-- The comma between the angle brackets and the angle bracket between the parentheses are no
-- separators, and the wrapper of the second type is taken off.
theorem parse?_written_fragments_moved :
    (IsMarker '2' ∧ IsName " moved " ∧
      ∀ f ∈ ["M<a,(b>c)> ", "const T &"], Fragment f.toList) ∧
    parse? (written '2' " moved " ["M<a,(b>c)> ", "const T &"]) =
      some ⟨"moved", ["M<a,(b>c)>", "T"]⟩ := by
  have hmarker : IsMarker '2' := ⟨by decide, by decide, by decide⟩
  have hname : IsName " moved " := ⟨by decide, by simp⟩
  have hgroup : WellNested .group "b>c".toList := .of_admits (by simp [Level.Admits])
  have hangles : WellNested .angles "a,(b>c)".toList :=
    .char (by decide) (.char (by decide) (.group (by decide) hgroup .nil))
  have hmap : Fragment "M<a,(b>c)> ".toList :=
    .char (by decide) (.angles (by decide) hangles (.char (by decide) .nil))
  have hplain : Fragment "const T &".toList := .of_admits (by simp [Level.Admits])
  have hfragments : ∀ f ∈ ["M<a,(b>c)> ", "const T &"], Fragment f.toList := by
    simpa using ⟨hmap, hplain⟩
  refine ⟨⟨hmarker, hname, hfragments⟩, ?_⟩
  rw [parse?_written_fragments '2' " moved " _ hmarker hname hfragments]
  decide +kernel

end SignalSlot.Signature
