import SignalSlot.Signature

set_option autoImplicit false

/-!
# The grammar of argument lists

`Closes n text` says, one character at a time and without a splitter, that a
text read with the brackets of `n` open meets no separator outside every bracket
and leaves nothing open.  A field of a signature is a text that closes from the
outside.

The splitter `Fields.read?` is sound and complete for this grammar, with an
arbitrary rest behind the closing parenthesis: `Fields.read?_eq_some_iff`.  It
is a function, so a text has at most one list of fields.
-/

namespace SignalSlot.Signature

namespace Nesting

/-- A character that ends a field when nothing is open. -/
def Ends (n : Nesting) (c : Char) : Prop :=
  n = .outside ∧ (c = ',' ∨ c = ')')

/-- A character that moves no counter and ends no field. -/
def Passes (n : Nesting) (c : Char) : Prop :=
  c ∉ ['(', '[', '{', ')', ']', '}'] ∧ (c = '<' ∨ c = '>' → n.groups ≠ 0) ∧
    (c = ',' → n ≠ .outside)

end Nesting

/--
A text that is read from a nesting to its end with nothing left open, and that
meets no comma and no closing parenthesis while nothing is open.  Closers without
an opener leave their counter at zero, and angle brackets count only outside the
other brackets.
-/
inductive Closes : Nesting → List Char → Prop where
  | done : Closes ⟨0, 0⟩ []
  | opener {groups angles : Nat} {c : Char} {text : List Char}
      (kind : c ∈ ['(', '[', '{']) (rest : Closes ⟨groups + 1, angles⟩ text) :
      Closes ⟨groups, angles⟩ (c :: text)
  | closer {groups angles : Nat} {c : Char} {text : List Char}
      (kind : c ∈ [')', ']', '}']) (inside : c = ')' → groups ≠ 0 ∨ angles ≠ 0)
      (rest : Closes ⟨groups - 1, angles⟩ text) : Closes ⟨groups, angles⟩ (c :: text)
  | openAngle {angles : Nat} {text : List Char} (rest : Closes ⟨0, angles + 1⟩ text) :
      Closes ⟨0, angles⟩ ('<' :: text)
  | closeAngle {angles : Nat} {text : List Char} (rest : Closes ⟨0, angles - 1⟩ text) :
      Closes ⟨0, angles⟩ ('>' :: text)
  | plain {n : Nesting} {c : Char} {text : List Char} (passes : n.Passes c)
      (rest : Closes n text) : Closes n (c :: text)

/-- A text that can stand as one field of an argument list. -/
def SelfContained (field : List Char) : Prop :=
  Closes .outside field

/-! ## One character -/

namespace Nesting

theorem step_of_opener {n : Nesting} {c : Char} (kind : c ∈ ['(', '[', '{']) :
    n.step c = ⟨n.groups + 1, n.angles⟩ := by
  simp only [List.mem_cons, List.not_mem_nil, or_false] at kind
  simp [step, kind]

theorem step_of_closer {n : Nesting} {c : Char} (kind : c ∈ [')', ']', '}']) :
    n.step c = ⟨n.groups - 1, n.angles⟩ := by
  simp only [List.mem_cons, List.not_mem_nil, or_false] at kind
  rcases kind with rfl | rfl | rfl <;> simp [step]

theorem step_of_passes {n : Nesting} {c : Char} (h : n.Passes c) : n.step c = n := by
  obtain ⟨kind, angle, _⟩ := h
  simp only [List.mem_cons, List.not_mem_nil, or_false, not_or] at kind
  unfold step
  grind

end Nesting

/-- The first character of a text that closes ends no field, and the others close after it. -/
theorem Closes.of_cons {n : Nesting} {c : Char} {text : List Char} (h : Closes n (c :: text)) :
    ¬ n.Ends c ∧ Closes (n.step c) text := by
  cases h with
  | opener kind rest =>
    refine ⟨?_, by rwa [Nesting.step_of_opener kind]⟩
    rintro ⟨_, rfl | rfl⟩ <;> simp at kind
  | closer kind inside rest =>
    refine ⟨?_, by rwa [Nesting.step_of_closer kind]⟩
    rintro ⟨hn, rfl | rfl⟩
    · simp at kind
    · obtain ⟨rfl, rfl⟩ := Nesting.mk.inj hn
      simp at inside
  | openAngle rest => exact ⟨by simp [Nesting.Ends], by simpa [Nesting.step] using rest⟩
  | closeAngle rest => exact ⟨by simp [Nesting.Ends], by simpa [Nesting.step] using rest⟩
  | plain passes rest =>
    refine ⟨?_, by rwa [Nesting.step_of_passes passes]⟩
    rintro ⟨hn, rfl | rfl⟩
    · exact passes.2.2 rfl hn
    · exact passes.1 (by simp)

theorem Closes.cons {n : Nesting} {c : Char} {text : List Char} (hends : ¬ n.Ends c)
    (rest : Closes (n.step c) text) : Closes n (c :: text) := by
  obtain ⟨groups, angles⟩ := n
  -- Angle brackets inside a group move nothing, so they are left to the last case.
  by_cases hopen : c ∈ ['(', '[', '{']
  · exact .opener hopen (by rwa [Nesting.step_of_opener hopen] at rest)
  by_cases hclose : c ∈ [')', ']', '}']
  · refine .closer hclose ?_ (by rwa [Nesting.step_of_closer hclose] at rest)
    rintro rfl
    have hzero : ¬ (groups = 0 ∧ angles = 0) := by
      rintro ⟨rfl, rfl⟩
      exact hends ⟨rfl, .inr rfl⟩
    omega
  by_cases hless : c = '<' ∧ groups = 0
  · obtain ⟨rfl, rfl⟩ := hless
    exact .openAngle (by simpa [Nesting.step] using rest)
  by_cases hgreater : c = '>' ∧ groups = 0
  · obtain ⟨rfl, rfl⟩ := hgreater
    exact .closeAngle (by simpa [Nesting.step] using rest)
  · have passes : Nesting.Passes ⟨groups, angles⟩ c := by
      refine ⟨by simp_all, ?_, fun hc hn => hends ⟨hn, .inl hc⟩⟩
      rintro (rfl | rfl) hzero
      · exact hless ⟨rfl, hzero⟩
      · exact hgreater ⟨rfl, hzero⟩
    exact .plain passes (by rwa [Nesting.step_of_passes passes] at rest)

theorem closes_nil_iff {n : Nesting} : Closes n [] ↔ n = .outside := by
  constructor
  · intro h
    cases h
    rfl
  · rintro rfl
    exact .done

/-! ## Fields -/

namespace Fields

/-- The text of a list of fields, the parenthesis that ends it, and the rest. -/
def text (f : Fields) : List Char :=
  [','].intercalate f.all ++ ')' :: f.rest

@[simp] theorem text_empty (rest : List Char) : (⟨[], [], rest⟩ : Fields).text = ')' :: rest :=
  rfl

@[simp] theorem text_grow (c : Char) (f : Fields) : (f.grow c).text = c :: f.text := by
  cases hothers : f.others <;> simp [text, grow, all, List.intercalate, hothers]

@[simp] theorem text_separate (f : Fields) : f.separate.text = ',' :: f.text := by
  simp [text, separate, all, List.intercalate]

/-- The first field closes from a nesting, and every other one from the outside. -/
structure ClosesFrom (f : Fields) (n : Nesting) : Prop where
  first : Closes n f.first
  others : ∀ g ∈ f.others, SelfContained g

/-- What stands in front of the text of fields that close from a nesting: the
parenthesis that ends them, a comma in front of a further field, or a character
of the first field. -/
theorem ClosesFrom.cases {f : Fields} {n : Nesting} {c : Char} {rest : List Char}
    (h : f.ClosesFrom n) (htext : c :: rest = f.text) :
    (n = .outside ∧ c = ')' ∧ f = ⟨[], [], rest⟩) ∨
    (n = .outside ∧ c = ',' ∧ ∃ g : Fields, f = g.separate ∧ rest = g.text ∧
      g.ClosesFrom .outside) ∨
    (¬ n.Ends c ∧ ∃ g : Fields, f = g.grow c ∧ rest = g.text ∧ g.ClosesFrom (n.step c)) := by
  obtain ⟨first, others, after⟩ := f
  obtain ⟨hfirst, hothers⟩ := h
  cases first with
  | nil =>
    -- An empty first field closes from the outside only, so the character is a separator.
    have hn := closes_nil_iff.1 hfirst
    cases others with
    | nil =>
      rw [text_empty, List.cons.injEq] at htext
      exact .inl ⟨hn, htext.1, by rw [htext.2]⟩
    | cons second others =>
      let g : Fields := ⟨second, others, after⟩
      have hg : (⟨[], second :: others, after⟩ : Fields) = g.separate := rfl
      rw [hg, text_separate, List.cons.injEq] at htext
      have hclosed : g.ClosesFrom .outside :=
        ⟨hothers second (by simp), fun f hf => hothers f (List.mem_cons_of_mem _ hf)⟩
      exact .inr (.inl ⟨hn, htext.1, g, hg, htext.2, hclosed⟩)
  | cons d first =>
    let g : Fields := ⟨first, others, after⟩
    have hg : (⟨d :: first, others, after⟩ : Fields) = g.grow d := rfl
    rw [hg, text_grow, List.cons.injEq] at htext
    obtain ⟨rfl, hrest⟩ := htext
    obtain ⟨hends, hfirst⟩ := hfirst.of_cons
    exact .inr (.inr ⟨hends, g, hg, hrest, hfirst, hothers⟩)

theorem read?_sound {n : Nesting} {text : List Char} {f : Fields}
    (h : read? n text = some f) : text = f.text ∧ f.ClosesFrom n := by
  induction text generalizing n f with
  | nil => simp [read?] at h
  | cons c text ih =>
    rw [read?] at h
    split at h
    · rename_i hparen
      obtain ⟨rfl, rfl⟩ := hparen
      obtain rfl := Option.some.inj h
      exact ⟨rfl, .done, by simp⟩
    · rename_i hparen
      split at h
      · rename_i hcomma
        obtain ⟨rfl, rfl⟩ := hcomma
        obtain ⟨g, hg, rfl⟩ := Option.map_eq_some_iff.1 h
        obtain ⟨rfl, hclosed⟩ := ih hg
        refine ⟨(text_separate g).symm, .done, ?_⟩
        intro f hf
        rcases List.mem_cons.1 hf with rfl | hf
        · exact hclosed.first
        · exact hclosed.others f hf
      · rename_i hcomma
        obtain ⟨g, hg, rfl⟩ := Option.map_eq_some_iff.1 h
        obtain ⟨rfl, hclosed⟩ := ih hg
        have hends : ¬ n.Ends c := by
          rintro ⟨hn, rfl | rfl⟩
          · exact hcomma ⟨hn, rfl⟩
          · exact hparen ⟨hn, rfl⟩
        exact ⟨(text_grow c g).symm, .cons hends hclosed.first, hclosed.others⟩

theorem read?_complete {n : Nesting} {text : List Char} {f : Fields}
    (htext : text = f.text) (h : f.ClosesFrom n) : read? n text = some f := by
  induction text generalizing n f with
  | nil => simp [text] at htext
  | cons c text ih =>
    obtain ⟨rfl, rfl, rfl⟩ | ⟨rfl, rfl, g, rfl, hrest, hg⟩ | ⟨hends, g, rfl, hrest, hg⟩ :=
      h.cases htext
    · simp [read?]
    · simp [read?, ih hrest hg]
    · have hparen : ¬ (n = .outside ∧ c = ')') := fun hc => hends ⟨hc.1, .inr hc.2⟩
      have hcomma : ¬ (n = .outside ∧ c = ',') := fun hc => hends ⟨hc.1, .inl hc.2⟩
      rw [read?, if_neg hparen, if_neg hcomma, ih hrest hg, Option.map_some]

/-- The splitter finds exactly the fields that close from the nesting it starts
in and whose text it is given. -/
theorem read?_eq_some_iff {n : Nesting} {text : List Char} {f : Fields} :
    read? n text = some f ↔ text = f.text ∧ f.ClosesFrom n :=
  ⟨read?_sound, fun h => read?_complete h.1 h.2⟩

end Fields

/-- A text is self-contained when the splitter reads it, up to a parenthesis behind it, as one
field. -/
theorem selfContained_iff_read? {field : List Char} :
    SelfContained field ↔ Fields.read? .outside (field ++ [')']) = some ⟨field, [], []⟩ := by
  rw [Fields.read?_eq_some_iff]
  constructor
  · intro h
    exact ⟨by simp [Fields.text, Fields.all], h, by simp⟩
  · rintro ⟨_, h⟩
    exact h.first

instance (field : List Char) : Decidable (SelfContained field) :=
  decidable_of_iff _ selfContained_iff_read?.symm

end SignalSlot.Signature
