import Mathlib.Data.List.Infix
import SignalSlot.Proofs.Signature.Written
import SignalSlot.TypeDesc

set_option autoImplicit false

/-!
# Scopes of names

With its scope suppressed, a type is printed with its outermost name, which is
what follows the last `::` outside every bracket.  Printing looks for the last
`::` in front of the first `<` instead and knows no other bracket.

Both are what follows the last `::` with a property of the text in front of it,
`AfterLastScope`.  `print_suppressed_iff` says for which names they are the same.
They are not for a scope behind template arguments, which is kept, and for a scope
inside the parameters of a function type, where the text is cut:
`print_suppressed_keeps_scope`.
-/

namespace SignalSlot.TypeDesc

/-! ## Nesting -/

/-- The brackets of names, each with its closer. -/
def nameBrackets : List (Char × Char) := ('<', '>') :: Signature.brackets

/-- Texts in which every bracket is closed by its own closer. -/
inductive Nested : List Char → Prop where
  | nil : Nested []
  | char {c : Char} {text : List Char} (plain : ∀ pair ∈ nameBrackets, c ≠ pair.1 ∧ c ≠ pair.2)
      (rest : Nested text) : Nested (c :: text)
  | group {opener closer : Char} {inner text : List Char} (pair : (opener, closer) ∈ nameBrackets)
      (content : Nested inner) (rest : Nested text) : Nested (opener :: inner ++ closer :: text)

theorem Nested.append {front back : List Char} (hfront : Nested front) (hback : Nested back) :
    Nested (front ++ back) := by
  induction hfront with
  | nil => exact hback
  | char plain _ ih => exact .char plain ih
  | @group opener closer inner text pair content _ _ ih =>
    have hgroup : Nested (opener :: inner ++ closer :: (text ++ back)) := .group pair content ih
    simpa using hgroup

/-! ## The last scope -/

/-- The `::` between two parts of a name is the last one whose front has a property. -/
structure IsLastScope (p : List Char → Prop) (name front back : List Char) : Prop where
  split : name = front ++ ':' :: ':' :: back
  holds : p front
  last : ∀ front' back', name = front' ++ ':' :: ':' :: back' → p front' →
    front'.length ≤ front.length

/-- No `::` of a name has a front with the property. -/
def NoScope (p : List Char → Prop) (name : List Char) : Prop :=
  ∀ front back, name = front ++ ':' :: ':' :: back → ¬ p front

/-- What follows the last `::` whose front has a property; the whole name if there is none. -/
def AfterLastScope (p : List Char → Prop) (name rest : List Char) : Prop :=
  (∃ front, IsLastScope p name front rest) ∨ (NoScope p name ∧ rest = name)

section

variable {p : List Char → Prop} {name front back rest : List Char}

/-- The parts around a `::` are known by the length of either one. -/
theorem scope_inj {front' back' : List Char}
    (h : front ++ ':' :: ':' :: back = front' ++ ':' :: ':' :: back')
    (hlength : front.length = front'.length) : front = front' ∧ back = back' := by
  obtain ⟨hfront, hback⟩ := List.append_inj h hlength
  exact ⟨hfront, by simpa using hback⟩

theorem IsLastScope.unique {front' back' : List Char} (h : IsLastScope p name front back)
    (h' : IsLastScope p name front' back') : front = front' ∧ back = back' := by
  refine scope_inj (h.split.symm.trans h'.split) (Nat.le_antisymm ?_ ?_)
  · exact h'.last _ _ h.split h.holds
  · exact h.last _ _ h'.split h'.holds

theorem AfterLastScope.unique {rest' : List Char} (h : AfterLastScope p name rest)
    (h' : AfterLastScope p name rest') : rest = rest' := by
  rcases h with ⟨front, h⟩ | ⟨hnone, rfl⟩ <;> rcases h' with ⟨front', h'⟩ | ⟨hnone', rfl⟩
  · exact (h.unique h').2
  · exact absurd h.holds (hnone' _ _ h.split)
  · exact absurd h'.holds (hnone _ _ h'.split)
  · rfl

/-- Where two properties of fronts give the same rest, they give the same scope or none. -/
theorem AfterLastScope.same {q : List Char → Prop} (hp : AfterLastScope p name rest)
    (hq : AfterLastScope q name rest) :
    (∃ front, IsLastScope p name front rest ∧ IsLastScope q name front rest) ∨
    (NoScope p name ∧ NoScope q name) := by
  have hshorter : ∀ front, name = front ++ ':' :: ':' :: rest → rest ≠ name := by
    rintro front rfl hwhole
    have hlength := congrArg List.length hwhole
    simp only [List.length_append, List.length_cons] at hlength
    omega
  rcases hp with ⟨front, hp⟩ | ⟨hnone, hwhole⟩ <;> rcases hq with ⟨front', hq⟩ | ⟨hnone', hwhole'⟩
  · obtain rfl : front = front' := List.append_cancel_right (hp.split.symm.trans hq.split)
    exact .inl ⟨front, hp, hq⟩
  · exact absurd hwhole' (hshorter front hp.split)
  · exact absurd hwhole (hshorter front' hq.split)
  · exact .inr ⟨hnone, hnone'⟩

/-- A `::` stands at the beginning of a text or in the rest of it. -/
theorem scope_cons_cases {c : Char} {text : List Char}
    (h : c :: text = front ++ ':' :: ':' :: back) :
    (front = [] ∧ c = ':' ∧ text = ':' :: back) ∨
    ∃ front', front = c :: front' ∧ text = front' ++ ':' :: ':' :: back := by
  cases front with
  | nil => exact .inl ⟨rfl, List.cons.inj h⟩
  | cons d front' =>
    obtain ⟨rfl, htext⟩ := List.cons.inj h
    exact .inr ⟨front', rfl, htext⟩

/-- The last `::` of the rest of a text is the last one of the text. -/
theorem IsLastScope.cons {c : Char} {text : List Char}
    (h : IsLastScope (fun front => p (c :: front)) text front back) :
    IsLastScope p (c :: text) (c :: front) back := by
  refine ⟨by rw [h.split, List.cons_append], h.holds, ?_⟩
  intro front' back' hsplit hp
  rcases scope_cons_cases hsplit with ⟨rfl, _⟩ | ⟨front', rfl, htext⟩
  · exact Nat.zero_le _
  · exact Nat.succ_le_succ (h.last front' back' htext hp)

/-- A `::` at the beginning of a text is the last one if there is none in the rest. -/
theorem isLastScope_nil (hrest : NoScope (fun front => p (':' :: front)) (':' :: rest))
    (hp : p []) : IsLastScope p (':' :: ':' :: rest) [] rest := by
  refine ⟨rfl, hp, ?_⟩
  intro front' back' hsplit hp'
  rcases scope_cons_cases hsplit with ⟨rfl, _⟩ | ⟨front', rfl, htext⟩
  · exact Nat.le_refl _
  · exact absurd hp' (hrest front' back' htext)

theorem NoScope.cons {c : Char} {text : List Char}
    (hrest : NoScope (fun front => p (c :: front)) text)
    (hfirst : ∀ back, c = ':' → text = ':' :: back → ¬ p []) : NoScope p (c :: text) := by
  intro front back hsplit hp
  rcases scope_cons_cases hsplit with ⟨rfl, hc, htext⟩ | ⟨front', rfl, htext⟩
  · exact hfirst back hc htext hp
  · exact hrest front' back htext hp

/-- Every name has an answer. -/
theorem exists_afterLastScope (p : List Char → Prop) (name : List Char) :
    ∃ rest, AfterLastScope p name rest := by
  induction name generalizing p with
  | nil => exact ⟨[], .inr ⟨fun front back h => by simp at h, rfl⟩⟩
  | cons c text ih =>
    obtain ⟨rest, ⟨front, hlast⟩ | ⟨hnone, _⟩⟩ := ih fun front => p (c :: front)
    · exact ⟨rest, .inl ⟨c :: front, hlast.cons⟩⟩
    · by_cases hfirst : ∃ back, c = ':' ∧ text = ':' :: back ∧ p []
      · obtain ⟨back, rfl, rfl, hp⟩ := hfirst
        exact ⟨back, .inl ⟨[], isLastScope_nil hnone hp⟩⟩
      · refine ⟨c :: text, .inr ⟨hnone.cons fun back hc htext hp => ?_, rfl⟩⟩
        exact hfirst ⟨back, hc, htext, hp⟩

end

/-! ## What is printed -/

/-- A text in front of the first `<`. -/
def BeforeAngles (front : List Char) : Prop := '<' ∉ front

theorem beforeAngles_cons {c : Char} (hc : c ≠ '<') :
    (fun front => BeforeAngles (c :: front)) = BeforeAngles := by
  funext front
  simp [BeforeAngles, Ne.symm hc]

/-- The scope that is looked for is the last one in front of the first `<`. -/
theorem afterLastScope?_spec (name : List Char) :
    (∀ rest, afterLastScope? name = some rest →
      ∃ front, IsLastScope BeforeAngles name front rest) ∧
    (afterLastScope? name = none → NoScope BeforeAngles name) := by
  fun_induction afterLastScope? name with
  | case1 =>
    exact ⟨fun rest h => by simp at h, fun _ front back h => by simp at h⟩
  | case2 text =>
    refine ⟨fun rest h => by simp at h, fun _ => NoScope.cons ?_ ?_⟩
    · intro front back _ hfront
      exact hfront List.mem_cons_self
    · intro back hc
      cases hc
  | case3 c text hc rest hrest ih =>
    refine ⟨fun found h => ?_, fun h => by cases h⟩
    obtain ⟨front, hlast⟩ := ih.1 rest hrest
    obtain rfl := Option.some.inj h
    rw [← beforeAngles_cons hc] at hlast
    exact ⟨c :: front, hlast.cons⟩
  | case4 rest hc hnone ih =>
    refine ⟨fun found h => ?_, fun h => by cases h⟩
    obtain rfl := Option.some.inj h
    have hrest := ih.2 hnone
    rw [← beforeAngles_cons hc] at hrest
    exact ⟨[], isLastScope_nil hrest List.not_mem_nil⟩
  | case5 c text hc hnone hscope ih =>
    refine ⟨fun found h => (nomatch h), fun _ => ?_⟩
    have hrest := ih.2 hnone
    rw [← beforeAngles_cons hc] at hrest
    exact hrest.cons fun back hcolon htext _ => hscope back hcolon htext

/-- The printed name is what follows the last scope in front of the first `<`. -/
theorem afterLastScope_unqualified (name : List Char) :
    AfterLastScope BeforeAngles name (unqualified name) := by
  unfold unqualified
  cases hfound : afterLastScope? name with
  | none => exact .inr ⟨(afterLastScope?_spec name).2 hfound, rfl⟩
  | some rest => exact .inl ((afterLastScope?_spec name).1 rest hfound)

/-- What follows the last scope outside every bracket has no scope outside every bracket. -/
theorem AfterLastScope.noScope {name rest : List Char} (h : AfterLastScope Nested name rest) :
    NoScope Nested rest := by
  rcases h with ⟨front, h⟩ | ⟨hnone, rfl⟩
  · intro front' back' hsplit hnested
    have hcolon : ∀ pair ∈ nameBrackets, ':' ≠ pair.1 ∧ ':' ≠ pair.2 := by decide
    have hlonger : Nested (front ++ ':' :: ':' :: front') :=
      h.holds.append (.char hcolon (.char hcolon hnested))
    have hle := h.last (front ++ ':' :: ':' :: front') back' (by simp [h.split, hsplit]) hlonger
    simp only [List.length_append, List.length_cons] at hle
    omega
  · exact hnone

/--
The printed name is the outermost one exactly when no scope outside every bracket
stands behind a `<`, and the last scope in front of the first `<` is outside every
bracket.
-/
theorem afterLastScope_nested_iff (name : List Char) :
    AfterLastScope Nested name (unqualified name) ↔
      (∀ front back, name = front ++ ':' :: ':' :: back → Nested front → BeforeAngles front) ∧
      (∀ front back, IsLastScope BeforeAngles name front back → Nested front) := by
  have hprinted := afterLastScope_unqualified name
  constructor
  · intro houter
    rcases hprinted.same houter with ⟨front, hlast, hlast'⟩ | ⟨hnone, hnone'⟩
    · constructor
      · intro front' back' hsplit hnested
        have hle := hlast'.last front' back' hsplit hnested
        have hshorter : front' <+: front :=
          List.prefix_of_prefix_length_le ⟨_, hsplit.symm⟩ ⟨_, hlast.split.symm⟩ hle
        exact fun hmem => hlast.holds (hshorter.subset hmem)
      · intro front' back' hother
        rw [(hother.unique hlast).1]
        exact hlast'.holds
    · constructor
      · intro front back hsplit hnested
        exact absurd hnested (hnone' front back hsplit)
      · intro front back hlast
        exact absurd hlast.holds (hnone front back hlast.split)
  · rintro ⟨hbefore, hnested⟩
    rcases hprinted with ⟨front, hlast⟩ | ⟨hnone, hwhole⟩
    · refine .inl ⟨front, hlast.split, hnested front _ hlast, ?_⟩
      intro front' back' hsplit hnested'
      exact hlast.last front' back' hsplit (hbefore front' back' hsplit hnested')
    · refine .inr ⟨?_, hwhole⟩
      intro front back hsplit hnested'
      exact hnone front back hsplit (hbefore front back hsplit hnested')

/-- Nothing from a `<` on is cut off. -/
theorem exists_unqualified_eq_append (head tail : List Char) :
    ∃ kept, unqualified (head ++ '<' :: tail) = kept ++ '<' :: tail := by
  rcases afterLastScope_unqualified (head ++ '<' :: tail) with ⟨front, hlast⟩ | ⟨_, hwhole⟩
  · have hsplit : head ++ '<' :: tail =
        (front ++ [':', ':']) ++ unqualified (head ++ '<' :: tail) := by
      simpa using hlast.split
    rcases List.append_eq_append_iff.1 hsplit with ⟨middle, hfront, htail⟩ | ⟨kept, _, hrest⟩
    · cases middle with
      | nil => exact ⟨[], htail.symm⟩
      | cons c middle =>
        -- The scope would reach behind the angle bracket.
        have hmem : '<' ∈ front ++ [':', ':'] := by
          rw [hfront, (List.cons.inj htail).1]
          simp
        have hbefore : '<' ∉ front := hlast.holds
        simp [hbefore] at hmem
    · exact ⟨kept, hrest⟩
  · exact ⟨head, hwhole⟩

theorem print_suppressed_eq_iff (ty : TypeDesc) (rest : List Char) :
    ty.print .suppressed = { ty with name := String.ofList rest }.print .full ↔
      unqualified ty.name.toList = rest := by
  unfold print
  constructor
  · intro h
    have htext := String.ofList_injective h
    simp only [text, nameText, String.toList_ofList] at htext
    exact List.append_cancel_left (List.append_cancel_right (List.append_cancel_right htext))
  · rintro rfl
    simp only [text, nameText, String.toList_ofList]

/--
Every name has exactly one outermost name, which follows its last scope outside
every bracket and has no such scope any more.  With its scope suppressed, a type
is printed with its outermost name exactly when no scope outside every bracket
stands behind a `<`, and the last scope in front of the first `<` is outside every
bracket.  What stands from a `<` on is printed in any case.
-/
theorem print_suppressed_iff (ty : TypeDesc) :
    (∃ rest, AfterLastScope Nested ty.name.toList rest ∧
      (∀ other, AfterLastScope Nested ty.name.toList other → other = rest) ∧
      NoScope Nested rest ∧
      (ty.print .suppressed = { ty with name := String.ofList rest }.print .full ↔
        (∀ front back, ty.name.toList = front ++ ':' :: ':' :: back → Nested front →
          BeforeAngles front) ∧
        (∀ front back, IsLastScope BeforeAngles ty.name.toList front back → Nested front))) ∧
    ∀ head tail, ty.name.toList = head ++ '<' :: tail →
      ∃ kept, ty.nameText .suppressed = kept ++ '<' :: tail := by
  constructor
  · obtain ⟨rest, hrest⟩ := exists_afterLastScope Nested ty.name.toList
    refine ⟨rest, hrest, fun other hother => hother.unique hrest, hrest.noScope, ?_⟩
    rw [print_suppressed_eq_iff, ← afterLastScope_nested_iff]
    constructor
    · rintro rfl
      exact hrest
    · intro hprinted
      exact hprinted.unique hrest
  · intro head tail hname
    rw [nameText, hname]
    exact exists_unqualified_eq_append head tail

/-! ## Names that keep or lose too much -/

theorem Nested.of_plain {text : List Char}
    (h : ∀ pair ∈ nameBrackets, pair.1 ∉ text ∧ pair.2 ∉ text) : Nested text := by
  induction text with
  | nil => exact .nil
  | cons c text ih =>
    simp only [List.mem_cons, not_or] at h
    refine .char (fun pair hpair => ?_) (ih fun pair hpair => ?_)
    · exact ⟨Ne.symm (h pair hpair).1.1, Ne.symm (h pair hpair).2.1⟩
    · exact ⟨(h pair hpair).1.2, (h pair hpair).2.2⟩

/-- As many brackets of a kind are closed as are opened. -/
theorem Nested.count_eq {text : List Char} (h : Nested text) :
    ∀ pair ∈ nameBrackets, text.count pair.1 = text.count pair.2 := by
  intro pair hpair
  induction h with
  | nil => rfl
  | char plain _ ih =>
    obtain ⟨hopener, hcloser⟩ := plain pair hpair
    rw [List.count_cons_of_ne hopener, List.count_cons_of_ne hcloser, ih]
  | @group opener closer inner text hgroup _ _ ihInner ihText =>
    -- A bracket of another kind counts on neither side.
    have hkinds : ∀ a ∈ nameBrackets, ∀ b ∈ nameBrackets,
        (a.1 = b.1 ↔ a.2 = b.2) ∧ a.1 ≠ b.2 ∧ a.2 ≠ b.1 := by decide
    obtain ⟨hsame, hopener, hcloser⟩ := hkinds _ hgroup _ hpair
    have hcount : (if opener = pair.1 then 1 else 0) = if closer = pair.2 then 1 else 0 := by
      simp only [hsame]
    simp only [List.cons_append, List.count_cons, List.count_append, ihInner, ihText, beq_iff_eq,
      if_neg hopener, if_neg hcloser, hcount]
    omega

/-- A scope with no colon behind it is the last one. -/
theorem isLastScope_of_not_mem {p : List Char → Prop} {front back : List Char} (hfront : p front)
    (hback : ':' ∉ back) : IsLastScope p (front ++ ':' :: ':' :: back) front back := by
  refine ⟨rfl, hfront, fun front' back' hsplit _ => Nat.le_of_not_lt fun hlt => ?_⟩
  rcases List.append_eq_append_iff.1 hsplit with ⟨middle, rfl, hmiddle⟩ | ⟨middle, rfl, _⟩
  · match middle with
    | [] => simp at hlt
    | [_] =>
      simp only [List.cons_append, List.nil_append, List.cons.injEq] at hmiddle
      exact hback (by simp [hmiddle.2.2])
    | _ :: _ :: middle =>
      simp only [List.cons_append, List.cons.injEq] at hmiddle
      exact hback (by simp [hmiddle.2.2])
  · rw [List.length_append] at hlt
    omega

-- Behind template arguments a scope is kept, and inside of parameters the text is cut at one.
theorem print_suppressed_keeps_scope :
    (Nested "QMap<int, int>::iterator".toList ∧
      AfterLastScope Nested "QMap<int, int>::iterator".toList "iterator".toList ∧
      (named "QMap<int, int>::iterator").print .suppressed = "QMap<int, int>::iterator") ∧
    Nested "void(*)(ns::Point)".toList ∧
      AfterLastScope Nested "void(*)(ns::Point)".toList "void(*)(ns::Point)".toList ∧
      (named "void(*)(ns::Point)").print .suppressed = "Point)" := by
  have hmap : Nested "QMap<int, int>".toList := by
    have htemplate : Nested "QMap".toList := .of_plain (by decide)
    have harguments : Nested "int, int".toList := .of_plain (by decide)
    have hgroup : Nested "<int, int>".toList := .group (by decide) harguments .nil
    exact htemplate.append hgroup
  have hlast : IsLastScope Nested "QMap<int, int>::iterator".toList "QMap<int, int>".toList
      "iterator".toList := isLastScope_of_not_mem hmap (by decide)
  have hfunction : Nested "void(*)(ns::Point)".toList := by
    have hresult : Nested "void".toList := .of_plain (by decide)
    have hpointer : Nested "*".toList := .of_plain (by decide)
    have hparameter : Nested "ns::Point".toList := .of_plain (by decide)
    have hgroups : Nested "(*)(ns::Point)".toList :=
      .group (by decide) hpointer (.group (by decide) hparameter .nil)
    exact hresult.append hgroups
  have hnone : NoScope Nested "void(*)(ns::Point)".toList := by
    -- The only scope has a parenthesis open in front of it.
    have hopen : ∀ front ∈ "void(*)(ns::Point)".toList.inits,
        front ++ [':', ':'] <+: "void(*)(ns::Point)".toList →
        front.count '(' ≠ front.count ')' := by decide
    intro front back hsplit hnested
    refine hopen front ((List.mem_inits _ _).2 ⟨_, hsplit.symm⟩) ⟨back, ?_⟩
      (hnested.count_eq ('(', ')') (by decide))
    rw [hsplit, List.append_assoc]
    rfl
  refine ⟨⟨?_, .inl ⟨_, hlast⟩, by decide +kernel⟩, hfunction, .inr ⟨hnone, rfl⟩, by decide +kernel⟩
  exact hmap.append (.of_plain (by decide) : Nested "::iterator".toList)

end SignalSlot.TypeDesc
