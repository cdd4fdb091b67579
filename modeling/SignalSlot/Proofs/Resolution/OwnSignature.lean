import SignalSlot.Proofs.Resolution.Outcome
import SignalSlot.Proofs.Signature.Written

set_option autoImplicit false

/-!
# Methods by their own signatures

The signature of a declared method can be written from its name and the printed
types of its parameters.  Resolving that text on the class of the method finds
the method again, or an overload in front of it that the text means as well.

The steps are those of resolution: the text is read as it was written, the
methods of the class come first among the candidates, a printed type spells
itself, and a method can be called with as many arguments as it has parameters.
-/

namespace SignalSlot

/-! ## A text and itself -/

namespace TypeText

theorem agree_self (s : List UInt8) : agree s s = true := by
  induction s with
  | nil => simp [agree]
  | cons a s ih => simp [agree, ih]

/-- Every text spells itself. -/
theorem spells_self (text : String) : spells text text = true :=
  agree_self _

end TypeText

theorem TypeDesc.trimmed_parameterText (ty : TypeDesc) :
    Text.trimmed ty.parameterText = ty.parameterText := by
  simp [Text.trimmed, parameterText]

/-- Texts that are already trimmed and have no wrapper are the types they spell. -/
theorem Signature.spelledTypes_eq_self {fields : List String}
    (h : ∀ f ∈ fields, f ≠ "" ∧ Text.trimmed f = f ∧ TypeText.stripConstRef f = f) :
    spelledTypes fields = fields := by
  have htexts : (fields.map fun f => TypeText.stripConstRef (Text.trimmed f)) = fields := by
    rw [List.map_congr_left (g := id), List.map_id]
    intro f hf
    rw [(h f hf).2.1, (h f hf).2.2, id]
  have hsingle : fields ≠ [""] := by
    rintro rfl
    exact (h "" List.mem_cons_self).1 rfl
  simp only [spelledTypes, htexts, hsingle, or_false]
  split
  · rename_i hnone
    exact hnone.symm
  · rfl

/-- Where an element has a property, the first one that has it is that one or one in front. -/
theorem exists_isFirst {α : Type} {p : α → Prop} {a : α} (h : p a) (before after : List α) :
    ∃ b ∈ before ++ [a], IsFirst p (before ++ a :: after) b ∧ ((∀ x ∈ before, ¬ p x) → b = a) := by
  induction before with
  | nil => exact ⟨a, by simp, ⟨[], after, rfl, h, by simp⟩, fun _ => rfl⟩
  | cons x before ih =>
    by_cases hx : p x
    · refine ⟨x, by simp, ⟨[], before ++ a :: after, rfl, hx, by simp⟩, ?_⟩
      intro hnone
      exact absurd hx (hnone x List.mem_cons_self)
    · obtain ⟨b, hb, ⟨front, back, hsplit, hpb, hfront⟩, honly⟩ := ih
      refine ⟨b, List.mem_cons_of_mem _ hb, ⟨x :: front, back, ?_, hpb, ?_⟩, ?_⟩
      · rw [List.cons_append, hsplit, List.cons_append]
      · intro y hy
        rcases List.mem_cons.1 hy with rfl | hy
        · exact hx
        · exact hfront y hy
      · intro hnone
        exact honly fun y hy => hnone y (List.mem_cons_of_mem _ hy)

namespace Universe

/-! ## Signatures of declared methods -/

/-- The printed types of a method's parameters, in order. -/
def parameterTexts (u : Universe) (m : MethodId) : List String :=
  (u.paramsOf m).map fun p => p.type.parameterText

/-- The signature text of a method, written as that of a slot. -/
def ownSignature (u : Universe) (m : MethodId) (name : String) : String :=
  Signature.written '1' name (u.parameterTexts m)

/-- A method that a signature text can name: neither its name nor a printed type of its parameters
holds anything that reading takes for something else. -/
structure Nameable (u : Universe) (m : MethodId) (name : String) : Prop where
  name_eq : u.methodName? m = some name
  name_plain : Signature.IsName name
  name_trimmed : Text.trimmed name = name
  texts : ∀ t ∈ u.parameterTexts m, t ≠ "" ∧ '\x00' ∉ t.toList ∧
    Signature.SelfContained t.toList ∧ TypeText.stripConstRef t = t

/--
A method that the signature of `m` may mean: it has the same name and no fewer
parameters, the types of `m` spell its types, and it can be called with as many
arguments as `m` has parameters.
-/
structure ReadsAs (u : Universe) (config : Config) (m other : MethodId) : Prop where
  name_eq : u.methodName? other = u.methodName? m
  count_le : u.parameterCount m ≤ u.parameterCount other
  spelled : ∀ i ty otherTy, u.parameterType? m i = some ty →
    u.parameterType? other i = some otherTy →
    TypeText.spells ty.parameterText otherTy.parameterText = true
  callable : u.Callable config other (u.parameterCount m)

variable {u : Universe} {config : Config} {m other : MethodId} {name : String}

@[simp] theorem length_parameterTexts (u : Universe) (m : MethodId) :
    (u.parameterTexts m).length = u.parameterCount m := by
  simp [parameterTexts, parameterCount]

theorem getElem?_parameterTexts (u : Universe) (m : MethodId) (i : Nat) :
    (u.parameterTexts m)[i]? = (u.parameterType? m i).map TypeDesc.parameterText := by
  simp [parameterTexts, parameterType?, Function.comp_def]

/-- Fitting the texts of a method is having its parameters, each spelled by the text of that
method. -/
theorem fitsAll_parameterTexts_iff :
    u.FitsAll (u.parameterTexts m) other ↔
      u.parameterCount m ≤ u.parameterCount other ∧
        ∀ i ty otherTy, u.parameterType? m i = some ty → u.parameterType? other i = some otherTy →
          TypeText.spells ty.parameterText otherTy.parameterText = true := by
  unfold FitsAll FitsUpTo
  simp only [length_parameterTexts, getElem?_parameterTexts]
  constructor
  · intro h
    constructor
    · refine Nat.le_of_not_lt fun hlt => ?_
      exact Nat.lt_irrefl _ (h (u.parameterCount other) hlt).1
    · intro i ty otherTy hty hother
      have hi : i < u.parameterCount m := exists_parameterType?_iff.1 ⟨ty, hty⟩
      exact (h i hi).2 i (Nat.le_refl _) _ _ (by rw [hty]; rfl) hother
  · rintro ⟨hcount, hspelled⟩ i hi
    refine ⟨Nat.lt_of_lt_of_le hi hcount, ?_⟩
    intro j _ argument otherTy hargument hother
    obtain ⟨ty, hty, rfl⟩ := Option.map_eq_some_iff.1 hargument
    exact hspelled j ty otherTy hty hother

theorem readsAs_iff_suits :
    u.ReadsAs config m other ↔
      u.methodName? other = u.methodName? m ∧ u.Suits config (u.parameterTexts m) other := by
  rw [Suits, fitsAll_parameterTexts_iff, length_parameterTexts]
  constructor
  · intro h
    exact ⟨h.name_eq, ⟨h.count_le, h.spelled⟩, h.callable⟩
  · rintro ⟨hname, ⟨hcount, hspelled⟩, hcallable⟩
    exact ⟨hname, hcount, hspelled, hcallable⟩

/-- Every method may be meant by its own signature. -/
theorem ReadsAs.self (u : Universe) (config : Config) (m : MethodId) : u.ReadsAs config m m where
  name_eq := rfl
  count_le := Nat.le_refl _
  spelled := by
    intro i ty otherTy hty hother
    obtain rfl := Option.some.inj (hty.symm.trans hother)
    exact TypeText.spells_self _
  callable := .inl List.findIdx_le_length

/-! ## Reading and resolving -/

/-- The signature of a method is read as its name and the texts of its parameters. -/
theorem parse?_ownSignature (h : u.Nameable m name) :
    Signature.parse? (u.ownSignature m name) = some ⟨name, u.parameterTexts m⟩ := by
  have hmarker : Signature.IsMarker '1' := ⟨by decide, by decide, by decide⟩
  have htexts : Signature.spelledTypes (u.parameterTexts m) = u.parameterTexts m := by
    apply Signature.spelledTypes_eq_self
    intro t ht
    obtain ⟨hne, _, _, hstrip⟩ := h.texts t ht
    obtain ⟨p, _, rfl⟩ := List.mem_map.1 ht
    exact ⟨hne, p.type.trimmed_parameterText, hstrip⟩
  have hread := Signature.parse?_written hmarker h.name_plain fun t ht =>
    ⟨(h.texts t ht).2.1, (h.texts t ht).2.2.1⟩
  rwa [h.name_trimmed, htexts] at hread

/-- The methods of the class itself come first among the candidates. -/
theorem exists_candidates_eq_append {c : ClassId} (hlimit : 1 ≤ config.maxBaseDepth.toNat)
    (hdefined : u.isDefined c = true) (hsome : u.methodsNamed c name ≠ []) :
    ∃ rest, u.candidates config c name = u.methodsNamed c name ++ rest := by
  obtain ⟨limit, hsucc⟩ := Nat.exists_eq_add_of_le' hlimit
  have hdeclared : u.declared name ((u.chain c).take config.maxBaseDepth.toNat) =
      u.methodsNamed c name ++
        u.declared name ((u.chainFrom (u.nextInChain? c)).take limit) := by
    rw [hsucc, chain, chainFrom_some, Stream'.Seq.take_succ_cons, declared_cons, foundIn,
      if_pos hdefined]
  have hne : u.declared name ((u.chain c).take config.maxBaseDepth.toNat) ≠ [] := by
    rw [hdeclared]
    exact List.append_ne_nil_of_left_ne_nil hsome _
  exact ⟨_, (u.candidates_eq_declaredCandidates config c name).trans
    ((declaredCandidates_of_declared hne).trans hdeclared)⟩

/--
Resolving the signature of a declared method on its class answers, and with a
method of the class that the signature means and that is declared no later than
the method itself.  It is the method itself unless one in front of it is meant
as well.
-/
theorem resolve_ownSignature (u : Universe) (config : Config) (c : ClassId) (m : MethodId)
    (name : String) (before after : List MethodId) (hcountable : config.Countable)
    (hlimit : 1 ≤ config.maxBaseDepth.toNat) (hdefined : u.isDefined c = true)
    (hmethods : u.methodsOf c = before ++ m :: after) (hname : u.Nameable m name) :
    (u.search config c name).value.Answered ∧
    ∃ found, (u.resolve config c (u.ownSignature m name)).value = .ok found ∧
      found ∈ before ++ [m] ∧ u.ReadsAs config m found ∧
      ((∀ other ∈ before, ¬ u.ReadsAs config m other) → found = m) := by
  refine ⟨u.answered_search hcountable c name, ?_⟩
  let named : MethodId → Bool := fun x => u.methodName? x == some name
  have hnamed : u.methodsNamed c name = before.filter named ++ m :: after.filter named := by
    rw [methodsNamed, hmethods, List.filter_append, List.filter_cons_of_pos]
    simp [hname.name_eq]
  obtain ⟨rest, hcandidates⟩ : ∃ rest, u.candidates config c name = u.methodsNamed c name ++ rest :=
    exists_candidates_eq_append hlimit hdefined (by simp [hnamed])
  -- Among methods of the name, those that the texts suit are those that the signature may mean.
  have hsuits : ∀ x, named x = true →
      (u.Suits config (u.parameterTexts m) x ↔ u.ReadsAs config m x) := by
    intro x hx
    have hx : u.methodName? x = u.methodName? m := by
      rw [hname.name_eq]
      simpa [named] using hx
    rw [readsAs_iff_suits, and_iff_right hx]
  obtain ⟨found, hfound, hfirst, honly⟩ :=
    exists_isFirst (readsAs_iff_suits.1 (ReadsAs.self u config m)).2 (before.filter named)
      (after.filter named ++ rest)
  have hmem : found ∈ before ++ [m] ∧ named found = true := by
    rcases List.mem_append.1 hfound with hfound | hfound
    · exact ⟨List.mem_append_left _ (List.mem_filter.1 hfound).1, (List.mem_filter.1 hfound).2⟩
    · obtain rfl := List.mem_singleton.1 hfound
      exact ⟨by simp, by simp [named, hname.name_eq]⟩
  refine ⟨found, ?_, hmem.1, (hsuits found hmem.2).1 hfirst.mem.2, ?_⟩
  · rw [resolve, parse?_ownSignature hname]
    refine resolveParsed_eq_iff_outcome.2 ?_
    show IsFirst _ (u.candidates config c name) found
    rw [hcandidates, hnamed, List.append_assoc]
    exact hfirst
  · intro hnone
    refine honly fun x hx hsuit => ?_
    obtain ⟨hx, hxname⟩ := List.mem_filter.1 hx
    exact hnone x hx ((hsuits x hxname).1 hsuit)

/-- A gauge with three slots of one name; the second and the third take the same type, spelled in
two ways. -/
def gauge : Universe where
  classes := [⟨"Gauge", true, [], [⟨0⟩, ⟨1⟩, ⟨2⟩]⟩]
  methods := [⟨⟨0⟩, some "set", [{ type := .constRef "String" }], none⟩,
    ⟨⟨0⟩, some "set", [{ type := .named "uint" }], none⟩,
    ⟨⟨0⟩, some "set", [{ type := .named "unsigned int" }], none⟩]

-- The signature of the third slot means the second one as well, which is declared in front of it.
theorem resolve_ownSignature_gauge :
    (Config.builtin.Countable ∧ 1 ≤ Config.builtin.maxBaseDepth.toNat ∧
      gauge.isDefined ⟨0⟩ = true ∧ gauge.methodsOf ⟨0⟩ = [⟨0⟩, ⟨1⟩] ++ ⟨2⟩ :: [] ∧
      gauge.Nameable ⟨2⟩ "set") ∧
    gauge.ownSignature ⟨2⟩ "set" = "1set(unsigned int)" ∧
    (gauge.resolve .builtin ⟨0⟩ "1set(unsigned int)").value = .ok ⟨1⟩ ∧
    gauge.ReadsAs .builtin ⟨2⟩ ⟨1⟩ := by
  have hcountable : Config.builtin.Countable := by decide
  have hlimit : 1 ≤ Config.builtin.maxBaseDepth.toNat := by decide
  have hdefined : gauge.isDefined ⟨0⟩ = true := by decide
  have hmethods : gauge.methodsOf ⟨0⟩ = [⟨0⟩, ⟨1⟩] ++ ⟨2⟩ :: [] := by decide
  have hname : gauge.Nameable ⟨2⟩ "set" :=
    ⟨by decide, ⟨by decide, by simp⟩, by decide +kernel, by decide +kernel⟩
  have htext : gauge.ownSignature ⟨2⟩ "set" = "1set(unsigned int)" := by decide +kernel
  have hvalue : (gauge.resolve .builtin ⟨0⟩ "1set(unsigned int)").value = .ok ⟨1⟩ := by
    decide +kernel
  obtain ⟨_, found, hfound, _, hreads, _⟩ := resolve_ownSignature gauge .builtin ⟨0⟩ ⟨2⟩ "set"
    [⟨0⟩, ⟨1⟩] [] hcountable hlimit hdefined hmethods hname
  rw [htext, hvalue] at hfound
  obtain rfl := Except.ok.inj hfound
  exact ⟨⟨hcountable, hlimit, hdefined, hmethods, hname⟩, htext, hvalue, hreads⟩

end Universe

end SignalSlot
