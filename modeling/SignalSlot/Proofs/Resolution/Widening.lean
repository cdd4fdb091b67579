import SignalSlot.Proofs.Candidates.Counter
import SignalSlot.Proofs.Resolution.OwnSignature

set_option autoImplicit false

/-!
# Wider configurations

A configuration is wider than another one when it lets a search examine more
classes and lets a signature leave out more types.  A search with the wider one
goes through the states of the other search and then on, also where the other
one was cut off in front of a private implementation that it would have reached.
So its candidates begin with the other candidates.

`resolve_widened` carries this through resolution: a signature that resolves
still resolves, to the same method or, with further sentinels, to a candidate in
front of it.
-/

namespace SignalSlot

/--
A configuration that allows at least what another one allows: it names the same
accessor, its limit is no lower, and it has all the sentinels.
-/
structure Config.Widens (wider config : Config) : Prop where
  accessor_eq : wider.privateAccessor = config.privateAccessor
  depth_le : config.maxBaseDepth ≤ wider.maxBaseDepth
  sentinels_subset : config.sentinelTypes ⊆ wider.sentinelTypes

/-- A wider configuration that can be counted for leaves room for a narrower one. -/
theorem Config.Widens.countable {wider config : Config} (h : wider.Widens config)
    (hcountable : wider.Countable) : config.Countable := by
  have hdepth : config.maxBaseDepth.toNat ≤ wider.maxBaseDepth.toNat := h.depth_le
  unfold Config.Countable at hcountable ⊢
  omega

namespace Universe

variable {u : Universe} {wider config : Config} {name : String}

/-! ## The search goes on -/

/-- A class is examined in the same way: of the configuration only the accessor counts. -/
theorem Walk.examine_widened (h : wider.Widens config) (w : Walk) (c : ClassId) :
    w.examine u wider name c = w.examine u config name c := by
  have haccessor : wider.isPrivateAccessor u = config.isPrivateAccessor u := by
    funext m
    rw [Config.isPrivateAccessor, Config.isPrivateAccessor, h.accessor_eq]
  simp only [Walk.examine, Memory.examine, accessorIn?, haccessor]

/-- A step that is made below a limit is made below a higher one. -/
theorem Walk.step_widened (h : wider.Widens config) {w next : Walk}
    (hstep : w.step u config name = .ok next) : w.step u wider name = .ok next := by
  obtain ⟨c, hcurrent, hlimit, rfl⟩ := Walk.step_eq_ok_iff.1 hstep
  have hdepth : config.maxBaseDepth.toNat ≤ wider.maxBaseDepth.toNat := h.depth_le
  refine Walk.step_eq_ok_iff.2 ⟨c, hcurrent, Nat.lt_of_lt_of_le hlimit hdepth, ?_⟩
  rw [Walk.examine_widened h]

theorem Examines.widened (h : wider.Widens config) {w last : Walk} {classes : List ClassId}
    (hrun : u.Examines config name w classes last) : u.Examines wider name w classes last := by
  induction hrun with
  | refl w => exact .refl w
  | step hcurrent hstep _ ih => exact .step hcurrent (Walk.step_widened h hstep) ih

theorem Walk.found_examine (w : Walk) (c : ClassId) :
    (w.examine u config name c).found = (u.foundIn name c).reverse ++ w.found := by
  unfold Walk.examine
  cases u.nextInChain? c with
  | some base => rfl
  | none =>
    simp only [Walk.leaveChain]
    split <;> rfl

/-- A run keeps what was found before it. -/
theorem Examines.found_suffix {w last : Walk} {classes : List ClassId}
    (hrun : u.Examines config name w classes last) : w.found <:+ last.found := by
  induction hrun with
  | refl w => exact List.suffix_rfl
  | step _ hstep _ ih =>
    obtain ⟨c, _, _, rfl⟩ := Walk.step_eq_ok_iff.1 hstep
    rw [Walk.found_examine] at ih
    exact (List.suffix_append _ _).trans ih

/-- The candidates of a search are the first ones of every wider search. -/
theorem candidates_widened (h : wider.Widens config) (c : ClassId) (name : String) :
    u.candidates config c name <+: u.candidates wider c name := by
  obtain ⟨_, hrun, _⟩ := u.exists_examines_run config name (.begin c)
  -- The wider search passes through the last state of the other one.
  have hsame := (hrun.widened h).run_eq
  obtain ⟨_, hrest, _⟩ :=
    u.exists_examines_run wider name ((Walk.begin c).run u config name).1
  rw [← hsame] at hrest
  exact List.reverse_prefix.2 hrest.found_suffix

/-! ## The answer -/

/-- Further sentinels only let more methods be called. -/
theorem Suits.of_sentinels_subset (h : config.sentinelTypes ⊆ wider.sentinelTypes)
    {arguments : List String} {m : MethodId} (hsuits : u.Suits config arguments m) :
    u.Suits wider arguments m := by
  refine ⟨hsuits.1, hsuits.2.imp_right ?_⟩
  rintro ⟨hcount, ty, hty, hsentinel⟩
  exact ⟨hcount, ty, hty, h hsentinel⟩

/-- A signature that was read resolves with a wider configuration when it did without, to the
method itself or to one in front of it that needs a further sentinel. -/
theorem resolveParsed_widened (h : wider.Widens config) {c : ClassId} {s : Signature}
    {m : MethodId} (hresolved : (u.resolveParsed config c s).value = .ok m) :
    ∃ found before after, (u.resolveParsed wider c s).value = .ok found ∧
      u.candidates config c s.name = before ++ m :: after ∧ m ∉ before ∧
      (found = m ∨ found ∈ before) ∧
      (wider.sentinelTypes ⊆ config.sentinelTypes → found = m) := by
  obtain ⟨before, after, hcandidates, hsuits, hnone⟩ :=
    resolveParsed_eq_iff_outcome.1 hresolved
  obtain ⟨rest, hrest⟩ := u.candidates_widened h c s.name
  have hsuits' := hsuits.of_sentinels_subset h.sentinels_subset
  obtain ⟨found, hfound, hfirst, honly⟩ := exists_isFirst hsuits' before (after ++ rest)
  refine ⟨found, before, after, ?_, hcandidates, fun hm => hnone m hm hsuits, ?_, ?_⟩
  · refine resolveParsed_eq_iff_outcome.2 ?_
    show IsFirst _ (u.candidates wider c s.name) found
    rw [← hrest, hcandidates, List.append_assoc, List.cons_append]
    exact hfirst
  · rcases List.mem_append.1 hfound with hfound | hfound
    · exact .inr hfound
    · exact .inl (List.mem_singleton.1 hfound)
  · intro hsame
    exact honly fun x hx hsuit => hnone x hx (hsuit.of_sentinels_subset hsame)

/--
Resolution is monotone in the limit and in the sentinels.  Both searches have an
answer, and the candidates with the lower limit are the first ones with the
higher limit.  A signature text that resolves to a method resolves with the wider
configuration too, to that method or to a candidate in front of it, and to that
method if the sentinels are the same.
-/
theorem resolve_widened (u : Universe) (wider config : Config) (c : ClassId)
    (h : wider.Widens config) (hcountable : wider.Countable) :
    (∀ name, (u.search config c name).value.Answered ∧ (u.search wider c name).value.Answered ∧
      u.candidates config c name <+: u.candidates wider c name) ∧
    ∀ raw m, (u.resolve config c raw).value = .ok m →
      ∃ s found before after, Signature.parse? raw = some s ∧
        (u.resolve wider c raw).value = .ok found ∧
        u.candidates config c s.name = before ++ m :: after ∧ m ∉ before ∧
        (found = m ∨ found ∈ before) ∧
        (wider.sentinelTypes ⊆ config.sentinelTypes → found = m) := by
  constructor
  · intro name
    exact ⟨u.answered_search (h.countable hcountable) c name, u.answered_search hcountable c name,
      candidates_widened h c name⟩
  · intro raw m hresolved
    unfold resolve at hresolved ⊢
    cases hparse : Signature.parse? raw with
    | none =>
      rw [hparse] at hresolved
      cases hresolved
    | some s =>
      rw [hparse] at hresolved
      obtain ⟨found, before, after, hrest⟩ := resolveParsed_widened h hresolved
      exact ⟨s, found, before, after, rfl, hrest⟩

/-- A sensor with two signals of one name, the first of which has a tag as its last parameter, on
a device with a third one. -/
def sensor : Universe where
  classes := [⟨"Sensor", true, ["Device"], [⟨0⟩, ⟨1⟩]⟩, ⟨"Device", true, [], [⟨2⟩]⟩]
  methods := [⟨⟨0⟩, some "changed", [{ type := .named "Tag" }], none⟩,
    ⟨⟨0⟩, some "changed", [], none⟩, ⟨⟨1⟩, some "changed", [], none⟩]

/-- A configuration that lets a search examine one class. -/
def ownClassOnly : Config := { maxBaseDepth := 1 }

/-- A configuration with a higher limit and a further sentinel. -/
def withTag : Config := { sentinelTypes := ["QPrivateSignal", "Tag"], maxBaseDepth := 2 }

-- The base adds a candidate behind the others, and the tag lets the first one be called.
theorem resolve_widened_sensor :
    (withTag.Widens ownClassOnly ∧ withTag.Countable) ∧
    sensor.candidates ownClassOnly ⟨0⟩ "changed" <+: sensor.candidates withTag ⟨0⟩ "changed" ∧
    (sensor.resolve ownClassOnly ⟨0⟩ "2changed()").value = .ok ⟨1⟩ ∧
    (sensor.resolve withTag ⟨0⟩ "2changed()").value = .ok ⟨0⟩ ∧
    ∃ before after, sensor.candidates ownClassOnly ⟨0⟩ "changed" = before ++ ⟨1⟩ :: after ∧
      ⟨0⟩ ∈ before := by
  have hwidens : withTag.Widens ownClassOnly := ⟨rfl, by decide, by decide⟩
  have hcountable : withTag.Countable := by decide
  have hparse : Signature.parse? "2changed()" = some ⟨"changed", []⟩ := by decide +kernel
  have hnarrow : (sensor.resolve ownClassOnly ⟨0⟩ "2changed()").value = .ok ⟨1⟩ := by
    decide +kernel
  have hwide : (sensor.resolve withTag ⟨0⟩ "2changed()").value = .ok ⟨0⟩ := by
    decide +kernel
  obtain ⟨hsearch, hresolve⟩ := resolve_widened sensor withTag ownClassOnly ⟨0⟩ hwidens hcountable
  obtain ⟨s, found, before, after, hs, hfound, hsplit, _, hplace, _⟩ := hresolve _ _ hnarrow
  obtain rfl := Option.some.inj (hparse.symm.trans hs)
  obtain rfl := Except.ok.inj (hwide.symm.trans hfound)
  exact ⟨⟨hwidens, hcountable⟩, (hsearch "changed").2.2, hnarrow, hwide, before, after, hsplit,
    hplace.resolve_left (by decide)⟩

end Universe

end SignalSlot
