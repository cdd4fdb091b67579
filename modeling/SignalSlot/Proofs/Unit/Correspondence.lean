import Mathlib.Data.List.Forall2
import SignalSlot.Proofs.Resolution.Outcome
import SignalSlot.Proofs.Unit.Binding

set_option autoImplicit false

/-!
# Units that differ in their handles

Handles are positions, so two universes may declare the same things and refer to
all of them differently.  `Universe.Corresponds` relates the handles of two
universes by what a search asks about them, one question after the other.  Each
layer of the resolver is carried over in turn: the candidates of a name, the
answer to a signature, the uses of a call, and at the end the recorder, which
compares handles.

`BoundUnit.resolve_ofCalls` is the result: the calls of a file, bound to either
universe, are resolved to the same records.
-/

namespace SignalSlot

/-! ## Related options and lists -/

section Related

variable {α α' β β' : Type} {r : α → α' → Prop} {s : β → β' → Prop}

theorem rel_bind {x : Option α} {x' : Option α'} {f : α → Option β} {f' : α' → Option β'}
    (hx : Option.Rel r x x') (hf : ∀ a a', r a a' → Option.Rel s (f a) (f' a')) :
    Option.Rel s (x.bind f) (x'.bind f') := by
  cases hx with
  | none => exact .none
  | some h => exact hf _ _ h

theorem rel_refl (x : Option α) : Option.Rel (· = ·) x x := by
  cases x with
  | none => exact .none
  | some a => exact .some rfl

theorem rel_head? {items : List α} {items' : List α'} (h : List.Forall₂ r items items') :
    Option.Rel r items.head? items'.head? := by
  cases h with
  | nil => exact .none
  | cons h _ => exact .some h

/-- First elements are taken at the same places when keys agree at the same places. -/
theorem forall₂_firstsBy {κ κ' : Type} [DecidableEq κ] [DecidableEq κ'] {key : α → κ}
    {key' : α' → κ'}
    (hkey : ∀ a a' b b', r a a' → r b b' → (key a = key b ↔ key' a' = key' b'))
    {items : List α} {items' : List α'} (h : List.Forall₂ r items items') :
    List.Forall₂ r (firstsBy key items) (firstsBy key' items') := by
  induction h with
  | nil => exact .nil
  | cons ha _ ih =>
    refine .cons ha (List.rel_filter ?_ ih)
    intro b b' hb
    simpa using not_congr (hkey _ _ _ _ hb ha)

end Related

namespace Universe

/-! ## The relation -/

/-- The handles of two methods that, as accessors, point to related classes. -/
def SameTarget (u u' : Universe) (sameClass : ClassId → ClassId → Prop)
    (accessor accessor' : MethodId) : Prop :=
  Option.Rel sameClass (u.privateClass? accessor) (u'.privateClass? accessor')

/--
The handles of two universes stand for the same classes and methods: nothing that
a search or a report asks tells related handles apart.  Only methods that can be
found have to be related.
-/
structure Corresponds (config : Config) (u u' : Universe)
    (sameClass : ClassId → ClassId → Prop) (sameMethod : MethodId → MethodId → Prop) : Prop where
  classNamed? : ∀ name, Option.Rel sameClass (u.classNamed? name) (u'.classNamed? name)
  nextInChain? : ∀ {c c'}, sameClass c c' →
    Option.Rel sameClass (u.nextInChain? c) (u'.nextInChain? c')
  foundIn : ∀ {c c'}, sameClass c c' → ∀ name,
    List.Forall₂ sameMethod (u.foundIn name c) (u'.foundIn name c')
  accessorIn? : ∀ {c c'}, sameClass c c' →
    Option.Rel (SameTarget u u' sameClass) (u.accessorIn? config c) (u'.accessorIn? config c')
  paramsOf : ∀ {m m'}, sameMethod m m' → u.paramsOf m = u'.paramsOf m'
  qualifiedSignature : ∀ {m m'}, sameMethod m m' →
    u.qualifiedSignature m = u'.qualifiedSignature m'
  same_iff : ∀ {m m' n n'}, sameMethod m m' → sameMethod n n' → (m = n ↔ m' = n')
  expansions : u.expansions = u'.expansions
  tokenLengths : u.tokenLengths = u'.tokenLengths

/-- References to related methods at one range. -/
def SameReference (sameMethod : MethodId → MethodId → Prop)
    (reference reference' : MethodId × SourceRange) : Prop :=
  sameMethod reference.1 reference'.1 ∧ reference.2 = reference'.2

/-- The answer to a signature is the first candidate that accepts all arguments and their number. -/
theorem toOption_resolveParsed (u : Universe) (config : Config) (c : ClassId) (s : Signature) :
    (u.resolveParsed config c s).value.toOption =
      (((u.candidates config c s.name).filter (u.acceptsAll 0 s.arguments)).filter
        fun m => u.acceptsCount config m s.arguments.length).head? := by
  have htoOption : ∀ (r : Except Unresolved MethodId) (m : MethodId),
      r.toOption = some m ↔ r = .ok m := by
    intro r m
    cases r <;> simp [Except.toOption]
  ext m
  rw [htoOption, List.head?_filter, find?_filter_eq_some_iff]
  exact resolveParsed_eq_iff_outcome

section Corresponds

variable {config : Config} {u u' : Universe} {sameClass : ClassId → ClassId → Prop}
  {sameMethod : MethodId → MethodId → Prop}

/-! ## Searching -/

/-- The memories of two searches that went the same way. -/
structure Memory.Alike (u u' : Universe) (sameClass : ClassId → ClassId → Prop)
    (memory memory' : Memory) : Prop where
  found : memory.found = memory'.found
  accessor : Option.Rel (SameTarget u u' sameClass) memory.accessor memory'.accessor
  redirected : memory.redirected = memory'.redirected

/-- Examining related classes is remembered alike. -/
theorem Memory.Alike.examine {memory memory' : Memory}
    (hmemory : memory.Alike u u' sameClass memory')
    (h : Corresponds config u u' sameClass sameMethod) {c c' : ClassId} (hc : sameClass c c')
    (name : String) :
    (memory.examine u config name c).Alike u u' sameClass
      (memory'.examine u' config name c') := by
  refine ⟨?_, ?_, hmemory.redirected⟩
  · have hfound := h.foundIn hc name
    simp only [Memory.examine, hmemory.found]
    generalize u.foundIn name c = found, u'.foundIn name c' = found' at hfound
    cases hfound <;> rfl
  · simp only [Memory.examine, hmemory.redirected]
    split
    · exact hmemory.accessor
    · have haccessor := hmemory.accessor
      generalize memory.accessor = kept, memory'.accessor = kept' at haccessor
      cases haccessor with
      | none => exact h.accessorIn? hc
      | some htarget => exact .some htarget

namespace Corresponds

/--
Searches that stand at related classes find related methods.  The induction is on
the number of classes that may still be examined; the memories stay alike.
-/
theorem found_searchFrom (h : Corresponds config u u' sameClass sameMethod) (name : String)
    (start start' : ClassId) (left : Nat) {memory memory' : Memory}
    (hmemory : memory.Alike u u' sameClass memory') {current current' : Option ClassId}
    (hcurrent : Option.Rel sameClass current current') :
    List.Forall₂ sameMethod (u.searchFrom config name start left memory current).value.found
      (u'.searchFrom config name start' left memory' current').value.found := by
  induction left generalizing memory memory' current current' with
  | zero =>
    cases hcurrent with
    | none => exact .nil
    | some _ =>
      rw [searchFrom, searchFrom, found_cutOff, found_cutOff]
      exact .nil
  | succ left ih =>
    cases hcurrent with
    | none => exact .nil
    | @some c c' hc =>
      rw [value_searchFrom_succ, value_searchFrom_succ]
      refine List.rel_append (h.foundIn hc name) ?_
      have hexamined := hmemory.examine h hc name
      generalize memory.examine u config name c = seen,
        memory'.examine u' config name c' = seen' at hexamined
      have hnext := h.nextInChain? hc
      generalize u.nextInChain? c = next, u'.nextInChain? c' = next' at hnext
      cases hnext with
      | some hbase => exact ih hexamined (.some hbase)
      | none =>
        obtain ⟨found, accessor, redirected⟩ := seen
        obtain ⟨found', accessor', redirected'⟩ := seen'
        obtain ⟨rfl, haccessor, rfl⟩ := hexamined
        -- Both searches are over, or both follow the accessor that they remember.
        cases haccessor with
        | none => cases found <;> exact .nil
        | some htarget =>
          cases found with
          | true => exact .nil
          | false => exact ih ⟨rfl, .none, rfl⟩ htarget

theorem candidates (h : Corresponds config u u' sameClass sameMethod) {c c' : ClassId}
    (hc : sameClass c c') (name : String) :
    List.Forall₂ sameMethod (u.candidates config c name) (u'.candidates config c' name) := by
  unfold Universe.candidates
  rw [search_eq_searchFrom, search_eq_searchFrom]
  exact h.found_searchFrom name c c' _ ⟨rfl, .none, rfl⟩ (.some hc)

/-! ## Resolving -/

/-- Methods with the same parameters accept the same arguments. -/
theorem acceptsAll (h : Corresponds config u u' sameClass sameMethod) {m m' : MethodId}
    (hm : sameMethod m m') (index : Nat) (arguments : List String) :
    u.acceptsAll index arguments m = u'.acceptsAll index arguments m' := by
  rw [Bool.eq_iff_iff, acceptsAll_iff, acceptsAll_iff]
  simp only [accepts_iff, parameterType?, h.paramsOf hm]

theorem acceptsCount (h : Corresponds config u u' sameClass sameMethod) {m m' : MethodId}
    (hm : sameMethod m m') (supplied : Nat) :
    u.acceptsCount config m supplied = u'.acceptsCount config m' supplied := by
  rw [Bool.eq_iff_iff, ← callable_iff, ← callable_iff]
  simp only [Callable, minRequired, parameterCount, parameterType?, h.paramsOf hm]

theorem resolve (h : Corresponds config u u' sameClass sameMethod) {c c' : ClassId}
    (hc : sameClass c c') (raw : String) :
    Option.Rel sameMethod (u.resolve config c raw).value.toOption
      (u'.resolve config c' raw).value.toOption := by
  unfold Universe.resolve
  cases Signature.parse? raw with
  | none => exact .none
  | some s =>
    simp only [toOption_resolveParsed]
    refine rel_head? (List.rel_filter ?_ (List.rel_filter ?_ (h.candidates hc s.name)))
    · intro m m' hm
      exact Bool.eq_iff_iff.1 (h.acceptsCount hm _)
    · intro m m' hm
      exact Bool.eq_iff_iff.1 (h.acceptsAll hm 0 _)

/-- The place of a literal is a matter of the source map. -/
theorem value_literalRange (h : Corresponds config u u' sameClass sameMethod)
    (literal : StringLiteral) :
    (u.literalRange literal).value = (u'.literalRange literal).value := by
  have hexpansion : u.expansion = u'.expansion := by
    funext location
    rw [expansion, h.expansions, expansion]
  have htokenLength : u.tokenLength = u'.tokenLength := by
    funext location
    rw [tokenLength, h.tokenLengths, tokenLength]
  have hstringized : u.stringizedRange? = u'.stringizedRange? := by
    unfold stringizedRange?
    rw [hexpansion, htokenLength]
  unfold literalRange
  rw [hstringized]

/-! ## Uses -/

/-- A class name, bound to either universe. -/
theorem bindClass (h : Corresponds config u u' sameClass sameMethod) (name? : Option String) :
    Option.Rel sameClass (name?.bind u.classNamed?) (name?.bind u'.classNamed?) := by
  cases name? with
  | none => exact .none
  | some name => exact h.classNamed? name

theorem signatureUse? (h : Corresponds config u u' sameClass sameMethod)
    (object text : Operand String) :
    Option.Rel (SameReference sameMethod)
      (u.signatureUse? config (object.bind u.classNamed?) (text.bind u.classNamed?))
      (u'.signatureUse? config (object.bind u'.classNamed?) (text.bind u'.classNamed?)) := by
  unfold Universe.signatureUse?
  simp only [Operand.class?_bind, Operand.wrappedLiteral?_bind]
  refine rel_bind (h.bindClass object.class?) fun c c' hc => ?_
  refine rel_bind (rel_refl _) ?_
  rintro literal _ rfl
  refine rel_bind (rel_refl _) fun _ _ _ => ?_
  refine rel_bind (h.resolve hc literal.value) fun m m' hm => ?_
  exact .some ⟨hm, h.value_literalRange literal⟩

theorem invocationUse? (h : Corresponds config u u' sameClass sameMethod)
    (object text : Operand String) :
    Option.Rel (SameReference sameMethod)
      (u.invocationUse? config (object.bind u.classNamed?) (text.bind u.classNamed?))
      (u'.invocationUse? config (object.bind u'.classNamed?) (text.bind u'.classNamed?)) := by
  unfold Universe.invocationUse?
  simp only [Operand.pointedClass?_bind, Operand.literal?_bind]
  refine rel_bind (h.bindClass object.pointedClass?) fun c c' hc => ?_
  refine rel_bind (rel_refl _) ?_
  rintro literal _ rfl
  refine rel_bind (rel_refl _) fun _ _ _ => ?_
  have hcandidates := h.candidates hc literal.value
  generalize u.candidates config c literal.value = found,
    u'.candidates config c' literal.value = found' at hcandidates
  -- Only a single candidate makes a use, and there are as many on both sides.
  cases hcandidates with
  | nil => exact .none
  | cons hm hrest =>
    cases hrest with
    | nil => exact .some ⟨hm, rfl⟩
    | cons _ _ => exact .none

theorem submissionUse? (h : Corresponds config u u' sameClass sameMethod)
    (call : CallSite String) (s : Submission) :
    Option.Rel (SameReference sameMethod)
      (u.submissionUse? config (call.bind u.classNamed?) s)
      (u'.submissionUse? config (call.bind u'.classNamed?) s) := by
  unfold Universe.submissionUse?
  simp only [CallSite.operand?_bind]
  cases call.operand? s.object with
  | none => exact .none
  | some object =>
    cases call.operand? s.method with
    | none => exact .none
    | some text =>
      cases s.handler with
      | signalOrSlot => exact h.signatureUse? object text
      | invokeMethod => exact h.invocationUse? object text

theorem usesOf (h : Corresponds config u u' sameClass sameMethod) (call : CallSite String) :
    List.Forall₂ (SameReference sameMethod) (u.usesOf config (call.bind u.classNamed?))
      (u'.usesOf config (call.bind u'.classNamed?)) := by
  unfold Universe.usesOf
  rw [CallSite.submissions_bind, CallSite.submissions_bind]
  -- A bound call keeps the name of its class, so both are looked at or none is.
  show List.Forall₂ _ (if config.classFamily.toList <+: call.className.toList then _ else [])
    (if config.classFamily.toList <+: call.className.toList then _ else [])
  split
  · have hsubmissions : List.Forall₂ (· = ·) call.submissions call.submissions :=
      List.forall₂_refl _
    refine List.rel_filterMap ?_ hsubmissions
    rintro s _ rfl
    exact h.submissionUse? call s
  · exact .nil

end Corresponds

end Corresponds

end Universe

/-! ## Records -/

namespace BoundUnit

open Universe

/-- Uses of related methods that agree in everything else. -/
def SameUse (sameMethod : MethodId → MethodId → Prop) (use use' : Use MethodId) : Prop :=
  sameMethod use.declaration use'.declaration ∧
    use' = { use with declaration := use'.declaration }

section Corresponds

variable {config : Config} {u u' : Universe} {sameClass : ClassId → ClassId → Prop}
  {sameMethod : MethodId → MethodId → Prop}

theorem usesOfCalls_corresponds (h : Corresponds config u u' sameClass sameMethod)
    (calls : List (CallSite String)) :
    List.Forall₂ (SameUse sameMethod) ((ofCalls u calls).usesOfCalls config)
      ((ofCalls u' calls).usesOfCalls config) := by
  simp only [usesOfCalls, ofCalls, List.flatMap_map]
  have hcalls : List.Forall₂ (· = ·) calls calls := List.forall₂_refl _
  refine List.rel_flatMap hcalls ?_
  rintro call _ rfl
  refine List.rel_map ?_ (h.usesOf call)
  rintro ⟨m, range⟩ ⟨m', range'⟩ ⟨hm, hrange⟩
  obtain rfl : range = range' := hrange
  exact ⟨hm, rfl⟩

/-- Related uses are recorded as one exactly when their counterparts are. -/
theorem key_eq_iff (h : Corresponds config u u' sameClass sameMethod)
    {use use' other other' : Use MethodId} (huse : SameUse sameMethod use use')
    (hother : SameUse sameMethod other other') :
    use.key = other.key ↔ use'.key = other'.key := by
  have hsame := h.same_iff huse.1 hother.1
  rw [huse.2, hother.2]
  simp only [Use.key, Prod.mk.injEq, hsame]

/-- The calls of a file are resolved alike in universes that differ in their handles. -/
theorem resolve_ofCalls (h : Corresponds config u u' sameClass sameMethod)
    (calls : List (CallSite String)) :
    (ofCalls u calls).resolve config = (ofCalls u' calls).resolve config := by
  have hfirsts := forall₂_firstsBy (fun _ _ _ _ huse hother => key_eq_iff h huse hother)
    (usesOfCalls_corresponds h calls)
  rw [resolve_eq_firstsBy, resolve_eq_firstsBy, ← List.forall₂_eq_eq_eq]
  refine List.rel_map ?_ hfirsts
  intro use use' huse
  rw [huse.2]
  simp only [spell, ofCalls, h.qualifiedSignature huse.1]

end Corresponds

end BoundUnit

end SignalSlot
