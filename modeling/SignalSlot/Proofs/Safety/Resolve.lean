import SignalSlot.Proofs.Resolution.Outcome
import SignalSlot.Proofs.Safety.Reading
import SignalSlot.Proofs.Safety.Search
import SignalSlot.Proofs.Safety.Spelling

set_option autoImplicit false

/-!
# Resolving without a failing access

Resolving a unit once more, with every access checked: texts are read and
compared by the offsets of their bytes, tables are read through handles of 32
bits, and the counter of a search must not leave its range.

Each function here is followed by the lemma that says what it computes when the
handles that it is given point into the tables.  A use that is registered names a
method of the universe (`Recorder.Sound`), so its declaration can be spelled out
at the end.  `UnitFile.resolve_safe` puts the lemmas together: whatever a file
says, loading and resolving it never makes an access that fails.
-/

namespace SignalSlot

/-! ## Lists of checked computations -/

namespace Checked

variable {α β : Type} {items : List α}

theorem mapM_eq {f : α → Checked β} {g : α → β} (h : ∀ a ∈ items, f a = .ok (g a)) :
    items.mapM f = .ok (items.map g) := by
  induction items with
  | nil => rfl
  | cons a items ih =>
    rw [List.forall_mem_cons] at h
    rw [List.mapM_cons, h.1, ih h.2]
    rfl

theorem findM?_eq {p : α → Checked Bool} {q : α → Bool} (h : ∀ a ∈ items, p a = .ok (q a)) :
    items.findM? p = .ok (items.find? q) := by
  induction items with
  | nil => rfl
  | cons a items ih =>
    rw [List.forall_mem_cons] at h
    rw [List.findM?, h.1, List.find?_cons]
    cases q a with
    | true => rfl
    | false => exact ih h.2

theorem filterAuxM_eq {p : α → Checked Bool} {q : α → Bool} (h : ∀ a ∈ items, p a = .ok (q a))
    (kept : List α) : items.filterAuxM p kept = .ok ((items.filter q).reverse ++ kept) := by
  induction items generalizing kept with
  | nil => rfl
  | cons a items ih =>
    rw [List.forall_mem_cons] at h
    rw [List.filterAuxM, h.1, List.filter_cons]
    show items.filterAuxM p _ = _
    rw [ih h.2]
    cases q a <;> simp

theorem filterM_eq {p : α → Checked Bool} {q : α → Bool} (h : ∀ a ∈ items, p a = .ok (q a)) :
    items.filterM p = .ok (items.filter q) := by
  rw [List.filterM, filterAuxM_eq h, List.append_nil]
  show Except.ok (items.filter q).reverse.reverse = _
  rw [List.reverse_reverse]

/-- A loop whose steps succeed from states with a property and keep it. -/
theorem foldlM_eq {step : β → α → Checked β} {next : β → α → β} {P : β → Prop}
    (h : ∀ b, P b → ∀ a ∈ items, step b a = .ok (next b a) ∧ P (next b a)) {start : β}
    (hstart : P start) :
    items.foldlM step start = .ok (items.foldl next start) ∧ P (items.foldl next start) := by
  induction items generalizing start with
  | nil => exact ⟨rfl, hstart⟩
  | cons a items ih =>
    obtain ⟨hstep, hnext⟩ := h start hstart a List.mem_cons_self
    rw [List.foldlM_cons, hstep, List.foldl_cons]
    apply ih _ hnext
    intro b hb a' ha'
    exact h b hb a' (List.mem_cons_of_mem a ha')

end Checked

namespace Universe

/-! ## One candidate -/

/-- Whether a method accepts an argument at a position. -/
def acceptsChecked (u : Universe) (m : MethodId) (index : Nat) (argument : String) :
    Checked Bool := do
  let entry ← u.methodEntry m
  if entry.params.length < index + 1 then .ok false
  else
    match entry.params[index]? with
    | none => .ok false
    | some param => do
      let printed ← param.type.parameterTextChecked
      TypeText.spellsChecked argument printed

/-- Whether a method can be called with a number of arguments. -/
def acceptsCountChecked (u : Universe) (config : Config) (m : MethodId) (supplied : Nat) :
    Checked Bool := do
  let entry ← u.methodEntry m
  if entry.params.findIdx (·.hasDefault) ≤ supplied then .ok true
  else if entry.params.length = supplied + 1 then
    match entry.params[supplied]? with
    | none => .ok false
    | some param => do
      let printed ← param.type.printChecked .suppressed
      .ok (config.isSentinel (String.ofList printed))
  else .ok false

section

variable {u : Universe} {config : Config} {m : MethodId}

theorem acceptsChecked_eq (h : u.HasMethod m) (index : Nat) (argument : String) :
    u.acceptsChecked m index argument = .ok (u.accepts m index argument) := by
  obtain ⟨entry, _, hmethod, hentry⟩ := h.entry
  have htype : u.parameterType? m index = entry.params[index]?.map (·.type) := by
    rw [parameterType?, paramsOf, hmethod]
    rfl
  rw [acceptsChecked, hentry, accepts, rejection?, htype]
  show (if entry.params.length < index + 1 then _ else _) = _
  cases hparam : entry.params[index]? with
  | none =>
    have hlength := List.getElem?_eq_none_iff.1 hparam
    rw [if_pos (Nat.lt_succ_of_le hlength)]
    rfl
  | some param =>
    obtain ⟨hlength, _⟩ := List.getElem?_eq_some_iff.1 hparam
    rw [if_neg (Nat.not_lt.2 hlength)]
    simp only [TypeDesc.parameterTextChecked_eq, TypeText.spellsChecked_eq, bind, Except.bind,
      Option.map_some]
    cases TypeText.spells argument param.type.parameterText <;> rfl

theorem acceptsCountChecked_eq (h : u.HasMethod m) (supplied : Nat) :
    u.acceptsCountChecked config m supplied = .ok (u.acceptsCount config m supplied) := by
  obtain ⟨entry, _, hmethod, hentry⟩ := h.entry
  have hparams : u.paramsOf m = entry.params := by
    rw [paramsOf, hmethod]
    rfl
  rw [acceptsCountChecked, hentry, acceptsCount, minRequired, parameterCount, parameterType?,
    hparams]
  show (if entry.params.findIdx (·.hasDefault) ≤ supplied then _ else _) = _
  by_cases hrequired : entry.params.findIdx (·.hasDefault) ≤ supplied
  · rw [if_pos hrequired, decide_eq_true hrequired, Bool.true_or]
  rw [if_neg hrequired, decide_eq_false hrequired, Bool.false_or]
  by_cases hcount : entry.params.length = supplied + 1
  · rw [if_pos hcount, hcount, beq_self_eq_true, Bool.true_and]
    cases entry.params[supplied]? with
    | none => rfl
    | some param =>
      simp only [TypeDesc.printChecked_eq, bind, Except.bind]
      rfl
  · rw [if_neg hcount, beq_false_of_ne hcount, Bool.false_and]

end

/-! ## A signature -/

/-- Prunes candidates by the arguments from a position on. -/
def pruneChecked (u : Universe) :
    Nat → List String → List MethodId → Checked (Except Unresolved (List MethodId))
  | _, [], candidates => .ok (.ok candidates)
  | index, argument :: rest, candidates => do
    let remaining ← candidates.filterM fun m => u.acceptsChecked m index argument
    if remaining.isEmpty then .ok (.error (.argumentMismatch index))
    else u.pruneChecked (index + 1) rest remaining

/-- Resolves a signature on a class. -/
def resolveParsedChecked (u : Universe) (config : Config) (c : ClassId) (s : Signature) :
    Checked (Except Unresolved MethodId) := do
  let candidates ← u.searchChecked config c s.name
  if candidates.isEmpty then .ok (.error .noCandidates)
  else
    match ← u.pruneChecked 0 s.arguments candidates with
    | .error reason => .ok (.error reason)
    | .ok remaining =>
      match ← remaining.findM? fun m => u.acceptsCountChecked config m s.arguments.length with
      | some m => .ok (.ok m)
      | none => .ok (.error .arityMismatch)

/-- Resolves a signature text on a class. -/
def resolveTextChecked (u : Universe) (config : Config) (c : ClassId) (raw : String) :
    Checked (Except Unresolved MethodId) := do
  match ← Signature.readChecked raw with
  | some s => u.resolveParsedChecked config c s
  | none => .ok (.error .notASignature)

section

variable {u : Universe} {config : Config} {c : ClassId}

theorem pruneChecked_eq (index : Nat) (arguments : List String) {candidates : List MethodId}
    (h : ∀ m ∈ candidates, u.HasMethod m) :
    u.pruneChecked index arguments candidates = .ok (u.prune index arguments candidates).value := by
  induction arguments generalizing index candidates with
  | nil => rfl
  | cons argument rest ih =>
    have hfilter : (candidates.filterM fun m => u.acceptsChecked m index argument) =
        .ok (candidates.filter fun m => u.accepts m index argument) :=
      Checked.filterM_eq fun m hm => acceptsChecked_eq (h m hm) index argument
    rw [pruneChecked, hfilter, value_prune_cons]
    simp only [bind, Except.bind, List.isEmpty_iff]
    split
    · rfl
    · apply ih
      intro m hm
      exact h m (List.mem_of_mem_filter hm)

/-- What is left after pruning were candidates before. -/
theorem mem_of_prune {index : Nat} {arguments : List String} {candidates remaining : List MethodId}
    (h : candidates ≠ []) (hprune : (u.prune index arguments candidates).value = .ok remaining) :
    ∀ m ∈ remaining, m ∈ candidates := by
  intro m hm
  rcases u.prune_cases index arguments h with ⟨hok, _⟩ | ⟨_, _, _, _, herror, _⟩
  · rw [hok] at hprune
    obtain rfl := Except.ok.inj hprune
    exact List.mem_of_mem_filter hm
  · rw [herror] at hprune
    cases hprune

variable (hu : u.Sound) (hfits : u.classes.length ≤ UInt32.size) (hconfig : config.Countable)
  (hc : u.HasClass c)

include hu hfits hconfig hc

theorem resolveParsedChecked_eq (s : Signature) :
    u.resolveParsedChecked config c s = .ok (u.resolveParsed config c s).value := by
  obtain ⟨hsearch, hcandidates⟩ := searchChecked_eq hu hfits hconfig hc s.name
  rw [resolveParsedChecked, hsearch]
  simp only [bind, Except.bind, List.isEmpty_iff]
  split
  · rename_i hempty
    rw [resolveParsed_of_no_candidates hempty]
  · rename_i hsome
    rw [resolveParsed_of_candidates hsome, pruneChecked_eq 0 s.arguments hcandidates]
    cases hprune : (u.prune 0 s.arguments (u.candidates config c s.name)).value with
    | error reason => rfl
    | ok remaining =>
      -- Pruning only drops candidates, so what is left can be read as well.
      have hfind : (remaining.findM? fun m =>
          u.acceptsCountChecked config m s.arguments.length) =
          .ok (remaining.find? fun m => u.acceptsCount config m s.arguments.length) := by
        apply Checked.findM?_eq
        intro m hm
        exact acceptsCountChecked_eq (hcandidates m (mem_of_prune hsome hprune m hm)) _
      simp only [hfind, Except.bind]
      cases remaining.find? fun m => u.acceptsCount config m s.arguments.length <;> rfl

theorem resolveTextChecked_eq (raw : String) :
    u.resolveTextChecked config c raw = .ok (u.resolve config c raw).value := by
  rw [resolveTextChecked, Signature.readChecked_eq, resolve]
  cases Signature.parse? raw with
  | none => rfl
  | some s => exact resolveParsedChecked_eq hu hfits hconfig hc s

/-- A text that is resolved is resolved to a method of the universe. -/
theorem hasMethod_of_resolve {raw : String} {m : MethodId}
    (h : (u.resolve config c raw).value = .ok m) : u.HasMethod m := by
  unfold resolve at h
  cases hparse : Signature.parse? raw with
  | none =>
    rw [hparse] at h
    cases h
  | some s =>
    rw [hparse] at h
    have houtcome := u.outcome_resolveParsed config c s
    rw [h] at houtcome
    exact (searchChecked_eq hu hfits hconfig hc s.name).2 m houtcome.mem.1

end

/-! ## The two kinds of texts -/

/-- The literal of a signature operand, behind a flag-location call if there is one. -/
def signatureLiteralChecked (config : Config) :
    Operand ClassId → Checked (Option StringLiteral)
  | .literal literal => .ok (some literal)
  | .call callee args =>
    if callee = config.flagLocation ∧ args.length = 1 then do
      let argument ← Checked.get args 0
      .ok argument.literal?
    else .ok none
  | _ => .ok none

/-- The use made by a signature on an object, which may be a pointer or not. -/
def signalOrSlotChecked (u : Universe) (config : Config) (object method : Operand ClassId)
    (context : Option String) : Checked (Option (Use MethodId)) := do
  match object, ← signatureLiteralChecked config method with
  | .object (some c) _, some literal =>
    if literal.charWidth = 1 then do
      match ← u.resolveTextChecked config c literal.value with
      | .ok m =>
        .ok (some { declaration := m, range := (u.literalRange literal).value, context })
      | .error _ => .ok none
    else .ok none
  | _, _ => .ok none

/-- The use made by a bare method name on a pointer, when the name means one method. -/
def invokeMethodChecked (u : Universe) (config : Config) (object method : Operand ClassId)
    (context : Option String) : Checked (Option (Use MethodId)) :=
  match object, method with
  | .object (some c) true, .literal literal =>
    if literal.charWidth = 1 && !literal.value.isEmpty then do
      match ← u.searchChecked config c literal.value with
      | [m] => .ok (some { declaration := m, range := literal.range, context })
      | _ => .ok none
    else .ok none
  | _, _ => .ok none

section

variable {u : Universe} {config : Config} {object method : Operand ClassId}
  {context : Option String}

theorem signatureLiteralChecked_eq (config : Config) (operand : Operand ClassId) :
    signatureLiteralChecked config operand = .ok (signatureLiteral? config operand) := by
  rw [signatureLiteral?_eq]
  cases operand with
  | object ofClass pointer => rfl
  | literal value => rfl
  | other => rfl
  | call callee args =>
    match args with
    | [] => simp [signatureLiteralChecked, Operand.literal?, Operand.onlyArgument?]
    | [argument] =>
      by_cases hcallee : callee = config.flagLocation
      · simp [signatureLiteralChecked, Operand.literal?, Operand.onlyArgument?, hcallee,
          Checked.get, bind, Except.bind]
      · simp [signatureLiteralChecked, Operand.literal?, Operand.onlyArgument?, hcallee]
    | _ :: _ :: _ => simp [signatureLiteralChecked, Operand.literal?, Operand.onlyArgument?]

/-- A search that fails leaves a bare name without a result. -/
theorem invokeMethodChecked_of_error {c : ClassId} {literal : StringLiteral} {fault : AccessFault}
    (hnarrow : literal.charWidth = 1) (hname : literal.value.isEmpty = false)
    (h : u.searchChecked config c literal.value = .error fault) :
    u.invokeMethodChecked config (.object (some c) true) (.literal literal) context =
      .error fault := by
  simp only [invokeMethodChecked, hnarrow, hname, h, bind, Except.bind]
  rfl

/-- A checked computation of a use: it has the result, and a use is of a method of the universe. -/
structure Registers (u : Universe) (checked : Checked (Option (Use MethodId)))
    (use? : Option (Use MethodId)) : Prop where
  ok : checked = .ok use?
  declared : ∀ use, use? = some use → u.HasMethod use.declaration

theorem registers_none : u.Registers (.ok none) none := by
  refine ⟨rfl, ?_⟩
  intro use huse
  cases huse

theorem registers_some {use : Use MethodId} (h : u.HasMethod use.declaration) :
    u.Registers (.ok (some use)) (some use) := by
  refine ⟨rfl, ?_⟩
  intro other hother
  obtain rfl := Option.some.inj hother
  exact h

variable (hu : u.Sound) (hfits : u.classes.length ≤ UInt32.size) (hconfig : config.Countable)

include hu hfits hconfig

theorem registers_signalOrSlot (hobject : object.Sound u) :
    u.Registers (u.signalOrSlotChecked config object method context)
      (u.signalOrSlot config object method context).value := by
  unfold signalOrSlotChecked signalOrSlot
  rw [signatureLiteralChecked_eq]
  generalize signatureLiteral? config method = literal?
  match object, literal? with
  | .object (some c) pointer, some literal =>
    have hc : u.HasClass c := hobject c rfl
    by_cases hnarrow : literal.charWidth = 1
    · simp only [hnarrow, if_true, bind, Except.bind,
        resolveTextChecked_eq hu hfits hconfig hc literal.value]
      cases hresolved : (u.resolve config c literal.value).value with
      | error reason => exact registers_none
      | ok m => exact registers_some (hasMethod_of_resolve hu hfits hconfig hc hresolved)
    · simp only [hnarrow, if_false, bind, Except.bind]
      exact registers_none
  | .object (some c) pointer, none => exact registers_none
  | .object none pointer, _ => exact registers_none
  | .literal value, _ => exact registers_none
  | .call callee args, _ => exact registers_none
  | .other, _ => exact registers_none

/-- A bare name on a pointer: a single candidate is a method of the universe. -/
theorem registers_invokeMethod_literal {c : ClassId} (hc : u.HasClass c)
    (literal : StringLiteral) :
    u.Registers (u.invokeMethodChecked config (.object (some c) true) (.literal literal) context)
      (u.invokeMethod config (.object (some c) true) (.literal literal) context).value := by
  obtain ⟨hsearch, hcandidates⟩ := searchChecked_eq hu hfits hconfig hc literal.value
  unfold candidates at hsearch hcandidates
  unfold invokeMethodChecked invokeMethod
  by_cases haccepted : (literal.charWidth = 1 && !literal.value.isEmpty) = true
  · simp only [haccepted, if_true, hsearch, bind, Except.bind]
    rcases hfound : (u.search config c literal.value).value.found with _ | ⟨m, _ | ⟨m', rest⟩⟩
    · exact registers_none
    · rw [hfound] at hcandidates
      exact registers_some (hcandidates m List.mem_cons_self)
    · exact registers_none
  · simp only [haccepted]
    exact registers_none

theorem registers_invokeMethod (hobject : object.Sound u) :
    u.Registers (u.invokeMethodChecked config object method context)
      (u.invokeMethod config object method context).value := by
  -- Only a literal on a pointer to an object of a known class is looked up.
  match object, method with
  | .object (some c) true, .literal literal =>
    exact registers_invokeMethod_literal hu hfits hconfig (hobject c rfl) literal
  | .object (some c) true, .object _ _ => exact registers_none
  | .object (some c) true, .call _ _ => exact registers_none
  | .object (some c) true, .other => exact registers_none
  | .object (some c) false, _ => exact registers_none
  | .object none true, _ => exact registers_none
  | .object none false, _ => exact registers_none
  | .literal value, _ => exact registers_none
  | .call callee args, _ => exact registers_none
  | .other, _ => exact registers_none

end

/-! ## A call -/

/-- The use made by one submission of a call. -/
def submitChecked (u : Universe) (config : Config) (call : CallSite ClassId) (s : Submission) :
    Checked (Option (Use MethodId)) :=
  match call.operand? s.object, call.operand? s.method with
  | some object, some method =>
    match s.handler with
    | .signalOrSlot => u.signalOrSlotChecked config object method call.context
    | .invokeMethod => u.invokeMethodChecked config object method call.context
  | _, _ => .ok none

/-- Visits one submission of a call: its use, if it makes one, is recorded and counted. -/
def visitSubmissionChecked (u : Universe) (config : Config) (call : CallSite ClassId)
    (state : Recorder MethodId × Nat) (s : Submission) : Checked (Recorder MethodId × Nat) := do
  match ← u.submitChecked config call s with
  | some use => .ok (state.1.register use, state.2 + 1)
  | none => .ok state

/-- Visits the submissions of a call in order. -/
def visitChecked (u : Universe) (config : Config) (recorder : Recorder MethodId)
    (call : CallSite ClassId) : Checked (Recorder MethodId × Nat) :=
  if isCovered config call then
    call.submissions.foldlM (u.visitSubmissionChecked config call) (recorder, 0)
  else .ok (recorder, 0)

end Universe

/-- A recorder of uses of methods that a universe has. -/
def Recorder.Sound (u : Universe) (recorder : Recorder MethodId) : Prop :=
  ∀ use ∈ recorder.uses, u.HasMethod use.declaration

theorem Recorder.Sound.register {u : Universe} {recorder : Recorder MethodId}
    {use : Use MethodId} (h : recorder.Sound u) (huse : u.HasMethod use.declaration) :
    (recorder.register use).Sound u := by
  unfold Recorder.register
  split
  · exact h
  · intro other hother
    rcases List.mem_append.1 hother with hother | hother
    · exact h other hother
    · rw [List.mem_singleton] at hother
      rw [hother]
      exact huse

namespace Universe

section

variable {u : Universe} {config : Config} {call : CallSite ClassId}

variable (hu : u.Sound) (hfits : u.classes.length ≤ UInt32.size) (hconfig : config.Countable)
  (hcall : call.Sound u)

include hu hfits hconfig hcall

theorem registers_submit (s : Submission) :
    u.Registers (u.submitChecked config call s) (u.submit config call s).value := by
  unfold submitChecked submit
  cases hobject : call.operand? s.object with
  | none => exact registers_none
  | some object =>
    have hclass : object.Sound u := hcall s.object object hobject
    cases call.operand? s.method with
    | none => exact registers_none
    | some method =>
      cases s.handler with
      | signalOrSlot => exact registers_signalOrSlot hu hfits hconfig hclass
      | invokeMethod => exact registers_invokeMethod hu hfits hconfig hclass

theorem visitSubmissionChecked_eq {state : Recorder MethodId × Nat} (hstate : state.1.Sound u)
    (s : Submission) :
    u.visitSubmissionChecked config call state s =
        .ok (u.visitSubmission config Recorder.register call state s).value ∧
      (u.visitSubmission config Recorder.register call state s).value.1.Sound u := by
  have hsubmit := registers_submit hu hfits hconfig hcall s
  rw [visitSubmissionChecked, visitSubmission, hsubmit.ok, Traced.value_bind]
  simp only [bind, Except.bind]
  cases huse : (u.submit config call s).value with
  | none => exact ⟨rfl, hstate⟩
  | some use => exact ⟨rfl, hstate.register (hsubmit.declared use huse)⟩

/-- A call can be visited, and what is recorded are methods of the universe. -/
theorem visitChecked_eq {recorder : Recorder MethodId} (hrecorder : recorder.Sound u) :
    u.visitChecked config recorder call =
        .ok (u.visitInto config Recorder.register recorder call).value ∧
      (u.visitInto config Recorder.register recorder call).value.1.Sound u := by
  unfold visitChecked visitInto
  split
  · rw [Traced.value_foldlM]
    apply Checked.foldlM_eq (P := fun state : Recorder MethodId × Nat => state.1.Sound u)
    · intro state hstate s _
      exact visitSubmissionChecked_eq hu hfits hconfig hcall hstate s
    · exact hrecorder
  · exact ⟨rfl, hrecorder⟩

end

end Universe

/-! ## A unit -/

namespace BoundUnit

/-- Visits all calls in order, with one recorder. -/
def recordChecked (unit : BoundUnit) (config : Config) : Checked (Recorder MethodId) :=
  unit.calls.foldlM (fun recorder call => do
    let (recorder, _) ← unit.declarations.visitChecked config recorder call
    .ok recorder) .empty

/-- A use with its declaration spelled out. -/
def spellChecked (unit : BoundUnit) (use : Use MethodId) : Checked UseRecord := do
  let entry ← unit.declarations.methodEntry use.declaration
  let params ← entry.params.mapM fun p => p.type.printChecked .full
  let owner ← unit.declarations.classEntry entry.owner
  .ok { use with
    declaration := owner.name ++ "::" ++ entry.name.getD Universe.anonymous ++ "(" ++
      ", ".intercalate (params.map String.ofList) ++ ")" }

/-- The uses of a unit, each once, in the order in which they were first made. -/
def resolveChecked (unit : BoundUnit) (config : Config) : Checked (List UseRecord) := do
  let recorder ← unit.recordChecked config
  recorder.uses.mapM unit.spellChecked

variable {unit : BoundUnit} {config : Config}

theorem recordChecked_eq (h : unit.Sound) (hconfig : config.Countable) :
    unit.recordChecked config = .ok (unit.record config).value ∧
      (unit.record config).value.Sound unit.declarations := by
  unfold recordChecked record
  rw [Traced.value_foldlM]
  apply Checked.foldlM_eq
  · intro recorder hrecorder call hcall
    obtain ⟨hvisit, hnext⟩ :=
      Universe.visitChecked_eq h.declarations h.fits hconfig (h.calls call hcall) hrecorder
    rw [hvisit]
    exact ⟨rfl, hnext⟩
  · intro use huse
    cases huse

theorem spellChecked_eq (h : unit.Sound) {use : Use MethodId}
    (huse : unit.declarations.HasMethod use.declaration) :
    unit.spellChecked use = .ok (unit.spell use) := by
  obtain ⟨entry, hmem, hmethod, hentry⟩ := huse.entry
  have howner : unit.declarations.HasClass entry.owner := h.declarations.owners entry hmem
  obtain ⟨owner, _, hclass, hownerEntry⟩ := howner.entry
  have hparams : (entry.params.mapM fun p => p.type.printChecked .full) =
      .ok (entry.params.map fun p => p.type.text .full) := by
    apply Checked.mapM_eq
    intro p _
    exact p.type.printChecked_eq .full
  rw [spellChecked, hentry]
  simp only [bind, Except.bind, hparams, hownerEntry]
  rw [spell, Universe.qualifiedSignature, hmethod, Option.elim_some, Universe.signatureOf,
    Universe.className, hclass, Option.elim_some, List.map_map]
  rfl

/-- In a unit whose handles point into its tables, no access fails. -/
theorem resolveChecked_eq (h : unit.Sound) (hconfig : config.Countable) :
    unit.resolveChecked config = .ok (unit.resolve config) := by
  obtain ⟨hrecord, hrecorder⟩ := recordChecked_eq h hconfig
  rw [resolveChecked, hrecord]
  apply Checked.mapM_eq
  intro use huse
  exact spellChecked_eq h (hrecorder use huse)

end BoundUnit

namespace UnitFile

/--
Loading and resolving never makes an access that fails.  A file with fewer
classes and fewer methods than there are handles is loaded without a handle being
cut off.  If it is accepted, every handle that resolving follows points into its
table, every index into a text is inside it, every slice starts and ends where a
character starts or the text ends, and the counter of a search stays in its range:
the checked run has a result, which is the result of resolving.
-/
theorem resolve_safe (file : UnitFile) (config : Config)
    (hclasses : file.classes.length < UInt32.size)
    (hmethods : (file.classes.flatMap (·.methods)).length < UInt32.size)
    (hconfig : config.Countable) :
    file.load = file.bind ∧
      ∀ unit, file.load = .ok unit → unit.resolveChecked config = .ok (unit.resolve config) := by
  have hload : file.load = file.bind :=
    load_eq_bind (Nat.le_of_lt hclasses) (Nat.le_of_lt hmethods)
  refine ⟨hload, ?_⟩
  intro unit hunit
  rw [hload] at hunit
  have hfits : unit.declarations.classes.length ≤ UInt32.size := by
    rw [length_classes_of_bind hunit]
    exact Nat.le_of_lt hclasses
  exact BoundUnit.resolveChecked_eq (sound_of_bind hunit hfits) hconfig

/-- A moved point, with characters of several bytes around every place where a text is cut. -/
def movedPoint : UnitFile where
  classes := [
    { name := "Étude"
      methods := [
        { name := some "déplacé"
          params := [{ type := .constRef "Géo::Point<ß::Réel>" }] }] }]
  calls :=
    let slot := StringLiteral.narrow "1déplacé(Point<ß::Réel>)\x00é(" ⟨20, 50⟩
    [{ className := "QTimer"
       methodName := "singleShot"
       kind := .static
       declaredParams := 3
       args := [.other, .object (some "Étude") true, .literal slot] }]

theorem resolve_safe_movedPoint :
    movedPoint.classes.length < UInt32.size ∧
    (movedPoint.classes.flatMap (·.methods)).length < UInt32.size ∧
    Config.builtin.Countable ∧
    ∃ unit, movedPoint.load = .ok unit ∧
      unit.resolveChecked .builtin = .ok [
        { declaration := "Étude::déplacé(const Géo::Point<ß::Réel> &)", range := ⟨20, 50⟩ }] := by
  have hclasses : movedPoint.classes.length < UInt32.size := by decide
  have hmethods : (movedPoint.classes.flatMap (·.methods)).length < UInt32.size := by decide
  have hconfig : Config.builtin.Countable := by decide
  obtain ⟨hload, hsafe⟩ := resolve_safe movedPoint .builtin hclasses hmethods hconfig
  have hunit := hload.trans (movedPoint.bind_of_nodup (by decide))
  refine ⟨hclasses, hmethods, hconfig, _, hunit, ?_⟩
  rw [hsafe _ hunit]
  exact congrArg Except.ok (by decide +kernel)

end UnitFile

end SignalSlot
