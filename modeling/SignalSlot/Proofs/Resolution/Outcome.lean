import Mathlib.Order.Bounds.Basic
import SignalSlot.Proofs.Candidates.Chain
import SignalSlot.Resolution

set_option autoImplicit false

/-!
# What resolving a signature answers

Resolution prunes the candidates argument by argument and stops when none is
left.  This file states the answer in one piece, over all candidates and all
arguments at once: which candidates fit the arguments up to a position, which
can be called with the number of arguments, and which of them comes first.

`prune_cases` carries the induction over the arguments.  The four outcomes are
told apart in `Outcome`, and they exclude each other: `Outcome.unique`.
-/

namespace SignalSlot

/-! ## First elements -/

/-- An element is the first of a list with a property. -/
def IsFirst {α : Type} (p : α → Prop) (items : List α) (a : α) : Prop :=
  ∃ before after, items = before ++ a :: after ∧ p a ∧ ∀ b ∈ before, ¬ p b

theorem IsFirst.mem {α : Type} {p : α → Prop} {items : List α} {a : α} (h : IsFirst p items a) :
    a ∈ items ∧ p a := by
  obtain ⟨before, after, rfl, ha, _⟩ := h
  exact ⟨by simp, ha⟩

theorem IsFirst.unique {α : Type} {p : α → Prop} {items : List α} {a b : α}
    (ha : IsFirst p items a) (hb : IsFirst p items b) : a = b := by
  classical
  have hfind : ∀ c, IsFirst p items c → items.find? (fun x => decide (p x)) = some c := by
    rintro c ⟨before, after, hitems, hc, hbefore⟩
    exact List.find?_eq_some_iff_append.2
      ⟨by simpa using hc, before, after, hitems, by simpa using hbefore⟩
  exact Option.some.inj ((hfind a ha).symm.trans (hfind b hb))

namespace Universe

/-! ## Fitting methods -/

/--
A method fits the arguments up to a position: it has more parameters than the
position, and each argument so far spells the printed type of its parameter.
-/
def FitsUpTo (u : Universe) (arguments : List String) (m : MethodId) (index : Nat) : Prop :=
  index < u.parameterCount m ∧
    ∀ j ≤ index, ∀ argument ty, arguments[j]? = some argument → u.parameterType? m j = some ty →
      TypeText.spells argument ty.parameterText = true

/-- A method fits every argument. -/
def FitsAll (u : Universe) (arguments : List String) (m : MethodId) : Prop :=
  ∀ index < arguments.length, u.FitsUpTo arguments m index

/--
A method can be called with a number of arguments: no parameter without a
default is left over, or the only one left over is the last and a sentinel.
-/
def Callable (u : Universe) (config : Config) (m : MethodId) (supplied : Nat) : Prop :=
  u.minRequired m ≤ supplied ∨
    (u.parameterCount m = supplied + 1 ∧
      ∃ ty, u.parameterType? m supplied = some ty ∧ ty.print .suppressed ∈ config.sentinelTypes)

/-- A method that a signature with these arguments may mean. -/
def Suits (u : Universe) (config : Config) (arguments : List String) (m : MethodId) : Prop :=
  u.FitsAll arguments m ∧ u.Callable config m arguments.length

/-- Whether a method accepts all arguments, counted from a position on. -/
def acceptsAll (u : Universe) (index : Nat) (arguments : List String) (m : MethodId) : Bool :=
  (arguments.zipIdx index).all fun p => u.accepts m p.2 p.1

theorem accepts_iff {u : Universe} {m : MethodId} {index : Nat} {argument : String} :
    u.accepts m index argument = true ↔
      ∃ ty, u.parameterType? m index = some ty ∧
        TypeText.spells argument ty.parameterText = true := by
  unfold accepts rejection?
  cases hty : u.parameterType? m index with
  | none => simp
  | some ty => cases hspells : TypeText.spells argument ty.parameterText <;> simp [hspells]

theorem exists_parameterType?_iff {u : Universe} {m : MethodId} {index : Nat} :
    (∃ ty, u.parameterType? m index = some ty) ↔ index < u.parameterCount m := by
  unfold parameterType? parameterCount
  rw [← Option.isSome_iff_exists]
  simp

theorem acceptsAll_iff {u : Universe} {index : Nat} {arguments : List String} {m : MethodId} :
    u.acceptsAll index arguments m = true ↔
      ∀ j argument, arguments[j]? = some argument → u.accepts m (index + j) argument = true := by
  unfold acceptsAll
  rw [List.all_eq_true]
  constructor
  · intro h j argument hj
    exact h (argument, index + j) (List.mk_add_mem_zipIdx_iff_getElem?.2 hj)
  · rintro h ⟨argument, k⟩ hk
    obtain ⟨hle, hk⟩ := List.mk_mem_zipIdx_iff_le_and_getElem?_sub.1 hk
    have := h (k - index) argument hk
    rwa [Nat.add_sub_cancel' hle] at this

/-- Fitting up to a position is accepting the arguments up to it. -/
theorem fitsUpTo_iff {u : Universe} {arguments : List String} {m : MethodId} {index : Nat}
    (h : index < arguments.length) :
    u.FitsUpTo arguments m index ↔
      ∀ j ≤ index, ∀ argument, arguments[j]? = some argument → u.accepts m j argument = true := by
  constructor
  · rintro ⟨hcount, hspells⟩ j hj argument hargument
    obtain ⟨ty, hty⟩ := exists_parameterType?_iff.2 (Nat.lt_of_le_of_lt hj hcount)
    exact accepts_iff.2 ⟨ty, hty, hspells j hj argument ty hargument hty⟩
  · intro haccepts
    constructor
    · have hindex := haccepts index (Nat.le_refl _) _ (List.getElem?_eq_getElem h)
      obtain ⟨ty, hty, _⟩ := accepts_iff.1 hindex
      exact exists_parameterType?_iff.1 ⟨ty, hty⟩
    · intro j hj argument ty hargument hty
      obtain ⟨ty', hty', hspells⟩ := accepts_iff.1 (haccepts j hj argument hargument)
      obtain rfl := Option.some.inj (hty.symm.trans hty')
      exact hspells

theorem fitsAll_iff {u : Universe} {arguments : List String} {m : MethodId} :
    u.FitsAll arguments m ↔ u.acceptsAll 0 arguments m = true := by
  simp only [acceptsAll_iff, Nat.zero_add]
  constructor
  · intro h j argument hj
    obtain ⟨hlength, _⟩ := List.getElem?_eq_some_iff.1 hj
    exact (fitsUpTo_iff hlength).1 (h j hlength) j (Nat.le_refl _) argument hj
  · intro h index hindex
    exact (fitsUpTo_iff hindex).2 fun j _ argument hargument => h j argument hargument

/-- A method that accepts the first arguments fits up to each position among them. -/
theorem fitsUpTo_of_acceptsAll {u : Universe} {before after : List String} {m : MethodId}
    (h : u.acceptsAll 0 before m = true) {index : Nat} (hindex : index < before.length) :
    u.FitsUpTo (before ++ after) m index := by
  rw [fitsUpTo_iff (by rw [List.length_append]; omega)]
  intro j hj argument hargument
  rw [List.getElem?_append_left (by omega)] at hargument
  have := acceptsAll_iff.1 h j argument hargument
  rwa [Nat.zero_add] at this

theorem acceptsAll_of_fitsUpTo {u : Universe} {before after : List String} {argument : String}
    {m : MethodId} (h : u.FitsUpTo (before ++ argument :: after) m before.length) :
    u.acceptsAll 0 (before ++ [argument]) m = true := by
  rw [fitsUpTo_iff (by simp)] at h
  rw [acceptsAll_iff]
  intro j given hgiven
  obtain ⟨hlength, _⟩ := List.getElem?_eq_some_iff.1 hgiven
  rw [List.length_append, List.length_singleton] at hlength
  rw [Nat.zero_add]
  refine h j (by omega) given ?_
  rw [← hgiven, List.append_cons before argument after]
  exact List.getElem?_append_left (by simpa using hlength)

theorem callable_iff {u : Universe} {config : Config} {m : MethodId} {supplied : Nat} :
    u.Callable config m supplied ↔ u.acceptsCount config m supplied = true := by
  unfold Callable acceptsCount
  cases hty : u.parameterType? m supplied <;> simp [Config.isSentinel]

/-! ## Pruning -/

@[simp] theorem filter_acceptsAll_nil (u : Universe) (index : Nat) (candidates : List MethodId) :
    candidates.filter (u.acceptsAll index []) = candidates :=
  List.filter_eq_self.2 fun _ _ => rfl

theorem filter_acceptsAll_cons (u : Universe) (index : Nat) (argument : String)
    (arguments : List String) (candidates : List MethodId) :
    candidates.filter (u.acceptsAll index (argument :: arguments)) =
      (candidates.filter fun m => u.accepts m index argument).filter
        (u.acceptsAll (index + 1) arguments) := by
  rw [List.filter_filter]
  refine List.filter_congr fun m _ => ?_
  rw [acceptsAll, List.zipIdx_cons, List.all_cons, Bool.and_comm]
  rfl

/-- One argument: pruning stops when no candidate accepts it, and goes on with those that do. -/
theorem value_prune_cons (u : Universe) (index : Nat) (argument : String)
    (arguments : List String) (candidates : List MethodId) :
    (u.prune index (argument :: arguments) candidates).value =
      if (candidates.filter fun m => u.accepts m index argument) = [] then
        .error (.argumentMismatch index)
      else
        (u.prune (index + 1) arguments
          (candidates.filter fun m => u.accepts m index argument)).value := by
  rw [prune]
  simp only [List.isEmpty_iff]
  split <;> rfl

/--
Pruning ends in one of two ways.  Either some candidates accept all arguments,
and exactly these are left, in order; or there is a first argument at which no
candidate is left that accepts it and all arguments before it.
-/
theorem prune_cases (u : Universe) (index : Nat) (arguments : List String)
    {candidates : List MethodId} (h : candidates ≠ []) :
    ((u.prune index arguments candidates).value =
        .ok (candidates.filter (u.acceptsAll index arguments)) ∧
      candidates.filter (u.acceptsAll index arguments) ≠ []) ∨
    ∃ before argument after, arguments = before ++ argument :: after ∧
      (u.prune index arguments candidates).value =
        .error (.argumentMismatch (index + before.length)) ∧
      candidates.filter (u.acceptsAll index before) ≠ [] ∧
      candidates.filter (u.acceptsAll index (before ++ [argument])) = [] := by
  induction arguments generalizing index candidates with
  | nil =>
    rw [filter_acceptsAll_nil]
    exact .inl ⟨rfl, h⟩
  | cons argument rest ih =>
    rw [value_prune_cons, filter_acceptsAll_cons]
    by_cases hempty : (candidates.filter fun m => u.accepts m index argument) = []
    · rw [if_pos hempty]
      refine .inr ⟨[], argument, rest, rfl, rfl, by rwa [filter_acceptsAll_nil], ?_⟩
      rw [List.nil_append, filter_acceptsAll_cons, hempty, List.filter_nil]
    · rw [if_neg hempty]
      obtain hok | ⟨before, last, after, hrest, herror, hsome, hnone⟩ :=
        ih (index + 1) hempty
      · exact .inl hok
      · refine .inr ⟨argument :: before, last, after, by rw [hrest]; rfl, ?_, ?_, ?_⟩
        · rw [herror, List.length_cons, Nat.add_right_comm, Nat.add_assoc]
        · rwa [filter_acceptsAll_cons]
        · rwa [List.cons_append, filter_acceptsAll_cons]

/-! ## The four outcomes -/

/--
The answers that candidates and arguments admit: there are no candidates; some
argument is the first up to which none fits; some fit all arguments and none of
these can be called; or a method is the first that fits and can be called.
-/
def Outcome (u : Universe) (config : Config) (candidates : List MethodId)
    (arguments : List String) : Except Unresolved MethodId → Prop
  | .ok m => IsFirst (u.Suits config arguments) candidates m
  | .error .notASignature => False
  | .error .noCandidates => candidates = []
  | .error (.argumentMismatch index) =>
    candidates ≠ [] ∧
      IsLeast {i | i < arguments.length ∧ ∀ m ∈ candidates, ¬ u.FitsUpTo arguments m i} index
  | .error .arityMismatch =>
    (∃ m ∈ candidates, u.FitsAll arguments m) ∧
      ∀ m ∈ candidates, u.FitsAll arguments m → ¬ u.Callable config m arguments.length

theorem suits_iff {u : Universe} {config : Config} {arguments : List String} {m : MethodId} :
    u.Suits config arguments m ↔
      (u.acceptsAll 0 arguments m && u.acceptsCount config m arguments.length) = true := by
  rw [Suits, fitsAll_iff, callable_iff, Bool.and_eq_true]

theorem find?_filter_eq_some_iff {u : Universe} {config : Config} {arguments : List String}
    {candidates : List MethodId} {m : MethodId} :
    ((candidates.filter (u.acceptsAll 0 arguments)).find?
        fun m => u.acceptsCount config m arguments.length) = some m ↔
      IsFirst (u.Suits config arguments) candidates m := by
  rw [List.find?_filter, List.find?_eq_some_iff_append]
  simp only [IsFirst, suits_iff]
  grind

theorem resolveParsed_of_no_candidates {u : Universe} {config : Config} {c : ClassId}
    {s : Signature} (h : u.candidates config c s.name = []) :
    (u.resolveParsed config c s).value = .error .noCandidates := by
  unfold candidates at h
  simp [resolveParsed, h]

/-- With candidates, the answer is that of pruning, followed by the search for one that can be
called. -/
theorem resolveParsed_of_candidates {u : Universe} {config : Config} {c : ClassId}
    {s : Signature} (h : u.candidates config c s.name ≠ []) :
    (u.resolveParsed config c s).value =
      (u.prune 0 s.arguments (u.candidates config c s.name)).value.bind fun remaining =>
        match remaining.find? fun m => u.acceptsCount config m s.arguments.length with
        | some m => .ok m
        | none => .error .arityMismatch := by
  unfold candidates at h ⊢
  simp only [resolveParsed, Traced.value_bind, List.isEmpty_iff, if_neg h]
  cases (u.prune 0 s.arguments (u.search config c s.name).value.found).value with
  | error reason => rfl
  | ok remaining =>
    simp only [Except.bind]
    cases remaining.find? fun m => u.acceptsCount config m s.arguments.length <;> rfl

theorem outcome_of_remaining {u : Universe} {config : Config} {candidates : List MethodId}
    {arguments : List String} (h : candidates.filter (u.acceptsAll 0 arguments) ≠ []) :
    u.Outcome config candidates arguments
      (match (candidates.filter (u.acceptsAll 0 arguments)).find?
          fun m => u.acceptsCount config m arguments.length with
        | some m => .ok m
        | none => .error .arityMismatch) := by
  split
  · rename_i m hfind
    exact find?_filter_eq_some_iff.1 hfind
  · rename_i hfind
    obtain ⟨m, hm⟩ := List.exists_mem_of_ne_nil _ h
    rw [List.mem_filter] at hm
    refine ⟨⟨m, hm.1, fitsAll_iff.2 hm.2⟩, ?_⟩
    intro m hm hfits hcallable
    have hmem := List.mem_filter.2 ⟨hm, fitsAll_iff.1 hfits⟩
    exact List.find?_eq_none.1 hfind m hmem (callable_iff.1 hcallable)

theorem outcome_of_mismatch {u : Universe} {config : Config} {candidates : List MethodId}
    {before after : List String} {argument : String}
    (hsome : candidates.filter (u.acceptsAll 0 before) ≠ [])
    (hnone : candidates.filter (u.acceptsAll 0 (before ++ [argument])) = []) :
    u.Outcome config candidates (before ++ argument :: after)
      (.error (.argumentMismatch before.length)) := by
  obtain ⟨m, hm⟩ := List.exists_mem_of_ne_nil _ hsome
  rw [List.mem_filter] at hm
  refine ⟨List.ne_nil_of_mem hm.1, ⟨by simp, ?_⟩, ?_⟩
  · intro m hm hfits
    exact List.filter_eq_nil_iff.1 hnone m hm (acceptsAll_of_fitsUpTo hfits)
  -- Up to each position in front of the mismatch, the candidate that is left there fits.
  · rintro index ⟨_, hindex⟩
    refine Nat.le_of_not_lt fun hlt => hindex m hm.1 ?_
    exact fitsUpTo_of_acceptsAll hm.2 hlt

/-- What resolution answers is one of the outcomes. -/
theorem outcome_resolveParsed (u : Universe) (config : Config) (c : ClassId) (s : Signature) :
    u.Outcome config (u.candidates config c s.name) s.arguments
      (u.resolveParsed config c s).value := by
  by_cases hempty : u.candidates config c s.name = []
  · rw [resolveParsed_of_no_candidates hempty]
    exact hempty
  · rw [resolveParsed_of_candidates hempty]
    obtain ⟨hok, hleft⟩ | ⟨before, argument, after, harguments, herror, hsome, hnone⟩ :=
      u.prune_cases 0 s.arguments hempty
    · rw [hok]
      exact outcome_of_remaining hleft
    · rw [herror, harguments, Nat.zero_add]
      exact outcome_of_mismatch hsome hnone

/-- How far a resolution came: to its candidates, its arguments, their number, or an answer. -/
def stage : Except Unresolved MethodId → Nat
  | .error .notASignature => 0
  | .error .noCandidates => 1
  | .error (.argumentMismatch _) => 2
  | .error .arityMismatch => 3
  | .ok _ => 4

/-- Candidates and arguments alone decide how far a resolution comes. -/
theorem Outcome.stage_eq {u : Universe} {config : Config} {candidates : List MethodId}
    {arguments : List String} {r : Except Unresolved MethodId}
    (h : u.Outcome config candidates arguments r) :
    (2 ≤ stage r ↔ candidates ≠ []) ∧
    (3 ≤ stage r ↔ ∃ m ∈ candidates, u.FitsAll arguments m) ∧
    (4 ≤ stage r ↔ ∃ m ∈ candidates, u.Suits config arguments m) ∧ 1 ≤ stage r ∧ stage r ≤ 4 := by
  have hsuits : ∀ m, u.Suits config arguments m → u.FitsAll arguments m := fun m hm => hm.1
  match r, h with
  | .ok m, h =>
    obtain ⟨hm, hsuit⟩ := h.mem
    simp only [stage]
    exact ⟨by simpa using List.ne_nil_of_mem hm, by simpa using ⟨m, hm, hsuit.1⟩,
      by simpa using ⟨m, hm, hsuit⟩, by simp, by simp⟩
  | .error .noCandidates, h =>
    subst h
    simp [stage]
  | .error (.argumentMismatch index), ⟨hne, ⟨hindex, hnone⟩, _⟩ =>
    have hfits : ∀ m ∈ candidates, ¬ u.FitsAll arguments m :=
      fun m hm hall => hnone m hm (hall index hindex)
    simp only [stage]
    exact ⟨by simpa using hne, by simpa using hfits,
      by simpa using fun m hm hsuit => hfits m hm (hsuits m hsuit), by simp, by simp⟩
  | .error .arityMismatch, ⟨⟨m, hm, hfits⟩, hnone⟩ =>
    simp only [stage]
    exact ⟨by simpa using List.ne_nil_of_mem hm, by simpa using ⟨m, hm, hfits⟩,
      by simpa using fun m hm hsuit => hnone m hm hsuit.1 hsuit.2, by simp, by simp⟩

/-- The outcomes exclude each other. -/
theorem Outcome.unique {u : Universe} {config : Config} {candidates : List MethodId}
    {arguments : List String} {r r' : Except Unresolved MethodId}
    (h : u.Outcome config candidates arguments r) (h' : u.Outcome config candidates arguments r') :
    r = r' := by
  have hstage : stage r = stage r' := by
    obtain ⟨h2, h3, h4, hlow, hhigh⟩ := h.stage_eq
    obtain ⟨h2', h3', h4', hlow', hhigh'⟩ := h'.stage_eq
    rw [← h2'] at h2
    rw [← h3'] at h3
    rw [← h4'] at h4
    omega
  -- With equal stages only answers of the same kind are left to compare.
  match r, r', h, h', hstage with
  | .ok m, .ok m', h, h', _ => rw [IsFirst.unique h h']
  | .error .noCandidates, .error .noCandidates, _, _, _ => rfl
  | .error (.argumentMismatch i), .error (.argumentMismatch j), h, h', _ =>
    rw [h.2.unique h'.2]
  | .error .arityMismatch, .error .arityMismatch, _, _, _ => rfl

theorem resolveParsed_eq_iff_outcome {u : Universe} {config : Config} {c : ClassId}
    {s : Signature} {r : Except Unresolved MethodId} :
    (u.resolveParsed config c s).value = r ↔
      u.Outcome config (u.candidates config c s.name) s.arguments r := by
  constructor
  · rintro rfl
    exact u.outcome_resolveParsed config c s
  · exact (u.outcome_resolveParsed config c s).unique

/--
Resolving a signature answers, and the answer and its reason are those of all
candidates and all arguments taken at once.  There is no other answer: a
signature that was read is never reported as unreadable.
-/
theorem resolveParsed_decides (u : Universe) (config : Config) (c : ClassId) (s : Signature)
    (h : config.Countable) :
    (u.search config c s.name).value.Answered ∧
    ((u.resolveParsed config c s).value = .error .noCandidates ↔
      u.candidates config c s.name = []) ∧
    (∀ index, (u.resolveParsed config c s).value = .error (.argumentMismatch index) ↔
      u.candidates config c s.name ≠ [] ∧
        IsLeast {i | i < s.arguments.length ∧
          ∀ m ∈ u.candidates config c s.name, ¬ u.FitsUpTo s.arguments m i} index) ∧
    ((u.resolveParsed config c s).value = .error .arityMismatch ↔
      (∃ m ∈ u.candidates config c s.name, u.FitsAll s.arguments m) ∧
        ∀ m ∈ u.candidates config c s.name, u.FitsAll s.arguments m →
          ¬ u.Callable config m s.arguments.length) ∧
    (∀ m, (u.resolveParsed config c s).value = .ok m ↔
      IsFirst (fun m => u.FitsAll s.arguments m ∧ u.Callable config m s.arguments.length)
        (u.candidates config c s.name) m) ∧
    (u.resolveParsed config c s).value ≠ .error .notASignature := by
  refine ⟨u.answered_search h c s.name, ?_, fun index => ?_, ?_, fun m => ?_, ?_⟩
  · exact resolveParsed_eq_iff_outcome
  · exact resolveParsed_eq_iff_outcome
  · exact resolveParsed_eq_iff_outcome
  · exact resolveParsed_eq_iff_outcome
  · intro hvalue
    exact resolveParsed_eq_iff_outcome.1 hvalue

/-- A counter with two slots of one name, of which the second takes a number. -/
def counter : Universe where
  classes := [⟨"Counter", true, [], [⟨0⟩, ⟨1⟩]⟩]
  methods := [⟨⟨0⟩, some "increment", [], none⟩,
    ⟨⟨0⟩, some "increment", [{ type := { name := "int" } }], none⟩]

-- The first candidate has no parameter for the argument, so the second one is the first that suits.
theorem resolveParsed_decides_counter :
    Config.builtin.Countable ∧
    (counter.search .builtin ⟨0⟩ "increment").value.Answered ∧
    (counter.resolveParsed .builtin ⟨0⟩ ⟨"increment", ["int"]⟩).value = .ok ⟨1⟩ ∧
    IsFirst (fun m => counter.FitsAll ["int"] m ∧ counter.Callable .builtin m 1)
      (counter.candidates .builtin ⟨0⟩ "increment") ⟨1⟩ := by
  have h : Config.builtin.Countable := by decide
  have hvalue : (counter.resolveParsed .builtin ⟨0⟩ ⟨"increment", ["int"]⟩).value = .ok ⟨1⟩ := by
    decide +kernel
  obtain ⟨hanswered, _, _, _, hresolved, _⟩ :=
    resolveParsed_decides counter .builtin ⟨0⟩ ⟨"increment", ["int"]⟩ h
  exact ⟨h, hanswered, hvalue, (hresolved ⟨1⟩).1 hvalue⟩

end Universe

end SignalSlot
