import Mathlib.Data.List.Sublists
import SignalSlot.Proofs.Candidates.Unrolled
import SignalSlot.Unit

set_option autoImplicit false

/-!
# The table of call patterns

Every rule of the table that matches a call fires, so what a call submits is
orderly only if rows of the table do not get in each other's way.  This file says
what a row must be like (`Pattern.WellFormed`) and when two rows may be about the
same callee (`Pattern.overlaps`).  That the table has only such rows, and no two
that overlap, is checked on the table itself; what follows for calls of any names
and any number of arguments is proved from that alone.

Every row is about classes of one family.  So the early refusal of other classes
changes nothing, neither for one call (`visitInto_family`) nor for a unit
(`record_family`).
-/

namespace SignalSlot

/-! ## Rows -/

/-- Whether some form of call is among those of both shapes. -/
def Shape.meets (s t : Shape) : Bool :=
  [CallKind.static, .member, .construct].any fun kind => s.accepts kind && t.accepts kind

theorem Shape.meets_of_accepts {s t : Shape} {kind : CallKind} (hs : s.accepts kind = true)
    (ht : t.accepts kind = true) : s.meets t = true := by
  rw [meets, List.any_eq_true]
  refine ⟨kind, ?_, by rw [hs, ht]; rfl⟩
  cases kind <;> decide

namespace ArgCount

/-- The least number of arguments that meets a condition. -/
def least : ArgCount → Nat
  | .atLeast n => n
  | .exactly n => n

/-- Whether no number of arguments meets both conditions. -/
def excludes : ArgCount → ArgCount → Bool
  | .atLeast _, .atLeast _ => false
  | .atLeast m, .exactly n => n < m
  | .exactly m, .atLeast n => m < n
  | .exactly m, .exactly n => m != n

theorem least_le {a : ArgCount} {count : Nat} (h : a.accepts count = true) : a.least ≤ count := by
  cases a with
  | atLeast n => exact of_decide_eq_true h
  | exactly n => exact (beq_iff_eq.1 h).ge

theorem excludes_eq_false {a b : ArgCount} {count : Nat} (ha : a.accepts count = true)
    (hb : b.accepts count = true) : a.excludes b = false := by
  cases a <;> cases b <;> simp_all [accepts, excludes]

end ArgCount

namespace Rule

/-- Whether no call fires both rules. -/
def excludes (r s : Rule) : Bool :=
  r.args.excludes s.args ||
    match r.declaredParams, s.declaredParams with
    | some m, some n => m != n
    | _, _ => false

theorem excludes_eq_false {κ : Type} {call : CallSite κ} {r s : Rule} (hr : r.fires call = true)
    (hs : s.fires call = true) : r.excludes s = false := by
  rw [fires, Bool.and_eq_true] at hr hs
  rw [excludes, ArgCount.excludes_eq_false hr.1 hs.1, Bool.false_or]
  split
  · rename_i m n hm hn
    rw [hm] at hr
    rw [hn] at hs
    have hsame : m = n := by
      rw [beq_iff_eq.1 hr.2, beq_iff_eq.1 hs.2]
    simp [hsame]
  · rfl

end Rule

/-- A submission of calls with a number of arguments: its text is one of them, and so is its object
unless it is the object that the call is made on. -/
def Submission.InRange (s : Submission) (count : Nat) : Prop :=
  (∃ i < count, s.method = .arg i) ∧ (s.object = .implicitObject ∨ ∃ i < count, s.object = .arg i)

instance (s : Submission) (count : Nat) : Decidable (s.InRange count) :=
  inferInstanceAs (Decidable (_ ∧ _))

theorem Submission.InRange.mono {s : Submission} {count more : Nat} (h : s.InRange count)
    (hle : count ≤ more) : s.InRange more := by
  obtain ⟨⟨i, hi, hmethod⟩, hobject⟩ := h
  refine ⟨⟨i, Nat.lt_of_lt_of_le hi hle, hmethod⟩, hobject.imp_right ?_⟩
  rintro ⟨j, hj, hobject⟩
  exact ⟨j, Nat.lt_of_lt_of_le hj hle, hobject⟩

/-- At most two submissions, of different texts. -/
def FewAndDistinct (submissions : List Submission) : Prop :=
  submissions.length ≤ 2 ∧ (submissions.map (·.method)).Nodup

instance (submissions : List Submission) : Decidable (FewAndDistinct submissions) :=
  inferInstanceAs (Decidable (_ ∧ _))

namespace Pattern

/-- Whether two patterns may be about the same callee. -/
def overlaps (p q : Pattern) : Bool :=
  p.shape.meets q.shape && p.classes.any q.classes.contains &&
    (p.shape == .construct || q.shape == .construct || p.method == q.method)

/-- What a row of the table must be like. -/
structure WellFormed (p : Pattern) : Prop where
  /-- The row is about classes of the family. -/
  family : ∀ name ∈ p.classes, "Q".toList <+: name.toList
  /-- A rule submits only arguments that a call has when it fires. -/
  inRange : ∀ r ∈ p.rules, ∀ s ∈ r.submit, s.InRange r.args.least
  /-- Rules that a call may fire together make few submissions, and different ones. -/
  together : ∀ rules ∈ p.rules.sublists, rules.Pairwise (fun r s => r.excludes s = false) →
    FewAndDistinct (rules.flatMap (·.submit))

instance (p : Pattern) : Decidable p.WellFormed :=
  decidable_of_iff
    ((∀ name ∈ p.classes, "Q".toList <+: name.toList) ∧
      (∀ r ∈ p.rules, ∀ s ∈ r.submit, s.InRange r.args.least) ∧
      ∀ rules ∈ p.rules.sublists, rules.Pairwise (fun r s => r.excludes s = false) →
        FewAndDistinct (rules.flatMap (·.submit)))
    ⟨fun ⟨family, inRange, together⟩ => ⟨family, inRange, together⟩,
      fun h => ⟨h.family, h.inRange, h.together⟩⟩

theorem wellFormed_of_mem_patterns : ∀ p ∈ patterns, p.WellFormed := by
  decide +kernel

theorem pairwise_patterns : patterns.Pairwise fun p q => p.overlaps q = false := by
  decide +kernel

/-- Patterns that are about the same callee overlap. -/
theorem overlaps_of_covers {κ : Type} {call : CallSite κ} {p q : Pattern}
    (hp : p.covers call = true) (hq : q.covers call = true) : p.overlaps q = true := by
  simp only [covers, Bool.and_eq_true, Bool.or_eq_true, beq_iff_eq] at hp hq
  obtain ⟨⟨hpshape, hpclass⟩, hpmethod⟩ := hp
  obtain ⟨⟨hqshape, hqclass⟩, hqmethod⟩ := hq
  have hclass : p.classes.any q.classes.contains = true :=
    List.any_eq_true.2 ⟨call.className, List.contains_iff_mem.1 hpclass, hqclass⟩
  simp only [overlaps, Shape.meets_of_accepts hpshape hqshape, hclass, Bool.true_and,
    Bool.or_eq_true, beq_iff_eq]
  rcases hpmethod with hconstruct | hpname
  · exact .inl (.inl hconstruct)
  · rcases hqmethod with hconstruct | hqname
    · exact .inl (.inr hconstruct)
    · exact .inr (hpname.trans hqname.symm)

end Pattern

/-! ## What a call submits -/

namespace CallSite

open Pattern

variable {κ : Type} (call : CallSite κ)

/-- At most one row of the table is about a call. -/
theorem length_covering_le_one : (patterns.filter (·.covers call)).length ≤ 1 := by
  have hpairwise := pairwise_patterns.filter (·.covers call)
  have hcovers : ∀ p ∈ patterns.filter (·.covers call), p.covers call = true := by
    intro p hp
    exact (List.mem_filter.1 hp).2
  generalize patterns.filter (·.covers call) = rows at hpairwise hcovers ⊢
  rcases rows with _ | ⟨p, _ | ⟨q, rest⟩⟩
  · exact Nat.zero_le 1
  · exact Nat.le_refl 1
  · have happart := (List.pairwise_cons.1 hpairwise).1 q List.mem_cons_self
    have hoverlap := overlaps_of_covers (hcovers p List.mem_cons_self)
      (hcovers q (List.mem_cons_of_mem p List.mem_cons_self))
    rw [hoverlap] at happart
    cases happart

/-- A call submits nothing, or what the rules of one row submit that it fires. -/
theorem submissions_cases :
    call.submissions = [] ∨ ∃ p ∈ patterns, p.covers call = true ∧
      call.submissions = (p.rules.filter (·.fires call)).flatMap (·.submit) := by
  have hone := call.length_covering_le_one
  have hrows : ∀ p ∈ patterns.filter (·.covers call), p ∈ patterns ∧ p.covers call = true := by
    intro p hp
    exact List.mem_filter.1 hp
  rw [submissions]
  generalize patterns.filter (·.covers call) = rows at hone hrows ⊢
  rcases rows with _ | ⟨p, _ | ⟨q, rest⟩⟩
  · exact .inl rfl
  · obtain ⟨hmem, hcovers⟩ := hrows p List.mem_cons_self
    exact .inr ⟨p, hmem, hcovers, by rw [List.flatMap_singleton]⟩
  · rw [List.length_cons, List.length_cons] at hone
    omega

theorem fewAndDistinct_submissions : FewAndDistinct call.submissions := by
  obtain hnone | ⟨p, hp, _, hsubmissions⟩ := call.submissions_cases
  · rw [hnone]
    decide
  · rw [hsubmissions]
    apply (wellFormed_of_mem_patterns p hp).together
    · exact List.mem_sublists.2 List.filter_sublist
    · apply List.pairwise_of_forall_mem_list
      intro r hr s hs
      exact Rule.excludes_eq_false (List.mem_filter.1 hr).2 (List.mem_filter.1 hs).2

theorem inRange_of_mem_submissions {s : Submission} (hs : s ∈ call.submissions) :
    s.InRange call.args.length := by
  obtain hnone | ⟨p, hp, _, hsubmissions⟩ := call.submissions_cases
  · rw [hnone] at hs
    cases hs
  · rw [hsubmissions] at hs
    obtain ⟨r, hr, hs⟩ := List.mem_flatMap.1 hs
    obtain ⟨hrule, hfires⟩ := List.mem_filter.1 hr
    rw [Rule.fires, Bool.and_eq_true] at hfires
    exact ((wellFormed_of_mem_patterns p hp).inRange r hrule s hs).mono
      (ArgCount.least_le hfires.1)

/-- Calls on classes outside of the family submit nothing. -/
theorem submissions_of_not_family (h : ¬ "Q".toList <+: call.className.toList) :
    call.submissions = [] := by
  obtain hnone | ⟨p, hp, hcovers, _⟩ := call.submissions_cases
  · exact hnone
  · simp only [covers, Bool.and_eq_true] at hcovers
    have hclass := List.contains_iff_mem.1 hcovers.1.2
    exact absurd ((wellFormed_of_mem_patterns p hp).family _ hclass) h

/-- An operand that a submission asks for can only be missing when it is the object that the call
is made on. -/
theorem missing_operand {s : Submission} (hs : s ∈ call.submissions)
    (h : call.operand? s.object = none ∨ call.operand? s.method = none) :
    s.object = .implicitObject ∧ call.implicitObject = none := by
  have hpresent : ∀ i < call.args.length, call.operand? (.arg i) ≠ none := by
    intro i hi hnone
    rw [operand?, List.getElem?_eq_getElem hi] at hnone
    cases hnone
  obtain ⟨⟨i, hi, hmethod⟩, hobject⟩ := call.inRange_of_mem_submissions hs
  rw [hmethod] at h
  have hmissing := h.resolve_right (hpresent i hi)
  rcases hobject with hobject | ⟨j, hj, hobject⟩
  · rw [hobject] at hmissing
    exact ⟨hobject, hmissing⟩
  · rw [hobject] at hmissing
    exact absurd hmissing (hpresent j hj)

end CallSite

/-! ## The family of classes -/

namespace Universe

section Family

variable (u : Universe) (config : Config) (family : String)

/-- A search does not ask which classes are looked at. -/
theorem run_family (name : String) (w : Walk) :
    w.run u { config with classFamily := family } name = w.run u config name := by
  induction w using Walk.run.induct u config name with
  | case1 w next hstep ih =>
    have hstep' : w.step u { config with classFamily := family } name = .ok next := hstep
    rw [Walk.run_of_ok hstep, Walk.run_of_ok hstep', ih]
  | case2 w ending hstep =>
    have hstep' : w.step u { config with classFamily := family } name = .error ending := hstep
    rw [Walk.run_of_error hstep, Walk.run_of_error hstep']

theorem search_family (c : ClassId) (name : String) :
    u.search { config with classFamily := family } c name = u.search config c name := by
  rw [search, run_family, search]

theorem resolve_family (c : ClassId) (raw : String) :
    u.resolve { config with classFamily := family } c raw = u.resolve config c raw := by
  unfold resolve
  cases Signature.parse? raw with
  | none => rfl
  | some s =>
    simp only [resolveParsed, search_family]
    rfl

/-- What a submission makes does not depend on which classes are looked at. -/
theorem submit_family (call : CallSite ClassId) (s : Submission) :
    u.submit { config with classFamily := family } call s = u.submit config call s := by
  unfold submit signalOrSlot invokeMethod
  simp only [resolve_family, search_family]
  rfl

/-- The early refusal of classes outside of the family changes nothing: neither what is registered,
nor what is counted, nor what is told. -/
theorem visitInto_family {σ : Type} (register : σ → Use MethodId → σ) (sink : σ)
    (call : CallSite ClassId) :
    u.visitInto { config with classFamily := "Q" } register sink call =
      u.visitInto { config with classFamily := "" } register sink call := by
  have hsubmission : ∀ family, u.visitSubmission { config with classFamily := family } register
      call = u.visitSubmission config register call := by
    intro family
    funext state s
    rw [visitSubmission, submit_family, visitSubmission]
  have hall : isCovered { config with classFamily := "" } call = true := rfl
  rw [visitInto, visitInto, hsubmission "Q", hsubmission "", if_pos hall]
  by_cases hfamily : "Q".toList <+: call.className.toList
  · rw [if_pos (by simpa [isCovered] using hfamily)]
  · rw [if_neg (by simpa [isCovered] using hfamily), call.submissions_of_not_family hfamily]
    rfl

end Family

end Universe

theorem BoundUnit.record_family (unit : BoundUnit) (config : Config) :
    unit.record { config with classFamily := "Q" } =
      unit.record { config with classFamily := "" } := by
  simp only [record, Universe.visitInto_family]

/--
The table is well formed for every call, whatever its names, its form and the
numbers of its arguments and parameters.  At most one row is about it; it submits
at most two texts, which are different operands; every argument that is asked for
exists, so that only the object that the call is made on can be missing; and a
call on a class outside of the family submits nothing, so that looking at all
classes yields the same uses and counts as looking at the family alone, for a call
and for a unit.
-/
theorem submissions_wellFormed :
    (∀ (κ : Type) (call : CallSite κ),
      (Pattern.patterns.filter (·.covers call)).length ≤ 1 ∧
      call.submissions.length ≤ 2 ∧
      (call.submissions.map (·.method)).Nodup ∧
      (∀ s ∈ call.submissions, ∀ i, s.object = .arg i ∨ s.method = .arg i →
        i < call.args.length) ∧
      (∀ s ∈ call.submissions, call.operand? s.object = none ∨ call.operand? s.method = none →
        s.object = .implicitObject ∧ call.implicitObject = none) ∧
      (¬ "Q".toList <+: call.className.toList → call.submissions = [])) ∧
    (∀ (u : Universe) (config : Config) (σ : Type) (register : σ → Use MethodId → σ) (sink : σ)
      (call : CallSite ClassId),
      u.visitInto { config with classFamily := Config.builtin.classFamily } register sink call =
        u.visitInto { config with classFamily := "" } register sink call) ∧
    ∀ (unit : BoundUnit) (config : Config),
      unit.resolve { config with classFamily := Config.builtin.classFamily } =
        unit.resolve { config with classFamily := "" } := by
  refine ⟨?_, ?_, ?_⟩
  · intro κ call
    obtain ⟨hfew, hdistinct⟩ := call.fewAndDistinct_submissions
    refine ⟨call.length_covering_le_one, hfew, hdistinct, ?_, fun s => call.missing_operand,
      call.submissions_of_not_family⟩
    intro s hs i hi
    obtain ⟨⟨j, hj, hmethod⟩, hobject⟩ := call.inRange_of_mem_submissions hs
    rcases hi with hi | hi
    · rcases hobject with hobject | ⟨k, hk, hobject⟩
      · cases hi.symm.trans hobject
      · obtain rfl := Source.arg.inj (hi.symm.trans hobject)
        exact hk
    · obtain rfl := Source.arg.inj (hi.symm.trans hmethod)
      exact hj
  · intro u config σ register sink call
    exact u.visitInto_family config register sink call
  · intro unit config
    exact congrArg (fun recorded => recorded.value.uses.map unit.spell)
      (unit.record_family config)

end SignalSlot
