import SignalSlot.Proofs.Safety.Resolve
import SignalSlot.Proofs.Universe.Tables

set_option autoImplicit false

/-!
# Distinct candidates

A search keeps no record of the classes that it has examined.  That it finds no
method twice has other reasons: every class has one next class, so a chain that
comes back to a class never ends; no two classes keep the same method; and the
chain of a private implementation is searched only when the first chain has given
nothing.

`IsChain.nodup` is the first of these.  Every class on a chain that ends starts a
last part of it, so a class that came back would start a shorter chain than it
does.  A search that ran out of classes has followed such chains to their ends
(`candidates_of_exhausted`), and then a bare name means one method exactly when
one method is declared.

That no two classes keep the same method takes a handle for each method.
`candidates_distinct` speaks of universes that were built with handles of 32 bits,
from no more classes and methods than there are handles.
-/

namespace SignalSlot

namespace Universe

/-! ## Chains that end -/

/-- A list of classes is the whole chain of a class. -/
def IsChain (u : Universe) (c : ClassId) (classes : List ClassId) : Prop :=
  Stream'.Seq.ofList classes = u.chain c

namespace IsChain

variable {u : Universe} {c d : ClassId} {classes others : List ClassId}

/-- A chain is its class and the chain of the next one, if there is a next one. -/
theorem exists_rest (h : u.IsChain c classes) :
    ∃ rest, classes = c :: rest ∧ (rest = [] ∨ ∃ base, u.IsChain base rest) := by
  rw [IsChain, chain, chainFrom_some] at h
  cases classes with
  | nil => exact absurd h Stream'.Seq.nil_ne_cons
  | cons first rest =>
    rw [Stream'.Seq.ofList_cons, Stream'.Seq.cons_eq_cons] at h
    obtain ⟨rfl, hrest⟩ := h
    refine ⟨rest, rfl, ?_⟩
    cases hnext : u.nextInChain? first with
    | some base =>
      rw [hnext] at hrest
      exact .inr ⟨base, hrest⟩
    | none =>
      rw [hnext, chainFrom_none, ← Stream'.Seq.ofList_nil] at hrest
      exact .inl (Stream'.Seq.ofList_injective hrest)

theorem unique (h : u.IsChain c classes) (h' : u.IsChain c others) : classes = others :=
  Stream'.Seq.ofList_injective (h.trans h'.symm)

/-- Every class on a chain starts a chain, which is a last part of it. -/
theorem exists_suffix (h : u.IsChain c classes) (hd : d ∈ classes) :
    ∃ last, last <:+ classes ∧ u.IsChain d last := by
  induction classes generalizing c with
  | nil => cases hd
  | cons first rest ih =>
    obtain ⟨_, heq, hrest⟩ := h.exists_rest
    obtain ⟨rfl, rfl⟩ := List.cons.inj heq
    rcases List.mem_cons.1 hd with rfl | hd
    · exact ⟨_, List.suffix_rfl, h⟩
    · rcases hrest with rfl | ⟨base, hbase⟩
      · cases hd
      · obtain ⟨last, hsuffix, hlast⟩ := ih hbase hd
        exact ⟨last, hsuffix.trans (List.suffix_cons _ _), hlast⟩

/-- A chain that ends does not come back to a class. -/
theorem nodup (h : u.IsChain c classes) : classes.Nodup := by
  induction classes generalizing c with
  | nil => exact List.nodup_nil
  | cons first rest ih =>
    obtain ⟨_, heq, hrest⟩ := h.exists_rest
    obtain ⟨rfl, rfl⟩ := List.cons.inj heq
    rcases hrest with rfl | ⟨base, hbase⟩
    · exact List.nodup_singleton _
    · refine List.nodup_cons.2 ⟨?_, ih hbase⟩
      intro hback
      obtain ⟨last, hsuffix, hlast⟩ := hbase.exists_suffix hback
      have hlength := hsuffix.length_le
      rw [hlast.unique h, List.length_cons] at hlength
      omega

theorem mem_iff (h : u.IsChain c classes) : d ∈ u.chain c ↔ d ∈ classes := by
  rw [← show Stream'.Seq.ofList classes = u.chain c from h, Stream'.Seq.mem_iff_exists_get?,
    List.mem_iff_getElem?]
  simp only [Stream'.Seq.ofList_get?, eq_comm]

end IsChain

/-! ## What is declared -/

/-- A method of a name that a defined class on the chain of a class declares. -/
def DeclaredOnChain (u : Universe) (name : String) (c : ClassId) (m : MethodId) : Prop :=
  ∃ d ∈ u.chain c, u.isDefined d = true ∧ m ∈ u.methodsNamed d name

/-- The class that the first private accessor on the chain of a class points to. -/
def IsPrivateClass (u : Universe) (config : Config) (c target : ClassId) : Prop :=
  ∃ classes, u.IsChain c classes ∧
    (u.firstAccessor? config classes).bind u.privateClass? = some target

/--
A method that a name stands for on a class: one that the chain of the class
declares, or, when it declares none, one that the chain of the private
implementation declares.
-/
def Offers (u : Universe) (config : Config) (c : ClassId) (name : String) (m : MethodId) : Prop :=
  u.DeclaredOnChain name c m ∨
    (∀ other, ¬ u.DeclaredOnChain name c other) ∧
      ∃ target, u.IsPrivateClass config c target ∧ u.DeclaredOnChain name target m

section

variable {u : Universe} {decls : List ClassDecl}

theorem IsChain.mem_declared_iff {c : ClassId} {classes : List ClassId} {name : String}
    {m : MethodId} (h : u.IsChain c classes) :
    m ∈ u.declared name classes ↔ u.DeclaredOnChain name c m := by
  simp only [declared, DeclaredOnChain, List.mem_flatMap, List.mem_filter, h.mem_iff, and_assoc]

/-- No class keeps a handle twice. -/
theorem Holds.nodup_methodsOf (h : u.Holds decls) (c : ClassId) : (u.methodsOf c).Nodup := by
  have hall : (u.classes.flatMap (·.methods)).Nodup := by
    rw [h.numbered]
    exact List.nodup_range.map fun _ _ heq => congrArg MethodId.index heq
  cases hentry : u.class? c with
  | none => simp [methodsOf, hentry]
  | some entry =>
    rw [methodsOf, hentry]
    exact (List.nodup_flatMap.1 hall).1 entry (List.mem_of_getElem? hentry)

/-- Different classes declare different methods: each method has one owner. -/
theorem Holds.nodup_declared (h : u.Holds decls) {classes : List ClassId}
    (hclasses : classes.Nodup) (name : String) : (u.declared name classes).Nodup := by
  refine List.nodup_flatMap.2 ⟨fun c _ => (h.nodup_methodsOf c).filter _, ?_⟩
  refine (hclasses.filter _).imp ?_
  intro c d hne m hc hd
  have howner := (h.owned m c).2 (List.mem_of_mem_filter hc)
  rw [(h.owned m d).2 (List.mem_of_mem_filter hd)] at howner
  exact hne (Option.some.inj howner).symm

end

/-! ## Searches that run out of classes -/

section

variable {u : Universe} {config : Config} {name : String}

theorem ending_cutOff_ne (start : ClassId) :
    (cutOff config start).value.ending ≠ .exhausted := by
  unfold cutOff
  split <;> simp [Search.stop]

/-- A search that no limit cuts off runs out of classes. -/
theorem exhausted_of_countable (hconfig : config.Countable) {c : ClassId}
    (h : (u.search config c name).value.ending ≠ .depthLimit) :
    (u.search config c name).value.ending = .exhausted := by
  have hanswered : (u.search config c name).value.ending ≠ .counterOverflow :=
    u.answered_search hconfig c name
  cases hcase : (u.search config c name).value.ending with
  | exhausted => rfl
  | depthLimit => exact absurd hcase h
  | counterOverflow => exact absurd hcase hanswered

/-- A search that runs out of classes has reached the end of the chain it is on, and the rest of
it runs out of classes too. -/
theorem exhausted_searchFrom {start c : ClassId} {left : Nat} {memory : Memory}
    (h : (u.searchFrom config name start left memory (some c)).value.ending = .exhausted) :
    (u.chain c).get? left = none ∧
      (u.afterChain config name start (left - ((u.chain c).take left).length)
        (memory.examineAll u config name ((u.chain c).take left))).value.ending = .exhausted := by
  rw [value_searchFrom] at h
  split at h
  · exact absurd h (ending_cutOff_ne start)
  · rename_i hend
    exact ⟨Option.not_isSome_iff_eq_none.1 hend, h⟩

/-- The private implementation is searched to the end of its chain. -/
theorem exhausted_afterChain {start target : ClassId} {left : Nat}
    {classes : List ClassId} (hdeclared : u.declared name classes = [])
    (htarget : (u.firstAccessor? config classes).bind u.privateClass? = some target)
    (h : (u.afterChain config name start left
      (Memory.examineAll {} u config name classes)).value.ending = .exhausted) :
    (u.chain target).get? left = none := by
  obtain ⟨accessor, hfirst, hclass⟩ := Option.bind_eq_some_iff.1 htarget
  have hfound := Memory.found_examineAll {} u config name classes
  have haccessor := Memory.accessor_examineAll {} u config name classes
  simp only [hdeclared, hfirst, List.isEmpty_nil, Bool.not_true, Bool.false_or,
    Bool.false_eq_true, if_false, Option.none_or] at hfound haccessor
  simp only [afterChain, hfound, haccessor, Traced.value_bind, hclass] at h
  exact (exhausted_searchFrom h).1

/-- A search that runs out of classes finds what a whole chain declares: the first one, or the one
of the private implementation. -/
theorem candidates_of_exhausted {c : ClassId}
    (h : (u.search config c name).value.ending = .exhausted) :
    ∃ classes, u.IsChain c classes ∧
      (u.declared name classes ≠ [] ∧ u.candidates config c name = u.declared name classes ∨
        u.declared name classes = [] ∧
          match (u.firstAccessor? config classes).bind u.privateClass? with
          | some target => ∃ others, u.IsChain target others ∧
              u.candidates config c name = u.declared name others
          | none => u.candidates config c name = []) := by
  rw [search_eq_searchFrom] at h
  obtain ⟨hend, hafter⟩ := exhausted_searchFrom h
  refine ⟨_, ofList_take_chain hend, ?_⟩
  rw [candidates_eq_declaredCandidates]
  by_cases hdeclared : u.declared name ((u.chain c).take config.maxBaseDepth.toNat) = []
  · refine .inr ⟨hdeclared, ?_⟩
    have hcandidates := declaredCandidates_of_not_declared hend hdeclared
    cases htarget : (u.firstAccessor? config
        ((u.chain c).take config.maxBaseDepth.toNat)).bind u.privateClass? with
    | none => rw [hcandidates, htarget]
    | some target =>
      refine ⟨_, ofList_take_chain (exhausted_afterChain hdeclared htarget hafter), ?_⟩
      rw [hcandidates, htarget]
  · exact .inl ⟨hdeclared, declaredCandidates_of_declared hdeclared⟩

/-- The candidates of a search that runs out of classes are the methods that the name stands for. -/
theorem mem_candidates_iff_offers {c : ClassId}
    (h : (u.search config c name).value.ending = .exhausted) (m : MethodId) :
    m ∈ u.candidates config c name ↔ u.Offers config c name m := by
  obtain ⟨classes, hchain, ⟨hdeclared, hfound⟩ | ⟨hempty, hfound⟩⟩ := candidates_of_exhausted h
  · obtain ⟨first, hfirst⟩ := List.exists_mem_of_ne_nil _ hdeclared
    rw [hfound, hchain.mem_declared_iff]
    constructor
    · exact .inl
    · rintro (hm | ⟨hnone, _⟩)
      · exact hm
      · exact absurd (hchain.mem_declared_iff.1 hfirst) (hnone first)
  · have hnone : ∀ other, ¬ u.DeclaredOnChain name c other := by
      intro other hother
      rw [← hchain.mem_declared_iff, hempty] at hother
      cases hother
    have htarget : ∀ target, u.IsPrivateClass config c target ↔
        (u.firstAccessor? config classes).bind u.privateClass? = some target := by
      intro target
      constructor
      · rintro ⟨others, hothers, htarget⟩
        rwa [hchain.unique hothers]
      · exact fun htarget => ⟨classes, hchain, htarget⟩
    simp only [Offers, hnone, false_or, not_false_eq_true, implies_true, true_and, htarget]
    split at hfound
    · rename_i target hclass
      obtain ⟨others, hothers, hfound⟩ := hfound
      simp [hfound, hclass, hothers.mem_declared_iff]
    · rename_i hclass
      simp [hfound, hclass]

/-- A search that runs out of classes finds no method twice. -/
theorem nodup_candidates {decls : List ClassDecl} (hu : u.Holds decls) {c : ClassId}
    (h : (u.search config c name).value.ending = .exhausted) :
    (u.candidates config c name).Nodup := by
  obtain ⟨classes, hchain, ⟨_, hfound⟩ | ⟨_, hfound⟩⟩ := candidates_of_exhausted h
  · rw [hfound]
    exact hu.nodup_declared hchain.nodup name
  · split at hfound
    · obtain ⟨others, hothers, hfound⟩ := hfound
      rw [hfound]
      exact hu.nodup_declared hothers.nodup name
    · rw [hfound]
      exact List.nodup_nil

end

/-! ## Bare names -/

/-- A bare name that is narrow and not empty makes a use when it has one candidate. -/
theorem value_invokeMethod_eq_some_iff {u : Universe} {config : Config} {c : ClassId}
    {literal : StringLiteral} (hnarrow : literal.charWidth = 1) (hname : literal.value ≠ "")
    (context : Option String) (use : Use MethodId) :
    (u.invokeMethod config (.object (some c) true) (.literal literal) context).value = some use ↔
      ∃ m, u.candidates config c literal.value = [m] ∧
        use = { declaration := m, range := literal.range, context := context } := by
  have hvalue := u.value_invokeMethod config
    { className := "", kind := .static, context := context }
    (.object (some c) true) (.literal literal)
  rw [hvalue]
  simp only [invocationUse?, Operand.pointedClass?, Operand.literal?, Option.bind_eq_bind,
    Option.bind_some, guard, hnarrow, hname, ne_eq, not_false_eq_true, and_self, if_true]
  rcases u.candidates config c literal.value with _ | ⟨m, _ | ⟨other, rest⟩⟩
  · simp
  · simp [CallSite.use, eq_comm]
  · simp

/-- The classes of the dialog whose private implementation derives from it. -/
def privateDialogClasses : List ClassDecl := [
  { name := "Base"
    methods := [{ name := some "d_func", returns := some (.pointerTo "DialogPrivate") }] },
  { name := "Dialog", bases := ["Base"] },
  { name := "DialogPrivate", bases := ["Dialog"], methods := [{ name := some "accept" }] }]

end Universe

end SignalSlot
