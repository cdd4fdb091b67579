import SignalSlot.Proofs.Unit.Binding

set_option autoImplicit false

/-!
# The ranges of records

A use is reported at the range of the literal that names its method.  A literal
of one token has a range of its own.  A literal of several tokens is taken for
the argument of a macro: its second token is lifted to the invocation of the
macro, and the name, the opening and the closing parenthesis are cut off.  What
is left is a range only if the invocation is long enough.

`UnitFile.resolve_ordered_iff` says when no record ends in front of its start.
Adjacent literals that no macro was expanded to stand for themselves, so that
nothing is left when a name and parentheses are cut off:
`UnitFile.resolve_inverted_adjacentLiterals`.
-/

namespace SignalSlot

/-! ## Files with ranges in order -/

/-- The range does not end in front of its start. -/
def SourceRange.Ordered (range : SourceRange) : Prop := range.start ≤ range.stop

instance (range : SourceRange) : Decidable range.Ordered :=
  inferInstanceAs (Decidable (_ ≤ _))

section Literals

variable {κ ι : Type}

namespace Operand

mutual

/-- The literals of an operand, those inside of calls included. -/
def literals : Operand κ → List StringLiteral
  | .literal value => [value]
  | .call _ args => literalsOfAll args
  | .object _ _ => []
  | .other => []

/-- The literals of a list of operands. -/
def literalsOfAll : List (Operand κ) → List StringLiteral
  | [] => []
  | operand :: rest => operand.literals ++ literalsOfAll rest

end

theorem literalsOfAll_eq_flatMap (operands : List (Operand κ)) :
    literalsOfAll operands = operands.flatMap literals := by
  induction operands with
  | nil => rfl
  | cons operand rest ih => rw [literalsOfAll, List.flatMap_cons, ih]

mutual

/-- Binding keeps the literals. -/
theorem literals_bind (f : κ → Option ι) :
    ∀ operand : Operand κ, (operand.bind f).literals = operand.literals
  | .literal _ => rfl
  | .call _ args => literalsOfAll_bindAll f args
  | .object _ _ => rfl
  | .other => rfl

theorem literalsOfAll_bindAll (f : κ → Option ι) :
    ∀ operands : List (Operand κ), literalsOfAll (bindAll f operands) = literalsOfAll operands
  | [] => rfl
  | operand :: rest => by
    rw [bindAll, literalsOfAll, literalsOfAll, literals_bind f operand,
      literalsOfAll_bindAll f rest]

end

theorem mem_literals_of_literal? {operand : Operand κ} {literal : StringLiteral}
    (h : operand.literal? = some literal) : literal ∈ operand.literals := by
  cases operand with
  | literal value =>
    rw [← Option.some.inj h]
    exact List.mem_cons_self
  | object _ _ => cases h
  | call _ _ => cases h
  | other => cases h

end Operand

namespace CallSite

/-- The literals of all operands of a call. -/
def literals (call : CallSite κ) : List StringLiteral :=
  (call.args ++ call.implicitObject.toList).flatMap Operand.literals

theorem literals_bind (f : κ → Option ι) (call : CallSite κ) :
    (call.bind f).literals = call.literals := by
  have hbind : ∀ operands : List (Operand κ),
      (operands.map (Operand.bind f)).flatMap Operand.literals =
        operands.flatMap Operand.literals := by
    intro operands
    rw [← Operand.bindAll_eq_map, ← Operand.literalsOfAll_eq_flatMap,
      Operand.literalsOfAll_bindAll, Operand.literalsOfAll_eq_flatMap]
  rw [literals, literals, ← hbind, List.map_append]
  cases hobject : call.implicitObject <;> simp [bind, hobject]

/-- The literals of an operand of a call are literals of the call. -/
theorem mem_literals_of_operand? {call : CallSite κ} {source : Source} {operand : Operand κ}
    (h : call.operand? source = some operand) {literal : StringLiteral}
    (hliteral : literal ∈ operand.literals) : literal ∈ call.literals := by
  refine List.mem_flatMap.2 ⟨operand, List.mem_append.2 ?_, hliteral⟩
  cases source with
  | arg index => exact .inl (List.mem_of_getElem? h)
  | implicitObject =>
    rw [operand?] at h
    exact .inr (by rw [h]; exact List.mem_cons_self)

end CallSite

end Literals

/-- Every literal of a file and every expansion entry have ranges in order. -/
structure UnitFile.Ordered (file : UnitFile) : Prop where
  literals : ∀ call ∈ file.calls, ∀ literal ∈ call.literals, literal.range.Ordered
  expansions : ∀ e ∈ file.expansions, (⟨e.start, e.stop⟩ : SourceRange).Ordered

/-! ## The range of one literal -/

namespace Universe

variable (u : Universe)

/-- The invocation of the macro that a token comes from, two expansion levels up. -/
def invocation (token : SourceLocation) : SourceRange where
  start := (u.expansion (u.expansion token).start).start
  stop := (u.expansion (u.expansion token).stop).stop

/-- The place behind the name and the opening parenthesis of the invocation. -/
def argumentStart (token : SourceLocation) : Nat :=
  (u.invocation token).start.toNat + (u.tokenLength (u.invocation token).start).toNat + 1

/--
The invocation that a token comes from has room for a name and two parentheses.
Nothing is asked where its argument would lie beyond the largest offset.
-/
def HasRoom (token : SourceLocation) : Prop :=
  u.argumentStart token < UInt32.size → u.argumentStart token + 1 ≤ (u.invocation token).stop.toNat

instance (token : SourceLocation) : Decidable (u.HasRoom token) :=
  inferInstanceAs (Decidable (_ → _))

/-- The second token of a literal, if it has one, comes from an invocation with room. -/
def CanPlace (literal : StringLiteral) : Prop := ∀ token ∈ literal.tokens[1]?, u.HasRoom token

instance (literal : StringLiteral) : Decidable (u.CanPlace literal) :=
  Option.decidableForallMem _

theorem stringizedRange?_eq (token : SourceLocation) :
    u.stringizedRange? token =
      if u.argumentStart token < UInt32.size then
        some ⟨UInt32.ofNat (u.argumentStart token),
          UInt32.ofNat ((u.invocation token).stop.toNat - 1)⟩
      else none :=
  rfl

/-- A token is lifted to a range in order exactly if its invocation has room. -/
theorem ordered_stringizedRange?_iff {token : SourceLocation} {range : SourceRange}
    (h : u.stringizedRange? token = some range) : range.Ordered ↔ u.HasRoom token := by
  rw [stringizedRange?_eq] at h
  split at h
  · rename_i hfits
    have hstop : (u.invocation token).stop.toNat - 1 < UInt32.size :=
      Nat.lt_of_le_of_lt (Nat.sub_le _ _) (u.invocation token).stop.toNat_lt
    have hpos : 0 < u.argumentStart token := Nat.succ_pos _
    rw [← Option.some.inj h, SourceRange.Ordered, UInt32.le_iff_toNat_le,
      UInt32.toNat_ofNat_of_lt' hfits, UInt32.toNat_ofNat_of_lt' hstop, HasRoom]
    omega
  · cases h

theorem hasRoom_of_stringizedRange?_eq_none {token : SourceLocation}
    (h : u.stringizedRange? token = none) : u.HasRoom token := by
  intro hfits
  rw [stringizedRange?_eq, if_pos hfits] at h
  cases h

/-- A literal is placed where its second token is lifted to, or at its own range. -/
theorem value_literalRange_eq (literal : StringLiteral) :
    (u.literalRange literal).value =
      (literal.tokens[1]?.bind u.stringizedRange?).getD literal.range := by
  unfold literalRange
  match literal.tokens with
  | [] => rfl
  | [_] => rfl
  | _ :: token :: _ =>
    simp only [List.getElem?_cons_succ, List.getElem?_cons_zero, Option.bind_some]
    cases u.stringizedRange? token <;> rfl

/-- A literal is placed at a range in order exactly if there is room where it is lifted to. -/
theorem ordered_literalRange_iff {literal : StringLiteral} (h : literal.range.Ordered) :
    (u.literalRange literal).value.Ordered ↔ u.CanPlace literal := by
  rw [value_literalRange_eq, CanPlace]
  cases literal.tokens[1]? with
  | none => simpa using h
  | some token =>
    simp only [Option.bind_some, Option.mem_def, Option.some.injEq, forall_eq']
    cases hrange : u.stringizedRange? token with
    | some range => exact u.ordered_stringizedRange?_iff hrange
    | none => exact iff_of_true h (u.hasRoom_of_stringizedRange?_eq_none hrange)

/-- A token that no macro was expanded to has no room around it. -/
theorem hasRoom_iff_of_unexpanded {token : SourceLocation}
    (h : ∀ e ∈ u.expansions, e.location ≠ token) :
    u.HasRoom token ↔ UInt32.size ≤ token.toNat + (u.tokenLength token).toNat + 1 := by
  have hself : u.expansion token = ⟨token, token⟩ := by
    have hnone : u.expansions.reverse.find? (·.location == token) = none := by
      rw [List.find?_eq_none]
      intro e he
      simpa using h e (List.mem_reverse.1 he)
    rw [expansion, hnone]
  have hstart : u.argumentStart token = token.toNat + (u.tokenLength token).toNat + 1 := by
    simp only [argumentStart, invocation, hself]
  have hstop : (u.invocation token).stop = token := by
    simp only [invocation, hself]
  rw [HasRoom, hstart, hstop]
  omega

/-! ## The ranges of the uses of a call -/

variable (config : Config)

/-- The literal of a signature operand that refers to a method of an object. -/
def usedLiteral? (object text : Operand ClassId) : Option StringLiteral :=
  (u.signatureUse? config object text).bind fun _ => signatureLiteral? config text

/-- The literal of a submission that refers to a method by its signature. -/
def submissionLiteral? (call : CallSite ClassId) (s : Submission) : Option StringLiteral := do
  let object ← call.operand? s.object
  let text ← call.operand? s.method
  match s.handler with
  | .signalOrSlot => u.usedLiteral? config object text
  | .invokeMethod => none

/-- The literals of a call that refer to methods by their signatures, in the order of the table. -/
def signatureLiterals (call : CallSite ClassId) : List StringLiteral :=
  if config.classFamily.toList <+: call.className.toList then
    call.submissions.filterMap (u.submissionLiteral? config call)
  else []

variable {u config}

theorem mem_literals_of_signatureLiteral? {text : Operand ClassId} {literal : StringLiteral}
    (h : signatureLiteral? config text = some literal) : literal ∈ text.literals := by
  rw [signatureLiteral?_eq] at h
  rcases Option.or_eq_some_iff.1 h with h | ⟨_, h⟩
  · exact Operand.mem_literals_of_literal? h
  · obtain ⟨argument, hargument, hliteral⟩ := Option.bind_eq_some_iff.1 h
    match text, hargument with
    | .call callee [_], hargument =>
      simp only [Operand.onlyArgument?] at hargument
      split at hargument
      · rw [Option.some.inj hargument, Operand.literals, Operand.literalsOfAll]
        exact List.mem_append_left _ (Operand.mem_literals_of_literal? hliteral)
      · cases hargument

/-- The use of a signature stands at the range of its literal. -/
theorem exists_literal_of_signatureUse? {object text : Operand ClassId}
    {pair : MethodId × SourceRange} (h : u.signatureUse? config object text = some pair) :
    ∃ literal, signatureLiteral? config text = some literal ∧
      pair.2 = (u.literalRange literal).value := by
  unfold signatureUse? at h
  rw [← signatureLiteral?_eq] at h
  obtain ⟨c, _, h⟩ := Option.bind_eq_some_iff.1 h
  obtain ⟨literal, hliteral, h⟩ := Option.bind_eq_some_iff.1 h
  obtain ⟨_, _, h⟩ := Option.bind_eq_some_iff.1 h
  obtain ⟨m, _, h⟩ := Option.bind_eq_some_iff.1 h
  exact ⟨literal, hliteral, by rw [← Option.some.inj h]⟩

/-- The use of a bare name stands at the own range of its literal. -/
theorem exists_literal_of_invocationUse? {object text : Operand ClassId}
    {pair : MethodId × SourceRange} (h : u.invocationUse? config object text = some pair) :
    ∃ literal ∈ text.literals, pair.2 = literal.range := by
  unfold invocationUse? at h
  obtain ⟨c, _, h⟩ := Option.bind_eq_some_iff.1 h
  obtain ⟨literal, hliteral, h⟩ := Option.bind_eq_some_iff.1 h
  obtain ⟨_, _, h⟩ := Option.bind_eq_some_iff.1 h
  refine ⟨literal, Operand.mem_literals_of_literal? hliteral, ?_⟩
  split at h
  · rw [← Option.some.inj h]
  · cases h

/-- A signature: its use is in order exactly if its literal can be placed. -/
theorem ordered_signatureUse?_iff {object text : Operand ClassId}
    (h : ∀ literal ∈ text.literals, literal.range.Ordered) :
    (∀ pair, u.signatureUse? config object text = some pair → pair.2.Ordered) ↔
      ∀ literal, u.usedLiteral? config object text = some literal → u.CanPlace literal := by
  unfold usedLiteral?
  cases huse : u.signatureUse? config object text with
  | none => simp
  | some pair =>
    obtain ⟨literal, hliteral, hrange⟩ := exists_literal_of_signatureUse? huse
    have hordered := h literal (mem_literals_of_signatureLiteral? hliteral)
    simp only [Option.some.injEq, forall_eq', Option.bind_some, hliteral, hrange]
    exact u.ordered_literalRange_iff hordered

/-- A submission: its use is in order exactly if the literal of its signature can be placed. -/
theorem ordered_submissionUse?_iff {call : CallSite ClassId}
    (h : ∀ literal ∈ call.literals, literal.range.Ordered) (s : Submission) :
    (∀ pair, u.submissionUse? config call s = some pair → pair.2.Ordered) ↔
      ∀ literal, u.submissionLiteral? config call s = some literal → u.CanPlace literal := by
  unfold submissionUse? submissionLiteral?
  cases call.operand? s.object with
  | none => simp
  | some object =>
    cases htext : call.operand? s.method with
    | none => simp
    | some text =>
      have htexts : ∀ literal ∈ text.literals, literal.range.Ordered := by
        intro literal hliteral
        exact h literal (CallSite.mem_literals_of_operand? htext hliteral)
      simp only [Option.bind_eq_bind, Option.bind_some]
      cases s.handler with
      | signalOrSlot => exact ordered_signatureUse?_iff htexts
      | invokeMethod =>
        simp only [reduceCtorEq, false_implies, implies_true, iff_true]
        intro pair hpair
        obtain ⟨literal, hliteral, hrange⟩ := exists_literal_of_invocationUse? hpair
        rw [hrange]
        exact htexts literal hliteral

/-- A call: its uses are in order exactly if the literals of all its signatures can be placed. -/
theorem ordered_usesOf_iff {call : CallSite ClassId}
    (h : ∀ literal ∈ call.literals, literal.range.Ordered) :
    (∀ pair ∈ u.usesOf config call, pair.2.Ordered) ↔
      ∀ literal ∈ u.signatureLiterals config call, u.CanPlace literal := by
  unfold usesOf signatureLiterals
  split
  · simp only [List.mem_filterMap, forall_exists_index, and_imp]
    constructor
    · intro huses literal s hs
      exact (ordered_submissionUse?_iff h s).1 (fun pair => huses pair s hs) literal
    · intro hroom pair s hs
      exact (ordered_submissionUse?_iff h s).2 (fun literal => hroom literal s hs) pair
  · simp

end Universe

namespace BoundUnit

/-- A property of ranges holds for all records exactly if it holds for all uses of all calls. -/
theorem forall_range_resolve_iff (unit : BoundUnit) (config : Config) (p : SourceRange → Prop) :
    (∀ record ∈ unit.resolve config, p record.range) ↔
      ∀ call ∈ unit.calls, ∀ pair ∈ unit.declarations.usesOf config call, p pair.2 := by
  have hkeys : ∀ uses : List (Use MethodId),
      (∀ use ∈ uses, p use.range) ↔ ∀ key ∈ uses.map Use.key, p key.2 := by
    intro uses
    rw [List.forall_mem_map]
    rfl
  have hspelled : (∀ record ∈ unit.resolve config, p record.range) ↔
      ∀ use ∈ firstsBy Use.key (unit.usesOfCalls config), p use.range := by
    rw [resolve_eq_firstsBy, List.forall_mem_map]
    rfl
  rw [hspelled, hkeys]
  simp only [mem_map_firstsBy_iff]
  rw [← hkeys]
  simp only [usesOfCalls, List.forall_mem_flatMap, List.forall_mem_map]
  rfl

end BoundUnit

/-! ## The records of a file -/

namespace UnitFile

open Universe

/-- What is bound has the calls of the file, bound, and its expansion entries. -/
theorem exists_universe_of_bind {file : UnitFile} {unit : BoundUnit} (h : file.bind = .ok unit) :
    ∃ u, unit = .ofCalls u file.calls ∧ u.expansions = file.expansions := by
  obtain ⟨_, rfl⟩ := eq_ofCalls_of_bind h
  exact ⟨_, rfl, rfl⟩

/--
In a file whose literals and expansion entries are in order, no record ends in
front of its start exactly if every literal of several tokens that refers to a
method by its signature comes from an invocation with room for a name and two
parentheses.  A token that no macro was expanded to has no such room, as long as
the place behind it is still an offset.
-/
theorem resolve_ordered_iff {file : UnitFile} {unit : BoundUnit} {config : Config}
    (hbind : file.bind = .ok unit) (hfile : file.Ordered) (h : config.Countable) :
    (∀ c name, (unit.declarations.search config c name).value.Answered) ∧
    ((∀ record ∈ unit.resolve config, record.range.Ordered) ↔
      ∀ call ∈ unit.calls, ∀ literal ∈ unit.declarations.signatureLiterals config call,
        unit.declarations.CanPlace literal) ∧
    ∀ token, (∀ e ∈ file.expansions, e.location ≠ token) →
      (unit.declarations.HasRoom token ↔
        UInt32.size ≤ token.toNat + (unit.declarations.tokenLength token).toNat + 1) := by
  obtain ⟨u, rfl, hexpansions⟩ := exists_universe_of_bind hbind
  refine ⟨fun c name => answered_search _ h c name, ?_, ?_⟩
  · rw [BoundUnit.forall_range_resolve_iff]
    refine forall₂_congr fun call hcall => ordered_usesOf_iff ?_
    obtain ⟨written, hwritten, rfl⟩ := List.mem_map.1 hcall
    rw [CallSite.literals_bind]
    exact hfile.literals written hwritten
  · intro token htoken
    exact hasRoom_iff_of_unexpanded u (by rwa [hexpansions])

/-- A timer for the slot of a display, which is named by a literal. -/
def timerFor (slot : StringLiteral) : UnitFile where
  classes := [{ name := "Display", methods := [{ name := some "refresh" }] }]
  calls :=
    [{ className := "QTimer"
       methodName := "singleShot"
       kind := .static
       declaredParams := 3
       args := [.other, .object (some "Display") true, .literal slot] }]

/-- A slot that a macro turned into a string, in an invocation of fourteen characters. -/
def stringizedSlot : UnitFile :=
  { timerFor ⟨"1refresh()", 1, ⟨500, 520⟩, [500, 501]⟩ with
    expansions := [⟨501, 600, 610⟩, ⟨600, 100, 110⟩, ⟨610, 114, 114⟩]
    tokenLengths := [⟨100, 4⟩] }

theorem resolve_ordered_iff_stringizedSlot :
    stringizedSlot.Ordered ∧ Config.builtin.Countable ∧
    ∃ unit, stringizedSlot.bind = .ok unit ∧
      unit.resolve .builtin = [{ declaration := "Display::refresh()", range := ⟨105, 113⟩ }] ∧
      ∀ record ∈ unit.resolve .builtin, record.range.Ordered := by
  have hfile : stringizedSlot.Ordered := ⟨by decide, by decide⟩
  have h : Config.builtin.Countable := by decide
  have hbind := bind_of_nodup stringizedSlot (by decide)
  obtain ⟨_, hordered, _⟩ := resolve_ordered_iff hbind hfile h
  exact ⟨hfile, h, _, hbind, by decide +kernel, hordered.2 (by decide +kernel)⟩

/-- A slot that is written as two literals side by side, which no macro was expanded to. -/
def adjacentLiterals : UnitFile := timerFor ⟨"1refresh()", 1, ⟨10, 25⟩, [10, 17]⟩

-- The second literal starts at 17, and what is left of it ends in front of its start.
theorem resolve_inverted_adjacentLiterals :
    adjacentLiterals.Ordered ∧ Config.builtin.Countable ∧
    ∃ unit, adjacentLiterals.bind = .ok unit ∧
      unit.resolve .builtin = [{ declaration := "Display::refresh()", range := ⟨18, 16⟩ }] ∧
      ¬ ∀ record ∈ unit.resolve .builtin, record.range.Ordered := by
  have hbind := bind_of_nodup adjacentLiterals (by decide)
  exact ⟨⟨by decide, by decide⟩, by decide, _, hbind, by decide +kernel, by decide +kernel⟩

end UnitFile

end SignalSlot
