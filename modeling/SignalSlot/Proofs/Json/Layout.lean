import Mathlib.Data.List.Forall2
import Mathlib.Data.List.Nodup
import SignalSlot.Json.Decode

set_option autoImplicit false

/-!
# Layouts of records

A record can be written in many ways.  Its members may stand in any order, a
field may be left out when its value is the one that is assumed for it, and
members that belong to no field may be added.  `IsRecord` says which documents
are written for a list of fields, without any decoder: each field is a `Slot`,
which knows the documents that stand for its value and whether it may be left
out.

`Complete` says that a decoder takes every document for a value back to the
value, and `Yields` that a decoder of fields does so on every layout of them.
There is one rule for each way in which decoders are put together.
-/

namespace SignalSlot.Json

/-! ## What stands for a value -/

/-- A value that is written in one way. -/
def IsFixed {α : Type} (encode : α → Json) (a : α) (j : Json) : Prop :=
  j = encode a

/-- A number that is written with its digits. -/
def IsWord {α : Type} (toNat : α → Nat) : α → Json → Prop :=
  IsFixed fun a => .nat (toNat a)

/-- A value that may be absent: then `null` stands for it. -/
def IsOptional {α : Type} (layout : α → Json → Prop) : Option α → Json → Prop
  | some a => layout a
  | none => (· = .null)

/-- A list, item by item. -/
def IsArray {α : Type} (layout : α → Json → Prop) (items : List α) (j : Json) : Prop :=
  ∃ vs, j = .array vs ∧ List.Forall₂ layout items vs

/-- An object whose only key is a tag. -/
def IsTagged (tag : String) (layout : Json → Prop) (j : Json) : Prop :=
  ∃ content, layout content ∧ j = .record [(tag, content)]

/-- A field of a record together with its value. -/
structure Slot where
  key : String
  /-- The documents that stand for the value. -/
  Holds : Json → Prop
  /-- Whether the value is one for which the field may be left out. -/
  MayLack : Prop

namespace Slot

variable {α : Type}

/-- A field that is always written. -/
def required (key : String) (layout : α → Json → Prop) (value : α) : Slot :=
  ⟨key, layout value, False⟩

/-- A field that may be left out when it has its default. -/
def defaulted (key : String) (layout : α → Json → Prop) (value default : α) : Slot :=
  ⟨key, layout value, value = default⟩

/-- A field that may be left out when its value is absent. -/
def optional (key : String) (layout : α → Json → Prop) (value : Option α) : Slot :=
  ⟨key, IsOptional layout value, value = none⟩

end Slot

/-! ## Records -/

/-- The members that are written for fields, in the order of the fields. -/
inductive Kept : List Slot → List (String × Json) → Prop
  | nil : Kept [] []
  | write {slot : Slot} {slots : List Slot} {v : Json} {members : List (String × Json)} :
    slot.Holds v → Kept slots members → Kept (slot :: slots) ((slot.key, v) :: members)
  | leaveOut {slot : Slot} {slots : List Slot} {members : List (String × Json)} :
    slot.MayLack → Kept slots members → Kept (slot :: slots) members

/--
Members that lay out fields: what is written for the fields and any further
members, with keys of no field and whole documents as values, in any order.
-/
def LaysOut (slots : List Slot) (members : List (String × Json)) : Prop :=
  ∃ kept unknown, Kept slots kept ∧
    (∀ m ∈ unknown, m.1 ∉ slots.map (·.key) ∧ m.2.isWhole = true) ∧
    members.Perm (kept ++ unknown)

/-- A document that lays out fields. -/
def IsRecord (slots : List Slot) (j : Json) : Prop :=
  ∃ members, LaysOut slots members ∧ j = .record members

/-- Writing every field, in order, is a layout. -/
theorem IsRecord.of_forall₂ {slots : List Slot} {members : List (String × Json)}
    (h : List.Forall₂ (fun slot m => slot.key = m.1 ∧ slot.Holds m.2) slots members) :
    IsRecord slots (.record members) := by
  have hkept : Kept slots members := by
    induction h with
    | nil => exact .nil
    | @cons slot m _ _ hm _ ih =>
      obtain ⟨key, v⟩ := m
      obtain ⟨rfl, hv⟩ := hm
      exact .write hv ih
  refine ⟨members, ⟨members, [], hkept, ?_, ?_⟩, rfl⟩
  · intro m hm
    cases hm
  · rw [List.append_nil]

theorem isFixed_self {α : Type} (encode : α → Json) (a : α) : IsFixed encode a (encode a) := rfl

theorem isArray_map {α : Type} {layout : α → Json → Prop} {encode : α → Json}
    (h : ∀ a, layout a (encode a)) (items : List α) :
    IsArray layout items (.array (items.map encode)) := by
  refine ⟨_, rfl, List.forall₂_map_right_iff.2 (List.forall₂_same.2 ?_)⟩
  intro a _
  exact h a

theorem isOptional_optional {α : Type} {layout : α → Json → Prop} {encode : α → Json}
    (h : ∀ a, layout a (encode a)) (value : Option α) :
    IsOptional layout value (.optional encode value) := by
  cases value with
  | none => exact rfl
  | some a => exact h a

namespace Kept

variable {slots : List Slot} {members : List (String × Json)}

/-- Nothing but fields is written, each of them at most once and in order. -/
theorem keys_sublist (h : Kept slots members) :
    (members.map Prod.fst).Sublist (slots.map (·.key)) := by
  induction h with
  | nil => exact .slnil
  | write _ _ ih => exact ih.cons_cons _
  | leaveOut _ _ ih => exact ih.cons _

theorem key_mem (h : Kept slots members) {m : String × Json} (hm : m ∈ members) :
    m.1 ∈ slots.map (·.key) :=
  h.keys_sublist.subset (List.mem_map_of_mem hm)

theorem holds (h : Kept slots members) (hkeys : (slots.map (·.key)).Nodup) {slot : Slot}
    (hslot : slot ∈ slots) {v : Json} (hv : (slot.key, v) ∈ members) : slot.Holds v := by
  induction h with
  | nil => cases hslot
  | @write first rest w written hw hrest ih =>
    rw [List.map_cons, List.nodup_cons] at hkeys
    rcases List.mem_cons.1 hslot with rfl | hslot
    · rcases List.mem_cons.1 hv with heq | hv
      · rwa [(Prod.mk.inj heq).2]
      · exact absurd (hrest.key_mem hv) hkeys.1
    · rcases List.mem_cons.1 hv with heq | hv
      · have hmem : slot.key ∈ rest.map (·.key) := List.mem_map_of_mem hslot
        rw [(Prod.mk.inj heq).1] at hmem
        exact absurd hmem hkeys.1
      · exact ih hkeys.2 hslot hv
  | @leaveOut first rest written _ hrest ih =>
    rw [List.map_cons, List.nodup_cons] at hkeys
    rcases List.mem_cons.1 hslot with rfl | hslot
    · exact absurd (hrest.key_mem hv) hkeys.1
    · exact ih hkeys.2 hslot hv

theorem mayLack (h : Kept slots members) {slot : Slot} (hslot : slot ∈ slots)
    (hlacks : ∀ v, (slot.key, v) ∉ members) : slot.MayLack := by
  induction h with
  | nil => cases hslot
  | @write first rest w written _ _ ih =>
    rcases List.mem_cons.1 hslot with rfl | hslot
    · exact absurd List.mem_cons_self (hlacks w)
    · exact ih hslot fun v hv => hlacks v (List.mem_cons_of_mem _ hv)
  | leaveOut hlack _ ih =>
    rcases List.mem_cons.1 hslot with rfl | hslot
    · exact hlack
    · exact ih hslot hlacks

end Kept

/-! ## What a decoder meets in a layout -/

namespace LaysOut

variable {slots : List Slot} {members : List (String × Json)}

theorem holds (h : LaysOut slots members) (hkeys : (slots.map (·.key)).Nodup) {slot : Slot}
    (hslot : slot ∈ slots) {v : Json} (hv : (slot.key, v) ∈ members) : slot.Holds v := by
  obtain ⟨kept, unknown, hkept, hunknown, hperm⟩ := h
  rcases List.mem_append.1 (hperm.mem_iff.1 hv) with hv | hv
  · exact hkept.holds hkeys hslot hv
  · exact absurd (List.mem_map_of_mem hslot) (hunknown _ hv).1

theorem mayLack (h : LaysOut slots members) {slot : Slot} (hslot : slot ∈ slots)
    (hlacks : ∀ v, (slot.key, v) ∉ members) : slot.MayLack := by
  obtain ⟨kept, unknown, hkept, _, hperm⟩ := h
  refine hkept.mayLack hslot fun v hv => hlacks v ?_
  exact hperm.mem_iff.2 (List.mem_append_left _ hv)

/-- A member of no field is a whole document. -/
theorem isWhole (h : LaysOut slots members) {m : String × Json} (hm : m ∈ members)
    (hkey : m.1 ∉ slots.map (·.key)) : m.2.isWhole = true := by
  obtain ⟨kept, unknown, hkept, hunknown, hperm⟩ := h
  rcases List.mem_append.1 (hperm.mem_iff.1 hm) with hm | hm
  · exact absurd (hkept.key_mem hm) hkey
  · exact (hunknown _ hm).2

/-- No field stands twice. -/
theorem pairwise (h : LaysOut slots members) (hkeys : (slots.map (·.key)).Nodup) :
    members.Pairwise fun m n => m.1 = n.1 → m.1 ∉ slots.map (·.key) := by
  obtain ⟨kept, unknown, hkept, hunknown, hperm⟩ := h
  have hsymm : ∀ {m n : String × Json}, (m.1 = n.1 → m.1 ∉ slots.map (·.key)) →
      (n.1 = m.1 → n.1 ∉ slots.map (·.key)) := by
    intro m n hmn heq
    rw [heq]
    exact hmn heq.symm
  rw [hperm.pairwise_iff hsymm, List.pairwise_append]
  refine ⟨?_, ?_, ?_⟩
  · have hnodup : (kept.map Prod.fst).Nodup := hkeys.sublist hkept.keys_sublist
    exact (List.pairwise_map.1 hnodup).imp fun hne heq => absurd heq hne
  · exact List.pairwise_iff_forall_sublist.2 fun hsub _ => (hunknown _ (hsub.subset (by simp))).1
  · intro m _ n hn heq
    rw [heq]
    exact (hunknown _ hn).1

end LaysOut

section Records

variable {α β : Type} (g : Json → β)

/-- Members as a record has them, with values of another type. -/
def named (members : List (String × Json)) : List (Quoted × β) :=
  members.map fun m => (.text m.1, g m.2)

/-- The record that members are for fields. -/
def Record.ofMembers (slots : List Slot) (members : List (String × Json)) : Record β where
  fields := slots.map (·.key)
  closed := false
  content := .members (named g members)

/-- A look-up finds a member of the name, or there is none. -/
theorem lookup_named (name : String) (place : Nat) (members : List (String × Json)) :
    (∃ found v, (name, v) ∈ members ∧
      Record.lookup name place (named g members) = some (found, g v)) ∨
    (∀ v, (name, v) ∉ members) ∧ Record.lookup name place (named g members) = none := by
  induction members generalizing place with
  | nil => exact .inr ⟨by simp, rfl⟩
  | cons m rest ih =>
    obtain ⟨key, w⟩ := m
    by_cases hkey : key = name
    · subst hkey
      exact .inl ⟨place, w, List.mem_cons_self, by simp [named, Record.lookup]⟩
    · have hstep : Record.lookup name place (named g ((key, w) :: rest)) =
          Record.lookup name (place + 1) (named g rest) := by
        simp [named, Record.lookup, hkey]
      rw [hstep]
      rcases ih (place + 1) with ⟨found, v, hv, hlookup⟩ | ⟨hnone, hlookup⟩
      · exact .inl ⟨found, v, List.mem_cons_of_mem _ hv, hlookup⟩
      · refine .inr ⟨fun v hv => ?_, hlookup⟩
        rcases List.mem_cons.1 hv with heq | hv
        · exact hkey (Prod.mk.inj heq).1.symm
        · exact hnone v hv

/-- Keys give no fault when no field stands twice and the rest is whole. -/
theorem keyFault?_named {fields seen : List String} {isWhole : β → Bool}
    {members : List (String × Json)} (place : Nat)
    (hpairwise : members.Pairwise fun m n => m.1 = n.1 → m.1 ∉ fields)
    (hwhole : ∀ m ∈ members, m.1 ∉ fields → isWhole (g m.2) = true)
    (hseen : ∀ m ∈ members, m.1 ∈ fields → m.1 ∉ seen) :
    Record.keyFault? fields false isWhole place seen (named g members) = none := by
  induction members generalizing place seen with
  | nil => rfl
  | cons m rest ih =>
    rw [List.pairwise_cons] at hpairwise
    have hwhole' : ∀ n ∈ rest, n.1 ∉ fields → isWhole (g n.2) = true :=
      fun n hn => hwhole n (List.mem_cons_of_mem _ hn)
    have hseen' : ∀ n ∈ rest, n.1 ∈ fields → n.1 ∉ seen :=
      fun n hn => hseen n (List.mem_cons_of_mem _ hn)
    show Record.keyFault? fields false isWhole place seen
      ((.text m.1, g m.2) :: named g rest) = none
    by_cases hkey : m.1 ∈ fields
    · have hnew : m.1 ∉ seen := hseen m List.mem_cons_self hkey
      have hrest : ∀ n ∈ rest, n.1 ∈ fields → n.1 ∉ m.1 :: seen := by
        intro n hn hfield hmem
        rcases List.mem_cons.1 hmem with heq | hmem
        · exact hpairwise.1 n hn heq.symm hkey
        · exact hseen' n hn hfield hmem
      simp only [Record.keyFault?, List.contains_eq_mem, hkey, hnew, decide_true, decide_false,
        if_true, Bool.false_eq_true, if_false]
      exact ih (place + 1) hpairwise.2 hwhole' hrest
    · have hpassed := hwhole m List.mem_cons_self hkey
      simp only [Record.keyFault?, List.contains_eq_mem, hkey, hpassed, decide_false,
        if_true, Bool.false_eq_true, if_false]
      exact ih (place + 1) hpairwise.2 hwhole' hseen'

variable {g} {slots : List Slot} {members : List (String × Json)}

theorem fault?_ofMembers (h : LaysOut slots members) (hkeys : (slots.map (·.key)).Nodup)
    {isWhole : β → Bool} (hwhole : ∀ v, isWhole (g v) = v.isWhole) :
    (Record.ofMembers g slots members).fault? isWhole = none := by
  refine keyFault?_named g 0 (h.pairwise hkeys) ?_ ?_
  · intro m hm hkey
    rw [hwhole]
    exact h.isWhole hm hkey
  · intro m _ _ hmem
    cases hmem

/-- A field is decoded when each document for its value is, and a default stands for it else. -/
theorem field_ofMembers (h : LaysOut slots members) (hkeys : (slots.map (·.key)).Nodup)
    {slot : Slot} (hslot : slot ∈ slots) {value : β → Decoded α} {absent short : Option α} {a : α}
    (hvalue : ∀ v, slot.Holds v → value (g v) = .ok a)
    (habsent : slot.MayLack → absent = some a) :
    (Record.ofMembers g slots members).field slot.key value absent short = Except.ok a := by
  simp only [Record.field, Record.ofMembers]
  rcases lookup_named g slot.key 0 members with ⟨place, v, hv, hlookup⟩ | ⟨hlacks, hlookup⟩
  · simp only [hlookup, hvalue v (h.holds hkeys hslot hv)]
    rfl
  · simp only [hlookup, habsent (h.mayLack hslot hlacks)]
    rfl

/-! ## Decoders of fields -/

variable (g) in
/-- A decoder of fields gives a value, however the fields are laid out. -/
def Yields (slots : List Slot) (decode : Record β → Fields α) (a : α) : Prop :=
  ∀ members, LaysOut slots members → (slots.map (·.key)).Nodup →
    decode (.ofMembers g slots members) = Except.ok a

end Records

/-- A decoder takes every document for a value back to the value. -/
def Complete {α : Type} (layout : α → Json → Prop) (decode : Json → Decoded α) : Prop :=
  ∀ a j, layout a j → decode j = .ok a

namespace Yields

variable {α β γ : Type} {g : Json → β} {slots : List Slot}

theorem map (f : α → γ) {decode : Record β → Fields α} {a : α} (h : Yields g slots decode a) :
    Yields g slots (fun r => f <$> decode r) (f a) := by
  intro members hmembers hkeys
  simp only [h members hmembers hkeys]
  rfl

theorem seq {first : Record β → Fields (α → γ)} {second : Record β → Fields α} {f : α → γ} {a : α}
    (hfirst : Yields g slots first f) (hsecond : Yields g slots second a) :
    Yields g slots (fun r => first r <*> second r) (f a) := by
  intro members hmembers hkeys
  simp only [hfirst members hmembers hkeys, hsecond members hmembers hkeys]
  rfl

theorem required {key : String} {layout : α → Json → Prop} {a : α} {value : β → Decoded α}
    (hslot : Slot.required key layout a ∈ slots)
    (hvalue : ∀ v, layout a v → value (g v) = .ok a) :
    Yields g slots (fun r => r.required key value) a := by
  intro members hmembers hkeys
  exact field_ofMembers hmembers hkeys hslot hvalue False.elim

theorem defaulted {key : String} {layout : α → Json → Prop} {a default : α} {value : β → Decoded α}
    (hslot : Slot.defaulted key layout a default ∈ slots)
    (hvalue : ∀ v, layout a v → value (g v) = .ok a) :
    Yields g slots (fun r => r.defaulted key value default) a := by
  intro members hmembers hkeys
  refine field_ofMembers hmembers hkeys hslot hvalue fun hlack => ?_
  rw [show a = default from hlack]

end Yields

/-! ## Decoders of values -/

namespace Complete

variable {α : Type} {layout : α → Json → Prop} {decode : Json → Decoded α}

theorem text : Complete (IsFixed .text) decodeText := by
  rintro s _ rfl
  rfl

theorem bool : Complete (IsFixed .bool) decodeBool := by
  rintro b _ rfl
  rfl

theorem below {bound n : Nat} (h : n < bound) : decodeBelow bound (.nat n) = .ok n := by
  simp [decodeBelow, nat, h]

theorem word8 : Complete (IsWord UInt8.toNat) decodeWord8 := by
  rintro w _ rfl
  simp [decodeWord8, below w.toNat_lt_size]

theorem word32 : Complete (IsWord UInt32.toNat) decodeWord32 := by
  rintro w _ rfl
  simp [decodeWord32, below w.toNat_lt_size]

theorem word64 : Complete (IsWord UInt64.toNat) decodeWord64 := by
  rintro w _ rfl
  simp [decodeWord64, below w.toNat_lt_size]

/-- A list is decoded item by item. -/
theorem list (h : Complete layout decode) : Complete (IsArray layout) (decodeList decode) := by
  rintro items _ ⟨vs, rfl, hitems⟩
  show vs.mapM decode = .ok items
  induction hitems with
  | nil => rfl
  | cons hv _ ih =>
    rw [List.mapM_cons, h _ _ hv, ih]
    rfl

/-- A decoder that refuses `null` decodes what may be absent. -/
theorem optional (h : Complete layout decode) (hnull : ∀ a, decode .null ≠ .ok a) :
    Complete (IsOptional layout) (decodeOptional decode) := by
  intro value j hj
  cases value with
  | none =>
    obtain rfl : j = .null := hj
    rfl
  | some a =>
    have hdecode := h a j hj
    unfold decodeOptional
    split
    · exact absurd hdecode (hnull a)
    · rw [hdecode]
      rfl

end Complete

namespace Yields

variable {α : Type} {slots : List Slot}

/-- A field that may be absent: it is left out, or `null`, or decoded. -/
theorem field {key : String} {layout : α → Json → Prop} {value : Option α}
    {decode : Json → Decoded α} {short : Option (Option α)}
    (hslot : Slot.optional key layout value ∈ slots) (hdecode : Complete layout decode)
    (hnull : ∀ a, decode .null ≠ .ok a) :
    Yields id slots (fun r => r.field key (decodeOptional decode) (some none) short) value := by
  intro members hmembers hkeys
  refine field_ofMembers hmembers hkeys hslot (hdecode.optional hnull value) fun hlack => ?_
  rw [show value = none from hlack]

end Yields

/-- A record without other faults gives what its fields yield. -/
theorem finish_ofMembers {α β : Type} {g : Json → β} {slots : List Slot}
    {members : List (String × Json)} (h : LaysOut slots members)
    (hkeys : (slots.map (·.key)).Nodup) {decode : Record β → Fields α} {a : α}
    (hyields : Yields g slots decode a) {isWhole : β → Bool}
    (hwhole : ∀ v, isWhole (g v) = v.isWhole) :
    (Record.ofMembers g slots members).finish isWhole (decode (.ofMembers g slots members)) =
      .ok a := by
  have hfault := fault?_ofMembers h hkeys hwhole
  unfold Record.finish
  rw [hyields members h hkeys, hfault]

/-- A record is decoded, however it is laid out. -/
theorem IsRecord.decode {α : Type} {slots : List Slot} {j : Json} (h : IsRecord slots j)
    {fields : List String} {assemble : Record Json → Fields α} {a : α}
    (hfields : slots.map (·.key) = fields) (hkeys : fields.Nodup)
    (hyields : Yields id slots assemble a) : decodeRecord fields false assemble j = .ok a := by
  obtain ⟨members, hmembers, rfl⟩ := h
  subst hfields
  exact finish_ofMembers hmembers hkeys hyields fun _ => rfl

end SignalSlot.Json
