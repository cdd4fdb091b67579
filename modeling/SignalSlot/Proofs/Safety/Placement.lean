import SignalSlot.Proofs.Unit.Ranges
import SignalSlot.Proofs.Universe.Tables

set_option autoImplicit false

/-!
# Placing a literal with offsets of 32 bits

The source map is a list of entries in which the last entry for a location
counts.  It can as well be kept in tables that each entry is written to when it
comes, over an earlier entry for its location: `KeepsLast.insert` says what one
entry changes, and `KeepsLast.writeAll` what a list of them does.

A literal is placed by adding to and taking from offsets of 32 bits.  Here each
sum and each difference is an operation that fails when its result is no offset,
and the room for it is measured first, with such operations only.

`Universe.literalRange_exact` says that placing a literal never fails and gives
what it would give in unbounded integers, up to the largest offset, and that where
the start of a place lies beyond it the literal keeps its own range.
-/

namespace SignalSlot

/-! ## The last entry for a location -/

section LastEntry

variable {ε β : Type} (location : ε → SourceLocation) (value : ε → β)

/-- What a list of entries says about a location: the value of the last entry for it, or a default
when there is none. -/
inductive LastEntry (entries : List ε) (l : SourceLocation) (otherwise : β) : β → Prop
  | last {before after : List ε} {e : ε} (split : entries = before ++ e :: after)
      (here : location e = l) (later : ∀ e' ∈ after, location e' ≠ l) :
      LastEntry entries l otherwise (value e)
  | missing (absent : ∀ e ∈ entries, location e ≠ l) : LastEntry entries l otherwise otherwise

/-- A table keeps the last entry for every location. -/
def KeepsLast (table : Std.HashMap SourceLocation β) (entries : List ε) : Prop :=
  ∀ l otherwise, LastEntry location value entries l otherwise (table.getD l otherwise)

/-- Writes entries to a table, one after the other. -/
def writeAll (table : Std.HashMap SourceLocation β) (entries : List ε) :
    Std.HashMap SourceLocation β :=
  entries.foldl (fun t e => t.insert (location e) (value e)) table

variable {location value} {entries : List ε} {l : SourceLocation} {otherwise v w : β}
  {table : Std.HashMap SourceLocation β}

/-- The last entry is the first one from behind. -/
theorem lastEntry_iff_find? :
    LastEntry location value entries l otherwise v ↔
      ((entries.reverse.find? (location · == l)).map value).getD otherwise = v := by
  constructor
  · intro h
    cases h with
    | @last before after e split here later =>
      have hfind : entries.reverse.find? (location · == l) = some e := by
        rw [List.find?_eq_some_iff_append]
        refine ⟨by simpa using here, after.reverse, before.reverse, by simp [split], ?_⟩
        intro e' he'
        simpa using later e' (List.mem_reverse.1 he')
      rw [hfind]
      rfl
    | missing absent =>
      have hfind : entries.reverse.find? (location · == l) = none := by
        rw [List.find?_eq_none]
        intro e he
        simpa using absent e (List.mem_reverse.1 he)
      rw [hfind]
      rfl
  · rintro rfl
    cases hfind : entries.reverse.find? (location · == l) with
    | none =>
      refine .missing fun e he => ?_
      simpa using List.find?_eq_none.1 hfind e (List.mem_reverse.2 he)
    | some e =>
      obtain ⟨here, after, before, hsplit, later⟩ := List.find?_eq_some_iff_append.1 hfind
      have split : entries = before.reverse ++ e :: after.reverse := by
        rw [← List.reverse_reverse entries, hsplit]
        simp
      refine .last split (by simpa using here) ?_
      intro e' he'
      simpa using later e' (List.mem_reverse.1 he')

theorem LastEntry.unique (hv : LastEntry location value entries l otherwise v)
    (hw : LastEntry location value entries l otherwise w) : v = w :=
  (lastEntry_iff_find?.1 hv).symm.trans (lastEntry_iff_find?.1 hw)

/-- An entry for another location changes nothing. -/
theorem LastEntry.concat (h : LastEntry location value entries l otherwise v) {e : ε}
    (hne : location e ≠ l) : LastEntry location value (entries ++ [e]) l otherwise v := by
  cases h with
  | last split here later =>
    refine .last (by rw [split, List.append_assoc, List.cons_append]) here ?_
    simpa [or_imp, forall_and] using ⟨later, hne⟩
  | missing absent =>
    refine .missing ?_
    simpa [or_imp, forall_and] using ⟨absent, hne⟩

theorem KeepsLast.empty : KeepsLast location value ∅ [] := by
  intro l otherwise
  rw [Std.HashMap.getD_empty]
  exact .missing (by simp)

/-- One entry more: it counts at its own location, and what is kept elsewhere stays. -/
theorem KeepsLast.insert (h : KeepsLast location value table entries) (e : ε) :
    KeepsLast location value (table.insert (location e) (value e)) (entries ++ [e]) := by
  intro l otherwise
  rw [Std.HashMap.getD_insert]
  by_cases here : location e = l
  · rw [if_pos (by simpa using here)]
    exact .last rfl here (List.forall_mem_nil _)
  · rw [if_neg (by simpa using here)]
    exact (h l otherwise).concat here

/-- A run keeps the last entry of all that were written. -/
theorem KeepsLast.writeAll (h : KeepsLast location value table entries) (more : List ε) :
    KeepsLast location value (writeAll location value table more) (entries ++ more) := by
  induction more generalizing table entries with
  | nil => rwa [List.append_nil]
  | cons e more ih =>
    have hnext := ih (h.insert e)
    rwa [List.append_assoc, List.singleton_append] at hnext

end LastEntry

/-- The range of an expansion entry. -/
def ExpansionDecl.range (e : ExpansionDecl) : SourceRange := ⟨e.start, e.stop⟩

namespace Universe

variable (u : Universe)

theorem expansion_eq_iff {l : SourceLocation} {range : SourceRange} :
    u.expansion l = range ↔
      LastEntry ExpansionDecl.location ExpansionDecl.range u.expansions l ⟨l, l⟩ range := by
  rw [lastEntry_iff_find?, expansion]
  cases u.expansions.reverse.find? (·.location == l) <;> rfl

theorem tokenLength_eq_iff {l : SourceLocation} {length : UInt32} :
    u.tokenLength l = length ↔
      LastEntry TokenLengthDecl.location TokenLengthDecl.length u.tokenLengths l 0 length := by
  rw [lastEntry_iff_find?, tokenLength]
  cases u.tokenLengths.reverse.find? (·.location == l) <;> rfl

end Universe

/-! ## Arithmetic of offsets -/

namespace Checked

/-- A sum, which must be an offset. -/
def sum (x y : UInt32) : Checked UInt32 :=
  if x.toNat + y.toNat < UInt32.size then .ok (x + y) else .error .overflow

/-- A difference, which must be an offset. -/
def difference (x y : UInt32) : Checked UInt32 :=
  if y.toNat ≤ x.toNat then .ok (x - y) else .error .overflow

/-- The largest offset. -/
def largest : UInt32 := UInt32.ofNat (UInt32.size - 1)

/-- A sum, if there is room for it. -/
def sumWithin (x y : UInt32) : Checked (Option UInt32) := do
  let room ← difference largest x
  if y ≤ room then do
    let z ← sum x y
    .ok (some z)
  else .ok none

/-- A difference that stops at zero. -/
def differenceOrZero (x y : UInt32) : Checked UInt32 :=
  if y ≤ x then difference x y else .ok 0

/-- The offset behind a name and the parenthesis that follows it, if there is room for both. -/
def behindName (start length : UInt32) : Checked (Option UInt32) := do
  match ← sumWithin start length with
  | none => .ok none
  | some nameEnd => sumWithin nameEnd 1

theorem sum_of_lt {x y : UInt32} (h : x.toNat + y.toNat < UInt32.size) :
    sum x y = .ok (UInt32.ofNat (x.toNat + y.toNat)) := by
  rw [sum, if_pos h, UInt32.ofNat_add, UInt32.ofNat_toNat, UInt32.ofNat_toNat]

theorem difference_of_le {x y : UInt32} (h : y.toNat ≤ x.toNat) :
    difference x y = .ok (UInt32.ofNat (x.toNat - y.toNat)) := by
  rw [difference, if_pos h, ← UInt32.toNat_sub_of_le _ _ (UInt32.le_iff_toNat_le.2 h),
    UInt32.ofNat_toNat]

/-- The room above an offset can be measured, and tells whether a sum is an offset. -/
theorem sumWithin_eq (x y : UInt32) :
    sumWithin x y =
      .ok (if x.toNat + y.toNat < UInt32.size then some (UInt32.ofNat (x.toNat + y.toNat))
        else none) := by
  have hx : x.toNat < UInt32.size := x.toNat_lt
  have hlargest : largest.toNat = UInt32.size - 1 := rfl
  have hle : x.toNat ≤ largest.toNat := by omega
  have hroom : (UInt32.ofNat (largest.toNat - x.toNat)).toNat = largest.toNat - x.toNat :=
    UInt32.toNat_ofNat_of_lt' (by omega)
  have hiff : y ≤ UInt32.ofNat (largest.toNat - x.toNat) ↔ x.toNat + y.toNat < UInt32.size := by
    rw [UInt32.le_iff_toNat_le, hroom, hlargest]
    omega
  rw [sumWithin, difference_of_le hle]
  simp only [bind, Except.bind, hiff]
  split
  · rename_i hfits
    rw [sum_of_lt hfits]
  · rfl

/-- Where a name just fits and the parenthesis does not, there is no offset behind both. -/
theorem behindName_eq (start length : UInt32) :
    behindName start length =
      .ok (if start.toNat + length.toNat + 1 < UInt32.size then
        some (UInt32.ofNat (start.toNat + length.toNat + 1)) else none) := by
  simp only [behindName, sumWithin_eq, bind, Except.bind]
  by_cases hname : start.toNat + length.toNat < UInt32.size
  · simp only [if_pos hname, UInt32.toNat_ofNat_of_lt' hname]
    rfl
  · rw [if_neg hname, if_neg (by omega)]

theorem differenceOrZero_eq (x y : UInt32) :
    differenceOrZero x y = .ok (UInt32.ofNat (x.toNat - y.toNat)) := by
  unfold differenceOrZero
  split
  · rename_i hle
    exact difference_of_le (UInt32.le_iff_toNat_le.1 hle)
  · rename_i hlt
    rw [UInt32.le_iff_toNat_le] at hlt
    rw [Nat.sub_eq_zero_of_le (by omega)]
    rfl

end Checked

/-! ## Placing a literal -/

/-- The source map in tables, which are written to entry by entry. -/
structure SourceTables where
  expansions : Std.HashMap SourceLocation SourceRange := ∅
  tokenLengths : Std.HashMap SourceLocation UInt32 := ∅

namespace SourceTables

/-- Writes the entries of a source to the tables. -/
def extend (t : SourceTables) (expansions : List ExpansionDecl)
    (tokenLengths : List TokenLengthDecl) : SourceTables where
  expansions := writeAll ExpansionDecl.location ExpansionDecl.range t.expansions expansions
  tokenLengths :=
    writeAll TokenLengthDecl.location TokenLengthDecl.length t.tokenLengths tokenLengths

/-- The range a location was expanded from, or the location itself. -/
def expansion (t : SourceTables) (l : SourceLocation) : SourceRange :=
  t.expansions.getD l ⟨l, l⟩

/-- The length of the token at a location, or zero. -/
def tokenLength (t : SourceTables) (l : SourceLocation) : UInt32 :=
  t.tokenLengths.getD l 0

/-- The place that a token is lifted to, if its start is an offset. -/
def stringizedRange (t : SourceTables) (token : SourceLocation) :
    Checked (Option SourceRange) := do
  let outer := t.expansion token
  let start := (t.expansion outer.start).start
  let stop := (t.expansion outer.stop).stop
  match ← Checked.behindName start (t.tokenLength start) with
  | none => .ok none
  | some first => do
    let last ← Checked.differenceOrZero stop 1
    .ok (some ⟨first, last⟩)

/-- The range a use of a literal is reported at. -/
def literalRange (t : SourceTables) (literal : StringLiteral) : Checked SourceRange :=
  if literal.concatenated < 2 then .ok literal.range
  else
    match literal.tokens[1]? with
    | none => .ok literal.range
    | some token => do
      match ← t.stringizedRange token with
      | some range => .ok range
      | none => .ok literal.range

/-- The tables say the same as the entries of a universe. -/
structure Agrees (t : SourceTables) (u : Universe) : Prop where
  expansions : KeepsLast ExpansionDecl.location ExpansionDecl.range t.expansions u.expansions
  tokenLengths :
    KeepsLast TokenLengthDecl.location TokenLengthDecl.length t.tokenLengths u.tokenLengths

variable {t : SourceTables} {u : Universe}

theorem Agrees.withSourceMap (h : t.Agrees u) (expansions : List ExpansionDecl)
    (tokenLengths : List TokenLengthDecl) :
    (t.extend expansions tokenLengths).Agrees (u.withSourceMap expansions tokenLengths) :=
  ⟨h.expansions.writeAll expansions, h.tokenLengths.writeAll tokenLengths⟩

theorem Agrees.expansion_eq (h : t.Agrees u) (l : SourceLocation) :
    t.expansion l = u.expansion l :=
  (h.expansions l ⟨l, l⟩).unique (u.expansion_eq_iff.1 rfl)

theorem Agrees.tokenLength_eq (h : t.Agrees u) (l : SourceLocation) :
    t.tokenLength l = u.tokenLength l :=
  (h.tokenLengths l 0).unique (u.tokenLength_eq_iff.1 rfl)

/-- No operation fails while a token is lifted. -/
theorem Agrees.stringizedRange_eq (h : t.Agrees u) (token : SourceLocation) :
    t.stringizedRange token = .ok (u.stringizedRange? token) := by
  simp only [stringizedRange, h.expansion_eq, h.tokenLength_eq, Checked.behindName_eq,
    Checked.differenceOrZero_eq, bind, Except.bind]
  rw [u.stringizedRange?_eq]
  -- Both sides ask whether the same sum is an offset.
  by_cases hfits : u.argumentStart token < UInt32.size
  · rw [if_pos hfits]
    simp only [Universe.argumentStart, Universe.invocation] at hfits ⊢
    rw [if_pos hfits]
    rfl
  · rw [if_neg hfits]
    simp only [Universe.argumentStart, Universe.invocation] at hfits
    rw [if_neg hfits]

theorem Agrees.literalRange_eq (h : t.Agrees u) (literal : StringLiteral) :
    t.literalRange literal = .ok (u.literalRange literal).value := by
  rw [u.value_literalRange_eq]
  unfold literalRange
  split
  · rename_i hfew
    have htoken : literal.tokens[1]? = none := by
      rw [StringLiteral.concatenated] at hfew
      exact List.getElem?_eq_none (by omega)
    rw [htoken]
    rfl
  · cases literal.tokens[1]? with
    | none => rfl
    | some token =>
      simp only [h.stringizedRange_eq, bind, Except.bind, Option.bind_some]
      cases u.stringizedRange? token <;> rfl

end SourceTables

/-! ## Exact places -/

section IsPlace

variable (expansion : SourceLocation → SourceRange) (tokenLength : SourceLocation → UInt32)

/--
The place of a literal in unbounded integers.  A literal of several tokens has its
second token lifted two expansion levels, to `b` and `e`; from there the name, the
parenthesis behind it and the last character are cut off.  It keeps its own range
when the start would be no offset.
-/
structure IsPlace (literal : StringLiteral) (place : SourceRange) : Prop where
  own : literal.tokens.length < 2 → place = literal.range
  lifted : ∀ token, literal.tokens[1]? = some token →
    let b := (expansion (expansion token).start).start
    let e := (expansion (expansion token).stop).stop
    (b.toNat : Int) + (tokenLength b).toNat + 1 < 2 ^ 32 →
      (place.start.toNat : Int) = b.toNat + (tokenLength b).toNat + 1 ∧
      (place.stop.toNat : Int) = max ((e.toNat : Int) - 1) 0
  beyond : ∀ token, literal.tokens[1]? = some token →
    let b := (expansion (expansion token).start).start
    2 ^ 32 ≤ (b.toNat : Int) + (tokenLength b).toNat + 1 → place = literal.range

variable {expansion tokenLength} {literal : StringLiteral}

/-- A literal has one place. -/
theorem IsPlace.unique {place other : SourceRange}
    (h : IsPlace expansion tokenLength literal place)
    (hother : IsPlace expansion tokenLength literal other) : place = other := by
  cases htoken : literal.tokens[1]? with
  | none =>
    have hfew : literal.tokens.length < 2 := Nat.lt_succ_of_le (List.getElem?_eq_none_iff.1 htoken)
    rw [h.own hfew, hother.own hfew]
  | some token =>
    let b := (expansion (expansion token).start).start
    by_cases hfits : (b.toNat : Int) + (tokenLength b).toNat + 1 < 2 ^ 32
    · obtain ⟨hstart, hstop⟩ := h.lifted token htoken hfits
      obtain ⟨hstart', hstop'⟩ := hother.lifted token htoken hfits
      obtain ⟨start, stop⟩ := place
      obtain ⟨start', stop'⟩ := other
      rw [SourceRange.mk.injEq, ← UInt32.toNat_inj, ← UInt32.toNat_inj]
      exact ⟨Int.ofNat.inj (hstart.trans hstart'.symm), Int.ofNat.inj (hstop.trans hstop'.symm)⟩
    · have hbeyond := Int.not_lt.1 hfits
      rw [h.beyond token htoken hbeyond, hother.beyond token htoken hbeyond]

end IsPlace

namespace Universe

/-- In every universe a literal is reported at its place. -/
theorem isPlace_literalRange (u : Universe) (literal : StringLiteral) :
    IsPlace u.expansion u.tokenLength literal (u.literalRange literal).value := by
  have hsize : UInt32.size = 2 ^ 32 := rfl
  rw [value_literalRange_eq]
  refine ⟨?_, ?_, ?_⟩
  · intro hfew
    rw [List.getElem?_eq_none (by omega)]
    rfl
  · intro token htoken b e hfits
    have hfirst : u.argumentStart token = b.toNat + (u.tokenLength b).toNat + 1 := rfl
    have hlast : (u.invocation token).stop = e := rfl
    have hoffset : u.argumentStart token < UInt32.size := by omega
    have hstop : e.toNat - 1 < UInt32.size := Nat.lt_of_le_of_lt (Nat.sub_le _ _) e.toNat_lt
    rw [htoken, Option.bind_some, stringizedRange?_eq, if_pos hoffset, Option.getD_some,
      UInt32.toNat_ofNat_of_lt' hoffset, hlast, UInt32.toNat_ofNat_of_lt' hstop]
    omega
  · intro token htoken b hbeyond
    have hfirst : u.argumentStart token = b.toNat + (u.tokenLength b).toNat + 1 := rfl
    have hoffset : ¬ u.argumentStart token < UInt32.size := by omega
    rw [htoken, Option.bind_some, stringizedRange?_eq, if_neg hoffset]
    rfl

/--
A source map that is added to the universe of some classes says about each
location what its last entry says; a location without an entry stands for itself
and has no length.  With it every literal is reported at its place, and nowhere
else.  Placing it with tables that are written entry by entry, and with operations
that fail when a result is no offset, never fails and gives the same range.
-/
theorem literalRange_exact {decls : List ClassDecl} {u : Universe} (h : ofClasses decls = .ok u)
    (expansions : List ExpansionDecl) (tokenLengths : List TokenLengthDecl)
    (literal : StringLiteral) :
    let v := u.withSourceMap expansions tokenLengths
    (∀ l range, v.expansion l = range ↔
      LastEntry ExpansionDecl.location ExpansionDecl.range expansions l ⟨l, l⟩ range) ∧
    (∀ l length, v.tokenLength l = length ↔
      LastEntry TokenLengthDecl.location TokenLengthDecl.length tokenLengths l 0 length) ∧
    (∀ place, (v.literalRange literal).value = place ↔
      IsPlace v.expansion v.tokenLength literal place) ∧
    (SourceTables.extend {} expansions tokenLengths).literalRange literal =
      .ok (v.literalRange literal).value := by
  obtain ⟨_, rfl⟩ := eq_layout_of_ofClasses h
  intro v
  have hempty : SourceTables.Agrees {} (layout decls [] []) := ⟨.empty, .empty⟩
  have hagrees : SourceTables.Agrees _ v := hempty.withSourceMap expansions tokenLengths
  have hplace := v.isPlace_literalRange literal
  refine ⟨?_, ?_, ?_, hagrees.literalRange_eq literal⟩
  · intro l range
    exact v.expansion_eq_iff
  · intro l length
    exact v.tokenLength_eq_iff
  · intro place
    constructor
    · rintro rfl
      exact hplace
    · exact hplace.unique

/-- A token that is lifted to a name five characters in front of the largest offset.  The entries
for its location and for that of the name are written twice. -/
def nearLargestOffset : List ExpansionDecl :=
  [⟨501, 1, 2⟩, ⟨501, 600, 610⟩, ⟨600, 7, 8⟩, ⟨600, 4294967290, 4294967290⟩, ⟨610, 0, 0⟩]

/-- A literal of two tokens. -/
def stringizedRefresh : StringLiteral := ⟨"1refresh()", 1, ⟨500, 520⟩, [500, 501]⟩

-- Behind a name of four characters there is one offset left; behind one of five the name still
-- fits, but not the parenthesis.
theorem literalRange_exact_nearLargestOffset :
    ∃ u, ofClasses [{ name := "Display" }] = .ok u ∧
      let fits := [⟨4294967290, 9⟩, ⟨4294967290, 4⟩]
      let v := u.withSourceMap nearLargestOffset fits
      v.expansion 600 = ⟨4294967290, 4294967290⟩ ∧
      IsPlace v.expansion v.tokenLength stringizedRefresh ⟨4294967295, 0⟩ ∧
      (SourceTables.extend {} nearLargestOffset fits).literalRange stringizedRefresh =
        .ok ⟨4294967295, 0⟩ ∧
      (SourceTables.extend {} nearLargestOffset [⟨4294967290, 5⟩]).literalRange stringizedRefresh =
        .ok ⟨500, 520⟩ := by
  have hu : ofClasses [{ name := "Display" }] = .ok (layout [{ name := "Display" }] [] []) := rfl
  obtain ⟨hexpansion, _, hplace, hfits⟩ := literalRange_exact hu nearLargestOffset
    [⟨4294967290, 9⟩, ⟨4294967290, 4⟩] stringizedRefresh
  obtain ⟨_, _, _, hbeyond⟩ := literalRange_exact hu nearLargestOffset [⟨4294967290, 5⟩]
    stringizedRefresh
  have hlast : [(⟨501, 1, 2⟩ : ExpansionDecl), ⟨501, 600, 610⟩, ⟨600, 7, 8⟩] ++
      ⟨600, 4294967290, 4294967290⟩ :: [⟨610, 0, 0⟩] = nearLargestOffset := rfl
  exact ⟨_, hu, (hexpansion _ _).2 (.last hlast.symm rfl (by decide)),
    (hplace _).1 (by decide), hfits.trans (congrArg Except.ok (by decide)),
    hbeyond.trans (congrArg Except.ok (by decide))⟩

end Universe

end SignalSlot
