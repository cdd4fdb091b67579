import Mathlib.Data.List.Basic
import SignalSlot.Json.Reader
import SignalSlot.Json.Writer

set_option autoImplicit false

/-!
# Reading back what was written

A document that holds nothing but texts, natural numbers, truth values, `null`
and containers of these, not too deeply nested, is read back as it was written:
`read_render`.  There are two steps.  `scan_write` says that the text is cut into
the tokens of the document, whatever the document is, and `Plain.reads` that the
tokens of such a document are put together to it.  Both are stated for a document
with more behind it, so that one induction carries them through the containers.

A document is written on one line: `newline_not_mem_render`.
-/

namespace SignalSlot.Json

/-! ## Strings -/

/-- A character is written as a short escape, by its number, or as it stands. -/
theorem escaped_cases (c : Char) :
    (∃ e, e ≠ 'u' ∧ Token.escape? e = some c ∧ escaped c = ['\\', e]) ∨
    (c.toNat < 32 ∧ escaped c =
      ['\\', 'u', '0', '0', hexDigit (c.toNat / 16), hexDigit (c.toNat % 16)]) ∨
    (c ≠ '"' ∧ c ≠ '\\' ∧ ¬ c < ' ' ∧ escaped c = [c]) := by
  unfold escaped
  split
  · exact .inl ⟨'"', by decide, by simp [Token.escape?, *], rfl⟩
  split
  · exact .inl ⟨'\\', by decide, by simp [Token.escape?, *], rfl⟩
  split
  · exact .inl ⟨'b', by decide, by simp [Token.escape?, *], rfl⟩
  split
  · exact .inl ⟨'f', by decide, by simp [Token.escape?, *], rfl⟩
  split
  · exact .inl ⟨'n', by decide, by simp [Token.escape?, *], rfl⟩
  split
  · exact .inl ⟨'r', by decide, by simp [Token.escape?, *], rfl⟩
  split
  · exact .inl ⟨'t', by decide, by simp [Token.escape?, *], rfl⟩
  split
  · rename_i hcontrol
    exact .inr (.inl ⟨hcontrol, rfl⟩)
  · exact .inr (.inr ⟨by assumption, by assumption, by assumption, rfl⟩)

namespace Token

theorem hex4?_hexDigit : ∀ n < 32,
    hex4? '0' '0' (hexDigit (n / 16)) (hexDigit (n % 16)) = some n := by
  decide

/-- A piece that stands for a character: the character itself, or its number if it is small. -/
def IsPieceOf (c : Char) (piece : Piece) : Prop :=
  piece = .char c ∨ piece = .unit c.toNat ∧ c.toNat < 32

theorem pieces?_escaped (c : Char) (text : List Char) :
    ∃ piece, IsPieceOf c piece ∧
      pieces? (escaped c ++ text) = (pieces? text).map fun p => (piece :: p.1, p.2) := by
  rcases escaped_cases c with ⟨e, hu, hescape, hc⟩ | ⟨hsmall, hc⟩ | ⟨hquote, hback, hcontrol, hc⟩
  · refine ⟨.char c, .inl rfl, ?_⟩
    rw [hc]
    show pieces? ('\\' :: e :: text) = _
    rw [pieces?, hescape]
    · cases pieces? text <;> rfl
    · intro _ _ _ _ _ heq
      exact absurd heq hu
  · refine ⟨.unit c.toNat, .inr ⟨rfl, hsmall⟩, ?_⟩
    rw [hc]
    simp only [List.cons_append, List.nil_append, pieces?, hex4?_hexDigit _ hsmall]
    cases pieces? text <;> rfl
  · refine ⟨.char c, .inl rfl, ?_⟩
    rw [hc]
    show pieces? (c :: text) = _
    rw [pieces?, if_neg (not_or.2 ⟨hcontrol, hback⟩)]
    · cases pieces? text <;> rfl
    · exact hquote
    · intro _ _ _ _ _ hc' _
      exact hback hc'
    · intro _ _ hc' _
      exact hback hc'

theorem characters?_cons {c : Char} {piece : Piece} (h : IsPieceOf c piece) (ps : List Piece) :
    characters? (piece :: ps) = (characters? ps).map (c :: ·) := by
  rcases h with rfl | ⟨rfl, hsmall⟩
  · rw [characters?]
  · have hhigh : isHigh c.toNat = false := by
      simp [isHigh]
      omega
    have hlow : isLow c.toNat = false := by
      simp [isLow]
      omega
    have hchar : Char.ofNat c.toNat = c := Char.ofNat_toNat c
    rcases ps with _ | ⟨_ | n, ps⟩
    · simp [characters?, hhigh, hlow, hchar]
    · simp [characters?, hhigh, hlow, hchar]
    · rw [characters?]
      simp [hhigh, hlow, hchar]

/-- What is written for a string is read back up to its closing quote. -/
theorem pieces?_quoted (s rest : List Char) :
    ∃ ps, pieces? (s.flatMap escaped ++ '"' :: rest) = some (ps, rest) ∧
      characters? ps = some s := by
  induction s with
  | nil => exact ⟨[], by simp [pieces?], rfl⟩
  | cons c s ih =>
    obtain ⟨ps, hps, hchars⟩ := ih
    obtain ⟨piece, hpiece, hread⟩ := pieces?_escaped c (s.flatMap escaped ++ '"' :: rest)
    refine ⟨piece :: ps, ?_, ?_⟩
    · rw [List.flatMap_cons, List.append_assoc, hread, hps]
      rfl
    · rw [characters?_cons hpiece, hchars]
      rfl

theorem next?_quoted (s : String) (rest : List Char) :
    next? (quoted s.toList ++ rest) = some (.string (.text s), rest) := by
  obtain ⟨ps, hps, hchars⟩ := pieces?_quoted s.toList rest
  have hquoted : quoted s.toList ++ rest = '"' :: (s.toList.flatMap escaped ++ '"' :: rest) := by
    simp [quoted]
  rw [hquoted, next?, hps]
  simp [ofPieces, hchars]

/-! ## Numbers -/

/-- Nothing that follows can belong to a number. -/
def EndsNumber (rest : List Char) : Prop :=
  ∀ c ∈ rest.head?, c.isDigit = false ∧ c ≠ '.' ∧ c ≠ 'e' ∧ c ≠ 'E'

theorem digitsValue_toDigits (n : Nat) : digitsValue (Nat.toDigits 10 n) = n := by
  have hvalue := @Nat.ofDigitChars_ten_toDigits n
  rw [Nat.ofDigitChars] at hvalue
  unfold digitsValue
  simpa only [Nat.mul_comm] using hvalue

theorem digitChar_ne_zero : ∀ n < 10, 0 < n → Nat.digitChar n ≠ '0' := by
  decide

/-- Only the number zero is written with a zero in front. -/
theorem head?_toDigits {n : Nat} (h : 0 < n) : (Nat.toDigits 10 n).head? ≠ some '0' := by
  induction n using Nat.strongRecOn with
  | ind n ih =>
    by_cases hn : n < 10
    · rw [Nat.toDigits_of_lt_base hn, List.head?_cons]
      exact fun heq => digitChar_ne_zero n hn h (Option.some.inj heq)
    · have hten : 10 ≤ n := Nat.le_of_not_lt hn
      have hhead : ((Nat.toDigits 10 (n / 10)).head?).isSome = true :=
        List.isSome_head?.2 Nat.toDigits_ne_nil
      obtain ⟨c, hc⟩ := Option.isSome_iff_exists.1 hhead
      rw [Nat.toDigits_of_base_le (by decide) hten, List.head?_append, hc, Option.some_or, ← hc]
      exact ih (n / 10) (by omega) (by omega)

theorem digits_toDigits (n : Nat) {rest : List Char} (h : EndsNumber rest) :
    digits (Nat.toDigits 10 n ++ rest) = (Nat.toDigits 10 n, rest) := by
  have hdigits : ∀ c ∈ Nat.toDigits 10 n, c.isDigit = true :=
    fun _ hc => Nat.isDigit_of_mem_toDigits (by decide) (by decide) hc
  rw [digits, List.takeWhile_append_of_pos hdigits, List.dropWhile_append_of_pos hdigits]
  cases rest with
  | nil => simp
  | cons c rest =>
    obtain ⟨hc, _⟩ := h c rfl
    rw [List.takeWhile_cons_of_neg (by simp [hc]), List.dropWhile_cons_of_neg (by simp [hc]),
      List.append_nil]

theorem integer?_toDigits (n : Nat) {rest : List Char} (h : EndsNumber rest) :
    integer? (Nat.toDigits 10 n ++ rest) = some (n, rest) := by
  unfold integer?
  rw [digits_toDigits n h]
  split
  · rename_i heq
    exact absurd (Prod.mk.inj heq).1 Nat.toDigits_ne_nil
  · rename_i a ds _ heq
    have hds := (Prod.mk.inj heq).1
    rcases Nat.eq_zero_or_pos n with rfl | hpos
    · rw [Nat.toDigits_zero] at hds
      cases hds
    · exact absurd (by rw [hds]; rfl) (head?_toDigits hpos)
  · rename_i heq
    obtain ⟨rfl, rfl⟩ := Prod.mk.inj heq
    rw [digitsValue_toDigits]

theorem unsigned?_toDigits (n : Nat) {rest : List Char} (h : EndsNumber rest) :
    unsigned? (Nat.toDigits 10 n ++ rest) = some (.natural n, rest) := by
  have hfraction : fraction? rest = some (false, rest) := by
    cases rest with
    | nil => rfl
    | cons c rest =>
      obtain ⟨_, hpoint, _⟩ := h c rfl
      rw [fraction?]
      intro _ heq
      exact hpoint (List.cons.inj heq).1
  have hexponent : exponent? rest = some (false, rest) := by
    cases rest with
    | nil => rfl
    | cons c rest =>
      obtain ⟨_, _, hlower, hupper⟩ := h c rfl
      rw [exponent?, if_neg (not_or.2 ⟨hlower, hupper⟩)]
  simp [unsigned?, integer?_toDigits n h, hfraction, hexponent]

/-- A digit starts no other token, so it starts a number. -/
theorem next?_digit {d : Char} (hd : d.isDigit = true) (s : List Char) :
    next? (d :: s) = (unsigned? (d :: s)).map fun (n, r) => (.number n, r) := by
  have hne : ∀ c : Char, c.isDigit = false → d ≠ c := by
    intro c hc heq
    rw [heq, hc] at hd
    cases hd
  have hword : ∀ (word : String) (token : Token), word.toList.head?.map Char.isDigit = some false →
      word? word token (d :: s) = none := by
    intro word token hhead
    rw [word?]
    cases hcs : word.toList with
    | nil => simp [hcs] at hhead
    | cons c cs =>
      rw [hcs] at hhead
      simp [Text.after?, (hne c (Option.some.inj hhead)).symm]
  have hnumber : number? (d :: s) = unsigned? (d :: s) := by
    rw [number?]
    intro _ heq
    exact hne '-' (by decide) (List.cons.inj heq).1
  have hbracket : ∀ (c : Char) (cs : List Char), c.isDigit = false → d :: s = c :: cs → False :=
    fun c _ hc heq => hne c hc (List.cons.inj heq).1
  rw [next?, hnumber, hword "null" _ (by decide), hword "true" _ (by decide),
    hword "false" _ (by decide), Option.none_or, Option.none_or, Option.none_or]
  · intro heq
    cases heq
  all_goals
    intro rest
    exact hbracket _ rest (by decide)

/-- What is written for a number is read back, whatever follows that cannot belong to it. -/
theorem next?_toDigits (n : Nat) {rest : List Char} (h : EndsNumber rest) :
    next? (Nat.toDigits 10 n ++ rest) = some (.number (.natural n), rest) := by
  have hunsigned := unsigned?_toDigits n h
  cases hds : Nat.toDigits 10 n with
  | nil => exact absurd hds Nat.toDigits_ne_nil
  | cons d ds =>
    have hmem : d ∈ Nat.toDigits 10 n := by
      rw [hds]
      exact List.mem_cons_self
    have hd : d.isDigit = true := Nat.isDigit_of_mem_toDigits (by decide) (by decide) hmem
    rw [hds, List.cons_append] at hunsigned
    rw [List.cons_append, next?_digit hd, hunsigned]
    rfl

/-! ## Scanning -/

/-- From the front of `s`, the scanner gives `tokens` and then stands in front of `rest`. -/
def Scans (s : List Char) (tokens : List Token) (rest : List Char) : Prop :=
  ∀ bound, s.length < bound →
    ∃ left, rest.length < left ∧ scanUpTo bound s = tokens ++ scanUpTo left rest

namespace Scans

variable {s middle rest : List Char} {front back : List Token}

theorem trans (hfront : Scans s front middle) (hback : Scans middle back rest) :
    Scans s (front ++ back) rest := by
  intro bound hbound
  obtain ⟨left, hleft, hs⟩ := hfront bound hbound
  obtain ⟨left', hleft', hmiddle⟩ := hback left hleft
  exact ⟨left', hleft', by rw [hs, hmiddle, List.append_assoc]⟩

theorem token {c : Char} {token : Token} (hspace : isSpace c = false)
    (hnext : next? (c :: s ++ rest) = some (token, rest)) :
    Scans (c :: s ++ rest) [token] rest := by
  intro bound hbound
  cases bound with
  | zero => cases hbound
  | succ bound =>
    rw [List.length_append, List.length_cons] at hbound
    rw [List.cons_append] at hnext ⊢
    refine ⟨bound, by omega, ?_⟩
    simp [scanUpTo, hspace, hnext]

theorem cons {c : Char} {token : Token} (hspace : isSpace c = false)
    (hnext : next? (c :: s) = some (token, s)) (hback : Scans s back rest) :
    Scans (c :: s) (token :: back) rest :=
  (Scans.token (s := []) hspace hnext).trans hback

/-- Scanning to the end gives all tokens. -/
theorem scan_eq (h : Scans s front []) : scan s = front := by
  obtain ⟨left, _, hs⟩ := h (s.length + 1) (Nat.lt_succ_self _)
  rw [scan, hs]
  cases left with
  | zero => simp [scanUpTo]
  | succ left => simp [scanUpTo]

theorem quoted (s : String) (rest : List Char) :
    Scans (Json.quoted s.toList ++ rest) [.string (.text s)] rest :=
  token rfl (next?_quoted s rest)

theorem toDigits (n : Nat) (h : EndsNumber rest) :
    Scans (Nat.toDigits 10 n ++ rest) [.number (.natural n)] rest := by
  have hnext := next?_toDigits n h
  have hdigits : ∀ d ∈ Nat.toDigits 10 n, d.isDigit = true :=
    fun _ hd => Nat.isDigit_of_mem_toDigits (by decide) (by decide) hd
  cases hds : Nat.toDigits 10 n with
  | nil => exact absurd hds Nat.toDigits_ne_nil
  | cons d ds =>
    rw [hds] at hnext hdigits
    refine token ?_ hnext
    have hd := hdigits d List.mem_cons_self
    simp only [isSpace, Bool.or_eq_false_iff, beq_eq_false_iff_ne]
    refine ⟨⟨⟨?_, ?_⟩, ?_⟩, ?_⟩ <;> (intro heq; subst heq; cases hd)

end Scans

/-- What is written for a string, as a token. -/
def ofQuoted : Quoted → Token
  | .text s => .string (.text s)
  | .unpaired => .string (.text "")

end Token

open Token

mutual

/-- The tokens that are written for a document. -/
def tokens : Json → List Token
  | .null => [.null]
  | .bool b => [.bool b]
  | .number (.natural n) => [.number (.natural n)]
  | .number .other => [.null]
  | .string q => [ofQuoted q]
  | .array [] => [.openBracket, .closeBracket]
  | .array (v :: rest) => .openBracket :: (tokens v ++ itemTokens rest)
  | .object [] => [.openBrace, .closeBrace]
  | .object ((k, v) :: rest) =>
    .openBrace :: ofQuoted k :: .colon :: (tokens v ++ memberTokens rest)
  | .tooDeep v => tokens v
  | .broken => [.null]

/-- The tokens of the further items of an array and of its end. -/
def itemTokens : List Json → List Token
  | [] => [.closeBracket]
  | v :: rest => .comma :: (tokens v ++ itemTokens rest)

/-- The tokens of the further members of an object and of its end. -/
def memberTokens : List (Quoted × Json) → List Token
  | [] => [.closeBrace]
  | (k, v) :: rest => .comma :: ofQuoted k :: .colon :: (tokens v ++ memberTokens rest)

end

theorem scans_quotedText (q : Quoted) (rest : List Char) :
    Scans (quotedText q ++ rest) [ofQuoted q] rest := by
  cases q with
  | text s => exact .quoted s rest
  | unpaired => exact .quoted "" rest

theorem endsNumber_cons {c : Char} {rest : List Char}
    (h : c.isDigit = false ∧ c ≠ '.' ∧ c ≠ 'e' ∧ c ≠ 'E') : EndsNumber (c :: rest) := by
  intro d hd
  obtain rfl : c = d := Option.some.inj hd
  exact h

theorem endsNumber_writeItems (items : List Json) (rest : List Char) :
    EndsNumber (writeItems items ++ rest) := by
  cases items with
  | nil => exact endsNumber_cons (by decide)
  | cons v items => exact endsNumber_cons (by decide)

theorem endsNumber_writeMembers (members : List (Quoted × Json)) (rest : List Char) :
    EndsNumber (writeMembers members ++ rest) := by
  cases members with
  | nil => exact endsNumber_cons (by decide)
  | cons m members => exact endsNumber_cons (by decide)

-- A number is the only token whose end depends on what follows, so the claim is carried
-- through the document together with what stands behind it.
mutual

theorem scans_write : ∀ (j : Json) {rest : List Char}, EndsNumber rest →
    Scans (write j ++ rest) (tokens j) rest
  | .null, rest, _ => .token (c := 'n') (s := ['u', 'l', 'l']) rfl rfl
  | .bool true, rest, _ => .token (c := 't') (s := ['r', 'u', 'e']) rfl rfl
  | .bool false, rest, _ => .token (c := 'f') (s := ['a', 'l', 's', 'e']) rfl rfl
  | .number (.natural n), rest, h => by
    rw [write, tokens]
    exact .toDigits n h
  | .number .other, rest, _ => .token (c := 'n') (s := ['u', 'l', 'l']) rfl rfl
  | .string q, rest, _ => by
    rw [write, tokens]
    exact scans_quotedText q rest
  | .array [], rest, _ => .cons (c := '[') rfl rfl (.token (c := ']') (s := []) rfl rfl)
  | .array (v :: items), rest, h => by
    rw [write, tokens, List.cons_append, List.append_assoc]
    exact .cons rfl rfl
      ((scans_write v (endsNumber_writeItems items rest)).trans (scans_writeItems items h))
  | .object [], rest, _ => .cons (c := '{') rfl rfl (.token (c := '}') (s := []) rfl rfl)
  | .object ((k, v) :: members), rest, h => by
    rw [write, tokens, List.cons_append, List.append_assoc, List.cons_append, List.append_assoc]
    exact .cons rfl rfl ((scans_quotedText k _).trans (.cons rfl rfl
      ((scans_write v (endsNumber_writeMembers members rest)).trans
        (scans_writeMembers members h))))
  | .tooDeep v, rest, h => by
    rw [write, tokens]
    exact scans_write v h
  | .broken, rest, _ => .token (c := 'n') (s := ['u', 'l', 'l']) rfl rfl

theorem scans_writeItems : ∀ (items : List Json) {rest : List Char}, EndsNumber rest →
    Scans (writeItems items ++ rest) (itemTokens items) rest
  | [], rest, _ => .token (c := ']') (s := []) rfl rfl
  | v :: items, rest, h => by
    rw [writeItems, itemTokens, List.cons_append, List.append_assoc]
    exact .cons rfl rfl
      ((scans_write v (endsNumber_writeItems items rest)).trans (scans_writeItems items h))

theorem scans_writeMembers : ∀ (members : List (Quoted × Json)) {rest : List Char},
    EndsNumber rest → Scans (writeMembers members ++ rest) (memberTokens members) rest
  | [], rest, _ => .token (c := '}') (s := []) rfl rfl
  | (k, v) :: members, rest, h => by
    rw [writeMembers, memberTokens, List.cons_append, List.append_assoc, List.cons_append,
      List.append_assoc]
    exact .cons rfl rfl ((scans_quotedText k _).trans (.cons rfl rfl
      ((scans_write v (endsNumber_writeMembers members rest)).trans
        (scans_writeMembers members h))))

end

/-- A written document is cut into its tokens. -/
theorem scan_write (j : Json) : scan (write j) = tokens j := by
  have hends : EndsNumber [] := by
    intro c hc
    cases hc
  have hscans := scans_write j hends
  rw [List.append_nil] at hscans
  exact hscans.scan_eq

/-! ## Assembling -/

/--
A document whose strings are texts and whose numbers are natural, with at most
so many containers around any of its values.
-/
inductive Plain : Nat → Json → Prop
  | null {depth : Nat} : Plain depth .null
  | bool {depth : Nat} (b : Bool) : Plain depth (.bool b)
  | nat {depth : Nat} (n : Nat) : Plain depth (.nat n)
  | text {depth : Nat} (s : String) : Plain depth (.text s)
  | array {depth : Nat} {items : List Json} :
    (∀ v ∈ items, Plain depth v) → Plain (depth + 1) (.array items)
  | record {depth : Nat} {members : List (String × Json)} :
    (∀ m ∈ members, Plain depth m.2) → Plain (depth + 1) (.record members)

namespace State

/-- A state in which a value may start, inside the containers of a stack. -/
def Awaits (state : State) (stack : List Frame) : Prop :=
  ∀ t, t ≠ .closeBracket → state.step? t = startValue stack t

theorem awaits_value (stack : List Frame) : Awaits (.value stack) stack :=
  fun _ _ => rfl

theorem awaits_firstItem (stack : List Frame) : Awaits (.firstItem stack) (.array [] :: stack) := by
  intro t ht
  rw [step?]
  exact ht

/-- Tokens that make up a value: they lead from where it may start to where it ends. -/
def Reads (tokens : List Token) (v : Json) (stack : List Frame) : Prop :=
  ∀ state, Awaits state stack → ∀ rest,
    assemble state (tokens ++ rest) = assemble (.after v stack) rest

theorem assemble_step {state state' : State} {t : Token} (h : state.step? t = some state')
    (rest : List Token) : assemble state (t :: rest) = assemble state' rest := by
  rw [assemble, h]

theorem within_of_lt {stack : List Frame} (h : stack.length < depthLimit) (container : Json) :
    within stack container = container := by
  rw [within, if_neg (Nat.not_le.2 h)]

theorem Reads.single {t : Token} {v : Json} {stack : List Frame} (hclose : t ≠ .closeBracket)
    (h : startValue stack t = some (.after v stack)) : Reads [t] v stack := by
  intro state hstate rest
  refine assemble_step ?_ rest
  rw [hstate t hclose, h]

/-- The items of an array are read one after the other, up to its end. -/
theorem assemble_itemTokens {stack : List Frame} (hstack : stack.length < depthLimit)
    {items : List Json} (hitems : ∀ v ∈ items, ∀ done, Reads (tokens v) v (.array done :: stack))
    (v : Json) (done : List Json) (rest : List Token) :
    assemble (.after v (.array done :: stack)) (itemTokens items ++ rest) =
      assemble (.after (.array (done.reverse ++ v :: items)) stack) rest := by
  induction items generalizing v done with
  | nil =>
    rw [itemTokens, List.cons_append, List.nil_append, assemble_step rfl, within_of_lt hstack,
      List.reverse_cons]
  | cons w items ih =>
    have hw := hitems w List.mem_cons_self (v :: done)
    rw [itemTokens, List.cons_append, assemble_step rfl, List.append_assoc,
      hw _ (awaits_value _), ih fun u hu => hitems u (List.mem_cons_of_mem _ hu),
      List.reverse_cons, List.append_assoc]
    rfl

/-- The members of an object are read one after the other, up to its end. -/
theorem assemble_memberTokens {stack : List Frame} (hstack : stack.length < depthLimit)
    {members : List (String × Json)}
    (hmembers : ∀ m ∈ members, ∀ done q, Reads (tokens m.2) m.2 (.object done q :: stack))
    (v : Json) (done : List (Quoted × Json)) (q : Quoted) (rest : List Token) :
    assemble (.after v (.object done q :: stack))
        (memberTokens (members.map fun (k, v) => (.text k, v)) ++ rest) =
      assemble (.after (.object (done.reverse ++ (q, v) :: members.map fun (k, v) => (.text k, v)))
        stack) rest := by
  induction members generalizing v done q with
  | nil =>
    rw [List.map_nil, memberTokens, List.cons_append, List.nil_append, assemble_step rfl,
      within_of_lt hstack, List.reverse_cons]
  | cons m members ih =>
    have hm := hmembers m List.mem_cons_self ((q, v) :: done) (.text m.1)
    rw [List.map_cons, memberTokens, List.cons_append, assemble_step rfl, List.cons_append,
      assemble_step rfl, List.cons_append, assemble_step rfl, List.append_assoc,
      hm _ (awaits_value _), ih fun u hu => hmembers u (List.mem_cons_of_mem _ hu),
      List.reverse_cons, List.append_assoc]
    rfl

end State

open State

/-- The tokens of a plain document are put together to it, inside containers that are open. -/
theorem Plain.reads {depth : Nat} {j : Json} (h : Plain depth j) {stack : List Frame}
    (hdepth : stack.length + depth ≤ depthLimit) : Reads (tokens j) j stack := by
  induction h generalizing stack with
  | null => exact .single (by decide) rfl
  | bool b => exact .single (by simp) rfl
  | nat n => exact .single (by simp) rfl
  | text s => exact .single (by simp [ofQuoted]) rfl
  | @array depth items hitems ih =>
    intro state hstate rest
    have hstack : stack.length < depthLimit := by omega
    have hread : ∀ v ∈ items, ∀ done, Reads (tokens v) v (.array done :: stack) := by
      intro v hv done
      refine ih v hv ?_
      rw [List.length_cons]
      omega
    cases items with
    | nil =>
      rw [tokens, List.cons_append, assemble_step (hstate _ (by decide)), List.cons_append,
        assemble_step rfl, within_of_lt hstack, List.nil_append]
    | cons v items =>
      rw [tokens, List.cons_append, assemble_step (hstate _ (by decide)), List.append_assoc,
        hread v List.mem_cons_self [] _ (awaits_firstItem stack),
        assemble_itemTokens hstack fun w hw => hread w (List.mem_cons_of_mem _ hw)]
      rfl
  | @record depth members hmembers ih =>
    intro state hstate rest
    have hstack : stack.length < depthLimit := by omega
    have hread : ∀ m ∈ members, ∀ done q, Reads (tokens m.2) m.2 (.object done q :: stack) := by
      intro m hm done q
      refine ih m hm ?_
      rw [List.length_cons]
      omega
    cases members with
    | nil =>
      rw [Json.record, List.map_nil, tokens, List.cons_append, assemble_step (hstate _ (by decide)),
        List.cons_append, assemble_step rfl, within_of_lt hstack, List.nil_append]
    | cons m members =>
      rw [Json.record, List.map_cons, tokens, List.cons_append,
        assemble_step (hstate _ (by decide)), List.cons_append, assemble_step rfl,
        List.cons_append, assemble_step rfl, List.append_assoc, hread m List.mem_cons_self [] _ _ (awaits_value _),
        assemble_memberTokens hstack fun w hw => hread w (List.mem_cons_of_mem _ hw)]
      rfl

/-- A plain document that is not too deep is read back as it was written. -/
theorem read_render {j : Json} (h : Plain depthLimit j) : read j.render = ⟨j, true⟩ := by
  have hreads : Reads (tokens j) j [] := h.reads (by simp)
  have htokens := hreads (.value []) (awaits_value []) []
  rw [List.append_nil] at htokens
  rw [read, render, String.toList_ofList, scan_write, htokens]
  rfl

/-! ## Lines -/

theorem space_le_hexDigit : ∀ n < 16, ' ' ≤ hexDigit n := by
  decide

theorem space_le_of_isDigit {d : Char} (h : d.isDigit = true) : ' ' ≤ d := by
  rw [Char.isDigit, Bool.and_eq_true, decide_eq_true_iff] at h
  exact Char.le_trans (by decide) h.1

theorem space_le_of_escape? {e c : Char} (h : escape? e = some c) : ' ' ≤ e := by
  unfold escape? at h
  split at h
  case h_9 => cases h
  all_goals decide

/-- Every control character of a string is escaped. -/
theorem space_le_escaped (c : Char) : ∀ d ∈ escaped c, ' ' ≤ d := by
  intro d h
  rcases escaped_cases c with ⟨e, _, hescape, hc⟩ | ⟨hsmall, hc⟩ | ⟨_, _, hcontrol, hc⟩
  · have he := space_le_of_escape? hescape
    simp only [hc, List.mem_cons, List.not_mem_nil, or_false] at h
    rcases h with rfl | rfl
    · decide
    · exact he
  · have hhigh := space_le_hexDigit (c.toNat / 16) (by omega)
    have hlow := space_le_hexDigit (c.toNat % 16) (by omega)
    simp only [hc, List.mem_cons, List.not_mem_nil, or_false] at h
    rcases h with rfl | rfl | rfl | rfl | rfl | rfl
    case inr.inr.inr.inr.inl => exact hhigh
    case inr.inr.inr.inr.inr => exact hlow
    all_goals decide
  · rw [hc, List.mem_singleton] at h
    rw [h]
    exact Char.not_lt.1 hcontrol

theorem space_le_quotedText (q : Quoted) : ∀ c ∈ quotedText q, ' ' ≤ c := by
  have hquoted : ∀ s : List Char, ∀ c ∈ quoted s, ' ' ≤ c := by
    intro s c hs
    simp only [quoted, List.mem_cons, List.mem_append, List.mem_flatMap, List.not_mem_nil,
      or_false] at hs
    rcases hs with rfl | ⟨d, _, hd⟩ | rfl
    · decide
    · exact space_le_escaped d c hd
    · decide
  cases q with
  | text s => exact hquoted _
  | unpaired => exact hquoted _

mutual

/-- A document is written without control characters, so on one line. -/
theorem space_le_write : ∀ j : Json, ∀ c ∈ write j, ' ' ≤ c
  | .null => by simp [write]
  | .bool true => by simp [write]
  | .bool false => by simp [write]
  | .number (.natural n) => by
    intro c hc
    rw [write] at hc
    exact space_le_of_isDigit (Nat.isDigit_of_mem_toDigits (by decide) (by decide) hc)
  | .number .other => by simp [write]
  | .string q => by
    rw [write]
    exact space_le_quotedText q
  | .array [] => by simp [write]
  | .array (v :: items) => by
    rw [write, List.forall_mem_cons, List.forall_mem_append]
    exact ⟨by decide, space_le_write v, space_le_writeItems items⟩
  | .object [] => by simp [write]
  | .object ((k, v) :: members) => by
    rw [write, List.forall_mem_cons, List.forall_mem_append, List.forall_mem_cons,
      List.forall_mem_append]
    exact ⟨by decide, space_le_quotedText k, by decide, space_le_write v,
      space_le_writeMembers members⟩
  | .tooDeep v => by
    rw [write]
    exact space_le_write v
  | .broken => by simp [write]

theorem space_le_writeItems : ∀ items : List Json, ∀ c ∈ writeItems items, ' ' ≤ c
  | [] => by simp [writeItems]
  | v :: items => by
    rw [writeItems, List.forall_mem_cons, List.forall_mem_append]
    exact ⟨by decide, space_le_write v, space_le_writeItems items⟩

theorem space_le_writeMembers :
    ∀ members : List (Quoted × Json), ∀ c ∈ writeMembers members, ' ' ≤ c
  | [] => by simp [writeMembers]
  | (k, v) :: members => by
    rw [writeMembers, List.forall_mem_cons, List.forall_mem_append, List.forall_mem_cons,
      List.forall_mem_append]
    exact ⟨by decide, space_le_quotedText k, by decide, space_le_write v,
      space_le_writeMembers members⟩

end

theorem newline_not_mem_render (j : Json) : '\n' ∉ j.render.toList := by
  rw [render, String.toList_ofList]
  intro h
  exact absurd (space_le_write j _ h) (by decide)

end SignalSlot.Json
