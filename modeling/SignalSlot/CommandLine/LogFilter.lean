import SignalSlot.Text.Affix
import SignalSlot.Text.Alphanumeric
import SignalSlot.Text.Blank

set_option autoImplicit false

/-!
# Filters of the log

A filter is a list of directives with commas between them.  A directive is a
level for everything, a target that keeps all its events, or a target with a
level, and it may be limited to a span or to events with certain fields:
`warn`, `slotref`, `slotref=error`, `slotref[unit]=debug`, `[{message}]=off`.

Of the directives that concern an event the most specific one decides: first by
the length of the target, then by the number of fields, and of equally specific
ones the last.  An event that no directive concerns is dropped.
-/

namespace SignalSlot.CommandLine

/-! ## Levels -/

/-- How much of the log is kept. -/
inductive Level where
  | off
  | error
  | warn
  | info
  | debug
  | trace
  deriving DecidableEq, Repr, Inhabited

/-- How serious an event of the log is. -/
inductive Severity where
  | error
  | warning
  deriving DecidableEq, Repr, Inhabited

namespace Level

/-- The number of a level; a higher one keeps more. -/
def number : Level → Nat
  | .off => 0
  | .error => 1
  | .warn => 2
  | .info => 3
  | .debug => 4
  | .trace => 5

/-- The level of a number. -/
def ofNumber? : Nat → Option Level
  | 0 => some .off
  | 1 => some .error
  | 2 => some .warn
  | 3 => some .info
  | 4 => some .debug
  | 5 => some .trace
  | _ => none

/-- The level of a name, in letters of any case. -/
def ofName? (name : String) : Option Level :=
  match name.toLower with
  | "off" => some .off
  | "error" => some .error
  | "warn" => some .warn
  | "info" => some .info
  | "debug" => some .debug
  | "trace" => some .trace
  | _ => none

/-- The level of digits, in front of which a plus sign may stand. -/
def ofDigits? (s : List Char) : Option Level :=
  let digits := (Text.after? ['+'] s).getD s
  if digits.isEmpty || !digits.all Char.isDigit then none
  else ofNumber? (digits.foldl (fun n d => n * 10 + (d.toNat - '0'.toNat)) 0)

/-- The level of a text: a number or a name. -/
def ofText? (s : List Char) : Option Level := (ofDigits? s).or (ofName? (String.ofList s))

/-- Whether a level keeps an event. -/
def keeps (level : Level) : Severity → Bool
  | .error => Level.error.number ≤ level.number
  | .warning => Level.warn.number ≤ level.number

end Level

/-! ## Directives -/

/-- A field that an event must have. -/
structure FieldFilter where
  name : List Char
  /-- Whether a value is asked for, too. -/
  hasValue : Bool
  deriving DecidableEq, Repr, Inhabited

/-- A directive of a filter. -/
structure Directive where
  level : Level
  /-- What the target of an event must start with. -/
  target : Option (List Char) := none
  /-- Whether it concerns only what happens inside of a span. -/
  inSpan : Bool := false
  fields : List FieldFilter := []
  deriving DecidableEq, Repr, Inhabited

namespace Directive

/-- The field of a text such as `path` or `path=x`. -/
def field (s : List Char) : FieldFilter :=
  let name := s.takeWhile (· ≠ '=')
  ⟨name, name.length < s.length⟩

/-- The part of a text between two places. -/
def part (text : List Char) (start stop : Nat) : List Char := (text.drop start).take (stop - start)

/-- The level that a text holds from a place on; nothing stands for all levels. -/
def levelFrom? (text : List Char) (start : Nat) : Option Level :=
  match text.drop start with
  | [] => some .trace
  | s => Level.ofText? s

/-- Reads what follows a span: a level or nothing. -/
def finish? (text : List Char) (d : Directive) (place : Nat) : List Char → Option Directive
  | [] => some d
  | '=' :: _ => (levelFrom? text (place + 1)).map fun level => { d with level }
  | _ => none

/--
Reads a span after its bracket: a name, or a field in braces, or both.  Without
braces even an empty name limits the directive to spans.
-/
def span? (text : List Char) (d : Directive) (start : Nat) (s : List Char) : Option Directive :=
  let name := s.takeWhile fun c => c ≠ ']' ∧ c ≠ '{'
  let place := start + name.length
  match s.drop name.length with
  | [] => none
  | c :: s =>
    if c = ']' then finish? text { d with inSpan := true } (place + 1) s
    else
      let braced := s.takeWhile (· ≠ '}')
      let stop := place + 1 + braced.length
      let content := part text (place + 1) stop
      match s.drop braced.length with
      | _ :: ']' :: s =>
        if content.isEmpty then none
        else
          let inSpan := !(part text start place).isEmpty
          finish? text { d with inSpan, fields := [field content] } (stop + 2) s
      | _ => none

/-- Whether a directive may start with a character. -/
def isStart (c : Char) : Bool := Text.isAlphanumeric c || c == '-' || c == ':' || c == '_'

/--
Reads a directive.  Its form is that of the text without the blanks around it,
but its parts are taken from the text as it stands, so that a blank in front
shifts them.
-/
def parse? (text : List Char) : Option Directive :=
  match Text.trim text with
  | [] => none
  | '[' :: rest => span? text ⟨.trace, none, false, []⟩ 1 rest
  | c :: rest =>
    if !isStart c then none
    else
      let place := 1 + (rest.takeWhile fun c => c ≠ '=' ∧ c ≠ '[').length
      let target := text.take place
      match rest.drop (place - 1) with
      | [] =>
        match Level.ofText? text with
        | some level => some ⟨level, none, false, []⟩
        | none => some ⟨.trace, some text, false, []⟩
      | '=' :: _ =>
        (levelFrom? text (place + 1)).map fun level => ⟨level, some target, false, []⟩
      | _ :: rest => span? text ⟨.trace, some target, false, []⟩ (place + 1) rest

/-- The target of the events of this program. -/
def ownTarget : List Char := "slotref".toList

/-- The only field of these events. -/
def ownField : List Char := "message".toList

/-- Whether a directive concerns the events of this program, which lie outside of spans. -/
def concerns (d : Directive) : Bool :=
  !d.inSpan && (d.target.getD []).isPrefixOf ownTarget &&
    d.fields.all fun f => f.name == ownField && !f.hasValue

/-- Whether a directive is as specific as another one, or more. -/
def covers (d other : Directive) : Bool :=
  let length (d : Directive) : Nat := d.target.elim 0 fun t => t.length + 1
  length other < length d ||
    (length other == length d && other.fields.length ≤ d.fields.length)

end Directive

/-! ## Filters -/

/-- A filter of the log. -/
structure LogFilter where
  directives : List Directive
  deriving DecidableEq, Repr, Inhabited

namespace LogFilter

/-- The filter of one level for everything. -/
def ofLevel (level : Level) : LogFilter := ⟨[{ level }]⟩

/-- The filter of a text; without any directive it keeps errors. -/
def parse? (text : String) : Option LogFilter :=
  match ((text.splitOn ",").filter (· ≠ "")).mapM fun s => Directive.parse? s.toList with
  | none => none
  | some [] => some (ofLevel .error)
  | some directives => some ⟨directives⟩

/-- The filter of a setting; without one that can be read, the filter of a level. -/
def ofSetting (level : Level) (setting : Option String) : LogFilter :=
  (setting.bind parse?).getD (ofLevel level)

/-- The directive that decides about the events of this program. -/
def deciding? (filter : LogFilter) : Option Directive :=
  (filter.directives.filter Directive.concerns).foldl
    (fun best d =>
      match best with
      | some b => if d.covers b then some d else some b
      | none => some d)
    none

/-- Whether a filter keeps an event of this program. -/
def keeps (filter : LogFilter) (severity : Severity) : Bool :=
  match filter.deciding? with
  | some d => d.level.keeps severity
  | none => false

end LogFilter

end SignalSlot.CommandLine
