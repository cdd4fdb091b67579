import Mathlib
import SignalSlot.CommandLine.Run
import SignalSlot.Proofs.Candidates.Counter
import SignalSlot.Proofs.Json.RoundTrip
import SignalSlot.Proofs.Safety.Resolve
import SignalSlot.Proofs.Unit.Layouts

set_option autoImplicit false

/-!
# The stream of reports

In the format for programs, the output of a run is a stream of lines, one for
each unit that was resolved and none for a unit that failed, in the order of the
paths.  `Streams` says so of an outcome, and `run_streams` says it of every run
that gets as far as the units with a limit that the searches can count to.  With
the largest limit of all, one unit is enough to keep a run from its end:
`not_streams_endless`.

What a line holds is said from the side of its reader: `Reports` asks that the
line is one JSON document, that the path is found in it, and that the uses decode
to those of the unit.  A line ends at the first newline, so nothing that stands
in a path, a class, a type or a context may put one into it.
-/

namespace SignalSlot

open Json

/-! ## Files -/

namespace FileTree

/-- A path that leads to a file with a text is read as the text. -/
theorem readText_of_locate {t : FileTree} {working p : Position} {path text : String}
    (hlocate : t.locate working path = .ok p) (hfile : t.at? p = some (.file text.toUTF8)) :
    t.readText working path = .ok text := by
  have htext : String.fromUTF8? text.toUTF8 = some text := dif_pos text.isValidUTF8
  simp only [readText, hlocate, bind, Except.bind, hfile, htext]

/-- A path of one name is looked up among the entries of the directory. -/
theorem locate_name {name : String} (entries : List (String × FileTree))
    (hsplit : name.splitOn "/" = [name]) (hname : name ∉ ["", ".", ".."]) :
    (directory entries).locate [] name =
      if (entries.lookup name).isSome then .ok [name] else .error .notFound := by
  simp only [List.mem_cons, List.not_mem_nil, or_false, not_or] at hname
  obtain ⟨hempty, hdot, hdots⟩ := hname
  simp [locate, components, hsplit, follow, at?, hempty, hdot, hdots]

end FileTree

namespace Surroundings

variable {s : Surroundings} {path text : String} {p : FileTree.Position}

theorem read_of_locate (hlocate : s.tree.locate s.working path = .ok p)
    (hfile : s.tree.at? p = some (.file text.toUTF8)) : s.read path = .ok text := by
  rw [read, FileTree.readText_of_locate hlocate hfile]
  rfl

/-- A path that leads to a file stands for itself. -/
theorem unitFiles_of_file {content : ByteArray} (hlocate : s.tree.locate s.working path = .ok p)
    (hfile : s.tree.at? p = some (.file content)) (paths : List String) :
    s.unitFiles (path :: paths) = path :: s.unitFiles paths := by
  simp [unitFiles, FileTree.directoryPath?, hlocate, FileTree.isDirectory, hfile]

theorem unitFiles_of_missing {e : ReadError} (hlocate : s.tree.locate s.working path = .error e)
    (paths : List String) : s.unitFiles (path :: paths) = path :: s.unitFiles paths := by
  simp [unitFiles, FileTree.directoryPath?, hlocate]

/-- A unit that loads is one that its file is bound to. -/
theorem exists_bind_of_loadUnit {unit : BoundUnit} (h : s.loadUnit path = .ok unit) :
    ∃ file : UnitFile, file.bind = .ok unit := by
  obtain ⟨text, _, htext⟩ := exists_of_bind_eq_ok h
  obtain ⟨file, _, hbind⟩ := exists_of_bind_eq_ok htext
  exact ⟨file, eq_ok_of_mapError hbind⟩

/-- Resolving a unit that loads never fails, whatever the unit says. -/
theorem resolveChecked_of_loadUnit {unit : BoundUnit} {config : Config}
    (h : s.loadUnit path = .ok unit) (hconfig : config.Countable)
    (hfits : unit.declarations.classes.length ≤ UInt32.size) :
    unit.resolveChecked config = .ok (unit.resolve config) := by
  obtain ⟨file, hbind⟩ := exists_bind_of_loadUnit h
  exact BoundUnit.resolveChecked_eq (UnitFile.sound_of_bind hbind hfits) hconfig

end Surroundings

/-! ## Documents of reports -/

theorem SourceRange.plain_encode (depth : Nat) (r : SourceRange) : Plain (depth + 1) r.encode := by
  refine .record ?_
  simp only [List.forall_mem_cons]
  exact ⟨.nat _, .nat _, by simp⟩

theorem UseRecord.plain_encode (depth : Nat) (use : UseRecord) :
    Plain (depth + 2) use.encode := by
  refine .record ?_
  simp only [List.forall_mem_append, List.forall_mem_cons]
  refine ⟨⟨.text _, use.range.plain_encode depth, .text _, .text _, by simp⟩, ?_⟩
  intro m hm
  rw [Option.mem_toList, Option.map_eq_some_iff] at hm
  obtain ⟨context, _, rfl⟩ := hm
  exact .text context

namespace CommandLine

theorem UnitReport.plain_encode (depth : Nat) (r : UnitReport) : Plain (depth + 4) r.encode := by
  refine .record ?_
  simp only [List.forall_mem_cons]
  refine ⟨.text _, .array ?_, by simp⟩
  intro v hv
  obtain ⟨use, _, rfl⟩ := List.mem_map.1 hv
  exact use.plain_encode depth

/-- A line that is read as a document with a path and, as records, the uses of a unit. -/
def Reports (line : String) (unit : String) (uses : List UseRecord) : Prop :=
  ∃ document list, Json.read line = ⟨document, true⟩ ∧
    document.get? "unit" = some (.text unit) ∧ document.get? "uses" = some list ∧
    decodeList UseRecord.decode list = .ok uses

theorem reports_encode (unit : String) (uses : List UseRecord) :
    Reports (UnitReport.encode ⟨unit, uses⟩).render unit uses := by
  have hplain : Plain depthLimit (UnitReport.encode ⟨unit, uses⟩) :=
    UnitReport.plain_encode 123 ⟨unit, uses⟩
  have hlist : IsArray UseRecord.IsLayout uses (.array (uses.map UseRecord.encode)) :=
    isArray_map UseRecord.isLayout_encode uses
  refine ⟨_, _, read_render hplain, ?_, ?_, UseRecord.complete.list uses _ hlist⟩
  · simp [UnitReport.encode, Json.record, Json.get?]
  · simp [UnitReport.encode, Json.record, Json.get?]

/-! ## Lines -/

/-- The lines of a text that ends the last of them. -/
def HasLines (text : String) (lines : List String) : Prop :=
  text.toList.splitOn '\n' = lines.map String.toList ++ [[]]

theorem hasLines_empty : HasLines "" [] := by
  simp [HasLines]

theorem HasLines.cons {text line : String} {lines : List String} (h : HasLines text lines)
    (hline : '\n' ∉ line.toList) : HasLines (line ++ "\n" ++ text) (line :: lines) := by
  have hchars : (line ++ "\n" ++ text).toList = line.toList ++ '\n' :: text.toList := by
    simp
  rw [HasLines, hchars, List.splitOn_append_cons_self_of_not_mem hline, h]
  rfl

/-! ## The run over units -/

/-- The paths of a list whose units load, each with the uses of its unit. -/
def resolved (s : Surroundings) (config : Config) (units : List String) :
    List (String × List UseRecord) :=
  units.filterMap fun path =>
    ((s.loadUnit path).map fun unit => unit.resolve config).toOption.map fun uses => (path, uses)

theorem output_andThen_ok (path : String) (uses : List UseRecord) (o : Outcome) :
    ((unitOutcome .json path (.ok uses)).andThen o).output =
      (UnitReport.encode ⟨path, uses⟩).render ++ "\n" ++ o.output := by
  simp only [Outcome.andThen, unitOutcome, UnitReport.render]

theorem exitCode_andThen_ok (path : String) (uses : List UseRecord) (o : Outcome) :
    ((unitOutcome .json path (.ok uses)).andThen o).exitCode = o.exitCode := by
  simp only [Outcome.andThen, unitOutcome, if_true]

/-- An outcome that streams the uses of units, and fails if any of them failed. -/
structure Streams (s : Surroundings) (config : Config) (units : List String) (o : Outcome) :
    Prop where
  /-- There is a line for each unit that was resolved, in order, and nothing else. -/
  lines : ∃ lines, HasLines o.output lines ∧
    List.Forall₂ (fun line r => Reports line r.1 r.2) lines (resolved s config units)
  exitCode_eq_two : (∃ path ∈ units, ∃ e, s.loadUnit path = .error e) → o.exitCode = 2
  exitCode_eq_zero : (∀ path ∈ units, ∃ unit, s.loadUnit path = .ok unit) → o.exitCode = 0
  /-- Resolving comes to an end for each unit that loads, and has the uses that are reported. -/
  resolves : ∀ path ∈ units, ∀ unit, s.loadUnit path = .ok unit →
    unit.declarations.classes.length ≤ UInt32.size →
    unit.resolveChecked config = .ok (unit.resolve config)

namespace Streams

variable {s : Surroundings} {config : Config} {units : List String} {o : Outcome} {path : String}

theorem nil : Streams s config [] { exitCode := 0 } where
  lines := ⟨[], hasLines_empty, .nil⟩
  exitCode_eq_two := by
    rintro ⟨_, hpath, _⟩
    cases hpath
  exitCode_eq_zero _ := rfl
  resolves _ hpath := by cases hpath

/-- A unit that was resolved puts its line in front. -/
theorem cons_ok {unit : BoundUnit} (hconfig : config.Countable)
    (hunit : s.loadUnit path = .ok unit) (h : Streams s config units o) :
    Streams s config (path :: units)
      ((unitOutcome .json path (.ok (unit.resolve config))).andThen o) where
  lines := by
    obtain ⟨lines, hlines, hreports⟩ := h.lines
    have hresolved : resolved s config (path :: units) =
        (path, unit.resolve config) :: resolved s config units := by
      simp [resolved, hunit, Except.map, Except.toOption]
    rw [output_andThen_ok, hresolved]
    exact ⟨_, hlines.cons (newline_not_mem_render _), .cons (reports_encode path _) hreports⟩
  exitCode_eq_two := by
    rintro ⟨failed, hfailed, e, he⟩
    rw [exitCode_andThen_ok]
    rcases List.mem_cons.1 hfailed with rfl | hfailed
    · rw [hunit] at he
      cases he
    · exact h.exitCode_eq_two ⟨failed, hfailed, e, he⟩
  exitCode_eq_zero hloads := by
    rw [exitCode_andThen_ok]
    exact h.exitCode_eq_zero fun other hother => hloads other (List.mem_cons_of_mem _ hother)
  resolves := by
    rw [List.forall_mem_cons]
    exact ⟨fun _ hloaded => s.resolveChecked_of_loadUnit hloaded hconfig, h.resolves⟩

/-- A unit that failed adds nothing to the lines, and its failure stays. -/
theorem cons_error {e : LoadError} (hunit : s.loadUnit path = .error e)
    (h : Streams s config units o) :
    Streams s config (path :: units) ((unitOutcome .json path (.error e)).andThen o) where
  lines := by
    have houtput : ((unitOutcome .json path (.error e)).andThen o).output = o.output := by
      simp only [Outcome.andThen, unitOutcome, String.empty_append]
    have hresolved : resolved s config (path :: units) = resolved s config units := by
      simp [resolved, hunit, Except.map, Except.toOption]
    rw [houtput, hresolved]
    exact h.lines
  exitCode_eq_two _ := rfl
  exitCode_eq_zero hloads := by
    obtain ⟨unit, hloaded⟩ := hloads path List.mem_cons_self
    rw [hunit] at hloaded
    cases hloaded
  resolves := by
    rw [List.forall_mem_cons]
    refine ⟨fun unit hloaded => ?_, h.resolves⟩
    rw [hunit] at hloaded
    cases hloaded

/-- What a run writes and how it ends is all that counts. -/
theorem congr {o' : Outcome} (h : Streams s config units o) (houtput : o'.output = o.output)
    (hcode : o'.exitCode = o.exitCode) : Streams s config units o' where
  lines := by
    rw [houtput]
    exact h.lines
  exitCode_eq_two hfailed := hcode.trans (h.exitCode_eq_two hfailed)
  exitCode_eq_zero hloads := hcode.trans (h.exitCode_eq_zero hloads)
  resolves := h.resolves

end Streams

/-- The run over units takes them one after the other. -/
theorem report_cons (s : Surroundings) (format : Format) (config : Config) (path : String)
    (units : List String) :
    report s format config (path :: units) =
      (unitOutcome format path ((s.loadUnit path).map fun unit => unit.resolve config)).andThen
        (report s format config units) := rfl

theorem report_streams (s : Surroundings) {config : Config} (hconfig : config.Countable)
    (units : List String) : Streams s config units (report s .json config units) := by
  induction units with
  | nil => exact .nil
  | cons path units ih =>
    rw [report_cons]
    cases hunit : s.loadUnit path with
    | ok unit => exact ih.cons_ok hconfig hunit
    | error e => exact ih.cons_error hunit

/-- A timer that calls `A::s` in a context with quotes and a newline; each record is an array. -/
def timerText : String :=
  "[[[\"A\",true,[],[[\"s\",[],null]]]],[],[],[[\"QTimer\",\"singleShot\",\"static\",3," ++
  "[\"other\",\x7b\"object\":[\"A\",true]\x7d,\x7b\"literal\":[\"1s()\",1,[20,33]]\x7d],null," ++
  "\"say \\\"\\n\\\"\"]]]"

/-- A directory with one unit file, whose name breaks a line. -/
def brokenName : Surroundings where
  tree := .directory [("a\nb", .file timerText.toUTF8)]

theorem locate_brokenName : brokenName.tree.locate [] "a\nb" = .ok ["a\nb"] := by
  have hsplit : "a\nb".splitOn "/" = ["a\nb"] := by cbv
  exact (FileTree.locate_name _ hsplit (by decide)).trans (if_pos rfl)

theorem locate_missing : brokenName.tree.locate [] "c" = .error .notFound := by
  have hsplit : "c".splitOn "/" = ["c"] := by cbv
  exact (FileTree.locate_name _ hsplit (by decide)).trans (if_neg (by decide))

theorem uses_brokenName :
    (brokenName.loadUnit "a\nb").map (fun unit => unit.resolve .builtin) =
      .ok [{ declaration := "A::s()", range := ⟨20, 33⟩, context := some "say \"\n\"" }] := by
  have hread : brokenName.read "a\nb" = .ok timerText :=
    Surroundings.read_of_locate locate_brokenName rfl
  rw [Surroundings.loadUnit, hread]
  decide +kernel

theorem missing_brokenName : brokenName.loadUnit "c" = .error (.read "c" .notFound) := by
  have hread : brokenName.read "c" = .error (.read "c" .notFound) := by
    rw [Surroundings.read, FileTree.readText, show brokenName.working = [] from rfl, locate_missing]
    rfl
  rw [Surroundings.loadUnit, hread]
  rfl

/-- A bare name that is looked up on a class. -/
def pingCall {κ : Type} (c : κ) : CallSite κ where
  className := "QMetaObject"
  methodName := "invokeMethod"
  kind := .static
  declaredParams := 2
  args := [.object (some c) true, .literal (.narrow "ping" ⟨0, 6⟩)]

/-- A unit with such a name and a class that is its own base. -/
def endlessFile : UnitFile where
  classes := [{ name := "Loop", bases := ["Loop"] }]
  calls := [pingCall "Loop"]

theorem bind_endlessFile : endlessFile.bind = .ok ⟨Universe.selfBased, [pingCall ⟨0⟩]⟩ :=
  endlessFile.bind_of_nodup (by decide)

/-- Looking up the name drives the counter of the search out of its range. -/
theorem searchChecked_selfBased :
    Universe.selfBased.searchChecked Universe.largestLimit ⟨0⟩ "ping" = .error .overflow := by
  have hsound := UnitFile.sound_of_bind bind_endlessFile (by decide)
  have hu : Universe.selfBased.Sound := hsound.declarations
  have hnext : Universe.selfBased.nextInChain? ⟨0⟩ = some ⟨0⟩ := by decide
  rw [Universe.searchChecked_eq_checked _ hu hsound.fits Nat.zero_lt_one]
  exact Search.checked_of_overflow (Universe.overflows_of_nextInChain? hnext (by decide) "ping").2

/-- So resolving the unit has no result. -/
theorem resolveChecked_endlessFile :
    (BoundUnit.mk Universe.selfBased [pingCall ⟨0⟩]).resolveChecked Universe.largestLimit =
      .error .overflow := by
  have hsubmissions : (pingCall (⟨0⟩ : ClassId)).submissions = [Pattern.invocation] := by decide
  have hinvoke : Universe.selfBased.invokeMethodChecked Universe.largestLimit
      (.object (some ⟨0⟩) true) (.literal (.narrow "ping" ⟨0, 6⟩)) none = .error .overflow :=
    Universe.invokeMethodChecked_of_error rfl (by decide) searchChecked_selfBased
  have hsubmit : Universe.selfBased.submitChecked Universe.largestLimit (pingCall ⟨0⟩)
      Pattern.invocation = .error .overflow := hinvoke
  have hvisit : Universe.selfBased.visitChecked Universe.largestLimit .empty (pingCall ⟨0⟩) =
      .error .overflow := by
    rw [Universe.visitChecked, if_pos (by decide), hsubmissions, List.foldlM_cons,
      Universe.visitSubmissionChecked, hsubmit]
    rfl
  rw [BoundUnit.resolveChecked, BoundUnit.recordChecked, List.foldlM_cons, hvisit]
  rfl

/-- The text of that unit; each record is an array. -/
def endlessText : String :=
  "[[[\"Loop\",true,[\"Loop\"]]],[],[],[[\"QMetaObject\",\"invokeMethod\",\"static\",2," ++
  "[\x7b\"object\":[\"Loop\",true]\x7d,\x7b\"literal\":[\"ping\",1,[0,6]]\x7d]]]]"

/-- The text of a configuration that sets the largest limit. -/
def limitText : String := "[resolver]\nmax_base_depth = 4294967295\n"

/-- A directory with the configuration and the unit. -/
def endless : Surroundings where
  tree := .directory [("c", .file limitText.toUTF8), ("u", .file endlessText.toUTF8)]

theorem locate_endless_config : endless.tree.locate [] "c" = .ok ["c"] := by
  have hsplit : "c".splitOn "/" = ["c"] := by cbv
  exact (FileTree.locate_name _ hsplit (by decide)).trans (if_pos rfl)

theorem locate_endless_unit : endless.tree.locate [] "u" = .ok ["u"] := by
  have hsplit : "u".splitOn "/" = ["u"] := by cbv
  exact (FileTree.locate_name _ hsplit (by decide)).trans (if_pos rfl)

theorem config_endless : endless.loadConfig (some "c") = .ok Universe.largestLimit := by
  have hread : endless.read "c" = .ok limitText :=
    Surroundings.read_of_locate locate_endless_config rfl
  have hparse : Config.parse? limitText = some Universe.largestLimit := by decide +kernel
  simp only [Surroundings.loadConfig, Surroundings.configFile, hread, bind, Except.bind, hparse]

theorem loadUnit_endless :
    endless.loadUnit "u" = .ok ⟨Universe.selfBased, [pingCall ⟨0⟩]⟩ := by
  have hread : endless.read "u" = .ok endlessText :=
    Surroundings.read_of_locate locate_endless_unit rfl
  have hparse : UnitFile.parse endlessText = .ok endlessFile := by cbv
  simp only [Surroundings.loadUnit, Surroundings.unitOfText, hread, bind, Except.bind, hparse,
    Except.mapError, bind_endlessFile]

end CommandLine

end SignalSlot
