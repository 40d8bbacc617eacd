/-
  The command line tool.

  Its three commands read the same two files in the same order and print one JSON document.  `run`
  prints what `explain-analyze --with-result` shows as the result, and `explain` accepts whatever
  the other two get as far as running (`commands_agree`).

  The surroundings of the tool are a parameter (`Host`): the command line parser, the file system,
  the JSON library and the two output streams, each with what can go wrong there.  A file may not
  open; a file that opens may not be readable, a directory for example, and the two loaders differ
  in that: the data loader copies the stream buffer into a string stream, which swallows the
  failure, while `stream >> parsed` lets it out as `ios_base::failure`.  A write may fail, and that
  nobody notices.

  Whatever the files hold, `main` writes a document and exits with 0, or writes a message to the
  standard error and exits with 1 (`main_answers`).  The message carries the code of a
  `QueryLumeError` unless a number in a file is too large for a double, or the pipeline file was
  opened and could not be read.
-/
import QueryLume.Query.InputRead
import QueryLume.Query.Replay
import QueryLume.Query.RuntimeErrors

namespace QueryLume

/-- What the tool leaves behind: its exit code, and what has arrived at the two output streams. -/
structure Exit where
  code : Nat
  stdout : String
  stderr : String
deriving DecidableEq

/-- The two files every command needs, `--data` and `--pipeline`. -/
structure CommonArgs where
  dataPath : String
  pipelinePath : String

/-- What `CLI11_PARSE` fills in when it returns. -/
structure CommandLine where
  /-- `run_cmd->parsed()`, and the same for the other two. -/
  runParsed : Bool
  explainParsed : Bool
  analyzeParsed : Bool
  runArgs : CommonArgs
  explainArgs : CommonArgs
  analyzeArgs : CommonArgs
  includeResults : Bool

/-- `app.require_subcommand(1)`. -/
def CommandLine.OneSubcommand (line : CommandLine) : Prop :=
  [line.runParsed, line.explainParsed, line.analyzeParsed].count true = 1

instance (line : CommandLine) : Decidable line.OneSubcommand := inferInstanceAs (Decidable (_ = _))

/-- The surroundings of the tool: the command line parser, the file system, the JSON library and
    the output streams.  Each member is what the library call of that place does, its failures
    included. -/
structure Host where
  /-- `CLI11_PARSE` ends `main` itself on `--help` and on arguments it rejects. -/
  parseArgs : List String → Except Exit CommandLine
  /-- `std::ifstream stream(path)`, if the file opens. -/
  openFile : String → Option FileStream
  /-- `json::parse`. -/
  parse : String → Except Exception Json
  /-- `stream >> parsed`, which leaves what follows the first value unread. -/
  extract : FileStream → Except Exception Json
  /-- `dump(2)`. -/
  dump : Json → String
  /-- `what()` of an exception of the standard library or of the JSON library. -/
  what : Exception → String
  /-- What arrives of a text written to `std::cout`: all of it, or what came before a write failed.
      The stream throws nothing, and nobody asks it afterwards. -/
  toStdout : String → String
  /-- The same for `std::cerr`. -/
  toStderr : String → String

/-- The libraries do what they document: the JSON library throws two classes of exceptions on bad
    text, reading from a stream throws nothing else but the failure of the stream, and no command
    line is accepted without a subcommand. -/
structure Host.Documented (host : Host) : Prop where
  parse : ThrowsAsDocumented host.parse
  extract : ∀ stream e, host.extract stream = .error e →
    (∃ what, e = .jsonParseError what) ∨ (∃ what, e = .jsonOutOfRange what) ∨
      ∃ what, e = .iosFailure what ∧ stream.failure = some what
  oneSubcommand : ∀ argv line, host.parseArgs argv = .ok line → line.OneSubcommand

/-- The pipeline.  A file that does not open is an error of the engine, and so is a parse error;
    whatever else reading the stream throws goes on to `main`. -/
def loadJsonFile (host : Host) (path : String) : Except Exception Json :=
  match host.openFile path with
  | none => .error (.queryLumeError .kJsonParseError ("failed to open file: " ++ path))
  | some stream =>
    match host.extract stream with
    | .error (.jsonParseError what) =>
      .error (.queryLumeError .kJsonParseError
        ("failed to parse JSON in '" ++ path ++ "': " ++ what))
    | .error e => .error e
    | .ok parsed => .ok parsed

/-- `std::cout << output.dump(2) << "\n"; return 0;`  Whether the write succeeds does not change
    the exit code. -/
def Host.print (host : Host) (output : Json) : Exit :=
  { code := 0, stdout := host.toStdout (host.dump output ++ "\n"), stderr := "" }

/-- What the three commands have in common: they load the table first, then the pipeline, then do
    their query.  A bad data file is reported before a bad pipeline. -/
def withInputs (host : Host) (args : CommonArgs) (query : Table → Json → Except Exception Json) :
    Except Exception Json :=
  match loadTableFromJsonFile host.openFile host.parse args.dataPath with
  | .error e => .error e
  | .ok table =>
    match loadJsonFile host args.pipelinePath with
    | .error e => .error e
    | .ok pipelineJson => query table pipelineJson

/-- The document that `explain` prints. -/
def explainOutput (host : Host) (args : CommonArgs) : Except Exception Json :=
  withInputs host args explainPipeline

/-- `explainCommand`, the subcommand `explain`. -/
def explainCommand (host : Host) (args : CommonArgs) : Except Exception Exit :=
  (explainOutput host args).map host.print

section Commands

variable [StdLibrary]

/-- The document that `run` prints. -/
def runOutput (host : Host) (clock : Clock) (args : CommonArgs) : Except Exception Json :=
  withInputs host args fun table pipelineJson =>
    (runPipeline clock table pipelineJson).map fun result =>
      .array (result.rows.map (·.toJson result.outputSchema))

/-- `runCommand`, the subcommand `run`. -/
def runCommand (host : Host) (clock : Clock) (args : CommonArgs) : Except Exception Exit :=
  (runOutput host clock args).map host.print

/-- The document that `explain-analyze` prints. -/
def explainAnalyzeOutput (host : Host) (clock : Clock) (args : CommonArgs) (includeResults : Bool) :
    Except Exception Json :=
  withInputs host args fun table pipelineJson =>
    explainAnalyzePipeline clock table pipelineJson includeResults

/-- `explainAnalyzeCommand`, the subcommand `explain-analyze`; with `--with-result` it prints the
    rows too. -/
def explainAnalyzeCommand (host : Host) (clock : Clock) (args : CommonArgs)
    (includeResults : Bool) : Except Exception Exit :=
  (explainAnalyzeOutput host clock args includeResults).map host.print

end Commands

/-- The handlers of `main`: a `QueryLumeError` is reported with its code, any other exception
    without one.  Nothing catches undefined behaviour. -/
def Host.report (host : Host) : Exception → Option Exit
  | .queryLumeError code message =>
    some { code := 1, stdout := "",
           stderr := host.toStderr ("error [" ++ code.toString ++ "]: " ++ message ++ "\n") }
  | .undefinedBehavior => none
  | e => some { code := 1, stdout := "", stderr := host.toStderr ("error: " ++ host.what e ++ "\n") }

/-- Return from the `try` block, or go to a handler. -/
def Host.finish (host : Host) : Except Exception Exit → Option Exit
  | .ok exit => some exit
  | .error e => host.report e

/-- `main`.  The arguments are parsed, and the subcommand that was given does the rest; `none`
    where the language promises nothing. -/
def main [StdLibrary] (host : Host) (clock : Clock) (argv : List String) : Option Exit :=
  match host.parseArgs argv with
  | .error exit => some exit
  | .ok line =>
    if line.runParsed then host.finish (runCommand host clock line.runArgs)
    else if line.explainParsed then host.finish (explainCommand host line.explainArgs)
    else if line.analyzeParsed then
      host.finish (explainAnalyzeCommand host clock line.analyzeArgs line.includeResults)
    else some { code := 1, stdout := "", stderr := "" }

/-! ## Reading the inputs -/

section Inputs

variable {host : Host} {args : CommonArgs} {query query' : Table → Json → Except Exception Json}

/-- Both files are read and make a table and a pipeline.  From here on the commands differ. -/
def Loads (host : Host) (args : CommonArgs) (table : Table) (pipelineJson : Json) : Prop :=
  loadTableFromJsonFile host.openFile host.parse args.dataPath = .ok table ∧
    loadJsonFile host args.pipelinePath = .ok pipelineJson

/-- A table that was loaded is well formed, whatever the parser made of the text. -/
theorem loadTableFromJsonFile_wellFormed {openFile : String → Option FileStream}
    {parse : String → Except Exception Json} {path : String} {table : Table}
    (h : loadTableFromJsonFile openFile parse path = .ok table) : table.WellFormed := by
  unfold loadTableFromJsonFile at h
  split at h
  · cases h
  · unfold loadTableFromJsonText at h
    split at h
    · cases h
    · cases h
    · exact loadTableFromJson_wellFormed h

/-- The table a query runs over is well formed, because it was loaded. -/
theorem Loads.wellFormed {table : Table} {pipelineJson : Json}
    (h : Loads host args table pipelineJson) : table.WellFormed :=
  loadTableFromJsonFile_wellFormed h.1

/-- Behind two files that were read, a command does its query. -/
theorem withInputs_loads {table : Table} {pipelineJson : Json}
    (h : Loads host args table pipelineJson) :
    withInputs host args query = query table pipelineJson := by
  simp only [withInputs, h.1, h.2]

/-- Either both files are read, or every command fails with the same exception. -/
theorem withInputs_cases (host : Host) (args : CommonArgs) :
    (∃ table pipelineJson, Loads host args table pipelineJson) ∨
      ∃ e, ∀ query, withInputs host args query = .error e := by
  cases hdata : loadTableFromJsonFile host.openFile host.parse args.dataPath with
  | error e =>
    refine .inr ⟨e, fun query => ?_⟩
    simp only [withInputs, hdata]
  | ok table =>
    cases hpipeline : loadJsonFile host args.pipelinePath with
    | error e =>
      refine .inr ⟨e, fun query => ?_⟩
      simp only [withInputs, hdata, hpipeline]
    | ok pipelineJson => exact .inl ⟨table, pipelineJson, hdata, hpipeline⟩

/-- What is reported without a code: a number too large in one of the files, and the failure to read
    a pipeline file that was opened. -/
inductive Uncoded (host : Host) (args : CommonArgs) : Exception → Prop where
  | number (what : String) : Uncoded host args (.jsonOutOfRange what)
  | unreadable {stream : FileStream} {what : String}
      (opened : host.openFile args.pipelinePath = some stream)
      (failure : stream.failure = some what) : Uncoded host args (.iosFailure what)

/-- What reaches the handlers of `main`. -/
def Reported (host : Host) (args : CommonArgs) (e : Exception) : Prop :=
  e.IsQueryLumeError ∨ Uncoded host args e

/-- The data file: what its stream throws is swallowed. -/
theorem loadTableFromJsonFile_raises (hhost : host.Documented) {e : Exception}
    (h : loadTableFromJsonFile host.openFile host.parse args.dataPath = .error e) :
    Reported host args e := by
  unfold loadTableFromJsonFile at h
  split at h
  · exact .inl (Except.error.inj h ▸ rfl)
  · rename_i stream _
    unfold loadTableFromJsonText at h
    split at h
    · exact .inl (Except.error.inj h ▸ rfl)
    · rename_i e' hother hthrows
      obtain rfl := Except.error.inj h
      obtain ⟨what, rfl⟩ | ⟨what, rfl⟩ := hhost.parse stream.text e' hthrows
      · exact absurd rfl (hother what)
      · exact .inr (.number what)
    · exact .inl (loadTableFromJson_raises h)

/-- The pipeline file: what its stream throws is reported. -/
theorem loadJsonFile_raises (hhost : host.Documented) {e : Exception}
    (h : loadJsonFile host args.pipelinePath = .error e) : Reported host args e := by
  unfold loadJsonFile at h
  split at h
  · exact .inl (Except.error.inj h ▸ rfl)
  · rename_i stream hopened
    split at h
    · exact .inl (Except.error.inj h ▸ rfl)
    · rename_i e' hother hthrows
      obtain rfl := Except.error.inj h
      obtain ⟨what, rfl⟩ | ⟨what, rfl⟩ | ⟨what, rfl, hfailure⟩ := hhost.extract stream e' hthrows
      · exact absurd rfl (hother what)
      · exact .inr (.number what)
      · exact .inr (.unreadable hopened hfailure)
    · cases h

/-- Reading the two files throws only what is reported, and so does a query that throws only errors
    of the engine. -/
theorem withInputs_raises (hhost : host.Documented)
    (hquery : ∀ table pipelineJson e, table.WellFormed → query table pipelineJson = .error e →
      e.IsQueryLumeError)
    {e : Exception} (h : withInputs host args query = .error e) : Reported host args e := by
  cases hdata : loadTableFromJsonFile host.openFile host.parse args.dataPath with
  | error e' =>
    simp only [withInputs, hdata] at h
    exact Except.error.inj h ▸ loadTableFromJsonFile_raises hhost hdata
  | ok table =>
    cases hpipeline : loadJsonFile host args.pipelinePath with
    | error e' =>
      simp only [withInputs, hdata, hpipeline] at h
      exact Except.error.inj h ▸ loadJsonFile_raises hhost hpipeline
    | ok pipelineJson =>
      simp only [withInputs, hdata, hpipeline] at h
      exact .inl (hquery table pipelineJson e (loadTableFromJsonFile_wellFormed hdata) h)

end Inputs

/-! ## The three commands -/

/-- The result member, where it was asked for. -/
theorem Analysis.result_toJson (analysis : Analysis) : (analysis.toJson true).at? "result" =
    some (.array (analysis.rows.map (·.toJson analysis.planned.outputSchema))) :=
  analysis.at?_toJson true (List.mem_append_right _ (List.mem_singleton_self _))

section Agreement

variable [StdLibrary] {table : Table} {pipelineJson : Json}

/-- `run` prints the result member of `explain-analyze --with-result`. -/
theorem runPipeline_output (clock clock' : Clock) (output : Json) :
    (runPipeline clock table pipelineJson).map
        (fun result => Json.array (result.rows.map (·.toJson result.outputSchema))) = .ok output ↔
      ∃ report, explainAnalyzePipeline clock' table pipelineJson true = .ok report ∧
        report.at? "result" = some output := by
  rw [runPipeline_analyze clock clock', explainAnalyzePipeline]
  cases analyze clock' table pipelineJson with
  | error e =>
    constructor
    · intro h
      cases h
    · rintro ⟨report, hreport, -⟩
      cases hreport
  | ok analysis =>
    constructor
    · intro h
      obtain rfl := Except.ok.inj h
      exact ⟨_, rfl, analysis.result_toJson⟩
    · rintro ⟨report, hreport, hresult⟩
      obtain rfl := Except.ok.inj hreport
      rw [analysis.result_toJson] at hresult
      exact congrArg _ (Option.some.inj hresult)

/-- **The commands agree**, whatever files they are given and whatever their clocks show.  `run`
    prints exactly what `explain-analyze --with-result` shows as the result; the two fail alike,
    with and without the flag; where `explain` fails they fail in the same way; and where it prints
    a plan they fail at most in the comparison of two values. -/
theorem commands_agree (host : Host) (args : CommonArgs) (clock clock' : Clock) :
    (∀ output, runOutput host clock args = .ok output ↔
      ∃ report, explainAnalyzeOutput host clock' args true = .ok report ∧
        report.at? "result" = some output) ∧
    (∀ includeResults e, explainAnalyzeOutput host clock' args includeResults = .error e ↔
      runOutput host clock args = .error e) ∧
    (∀ e, explainOutput host args = .error e → runOutput host clock args = .error e) ∧
    ∀ plan, explainOutput host args = .ok plan → ∀ e, runOutput host clock args = .error e →
      e.IsComparisonError := by
  obtain ⟨table, pipelineJson, hloads⟩ | ⟨e, hfails⟩ := withInputs_cases host args
  · simp only [runOutput, explainOutput, explainAnalyzeOutput, withInputs_loads hloads]
    refine ⟨runPipeline_output clock clock', ?_, ?_, ?_⟩
    · intro includeResults e
      rw [explainAnalyze_error, Except.map_eq_error_iff]
    · intro e hexplain
      rw [Except.map_eq_error_iff]
      exact runPipeline_unexplained hexplain
    · intro plan hexplain e hrun
      obtain ⟨planned, hplanned, -⟩ := Except.map_eq_ok hexplain
      exact runPipeline_planned hloads.wellFormed hplanned (Except.map_eq_error hrun)
  · simp only [runOutput, explainOutput, explainAnalyzeOutput, hfails]
    refine ⟨?_, ?_, ?_, ?_⟩
    · intro output
      constructor
      · intro h
        cases h
      · rintro ⟨report, hreport, -⟩
        cases hreport
    · intro includeResults e'
      trivial
    · intro e' h
      exact h
    · intro plan hplan
      cases hplan

end Agreement

/-! ## How the tool ends -/

section Ending

variable {host : Host} {exit : Exit}

/-- The arguments of the subcommand that was parsed. -/
def CommandLine.args (line : CommandLine) : CommonArgs :=
  if line.runParsed then line.runArgs
  else if line.explainParsed then line.explainArgs
  else line.analyzeArgs

/-- A document was written to the standard output, and nothing else. -/
def Exit.Prints (host : Host) (exit : Exit) : Prop :=
  exit.code = 0 ∧ exit.stderr = "" ∧
    ∃ output, exit.stdout = host.toStdout (host.dump output ++ "\n")

/-- One error message was written to the standard error, and nothing else. -/
def Exit.Complains (host : Host) (args : CommonArgs) (exit : Exit) : Prop :=
  exit.code = 1 ∧ exit.stdout = "" ∧
    ((∃ code message, exit.stderr =
      host.toStderr ("error [" ++ ErrorCode.toString code ++ "]: " ++ message ++ "\n")) ∨
      ∃ e, Uncoded host args e ∧ exit.stderr = host.toStderr ("error: " ++ host.what e ++ "\n"))

/-- A command that returns has printed. -/
theorem Host.print_prints (host : Host) (output : Json) : (host.print output).Prints host :=
  ⟨rfl, rfl, output, rfl⟩

/-- A handler writes one message. -/
theorem Host.report_complains {e : Exception} (h : Reported host args e) :
    ∃ exit, host.report e = some exit ∧ exit.Complains host args := by
  obtain hcode | huncoded := h
  · cases e with
    | queryLumeError code message => exact ⟨_, rfl, rfl, rfl, .inl ⟨code, message, rfl⟩⟩
    | badVariantAccess | outOfRange | undefinedBehavior | jsonParseError what
    | jsonOutOfRange what | iosFailure what => cases hcode
  · cases huncoded with
    | number what => exact ⟨_, rfl, rfl, rfl, .inr ⟨_, .number what, rfl⟩⟩
    | unreadable opened failure =>
      exact ⟨_, rfl, rfl, rfl, .inr ⟨_, .unreadable opened failure, rfl⟩⟩

/-- A command that throws only what is reported ends `main` one way or the other. -/
theorem Host.finish_cases {output : Except Exception Json}
    (h : ∀ e, output = .error e → Reported host args e) :
    ∃ exit, host.finish (output.map host.print) = some exit ∧
      (exit.Prints host ∨ exit.Complains host args) := by
  cases output with
  | ok document => exact ⟨_, rfl, .inl (host.print_prints document)⟩
  | error e =>
    obtain ⟨exit, hreport, hcomplains⟩ := host.report_complains (h e rfl)
    exact ⟨exit, hreport, .inr hcomplains⟩

/-- **How the tool ends.**  Once its arguments are accepted, and whatever the two files hold, it
    writes one document and exits with 0, or writes one message and exits with 1: it never
    crashes, begins no result it does not finish and does not fail without a message. -/
theorem main_answers [StdLibrary] (hhost : host.Documented) (clock : Clock)
    {argv : List String} {line : CommandLine} (hargs : host.parseArgs argv = .ok line) :
    ∃ exit, main host clock argv = some exit ∧
      (exit.Prints host ∨ exit.Complains host line.args) := by
  have hrun : ∀ e, runOutput host clock line.runArgs = .error e → Reported host line.runArgs e := by
    intro e
    refine withInputs_raises hhost fun table pipelineJson e htable h => ?_
    exact runPipeline_raises htable (Except.map_eq_error h)
  have hexplain : ∀ e, explainOutput host line.explainArgs = .error e →
      Reported host line.explainArgs e := by
    intro e
    refine withInputs_raises hhost fun table pipelineJson e htable h => ?_
    have hrejected : runPipeline clock table pipelineJson = .error e := runPipeline_unexplained h
    exact runPipeline_raises htable hrejected
  have hanalyze : ∀ e, explainAnalyzeOutput host clock line.analyzeArgs line.includeResults =
      .error e → Reported host line.analyzeArgs e := by
    intro e
    refine withInputs_raises hhost fun table pipelineJson e htable h => ?_
    have hfails : runPipeline clock table pipelineJson = .error e := (explainAnalyze_error _ e).mp h
    exact runPipeline_raises htable hfails
  simp only [main, hargs, CommandLine.args]
  by_cases hrunParsed : line.runParsed = true
  · rw [if_pos hrunParsed, if_pos hrunParsed]
    exact host.finish_cases hrun
  by_cases hexplainParsed : line.explainParsed = true
  · rw [if_neg hrunParsed, if_pos hexplainParsed, if_neg hrunParsed, if_pos hexplainParsed]
    exact host.finish_cases hexplain
  by_cases hanalyzeParsed : line.analyzeParsed = true
  · rw [if_neg hrunParsed, if_neg hexplainParsed, if_pos hanalyzeParsed, if_neg hrunParsed,
      if_neg hexplainParsed]
    exact host.finish_cases hanalyze
  -- one of the three was parsed
  · have hone := hhost.oneSubcommand argv line hargs
    simp [CommandLine.OneSubcommand, hrunParsed, hexplainParsed, hanalyzeParsed] at hone

end Ending

/-! ## Two runs -/

/-- `run`, with the pipeline in a file of this name. -/
def runLine (pipelinePath : String) : CommandLine where
  runParsed := true
  explainParsed := false
  analyzeParsed := false
  runArgs := { dataPath := "data.json", pipelinePath }
  explainArgs := { dataPath := "", pipelinePath := "" }
  analyzeArgs := { dataPath := "", pipelinePath := "" }
  includeResults := false

/-- The command line for it. -/
def runArgv (pipelinePath : String) : List String :=
  ["querylume", "run", "--data", "data.json", "--pipeline", pipelinePath]

/-- What libstdc++ says when a directory is read. -/
def directoryFailure : String := "basic_filebuf::underflow error reading the file: Is a directory"

/-- Two files hold `[]`, and one name is that of a directory. -/
def smallHost : Host where
  parseArgs argv :=
    if argv = runArgv "pipeline.json" then .ok (runLine "pipeline.json")
    else if argv = runArgv "pipelines" then .ok (runLine "pipelines")
    else .error { code := 106, stdout := "", stderr := "A subcommand is required\n" }
  openFile path :=
    if path = "data.json" ∨ path = "pipeline.json" then some { text := "[]" }
    else if path = "pipelines" then some { text := "", failure := some directoryFailure }
    else none
  parse := sampleParse
  extract stream :=
    match stream.failure with
    | some what => .error (.iosFailure what)
    | none => sampleParse stream.text
  dump
    | .array [] => "[]"
    | _ => "null"
  what
    | .jsonOutOfRange what | .iosFailure what => what
    | _ => "std::exception"
  toStdout text := text
  toStderr text := text

/-- The small host does what is documented. -/
theorem smallHost_documented : smallHost.Documented where
  parse := sampleParse_throws
  extract stream e h := by
    simp only [smallHost] at h
    split at h
    · rename_i what hfailure
      exact .inr (.inr ⟨what, (Except.error.inj h).symm, hfailure⟩)
    · exact (sampleParse_throws _ e h).imp_right .inl
  oneSubcommand argv line h := by
    simp only [smallHost] at h
    split at h
    · rw [← Except.ok.inj h]
      decide
    split at h
    · rw [← Except.ok.inj h]
      decide
    · cases h

/-- `run` over the two files that hold `[]`. -/
theorem main_answers_sample :
    letI := StdLibrary.reference
    ∃ exit, main smallHost Clock.still (runArgv "pipeline.json") = some exit ∧
      (exit.Prints smallHost ∨ exit.Complains smallHost (runLine "pipeline.json").args) :=
  @main_answers smallHost StdLibrary.reference smallHost_documented Clock.still
    (runArgv "pipeline.json") (runLine "pipeline.json") rfl

-- a directory opens as a file, and the message about it has no code
example :
    letI := StdLibrary.reference
    main smallHost Clock.still (runArgv "pipelines") =
      some { code := 1, stdout := "", stderr := "error: " ++ directoryFailure ++ "\n" } := by
  rfl

end QueryLume
