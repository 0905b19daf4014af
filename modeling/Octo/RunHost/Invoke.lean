import Octo.Foundation.Lines

/-!
# One-shot invocations

`invokeCommand`, `invokeFlow` (`runtime/cli/main.go`) and `invoke` (`run-host/src/session.ts`): the
runner calls one flow and writes its result to stdout, or a marker to its log when the flow dropped
the message; the run-host collects both streams until the process exits and reads the outcome off
what it has then.

* `invoke_reports_outcome_iff` — when that is the outcome of the flow.
* `late_output_is_lost` — an invocation whose result comes after the exit event.
-/

namespace Octo.RunHost.Invoke

open List Octo.Foundation.Lines

abbrev Text := List Char

/-! ## The runner -/

/-- The levels of `log/slog` that the runner uses. -/
def levelInfo : Int := 0

def levelError : Int := 8

/-- What a run depends on: the level of `LOG_LEVEL`, what `awaitReady` and the call of the flow
return, and what else is written. -/
structure Run where
  level : Int
  /-- `awaitReady`: an error, or whether the flows are started. -/
  ready : Except String Bool
  /-- The flow's message, if any, and its `BodyJSON`. -/
  call : Except String (Option (Except String Text))
  logged : Text
  closing : Text
  printed : Text
  /-- The time of a log record and the flow's name, as the log handler writes them. -/
  time : Text
  flow : Text

/-- What a process leaves: the text on its streams and its exit code. -/
structure Written where
  stdout : Text
  stderr : Text
  exitCode : Nat
deriving DecidableEq

/-- `DROP_MARKER`, the message `invokeCommand` logs. -/
def dropMarker : Text := "flow dropped the message".toList

namespace Run

variable (run : Run)

def record (level : Int) (rest : Text) : Text :=
  if run.level ≤ level then "time=".toList ++ run.time ++ rest ++ ['\n'] else []

def invokeFlow : Except String (Option (Except String Text)) := do
  let ready ← run.ready
  if ready then run.call else return none

def failed (err : String) : Written where
  stdout := run.printed
  stderr := run.logged ++ run.closing ++ run.record levelError
    (" level=ERROR msg=\"cli stopped with error\" error=".toList ++ err.toList)
  exitCode := 1

/-- After its flags and its config. -/
def invokeCommand : Written := match run.invokeFlow with
  | .error err => run.failed err
  | .ok none =>
    { stdout := run.printed
      stderr := run.logged ++ run.record levelInfo
        (" level=INFO msg=\"".toList ++ dropMarker ++ "\" flow=".toList ++ run.flow) ++ run.closing
      exitCode := 0 }
  | .ok (some (.error err)) => run.failed err
  | .ok (some (.ok out)) =>
    { stdout := run.printed ++ out ++ ['\n'], stderr := run.logged ++ run.closing, exitCode := 0 }

def Dropped : Prop := run.ready = .ok true ∧ run.call = .ok none

def Returned (json : Text) : Prop :=
  run.ready = .ok true ∧ run.call = .ok (some (.ok json))

end Run

/-! ## The run-host -/

/-- An event of the child process, or of the timer that bounds it. -/
inductive Event where
  | stdout (chunk : Text)
  | stderr (chunk : Text)
  | exit (code : Option Nat)
  | close
  | timeout
  | error (message : Text)
deriving DecidableEq

structure InvokeResult where
  ok : Bool
  exitCode : Option Nat
  timedOut : Bool
  dropped : Bool
  output : Text
  logs : List Text
deriving DecidableEq

/-- The variables of `invoke` and the value its promise is resolved with. -/
structure Capture where
  output : Text := []
  errText : Text := []
  timedOut : Bool := false
  result : Option InvokeResult := none
deriving DecidableEq

def splitLines (text : Text) : List Text := (lines text).map stripReturn

namespace Capture

/-- A promise is resolved once. -/
def finish (c : Capture) (exitCode : Option Nat) : Capture := let logs := splitLines c.errText
  let ok := exitCode = some 0 && !c.timedOut
  { c with
    result := c.result.or (some
      { ok, exitCode, timedOut := c.timedOut, dropped := ok && logs.any fun l => dropMarker <:+: l
        output := c.output, logs }) }

/-- The listeners of `invoke`. -/
def handle (c : Capture) : Event → Capture
  | .stdout chunk => { c with output := c.output ++ chunk }
  | .stderr chunk => { c with errText := c.errText ++ chunk }
  | .exit code => c.finish code
  | .close => c
  | .timeout => { c with timedOut := true }
  | .error message =>
    let errText := c.errText ++ "✖ failed to start runner: ".toList ++ message ++ ['\n']
    { c with errText := errText }.finish none

end Capture

def invoke (events : List Event) : Option InvokeResult := (events.foldl Capture.handle {}).result

/-! ## Deliveries -/

/-- What the process wrote to its standard output in a run; `err` is the same for standard error. -/
def out : List Event → Text
  | [] => []
  | .stdout chunk :: rest => chunk ++ out rest
  | _ :: rest => out rest

def err : List Event → Text
  | [] => []
  | .stderr chunk :: rest => chunk ++ err rest
  | _ :: rest => err rest

def Event.isData : Event → Bool
  | .stdout _ => true
  | .stderr _ => true
  | _ => false

/-- The events of a process that exits within its budget: the exit comes among the data, and the
streams close after both. -/
structure Delivers (written : Written) (before after : List Event) : Prop where
  dataBefore : before.all Event.isData = true
  dataAfter : after.all Event.isData = true
  stdout : out before ++ out after = written.stdout
  stderr : err before ++ err after = written.stderr

def childEvents (written : Written) (before after : List Event) : List Event :=
  before ++ .exit (some written.exitCode) :: (after ++ [.close])

/-- What `invoke` is to report: whether the flow dropped the message, otherwise the line of its
result, and all lines of the log. -/
structure Reports (run : Run) (r : InvokeResult) : Prop where
  dropped : r.dropped = true ↔ run.Dropped
  output : ¬ run.Dropped → ∃ json, run.Returned json ∧ r.output = json ++ ['\n']
  logs : r.logs = lines run.invokeCommand.stderr

/-- The result is all that there is on stdout and it has arrived, or what has arrived of other
output reads the same. -/
def ResultArrived (run : Run) (json : Text) (before after : List Event) : Prop :=
  run.printed = [] ∧ out after = [] ∨ run.printed ≠ [] ∧ out before = json ++ ['\n']

/-- The log has arrived before the exit and no line of it ends in a carriage return; for a flow that
dropped the message the marker is logged; for one that did not, no log output holds the marker and
the result has arrived. -/
structure Faithful (run : Run) (before after : List Event) : Prop where
  log : Whole (err before) run.invokeCommand.stderr
  returns : ∀ l ∈ lines run.invokeCommand.stderr, stripReturn l = l
  outcome : run.Dropped ∧ (run.level ≤ levelInfo ∨ dropMarker <:+: run.logged ++ run.closing) ∨
    ∃ json, run.Returned json ∧ ¬ dropMarker <:+: run.logged ++ run.closing ∧
      ResultArrived run json before after

/-! ## What the run-host returns -/

open Capture

theorem foldl_data : ∀ (es : List Event) (c : Capture), es.all Event.isData = true →
    es.foldl handle c =
      { c with output := c.output ++ out es, errText := c.errText ++ err es }
  | [], c, _ => by simp [out, err]
  | e :: es, c, h => by
    rw [all_cons, Bool.and_eq_true] at h
    rw [foldl_cons, foldl_data es _ h.2]
    cases e with
    | stdout => simp [handle, out, err]
    | stderr => simp [handle, out, err]
    | exit => cases h.1
    | close => cases h.1
    | timeout => cases h.1
    | error => cases h.1

variable {before after : List Event}

theorem invoke_childEvents {written : Written}
    (h : Delivers written before after) (hexit : written.exitCode = 0) :
    invoke (childEvents written before after) = some
      { ok := true, exitCode := some 0, timedOut := false
        dropped := (splitLines (err before)).any fun l => dropMarker <:+: l
        output := out before, logs := splitLines (err before) } := by
  unfold invoke childEvents
  rw [foldl_append, foldl_data before _ h.dataBefore, foldl_cons, foldl_append,
    foldl_data after _ h.dataAfter, hexit]
  simp [handle, finish]

theorem dropMarker_spec : dropMarker ≠ [] ∧ '\n' ∉ dropMarker ∧ '\r' ∉ dropMarker := by decide

theorem any_dropMarker_iff (text : Text) :
    ((splitLines text).any fun l => dropMarker <:+: l) = true ↔ dropMarker <:+: text := by
  obtain ⟨hne, hline, hreturn⟩ := dropMarker_spec
  rw [← exists_line_infix_iff hne hline, splitLines]
  simp [infix_stripReturn_iff hne hreturn]

theorem dropMarker_of_whole {part text : Text} (h : Whole part text) :
    dropMarker <:+: part ↔ dropMarker <:+: text := by
  obtain ⟨hne, hline, -⟩ := dropMarker_spec
  rw [← exists_line_infix_iff hne hline, lines_of_whole h, exists_line_infix_iff hne hline]

/-! ## What the runner writes -/

variable {run : Run}

theorem dropMarker_in_record :
    dropMarker <:+: run.logged ++ run.record levelInfo (" level=INFO msg=\"".toList ++
        dropMarker ++ "\" flow=".toList ++ run.flow) ++ run.closing ↔
      run.level ≤ levelInfo ∨ dropMarker <:+: run.logged ++ run.closing := by
  unfold Run.record
  split
  next hlevel =>
    refine iff_of_true ?_ (.inl hlevel)
    refine ⟨run.logged ++ "time=".toList ++ run.time ++ " level=INFO msg=\"".toList,
      "\" flow=".toList ++ run.flow ++ ['\n'] ++ run.closing, ?_⟩
    simp only [append_assoc]
  next hlevel =>
    rw [append_nil]
    exact ⟨.inr, fun h => h.resolve_left hlevel⟩

theorem invokeCommand_cases (hexit : run.invokeCommand.exitCode = 0) :
    (run.Dropped ∧ (dropMarker <:+: run.invokeCommand.stderr ↔
      run.level ≤ levelInfo ∨ dropMarker <:+: run.logged ++ run.closing)) ∨
    (∃ json, run.Returned json ∧ run.invokeCommand.stdout = run.printed ++ json ++ ['\n'] ∧
      run.invokeCommand.stderr = run.logged ++ run.closing) ∨ run.ready = .ok false := by
  unfold Run.invokeCommand Run.invokeFlow at *
  cases hready : run.ready with
  | error =>
    rw [hready] at hexit
    cases hexit
  | ok ready =>
    cases ready with
    | false => exact .inr (.inr rfl)
    | true =>
      cases hcall : run.call with
      | error =>
        rw [hready, hcall] at hexit
        cases hexit
      | ok message =>
        cases message with
        | none => exact .inl ⟨⟨hready, hcall⟩, dropMarker_in_record⟩
        | some body =>
          cases body with
          | error =>
            rw [hready, hcall] at hexit
            cases hexit
          | ok json => exact .inr (.inl ⟨json, ⟨hready, hcall⟩, rfl, rfl⟩)

theorem not_dropped_of_returned {json : Text} (h : run.Returned json) : ¬ run.Dropped := by
  intro hdropped
  cases h.2.symm.trans hdropped.2

theorem returned_unique {json json' : Text} (h : run.Returned json)
    (h' : run.Returned json') : json = json' := by
  cases h.2.symm.trans h'.2
  rfl

theorem resultArrived_iff {json : Text}
    (h : out before ++ out after = run.printed ++ json ++ ['\n']) :
    out before = json ++ ['\n'] ↔ ResultArrived run json before after := by
  unfold ResultArrived
  by_cases hprinted : run.printed = []
  · rw [hprinted] at h
    simp only [hprinted, ne_eq, not_true_eq_false, true_and, false_and, or_false]
    constructor
    · intro hout
      rw [hout] at h
      exact append_right_eq_self.1 h
    · intro hout
      rwa [hout, append_nil] at h
  · simp [hprinted]

/-- **One-shot invocations.** `invoke` returns for every run that exits with code 0 within its
budget, and reports the outcome of the flow exactly when the run is faithful. -/
theorem invoke_reports_outcome_iff (run : Run) (before after : List Event)
    (hexit : run.invokeCommand.exitCode = 0) (h : Delivers run.invokeCommand before after) :
    ∃ r, invoke (childEvents run.invokeCommand before after) = some r ∧
      (Reports run r ↔ Faithful run before after) := by
  refine ⟨_, invoke_childEvents h hexit, ?_⟩
  have hlogs : splitLines (err before) = lines run.invokeCommand.stderr ↔
      Whole (err before) run.invokeCommand.stderr ∧
        ∀ l ∈ lines run.invokeCommand.stderr, stripReturn l = l :=
    map_stripReturn_lines_iff ⟨err after, h.stderr⟩
  rcases invokeCommand_cases hexit with ⟨hdropped, hmarker⟩ | ⟨json, hreturned, hstdout, hstderr⟩ |
    hcancelled
  · constructor
    · intro hreports
      obtain ⟨hwhole, hreturns⟩ := hlogs.1 hreports.logs
      refine ⟨hwhole, hreturns, .inl ⟨hdropped, ?_⟩⟩
      rw [← hmarker, ← dropMarker_of_whole hwhole, ← any_dropMarker_iff]
      exact hreports.dropped.2 hdropped
    · intro hfaithful
      refine ⟨iff_of_true ?_ hdropped, absurd hdropped,
        hlogs.2 ⟨hfaithful.log, hfaithful.returns⟩⟩
      rw [any_dropMarker_iff, dropMarker_of_whole hfaithful.log, hmarker]
      rcases hfaithful.outcome with ⟨-, hlogged⟩ | ⟨json, hreturned, -⟩
      · exact hlogged
      · exact absurd hdropped (not_dropped_of_returned hreturned)
  · have hnot := not_dropped_of_returned hreturned
    have harrived := resultArrived_iff (h.stdout.trans hstdout)
    constructor
    · intro hreports
      obtain ⟨hwhole, hreturns⟩ := hlogs.1 hreports.logs
      obtain ⟨json', hreturned', hout⟩ := hreports.output hnot
      rw [← returned_unique hreturned hreturned'] at hout
      refine ⟨hwhole, hreturns, .inr ⟨json, hreturned, ?_, harrived.1 hout⟩⟩
      rw [← hstderr, ← dropMarker_of_whole hwhole, ← any_dropMarker_iff]
      exact fun hmarker => hnot (hreports.dropped.1 hmarker)
    · intro hfaithful
      rcases hfaithful.outcome with ⟨hdropped, -⟩ | ⟨json', hreturned', hmarker, hresult⟩
      · exact absurd hdropped hnot
      · rw [← returned_unique hreturned hreturned'] at hresult
        refine ⟨iff_of_false ?_ hnot, fun _ => ⟨json, hreturned, harrived.2 hresult⟩,
          hlogs.2 ⟨hfaithful.log, hfaithful.returns⟩⟩
        rwa [any_dropMarker_iff, dropMarker_of_whole hfaithful.log, hstderr]
  · -- The flow was not called: there is no result to report.
    have hready : run.ready ≠ .ok true := by
      rw [hcancelled]
      exact fun heq => nomatch heq
    constructor
    · intro hreports
      obtain ⟨json, hreturned, -⟩ := hreports.output fun hdropped => hready hdropped.1
      exact absurd hreturned.1 hready
    · intro hfaithful
      rcases hfaithful.outcome with ⟨hdropped, -⟩ | ⟨json, hreturned, -⟩
      · exact absurd hdropped.1 hready
      · exact absurd hreturned.1 hready

/-- A run of a flow whose result is `null`, with a log line. -/
def nullRun : Run where
  level := 0
  ready := .ok true
  call := .ok (some (.ok "null".toList))
  logged := "ready\n".toList
  closing := []
  printed := []
  time := "0".toList
  flow := "orders".toList

theorem nullRun_reported : nullRun.invokeCommand.exitCode = 0 ∧
      Delivers nullRun.invokeCommand [.stderr "ready\n".toList, .stdout "null\n".toList] [] ∧
      ∃ r, invoke (childEvents nullRun.invokeCommand
        [.stderr "ready\n".toList, .stdout "null\n".toList] []) = some r ∧ Reports nullRun r := by
  have hdelivers : Delivers nullRun.invokeCommand
      [.stderr "ready\n".toList, .stdout "null\n".toList] [] :=
    ⟨by decide, by decide, by decide, by decide⟩
  obtain ⟨r, hr, hiff⟩ := invoke_reports_outcome_iff nullRun _ _ rfl hdelivers
  refine ⟨rfl, hdelivers, r, hr, hiff.2 ?_⟩
  refine ⟨.inl (by decide), by decide, .inr ⟨"null".toList, ⟨rfl, rfl⟩, by decide, ?_⟩⟩
  exact .inl ⟨rfl, by decide⟩

/-- The result of the same run arrives after the exit, and is not in what `invoke` returns. -/
theorem late_output_is_lost :
    nullRun.Returned "null".toList ∧
      Delivers nullRun.invokeCommand [.stderr "ready\n".toList] [.stdout "null\n".toList] ∧
      invoke (childEvents nullRun.invokeCommand [.stderr "ready\n".toList]
        [.stdout "null\n".toList]) =
          some ⟨true, some 0, false, false, [], ["ready".toList]⟩ :=
  ⟨⟨rfl, rfl⟩, ⟨by decide, by decide, by decide, by decide⟩, by decide⟩

end Octo.RunHost.Invoke
