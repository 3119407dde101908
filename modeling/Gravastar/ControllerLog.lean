import Gravastar.Lib.Simulation
import Gravastar.QueryLogger.Lines
import Gravastar.RotatingLog.WholeLines

/-!
# The log of the process (`util.cpp`, `controller_logger.cpp`)

Every part of the program logs through the same few functions, which look at a
level that can change between two calls, take the line breaks out of a message
and hand it to the `ControllerLogger`, or to standard error as long as there is
none.
-/

namespace Gravastar

namespace LogLevel

/-- The value of the enumerator. -/
def rank : LogLevel → Nat
  | .debug => 0
  | .info => 1
  | .warn => 2
  | .error => 3

end LogLevel

/-- `g_log_level` and `g_debug_enabled`. -/
structure LogSettings where
  level : LogLevel
  debugEnabled : Bool
  deriving DecidableEq, Repr

namespace LogSettings

def new : LogSettings := ⟨.debug, false⟩

def setDebugEnabled (s : LogSettings) (enabled : Bool) : LogSettings :=
  ⟨if enabled then .debug else s.level, enabled⟩

def setLogLevel (_ : LogSettings) (level : LogLevel) : LogSettings :=
  ⟨level, level = .debug⟩

/-- The level that a text names, in any letter case. -/
def levelFromString (text : Bytes) : Option LogLevel :=
  let lowered := toLower text
  if lowered = ascii "debug" then some .debug
  else if lowered = ascii "info" then some .info
  else if lowered = ascii "warn" then some .warn
  else if lowered = ascii "error" then some .error
  else none

def setLogLevelFromString (s : LogSettings) (text : Bytes) : Bool × LogSettings :=
  match levelFromString text with
  | none => (false, s)
  | some level => (true, s.setLogLevel level)

end LogSettings

def escapeLogMessage (msg : Bytes) : Bytes := msg.map fun c => if c = 10 ∨ c = 13 then 32 else c

/-- A call of one of the functions. -/
inductive LogRequest where
  | setDebugEnabled (enabled : Bool)
  | setLogLevel (level : LogLevel)
  | setLogLevelFromString (text : Bytes)
  | debugLog (msg : Bytes)
  | logInfo (msg : Bytes)
  | logWarn (msg : Bytes)
  | logError (msg : Bytes)
  deriving DecidableEq, Repr

/-- A call, with the clock and the outcome of `CompressFile` for the case that the logger is
called. -/
structure LogRequestEvent where
  request : LogRequest
  now : Int64
  time : Option LocalTime
  compresses : Bool
  deriving DecidableEq

namespace LogSettings

variable (s : LogSettings)

/-- `LogInternal` as far as the message: what it logs, if the level is high enough. -/
def logInternal (level : LogLevel) (msg : Bytes) : Option (LogLevel × Bytes) :=
  if level.rank < s.level.rank then none else some (level, escapeLogMessage msg)

/-- What a call logs, and the settings that it leaves. -/
def request : LogRequest → Option (LogLevel × Bytes) × LogSettings
  | .setDebugEnabled enabled => (none, s.setDebugEnabled enabled)
  | .setLogLevel level => (none, s.setLogLevel level)
  | .setLogLevelFromString text => (none, (s.setLogLevelFromString text).2)
  | .debugLog msg =>
    (if s.level ≠ .debug then none else s.logInternal .debug (ascii "[debug] " ++ msg), s)
  | .logInfo msg => (s.logInternal .info msg, s)
  | .logWarn msg => (s.logInternal .warn msg, s)
  | .logError msg => (s.logInternal .error msg, s)

end LogSettings

/-- What the functions work on: `g_controller_logger` is `logger`, if there is one. -/
structure ProcessLog where
  settings : LogSettings
  dir : LogDir
  stderr : Bytes

namespace ProcessLog

/-- A call of one of the functions; the output is what it logs. -/
def step (logger : Option ControllerLogger) (p : ProcessLog) (e : LogRequestEvent) :
    Option ControllerLogEvent × ProcessLog :=
  let (logged, settings) := p.settings.request e.request
  match logged with
  | none => (none, { p with settings })
  | some (level, msg) =>
    let call : ControllerLogEvent := ⟨level, msg, e.now, e.time, e.compresses⟩
    match logger with
    | some logger => (some call, { p with settings, dir := (logger.rotating.step p.dir call).2 })
    | none => (some call, { p with settings, stderr := p.stderr ++ (msg ++ [newline]) })

def machine (logger : Option ControllerLogger) :
    Machine ProcessLog LogRequestEvent (Option ControllerLogEvent) :=
  ⟨⟨.new, ∅, []⟩, step logger⟩

/-! ## Whole runs -/

/-- What a run logs, the newest first. -/
def logged (logger : Option ControllerLogger) (es : List LogRequestEvent) :
    List ControllerLogEvent :=
  (machine logger).observed Prod.snd es

/-- A message is on one line. -/
theorem newline_notMem_escapeLogMessage (msg : Bytes) : newline ∉ escapeLogMessage msg := by
  unfold escapeLogMessage
  intro h
  obtain ⟨c, -, hc⟩ := List.mem_map.mp h
  split_ifs at hc with hbreak
  · exact absurd hc (by decide)
  · exact hbreak (.inl hc)

/-- What a call logs has been through `EscapeLogMessage`. -/
theorem newline_notMem_request {s : LogSettings} {r : LogRequest} {level : LogLevel} {msg : Bytes}
    (h : (s.request r).1 = some (level, msg)) : newline ∉ msg := by
  have hinternal : ∀ level' msg', s.logInternal level' msg' = some (level, msg) →
      newline ∉ msg := by
    intro level' msg' hlog
    unfold LogSettings.logInternal at hlog
    split_ifs at hlog
    obtain ⟨-, rfl⟩ := Prod.mk.inj (Option.some.inj hlog)
    exact newline_notMem_escapeLogMessage msg'
  cases r with
  | setDebugEnabled | setLogLevel | setLogLevelFromString => cases h
  | debugLog text =>
    unfold LogSettings.request at h
    dsimp only at h
    split_ifs at h
    exact hinternal _ _ h
  | logInfo text | logWarn text | logError text => exact hinternal _ _ h

variable {p : ProcessLog} {e : LogRequestEvent}

/-- What is written, and where to. -/
theorem step_spec (logger : Option ControllerLogger) (p : ProcessLog) (e : LogRequestEvent) :
    (∀ call, (step logger p e).1 = some call → newline ∉ call.msg) ∧
      (step logger p e).2.dir = (match (step logger p e).1, logger with
        | some call, some logger => (logger.rotating.step p.dir call).2
        | _, _ => p.dir) ∧
      (step logger p e).2.stderr = match (step logger p e).1, logger with
        | some call, none => p.stderr ++ (call.msg ++ [newline])
        | _, _ => p.stderr := by
  have hline := @newline_notMem_request p.settings e.request
  unfold step
  generalize p.settings.request e.request = r at hline
  obtain ⟨_ | ⟨level, msg⟩, settings⟩ := r
  · exact ⟨nofun, rfl, rfl⟩
  · have hmsg := hline rfl
    cases logger with
    | none => exact ⟨fun call h => Option.some.inj h ▸ hmsg, rfl, rfl⟩
    | some logger => exact ⟨fun call h => Option.some.inj h ▸ hmsg, rfl, rfl⟩

theorem newline_notMem_logged (logger : Option ControllerLogger) (es : List LogRequestEvent) :
    ∀ call ∈ logged logger es, newline ∉ call.msg := by
  induction es with
  | nil => exact nofun
  | cons e es ih =>
    intro call hcall
    unfold logged at hcall
    rw [Machine.observed_cons, List.mem_append, Option.mem_toList] at hcall
    rcases hcall with hnew | hold
    · exact (step_spec logger _ e).1 call hnew
    · exact ih call hold

/-- The files are where the logged calls alone would have brought them. -/
theorem dir_after (logger : ControllerLogger) (es : List LogRequestEvent) :
    ((machine (some logger)).after es).dir =
      logger.rotating.machine.after (logged (some logger) es) := by
  induction es with
  | nil => rfl
  | cons e es ih =>
    obtain ⟨-, hdir, -⟩ := step_spec (some logger) ((machine (some logger)).after es) e
    unfold logged at ih ⊢
    rw [Machine.observed_cons, Machine.after_cons]
    refine hdir.trans ?_
    change _ = logger.rotating.machine.after
      ((step (some logger) ((machine (some logger)).after es) e).1.toList ++ _)
    cases (step (some logger) ((machine (some logger)).after es) e).1 with
    | none => exact ih
    | some call => exact congrArg (fun dir => (logger.rotating.step dir call).2) ih

theorem stderr_after (es : List LogRequestEvent) :
    ((machine none).after es).stderr =
      joinLines ((logged none es).map ControllerLogEvent.msg).reverse := by
  induction es with
  | nil => rfl
  | cons e es ih =>
    obtain ⟨-, -, hstderr⟩ := step_spec none ((machine none).after es) e
    unfold logged at ih ⊢
    rw [Machine.observed_cons, Machine.after_cons]
    refine hstderr.trans ?_
    change _ = joinLines (List.map _
      ((step none ((machine none).after es) e).1.toList ++ _)).reverse
    cases (step none ((machine none).after es) e).1 with
    | none => exact ih
    | some call =>
      rw [Option.toList_some, List.singleton_append, List.map_cons, List.reverse_cons,
        LogDir.joinLines_concat, ← ih]

/-- The text in front of a message is plain. -/
theorem newline_notMem_line {call : ControllerLogEvent} (h : newline ∉ call.msg) :
    newline ∉ ControllerLogger.line call := by
  have htime := (graphic_nowString call.time).newline_notMem
  have hlevel : newline ∉ ControllerLogger.levelString call.level := by
    cases call.level <;> decide
  have hts : newline ∉ ascii "ts=" := by decide
  have hlevelKey : newline ∉ ascii " level=" := by decide
  have hmsgKey : newline ∉ ascii " msg=" := by decide
  unfold ControllerLogger.line
  simp only [List.mem_append, not_or]
  exact ⟨⟨⟨⟨⟨hts, htime⟩, hlevelKey⟩, hlevel⟩, hmsgKey⟩, h⟩

/-- The lines of the log, for a logger that is enabled. -/
theorem written_logName {logger : ControllerLogger} (henabled : logger.enabled = true)
    (calls : List ControllerLogEvent) (N : LogName) :
    logger.rotating.written calls N = if N.text = ControllerLogger.logName.text then
      (calls.map ControllerLogger.line).reverse else [] := by
  induction calls with
  | nil => split_ifs <;> rfl
  | cons call calls ih =>
    have hon : logger.rotating.enabled = true := henabled
    rw [RotatingLogger.written, hon, if_pos rfl, LogDir.withLine, ih]
    change (if N.text = ControllerLogger.logName.text then _ else _) = _
    split_ifs
    · rw [List.map_cons, List.reverse_cons]
      rfl
    · rfl

/-- The log of the process, in any run: with calls and changes of the level in any order, any clock,
and compressions that may fail. Read line by line, every file in the directory of an enabled logger
has lines of calls that passed the level of their time, one line for each call and message and none
missing between two of them; `controller.log` has the newest. Without a logger, standard error has
them all. -/
theorem log_lines_whole (logger : ControllerLogger) (henabled : logger.enabled = true)
    (es : List LogRequestEvent) :
    let dir := ((machine (some logger)).after es).dir
    let lines := ((logged (some logger) es).map ControllerLogger.line).reverse
    (∀ name text, dir.lookup name = some text → getLines text <:+: lines) ∧
      (∀ text, dir.lookup (ascii "controller.log") = some text → getLines text <:+ lines) ∧
      (lines ≠ [] → ∃ text, dir.lookup (ascii "controller.log") = some text ∧
        getLines text ≠ []) ∧
      getLines ((machine none).after es).stderr =
        ((logged none es).map ControllerLogEvent.msg).reverse := by
  intro dir lines
  have hdir : dir = logger.rotating.machine.after (logged (some logger) es) := dir_after logger es
  have hholds := logger.rotating.holdsLines_after (logged (some logger) es)
  rw [← hdir] at hholds
  have hlines : ∀ line ∈ lines, newline ∉ line := by
    intro line hline
    obtain ⟨call, hcall, rfl⟩ := List.mem_map.mp (List.mem_reverse.mp hline)
    exact newline_notMem_line (newline_notMem_logged (some logger) es call hcall)
  have hlog : ∀ text, dir.lookup (ascii "controller.log") = some text →
      ∃ part, part <:+ lines ∧ text = joinLines part ∧ getLines text = part := by
    intro text htext
    obtain ⟨part, hpart, rfl⟩ := hholds.log ControllerLogger.logName text htext
    rw [written_logName henabled, if_pos rfl] at hpart
    exact ⟨part, hpart, rfl, getLines_joinLines fun line hline => hlines line (hpart.subset hline)⟩
  refine ⟨fun name text htext => ?_, fun text htext => ?_, fun hne => ?_, ?_⟩
  · obtain ⟨N, part, hpart, rfl⟩ := hholds.file name text htext
    rw [written_logName henabled] at hpart
    split_ifs at hpart
    · rw [getLines_joinLines fun line hline => hlines line (hpart.subset hline)]
      exact hpart
    · rw [List.eq_nil_of_infix_nil hpart]
      exact List.nil_infix
  · obtain ⟨part, hpart, -, hread⟩ := hlog text htext
    exact hread ▸ hpart
  · cases hcalls : logged (some logger) es with
    | nil => exact absurd (by simp [lines, hcalls]) hne
    | cons call calls =>
      obtain ⟨front, hfront⟩ := RotatingLogger.exists_lookup_step (L := logger.rotating) henabled
        (logger.rotating.machine.after calls) call
      have hlookup : dir.lookup (ascii "controller.log") =
          some (front ++ (ControllerLogger.line call ++ [newline])) := by
        rw [hdir, hcalls]
        exact hfront
      refine ⟨_, hlookup, fun hnil => ?_⟩
      obtain ⟨part, -, htext, hread⟩ := hlog _ hlookup
      rw [hread] at hnil
      subst hnil
      simp [joinLines] at htext
  · rw [stderr_after, getLines_joinLines]
    intro msg hmsg
    obtain ⟨call, hcall, rfl⟩ := List.mem_map.mp (List.mem_reverse.mp hmsg)
    exact newline_notMem_logged none es call hcall

/-- A message with a line break is one line, and one below the level is none. -/
theorem log_lines_whole_break :
    let es : List LogRequestEvent := [⟨.logError [120, 10, 121], 0, none, true⟩,
      ⟨.logInfo [122], 0, none, true⟩, ⟨.setLogLevel .warn, 0, none, true⟩]
    ∃ text, ((machine (some ⟨1000, true⟩)).after es).dir.lookup (ascii "controller.log") =
      some text ∧ (getLines text).length = 1 := by
  intro es
  obtain ⟨-, hsuffix, hnewest, -⟩ := log_lines_whole ⟨1000, true⟩ rfl es
  obtain ⟨text, htext, hne⟩ := hnewest (by decide +kernel)
  have hlength := (hsuffix text htext).length_le
  have hone : (((logged (some ⟨1000, true⟩) es).map ControllerLogger.line).reverse).length = 1 := by
    decide +kernel
  have hpos := List.length_pos_of_ne_nil hne
  exact ⟨text, htext, by omega⟩

end ProcessLog

end Gravastar
