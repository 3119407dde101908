import Gravastar.Lib.Machine
import Gravastar.QueryLogger

/-!
# Rotated logs (`query_logger.cpp`, `controller_logger.cpp`)

The two loggers write and rotate their logs with the same code. Here it has the
outcome of `CompressFile`: where `gzip` fails, the rotated log stays in the
directory as it is. The clock is the one that names the rotated logs.
-/

namespace Gravastar

/-- The name of a log. -/
@[ext]
structure LogName where
  text : Bytes
  noUnderscore : 95 ∉ text
  endsInG : text.getLast? = some 103

namespace LogDir

variable (dir : LogDir)

/-- `EnsureOpen` for a file by its name. -/
def openNamed (name : Bytes) : LogDir := if dir.fileExists name then dir else dir.insert name []

def appendTo (name text : Bytes) : LogDir :=
  dir.insert name ((dir.lookup name).getD [] ++ text)

/-- `CompressFile` with its outcome. -/
def tryCompress (path : Bytes) (succeeds : Bool) : LogDir :=
  if succeeds then dir.compressFile path else dir

end LogDir

/-- A line for a log, with the clock and the outcome of `CompressFile` for the case that the log is
rotated. -/
structure LogWrite where
  log : LogName
  line : Bytes
  now : Int64
  compresses : Bool

/-- A logger whose calls have events of type `ε`. -/
structure RotatingLogger (ε : Type) where
  maxBytes : Nat
  enabled : Bool
  write : ε → LogWrite

namespace RotatingLogger

variable {ε : Type} (L : RotatingLogger ε)

/-- The rotated log under its new name, compressed if that succeeds; old archives are still
there. -/
def rotate (dir : LogDir) (w : LogWrite) : LogDir :=
  let rotated := dir.uniqueRotatedName w.now.toInt w.log.text
  (dir.rename w.log.text rotated).tryCompress rotated w.compresses

def rotateIfNeeded (dir : LogDir) (w : LogWrite) : LogDir :=
  match dir.lookup w.log.text with
  | none => dir
  | some text =>
    if text.length < L.maxBytes then dir
    else (rotate dir w).cleanupOld (ascii "_" ++ w.log.text ++ ascii ".gz")

def writeLine (dir : LogDir) (w : LogWrite) : Bool × LogDir :=
  if !L.enabled then (false, dir)
  else
    let dir := L.rotateIfNeeded (dir.openNamed w.log.text) w
    (true, (dir.openNamed w.log.text).appendTo w.log.text (w.line ++ [newline]))

def step (dir : LogDir) (e : ε) : Bool × LogDir := L.writeLine dir (L.write e)

/-- The runs from an empty directory. -/
def machine : Machine LogDir ε Bool := ⟨∅, L.step⟩

end RotatingLogger

/-! ## The query log -/

/-- A call of `LogPass` or `LogBlock`. -/
structure QueryLogEvent where
  call : LogCall
  now : Int64
  time : Option LocalTime
  compresses : Bool
  deriving DecidableEq

def LogFile.logName (log : LogFile) : LogName where
  text := log.name
  noUnderscore := by cases log <;> decide
  endsInG := by cases log <;> decide

/-- The calls of a `QueryLogger`. -/
def QueryLogger.rotating (logger : QueryLogger) : RotatingLogger QueryLogEvent where
  maxBytes := logger.maxBytes
  enabled := logger.enabled
  write e := ⟨e.call.log.logName, e.call.line e.time, e.now, e.compresses⟩

/-- Where `gzip` succeeds, these are the calls as they are modelled without its outcome. -/
theorem QueryLogger.rotating_step (logger : QueryLogger) (dir : LogDir) {e : QueryLogEvent}
    (h : e.compresses = true) :
    logger.rotating.step dir e = logger.step dir ⟨e.call, e.now.toInt, e.time⟩ := by
  have hrotate : ∀ dir : LogDir, RotatingLogger.rotate dir (logger.rotating.write e) =
      QueryLogger.rotate dir e.call.log e.now.toInt := by
    intro dir
    have hcompress : (logger.rotating.write e).compresses = true := h
    rw [RotatingLogger.rotate, LogDir.tryCompress, hcompress]
    rfl
  have hneeded : ∀ dir : LogDir, logger.rotating.rotateIfNeeded dir (logger.rotating.write e) =
      logger.rotateIfNeeded dir e.call.log e.now.toInt := by
    intro dir
    rw [RotatingLogger.rotateIfNeeded, hrotate]
    rfl
  rw [RotatingLogger.step, RotatingLogger.writeLine, hneeded]
  rfl

/-! ## The log of the process -/

inductive LogLevel
  | debug
  | info
  | warn
  | error
  deriving DecidableEq, Repr

structure ControllerLogger where
  maxBytes : Nat
  enabled : Bool
  deriving DecidableEq, Repr

/-- A call of `Log`. -/
structure ControllerLogEvent where
  level : LogLevel
  msg : Bytes
  now : Int64
  time : Option LocalTime
  compresses : Bool
  deriving DecidableEq

namespace ControllerLogger

def levelString : LogLevel → Bytes
  | .debug => ascii "DEBUG"
  | .info => ascii "INFO"
  | .warn => ascii "WARN"
  | .error => ascii "ERROR"

def line (e : ControllerLogEvent) : Bytes :=
  ascii "ts=" ++ nowString e.time ++ ascii " level=" ++ levelString e.level ++ ascii " msg=" ++
    e.msg

def logName : LogName where
  text := ascii "controller.log"
  noUnderscore := by decide
  endsInG := by decide

/-- The calls of a `ControllerLogger`. -/
def rotating (logger : ControllerLogger) : RotatingLogger ControllerLogEvent where
  maxBytes := logger.maxBytes
  enabled := logger.enabled
  write e := ⟨logName, line e, e.now, e.compresses⟩

end ControllerLogger

end Gravastar
