import Gravastar.DnsServer
import Mathlib.Data.List.AList
import Mathlib.Data.List.Sort

/-!
# The query log (`query_logger.cpp`)

Two logs in one directory, whose files are a map from names to texts; the text
of an archive is the one that was compressed. An open stream is on the file at
the log's path. Every call of the file system succeeds, and `gzip -f` puts its
archive in the place of whatever has that name.
-/

namespace Gravastar

/-! ## Lines -/

/-- The fields of a `struct tm` that are printed. -/
structure LocalTime where
  year : Nat
  month : Nat
  day : Nat
  hour : Nat
  minute : Nat
  second : Nat
  deriving DecidableEq, Repr

def twoDigits (n : Nat) : Bytes := if n < 10 then ascii "0" ++ decimal n else decimal n

/-- `NowString`, with what `localtime_r` returns. -/
def nowString : Option LocalTime → Bytes
  | none => ascii "1970-01-01T00:00:00"
  | some t =>
    decimal t.year ++ ascii "-" ++ twoDigits t.month ++ ascii "-" ++ twoDigits t.day ++
      ascii "T" ++ twoDigits t.hour ++ ascii ":" ++ twoDigits t.minute ++ ascii ":" ++
      twoDigits t.second

def buildLine (time : Option LocalTime) (clientIp clientName qname qtype resolvedBy
    upstream : Bytes) : Bytes :=
  ascii "ts=" ++ nowString time ++ ascii " client_ip=" ++ clientIp ++ ascii " client_name=" ++
    clientName ++ ascii " qname=" ++ qname ++ ascii " qtype=" ++ qtype ++
    ascii " resolved_by=" ++ resolvedBy ++
    if upstream.isEmpty then [] else ascii " upstream=" ++ upstream

def buildBlockLine (time : Option LocalTime) (clientIp clientName qname qtype : Bytes) : Bytes :=
  ascii "ts=" ++ nowString time ++ ascii " client_ip=" ++ clientIp ++ ascii " client_name=" ++
    clientName ++ ascii " qname=" ++ qname ++ ascii " qtype=" ++ qtype

/-! ## Files -/

inductive LogFile where
  | pass
  | block
  deriving DecidableEq, Repr

def LogFile.name : LogFile → Bytes
  | .pass => ascii "pass.log"
  | .block => ascii "block.log"

/-- The files of the log directory. -/
abbrev LogDir := AList fun _ : Bytes => Bytes

namespace LogDir

/-- `stat(path, &st) == 0`. -/
def fileExists (dir : LogDir) (name : Bytes) : Bool := (dir.lookup name).isSome

/-- `EnsureOpen`: `fopen(path, "a")` makes a file where there is none. -/
def ensureOpen (dir : LogDir) (log : LogFile) : LogDir :=
  if dir.fileExists log.name then dir else dir.insert log.name []

def append (dir : LogDir) (log : LogFile) (text : Bytes) : LogDir :=
  dir.insert log.name ((dir.lookup log.name).getD [] ++ text)

def rename (dir : LogDir) (source target : Bytes) : LogDir :=
  match dir.lookup source with
  | none => dir
  | some text => (dir.erase source).insert target text

/-- `CompressFile`: `gzip -f path`. -/
def compressFile (dir : LogDir) (path : Bytes) : LogDir := dir.rename path (path ++ ascii ".gz")

/-! ## Names of rotated logs -/

def decimalInt (n : Int) : Bytes :=
  if n < 0 then ascii "-" ++ decimal n.natAbs else decimal n.natAbs

def rotatedName (now : Int) (baseName : Bytes) : Bytes := decimalInt now ++ ascii "_" ++ baseName

def rotatedNameAlt (now : Int) (baseName : Bytes) (i : Nat) : Bytes :=
  decimalInt now ++ ascii "_" ++ decimal i ++ ascii "_" ++ baseName

/-- The first of the names that is free, and the last one if none is. -/
def uniqueRotatedName (dir : LogDir) (now : Int) (baseName : Bytes) : Bytes :=
  let candidates := rotatedName now baseName ::
    (List.range' 1 999).map (rotatedNameAlt now baseName)
  (candidates.find? fun candidate => !dir.fileExists candidate).getD
    (rotatedNameAlt now baseName 999)

/-! ## `CleanupOld` -/

/-- `iss >> ts` into a `long long`: white space, a sign, digits; the nearest number where it does
not fit, zero where there is none. -/
def extractLongLong (s : Bytes) : Int :=
  let s := s.dropWhile isSpace
  let minus := s.head? = some 45
  let s := if s.head? = some 43 ∨ minus then s.tail else s
  let value : Int := digitsValue (s.takeWhile isDigit)
  max (-2 ^ 63) (min (2 ^ 63 - 1) (if minus then -value else value))

/-- The time and the name of a file that counts as an archive. -/
def archiveEntry (suffix name : Bytes) : Option (Int × Bytes) :=
  if !suffix.isSuffixOf name then none
  else if !name.contains 95 then none
  else
    let ts := extractLongLong (name.takeWhile (· ≠ 95))
    if ts ≤ 0 then none else some (ts, name)

def entries (dir : LogDir) (suffix : Bytes) : List (Int × Bytes) :=
  dir.keys.filterMap (archiveEntry suffix)

/-- All archives but the ten newest are removed. -/
def cleanupOld (dir : LogDir) (suffix : Bytes) : LogDir :=
  let entries := dir.entries suffix
  if entries.length ≤ 10 then dir
  else
    let sorted := entries.insertionSort fun a b => a.1 < b.1 ∨ a.1 = b.1 ∧ a.2 ≤ b.2
    (sorted.take (entries.length - 10)).foldl (fun dir entry => dir.erase entry.2) dir

end LogDir

/-! ## Logging -/

def LogFile.archiveSuffix (log : LogFile) : Bytes := ascii "_" ++ log.name ++ ascii ".gz"

structure QueryLogger where
  maxBytes : Nat
  enabled : Bool
  deriving DecidableEq, Repr

/-- A call, with the clock as the rotation reads it and the local time of the line. -/
structure LogEvent where
  call : LogCall
  now : Int
  time : Option LocalTime
  deriving DecidableEq, Repr

def LogCall.log : LogCall → LogFile
  | .logBlock .. => .block
  | .logPass .. => .pass

def LogCall.line (time : Option LocalTime) : LogCall → Bytes
  | .logBlock clientIp clientName qname qtype =>
    buildBlockLine time clientIp clientName qname qtype
  | .logPass clientIp clientName qname qtype resolvedBy upstream =>
    buildLine time clientIp clientName qname qtype resolvedBy upstream

namespace QueryLogger

variable (logger : QueryLogger)

/-- The log under its new name, compressed; old archives are still there. -/
def rotate (dir : LogDir) (log : LogFile) (now : Int) : LogDir :=
  let rotated := dir.uniqueRotatedName now log.name
  (dir.rename log.name rotated).compressFile rotated

def rotateIfNeeded (dir : LogDir) (log : LogFile) (now : Int) : LogDir :=
  match dir.lookup log.name with
  | none => dir
  | some text =>
    if text.length < logger.maxBytes then dir
    else (rotate dir log now).cleanupOld log.archiveSuffix

def writeLine (dir : LogDir) (log : LogFile) (now : Int) (line : Bytes) : Bool × LogDir :=
  if !logger.enabled then (false, dir)
  else
    let dir := logger.rotateIfNeeded (dir.ensureOpen log) log now
    (true, (dir.ensureOpen log).append log (line ++ [newline]))

/-- `LogPass` and `LogBlock`. -/
def step (dir : LogDir) (e : LogEvent) : Bool × LogDir :=
  logger.writeLine dir e.call.log e.now (e.call.line e.time)

end QueryLogger

end Gravastar
