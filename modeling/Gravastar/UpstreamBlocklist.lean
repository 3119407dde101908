import Gravastar.Blocklist
import Gravastar.Config
import Mathlib.Data.Finset.Sort

/-!
# Downloaded blocklists (`upstream_blocklist.cpp`)

The files are a map from paths to contents. Everything that can go wrong around
a call is data: what libcurl reports, which files can be opened, whether a
rename succeeds. A write to a file that was opened succeeds.
-/

namespace Gravastar

/-! ## `LoadUpstreamBlocklistConfig` -/

structure UpstreamBlocklistConfig where
  urls : List Bytes
  updateIntervalSec : UInt32
  cacheDir : Bytes
  deriving DecidableEq, Repr

namespace UpstreamBlocklistConfig

def lines (out : UpstreamBlocklistConfig) : List Bytes → Except Bytes UpstreamBlocklistConfig
  | [] => .ok out
  | line :: rest =>
    let line := trim (stripComment line)
    if line.isEmpty then lines out rest
    else
      match keyValue line with
      | none => lines out rest
      | some (key, value) =>
        if key = ascii "update_interval_sec" then
          match parseInteger value with
          | none => .error (ascii "invalid update_interval_sec")
          | some v => lines { out with updateIntervalSec := v.toUInt32 } rest
        else if key = ascii "urls" then
          match parseStringArray (joinArray value rest).1 with
          | none => .error (ascii "invalid urls")
          | some items => lines { out with urls := out.urls ++ items } (joinArray value rest).2
        else if key = ascii "cache_dir" then
          match parseQuotedString value with
          | none => .error (ascii "invalid cache_dir")
          | some v => lines { out with cacheDir := v } rest
        else lines out rest
termination_by rest => rest.length
decreasing_by
  all_goals
    first
    | exact Nat.lt_succ_self _
    | exact Nat.lt_succ_of_le (length_joinArray_le _ _)

end UpstreamBlocklistConfig

def loadUpstreamBlocklistConfig (path : Bytes) (file : Option Bytes) :
    Except Bytes UpstreamBlocklistConfig := do
  let lines ← readLines path file
  let out ← UpstreamBlocklistConfig.lines ⟨[], 3600, ascii "/var/gravastar"⟩ lines
  pure (if out.updateIntervalSec = 0 then { out with updateIntervalSec := 3600 } else out)

/-! ## Lists of domains -/

/-- `s.find(pattern) != npos`. -/
def hasSubstring (s pattern : Bytes) : Bool := s.tails.any pattern.isPrefixOf

def splitWhitespaceLoop (current : Bytes) : Bytes → List Bytes
  | [] => if current.isEmpty then [] else [current]
  | c :: line =>
    if isSpace c then
      if current.isEmpty then splitWhitespaceLoop [] line
      else current :: splitWhitespaceLoop [] line
    else splitWhitespaceLoop (current ++ [c]) line

/-- `SplitWhitespace`. -/
def splitWhitespace (line : Bytes) : List Bytes := splitWhitespaceLoop [] line

/-- A colon, or digits and dots with at least one dot. -/
def looksLikeIp (token : Bytes) : Bool :=
  if token.contains 58 then true
  else if token.all fun c => c = dot ∨ (48 ≤ c ∧ c ≤ 57) then token.contains dot
  else false

def isValidLabel (label : Bytes) : Bool :=
  if label.isEmpty then false
  else if label.head? = some 45 ∨ label.getLast? = some 45 then false
  else label.all fun c => (97 ≤ c ∧ c ≤ 122) ∨ (48 ≤ c ∧ c ≤ 57) ∨ c = 45

def normalizeDomain (raw : Bytes) : Option Bytes :=
  let name := dropTrailingDot (toLower raw)
  if name.isEmpty then none
  else if name.contains 47 ∨ name.contains 42 then none
  else
    let labels := split name dot
    if labels.length < 2 then none
    else if labels.all isValidLabel then some name else none

def isSkippableLine (line : Bytes) : Bool :=
  if line.isEmpty then true
  else if line.head? = some 33 ∨ line.head? = some 91 ∨ line.head? = some 35 then true
  else hasSubstring line (ascii "##") || hasSubstring line (ascii "#@#") ||
    hasSubstring line (ascii "#?#") || hasSubstring line (ascii "#$#")

/-- The domains that one line of a list adds: `||domain^`, or words with an address in front. -/
def lineDomains (line : Bytes) : List Bytes :=
  let line := if line.getLast? = some 13 then line.dropLast else line
  let trimmed := trim line
  if isSkippableLine trimmed then []
  else if (ascii "||").isPrefixOf trimmed then
    let rest := trimmed.drop 2
    if rest.contains 94 then (normalizeDomain (rest.takeWhile (· ≠ 94))).toList else []
  else
    match splitWhitespace trimmed with
    | [] => []
    | token :: tokens =>
      let tokens := if looksLikeIp token then tokens else token :: tokens
      (tokens.takeWhile fun token => token.head? ≠ some 35).filterMap normalizeDomain

/-- `ParseUpstreamBlocklistContent`, which adds to the set it is given. -/
def parseUpstreamBlocklistContent (content : Bytes) (domains : Finset Bytes) : Finset Bytes :=
  (getLines content).foldl
    (fun domains line => (lineDomains line).foldl (fun ds d => insert d ds) domains) domains

/-! ## Files -/

/-- What the files hold, `none` where there is none. -/
abbrev Disk := Bytes → Option Bytes

def fileExists (disk : Disk) (path : Bytes) : Bool := (disk path).isSome

/-- `ReadFile`: nothing, without an error, where the file cannot be opened. -/
def readFile (disk : Disk) (path : Bytes) (opens : Bool) : Bytes :=
  if opens then (disk path).getD [] else []

def writeFile (disk : Disk) (path contents : Bytes) (opens : Bool) : Bool × Disk :=
  if opens then (true, Function.update disk path (some contents)) else (false, disk)

def unlink (disk : Disk) (path : Bytes) : Disk := Function.update disk path none

def rename (disk : Disk) (source target : Bytes) : Disk :=
  Function.update (unlink disk source) target (disk source)

/-- The answers of `stat`, `mkdir` and `stat` again for a directory. -/
structure DirEnv where
  isDir : Bool
  created : Bool
  isDirNow : Bool
  deriving DecidableEq, Repr

def ensureDir (dir : DirEnv) : Bool := if dir.isDir then true else dir.created || dir.isDirNow

/-- `JoinPath` of `main.cpp`. -/
def joinPath (dir path : Bytes) : Bytes :=
  if path.isEmpty then dir
  else if path.head? = some 47 then path
  else if dir.getLast? = some 47 then dir ++ path
  else dir ++ ascii "/" ++ path

def hashUrl (url : Bytes) : UInt64 :=
  url.foldl (fun hash c => ((hash <<< 5) + hash) + c.toUInt64) 5381

def cachePathForUrl (cacheDir url : Bytes) : Bytes :=
  cacheDir ++ ascii "/upstream_" ++ decimal (hashUrl url).toNat ++ ascii ".txt"

/-! ## `BuildBlocklistFromSources` -/

/-- How a transfer ends: without an answer from the server, or with one, whatever its status. -/
inductive Transfer where
  | failed
  | completed (status : Nat) (body : Bytes)
  deriving DecidableEq, Repr

/-- `FetchUrl`: `curl_easy_perform` returns `CURLE_OK` for any completed exchange. -/
def fetchUrl : Transfer → Option Bytes
  | .failed => none
  | .completed _ body => some body

/-- The transfer for one URL, and whether its cache file can be opened. -/
structure FetchEnv where
  transfer : Transfer
  writeOpens : Bool
  readOpens : Bool
  deriving DecidableEq, Repr

/-- One turn of the loop, as far as the content. -/
def sourceContent (cacheDir : Bytes) (env : FetchEnv) (disk : Disk) (url : Bytes) :
    Except Bytes Bytes × Disk :=
  let cachePath := cachePathForUrl cacheDir url
  match fetchUrl env.transfer with
  | some content => (.ok content, (writeFile disk cachePath content env.writeOpens).2)
  | none =>
    if fileExists disk cachePath then (.ok (readFile disk cachePath env.readOpens), disk)
    else (.error (ascii "failed to fetch url and no cache: " ++ url), disk)

/-- The loop; `fetches` tells what happens from this URL on. -/
def buildLoop (cacheDir : Bytes) :
    List Bytes → (Nat → FetchEnv) → Disk → Finset Bytes → Except Bytes (Finset Bytes) × Disk
  | [], _, disk, domains => (.ok domains, disk)
  | url :: urls, fetches, disk, domains =>
    match sourceContent cacheDir (fetches 0) disk url with
    | (.error err, disk) => (.error err, disk)
    | (.ok content, disk) =>
      buildLoop cacheDir urls (fun i => fetches (i + 1)) disk
        (parseUpstreamBlocklistContent content domains)

def buildBlocklistFromSources (urls : List Bytes) (cacheDir : Bytes) (dir : DirEnv)
    (fetches : Nat → FetchEnv) (disk : Disk) : Except Bytes (Finset Bytes) × Disk :=
  if urls.isEmpty then (.error (ascii "no upstream urls configured"), disk)
  else if !ensureDir dir then (.error (ascii "unable to create cache dir: " ++ cacheDir), disk)
  else buildLoop cacheDir urls fetches disk ∅

/-! ## `UpdateOnce` -/

/-- The text of `WriteBlocklistToml`; a `std::set` is in order. -/
def renderBlocklist (domains : Finset Bytes) : Bytes :=
  ascii "domains = [\n" ++
    (domains.sort (· ≤ ·)).flatMap (fun d => ascii "  \"" ++ d ++ ascii "\",\n") ++ ascii "]\n"

def writeBlocklistToml (disk : Disk) (path : Bytes) (domains : Finset Bytes)
    (tmpOpens renames : Bool) : Except Bytes Unit × Disk :=
  let tmpPath := path ++ ascii ".tmp"
  match writeFile disk tmpPath (renderBlocklist domains) tmpOpens with
  | (false, disk) => (.error (ascii "unable to write file: " ++ tmpPath), disk)
  | (true, disk) =>
    if renames then (.ok (), rename disk tmpPath path)
    else (.error (ascii "rename failed for blocklist"), unlink disk tmpPath)

/-- The fields of the updater, of its configuration those that a call reads. -/
structure UpstreamBlocklistUpdater where
  urls : List Bytes
  cacheDir : Bytes
  customBlocklistPath : Bytes
  outputPath : Bytes
  deriving DecidableEq, Repr

/-- Everything a call of `UpdateOnce` does not control; `customFile` is what the custom list holds
when it is opened. -/
structure UpdateEnv where
  cacheDir : DirEnv
  cacheDirAgain : DirEnv
  fetches : Nat → FetchEnv
  customFile : Option Bytes
  tmpOpens : Bool
  renames : Bool

structure UpdaterState where
  disk : Disk
  blocklist : Option Blocklist

namespace UpstreamBlocklistUpdater

variable (u : UpstreamBlocklistUpdater)

def customDomains (env : UpdateEnv) : Except Bytes (Finset Bytes) :=
  if u.customBlocklistPath.isEmpty then .ok ∅
  else loadBlocklist u.customBlocklistPath env.customFile

def updateOnce (s : UpdaterState) (env : UpdateEnv) : Bool × UpdaterState :=
  if !ensureDir env.cacheDir then (false, s)
  else
    match buildBlocklistFromSources u.urls u.cacheDir env.cacheDirAgain env.fetches s.disk with
    | (.error _, disk) => (false, { s with disk })
    | (.ok domains, disk) =>
      match u.customDomains env with
      | .error _ => (false, { s with disk })
      | .ok customDomains =>
        let domains := domains ∪ customDomains
        match writeBlocklistToml disk u.outputPath domains env.tmpOpens env.renames with
        | (.error _, disk) => (false, { s with disk })
        | (.ok _, disk) =>
          (true, { disk, blocklist := s.blocklist.map (·.setDomains domains) })

end UpstreamBlocklistUpdater

end Gravastar
