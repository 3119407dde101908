import Gravastar.Config.BlocklistFiles
import Gravastar.Lib.Settings
import Gravastar.UpstreamBlocklist

/-!
# The main file of the configuration

`LoadMainConfig`, and the two loaders of settings with one value as runs over
the keys and values that their lines hold.
-/

namespace Gravastar

/-! ## `LoadMainConfig` -/

def isValidLogLevel (level : Bytes) : Bool :=
  level = ascii "debug" ∨ level = ascii "info" ∨ level = ascii "warn" ∨ level = ascii "error"

def parseBool (raw : Bytes) : Option Bool :=
  let v := toLower (trim raw)
  if v = ascii "true" then some true
  else if v = ascii "false" then some false
  else none

/-- `ServerConfig` as the main file gives it, with the defaults. -/
structure MainConfig where
  listenAddr : Bytes := ascii "0.0.0.0"
  listenPort : UInt16 := 53
  cacheSizeBytes : UInt64 := 100 * 1024 * 1024
  cacheTtlSec : UInt32 := 120
  dotVerify : Bool := true
  rebindProtection : Bool := true
  logLevel : Bytes := ascii "debug"
  blocklistFile : Bytes := ascii "blocklist.toml"
  localRecordsFile : Bytes := ascii "local_records.toml"
  upstreamsFile : Bytes := ascii "upstreams.toml"
  deriving DecidableEq, Repr

namespace MainConfig

/-- `invalid ` and the key. -/
def invalid (key : String) : Bytes := ascii ("invalid " ++ key)

/-- Keys that are not known are passed over. -/
def set (out : MainConfig) : Bytes × Bytes → Except Bytes MainConfig
  | (key, value) =>
    if key = ascii "listen_addr" then
      match parseQuotedString value with
      | none => .error (invalid "listen_addr")
      | some v => .ok { out with listenAddr := v }
    else if key = ascii "listen_port" then
      match parseInteger value with
      | none => .error (invalid "listen_port")
      | some v =>
        if v > 65535 then .error (invalid "listen_port")
        else .ok { out with listenPort := v.toUInt16 }
    else if key = ascii "cache_size_mb" then
      match parseInteger value with
      | none => .error (invalid "cache_size_mb")
      | some v => .ok { out with cacheSizeBytes := v * 1024 * 1024 }
    else if key = ascii "cache_ttl_sec" then
      match parseInteger value with
      | none => .error (invalid "cache_ttl_sec")
      | some v => .ok { out with cacheTtlSec := v.toUInt32 }
    else if key = ascii "dot_verify" then
      match parseBool value with
      | none => .error (invalid "dot_verify")
      | some v => .ok { out with dotVerify := v }
    else if key = ascii "rebind_protection" then
      match parseBool value with
      | none => .error (invalid "rebind_protection")
      | some v => .ok { out with rebindProtection := v }
    else if key = ascii "log_level" then
      match parseQuotedString value with
      | none => .error (invalid "log_level")
      | some v =>
        if isValidLogLevel (toLower v) then .ok { out with logLevel := toLower v }
        else .error (invalid "log_level")
    else if key = ascii "blocklist_file" then
      match parseQuotedString value with
      | none => .error (invalid "blocklist_file")
      | some v => .ok { out with blocklistFile := v }
    else if key = ascii "local_records_file" then
      match parseQuotedString value with
      | none => .error (invalid "local_records_file")
      | some v => .ok { out with localRecordsFile := v }
    else if key = ascii "upstreams_file" then
      match parseQuotedString value with
      | none => .error (invalid "upstreams_file")
      | some v => .ok { out with upstreamsFile := v }
    else .ok out

def lines (out : MainConfig) : List Bytes → Except Bytes MainConfig
  | [] => .ok out
  | line :: rest => do
    let line := trim (stripComment line)
    if line.isEmpty then lines out rest
    else
      match keyValue line with
      | none => lines out rest
      | some (key, value) =>
        let out ← set out (key, value)
        lines out rest

end MainConfig

def loadMainConfig (path : Bytes) (file : Option Bytes) : Except Bytes MainConfig := do
  let lines ← readLines path file
  MainConfig.lines {} lines

/-! ## The settings of a file -/

namespace MainConfig

/-- The keys and values of the lines. -/
def settings (lines : List Bytes) : List (Bytes × Bytes) :=
  lines.filterMap fun line => keyValue (trim (stripComment line))

theorem lines_eq_run (out : MainConfig) (rest : List Bytes) :
    lines out rest = Settings.run set out (settings rest) := by
  induction rest generalizing out with
  | nil => rfl
  | cons line rest ih =>
    rw [lines, settings, List.filterMap_cons, ← settings]
    cases hline : trim (stripComment line) with
    | nil => exact ih out
    | cons b text =>
      cases hkey : keyValue (b :: text) with
      | none => exact ih out
      | some pair =>
        cases hset : set out pair with
        | error e =>
          rw [Settings.run_cons_error hset]
          exact congrArg (· >>= fun out => lines out rest) hset
        | ok out' =>
          rw [Settings.run_cons_ok hset, ← ih out']
          exact congrArg (· >>= fun out => lines out rest) hset

theorem set_cacheSizeMb (out : MainConfig) (value : Bytes) :
    set out (ascii "cache_size_mb", value) =
      (parseInteger value).elim (.error (invalid "cache_size_mb"))
        fun v => .ok { out with cacheSizeBytes := v * 1024 * 1024 } := by
  cases hvalue : parseInteger value <;> simp +decide [set, hvalue]

theorem set_cacheTtlSec (out : MainConfig) (value : Bytes) :
    set out (ascii "cache_ttl_sec", value) =
      (parseInteger value).elim (.error (invalid "cache_ttl_sec"))
        fun v => .ok { out with cacheTtlSec := v.toUInt32 } := by
  cases hvalue : parseInteger value <;> simp +decide [set, hvalue]

/-- The size of the cache belongs to its key. -/
theorem field_cacheSizeBytes : Settings.Field set (ascii "cache_size_mb")
    (fun value => (parseInteger value).map (· * 1024 * 1024)) cacheSizeBytes :=
  .of_parse set_cacheSizeMb (fun out v => rfl) (by grind [set])

theorem field_cacheTtlSec : Settings.Field set (ascii "cache_ttl_sec")
    (fun value => (parseInteger value).map (·.toUInt32)) cacheTtlSec :=
  .of_parse set_cacheTtlSec (fun out v => rfl) (by grind [set])

end MainConfig

namespace UpstreamBlocklistConfig

def set (out : UpstreamBlocklistConfig) : Bytes × Bytes → Except Bytes UpstreamBlocklistConfig
  | (key, value) =>
    if key = ascii "update_interval_sec" then
      match parseInteger value with
      | none => .error (ascii "invalid update_interval_sec")
      | some v => .ok { out with updateIntervalSec := v.toUInt32 }
    else if key = ascii "urls" then
      match parseStringArray value with
      | none => .error (ascii "invalid urls")
      | some items => .ok { out with urls := out.urls ++ items }
    else if key = ascii "cache_dir" then
      match parseQuotedString value with
      | none => .error (ascii "invalid cache_dir")
      | some v => .ok { out with cacheDir := v }
    else .ok out

/-- The keys and values of the lines. The lines that a list of addresses goes on over are part of
its value. -/
def settings : List Bytes → List (Bytes × Bytes)
  | [] => []
  | line :: rest =>
    match keyValue (trim (stripComment line)) with
    | none => settings rest
    | some (key, value) =>
      if key = ascii "urls" then
        (key, (joinArray value rest).1) :: settings (joinArray value rest).2
      else (key, value) :: settings rest
termination_by rest => rest.length
decreasing_by
  all_goals
    first
    | exact Nat.lt_succ_self _
    | exact Nat.lt_succ_of_le (length_joinArray_le _ _)

section
variable {line key value : Bytes} (rest : List Bytes)

theorem settings_skip (h : keyValue (trim (stripComment line)) = none) :
    settings (line :: rest) = settings rest := by
  rw [settings, h]

theorem settings_plain (h : keyValue (trim (stripComment line)) = some (key, value))
    (hkey : key ≠ ascii "urls") : settings (line :: rest) = (key, value) :: settings rest := by
  rw [settings, h]
  exact if_neg hkey

theorem settings_urls (h : keyValue (trim (stripComment line)) = some (ascii "urls", value)) :
    settings (line :: rest) =
      (ascii "urls", (joinArray value rest).1) :: settings (joinArray value rest).2 := by
  rw [settings, h]
  exact if_pos rfl

end

theorem lines_eq_run (out : UpstreamBlocklistConfig) (rest : List Bytes) :
    lines out rest = Settings.run set out (settings rest) := by
  fun_induction lines out rest with
  | case1 out =>
    rw [settings]
    rfl
  | case2 out line rest text hempty ih =>
    have hnil : trim (stripComment line) = [] := List.isEmpty_iff.mp hempty
    have hnone : keyValue (trim (stripComment line)) = none := by
      rw [hnil]
      rfl
    rw [settings_skip rest hnone, ih]
  | case3 out line rest text hempty hkey ih => rw [settings_skip rest hkey, ih]
  | case4 out line rest text hempty value hvalue hkey =>
    rw [settings_plain rest hkey (by decide), Settings.run_cons_error]
    simp [set, hvalue]
  | case5 out line rest text hempty value v hvalue hkey ih =>
    rw [settings_plain rest hkey (by decide), ih, Settings.run_cons_ok]
    simp [set, hvalue]
  | case6 out line rest text hempty value hvalue hkey hne =>
    rw [settings_urls rest hkey, Settings.run_cons_error]
    simp [set, hvalue, hne]
  | case7 out line rest text hempty value items hvalue hkey hne ih =>
    rw [settings_urls rest hkey, ih, Settings.run_cons_ok]
    simp [set, hvalue, hne]
  | case8 out line rest text hempty value hvalue hkey hne hurls =>
    rw [settings_plain rest hkey hurls, Settings.run_cons_error]
    simp [set, hvalue, hne, hurls]
  | case9 out line rest text hempty value v hvalue hkey hne hurls ih =>
    rw [settings_plain rest hkey hurls, ih, Settings.run_cons_ok]
    simp [set, hvalue, hne, hurls]
  | case10 out line rest text hempty key value hkey hne hurls hdir ih =>
    rw [settings_plain rest hkey hurls, ih, Settings.run_cons_ok]
    simp [set, hne, hurls, hdir]

theorem set_updateIntervalSec (out : UpstreamBlocklistConfig) (value : Bytes) :
    set out (ascii "update_interval_sec", value) =
      (parseInteger value).elim (.error (ascii "invalid update_interval_sec"))
        fun v => .ok { out with updateIntervalSec := v.toUInt32 } := by
  cases hvalue : parseInteger value <;> simp [set, hvalue]

theorem field_updateIntervalSec : Settings.Field set (ascii "update_interval_sec")
    (fun value => (parseInteger value).map (·.toUInt32)) updateIntervalSec :=
  .of_parse set_updateIntervalSec (fun out v => rfl) (by grind [set])

end UpstreamBlocklistConfig

end Gravastar
