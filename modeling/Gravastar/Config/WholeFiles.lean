import Gravastar.Config.Numbers

/-!
# Whole configuration files

What the loaders of settings make of a file, without the order of the lines: a
setting that is not taken stops them with its own error, a field with one value
is the last value of its key, and a list has the items of all its lines.
-/

namespace Gravastar

/-- The last value that a file gives a key. -/
def lastValue (pairs : List (Bytes × Bytes)) (key : String) : Option Bytes :=
  (Settings.values (ascii key) pairs).getLast?

/-- The items of all values that a file gives a key. -/
def allItems (pairs : List (Bytes × Bytes)) (key : String) : List Bytes :=
  (Settings.values (ascii key) pairs).flatMap fun value => (parseStringArray value).getD []

/-- The error for a setting among these keys, each with what it takes; it names the key. -/
def refusalBy (accepts : List (String × (Bytes → Bool))) (pair : Bytes × Bytes) : Option Bytes :=
  (accepts.find? fun entry => pair.1 = ascii entry.1).bind fun entry =>
    if entry.2 pair.2 then none else some (ascii ("invalid " ++ entry.1))

/-- A setting is refused, whatever is loaded by then, by what its value is parsed to. -/
theorem elim_eq_error_iff {ε σ β : Type} {parsed : Option β} {put : β → σ} {e e' : ε} :
    (parsed.elim (.error e) fun v => .ok (put v) : Except ε σ) = .error e' ↔
      (if parsed.isSome then none else some e) = some e' := by
  cases parsed <;> simp

/-! ## `LoadMainConfig` -/

namespace MainConfig

/-- A port in the range of `unsigned short`. -/
def parsePort (value : Bytes) : Option UInt16 :=
  (parseInteger value).bind fun v => if v > 65535 then none else some v.toUInt16

def parseLogLevel (value : Bytes) : Option Bytes :=
  (parseQuotedString value).bind fun v =>
    if isValidLogLevel (toLower v) then some (toLower v) else none

/-- The keys, and whether a value is taken for them. -/
def accepts : List (String × (Bytes → Bool)) :=
  [("listen_addr", fun v => (parseQuotedString v).isSome),
    ("listen_port", fun v => (parsePort v).isSome),
    ("cache_size_mb", fun v => (parseInteger v).isSome),
    ("cache_ttl_sec", fun v => (parseInteger v).isSome),
    ("dot_verify", fun v => (parseBool v).isSome),
    ("rebind_protection", fun v => (parseBool v).isSome),
    ("log_level", fun v => (parseLogLevel v).isSome),
    ("blocklist_file", fun v => (parseQuotedString v).isSome),
    ("local_records_file", fun v => (parseQuotedString v).isSome),
    ("upstreams_file", fun v => (parseQuotedString v).isSome)]

/-- The configuration with these values for the keys, and the defaults for the others. -/
def ofValues (value : String → Option Bytes) : MainConfig where
  listenAddr := ((value "listen_addr").bind parseQuotedString).getD (ascii "0.0.0.0")
  listenPort := ((value "listen_port").bind parsePort).getD 53
  cacheSizeBytes :=
    ((value "cache_size_mb").bind fun v => (parseInteger v).map (· * 1024 * 1024)).getD
      (100 * 1024 * 1024)
  cacheTtlSec := ((value "cache_ttl_sec").bind fun v => (parseInteger v).map (·.toUInt32)).getD 120
  dotVerify := ((value "dot_verify").bind parseBool).getD true
  rebindProtection := ((value "rebind_protection").bind parseBool).getD true
  logLevel := ((value "log_level").bind parseLogLevel).getD (ascii "debug")
  blocklistFile := ((value "blocklist_file").bind parseQuotedString).getD (ascii "blocklist.toml")
  localRecordsFile :=
    ((value "local_records_file").bind parseQuotedString).getD (ascii "local_records.toml")
  upstreamsFile := ((value "upstreams_file").bind parseQuotedString).getD (ascii "upstreams.toml")

/-! Each key on its own. -/

section
variable (out : MainConfig) (value : Bytes)

theorem set_listenAddr : set out (ascii "listen_addr", value) =
    (parseQuotedString value).elim (.error (invalid "listen_addr"))
      fun v => .ok { out with listenAddr := v } := by
  cases hvalue : parseQuotedString value <;> simp +decide [set, hvalue]

theorem set_listenPort : set out (ascii "listen_port", value) =
    (parsePort value).elim (.error (invalid "listen_port"))
      fun v => .ok { out with listenPort := v } := by
  cases hvalue : parseInteger value with
  | none => simp +decide [set, parsePort, hvalue]
  | some v =>
    by_cases hport : v > 65535 <;> simp +decide [set, parsePort, hvalue, hport]

theorem set_dotVerify : set out (ascii "dot_verify", value) =
    (parseBool value).elim (.error (invalid "dot_verify"))
      fun v => .ok { out with dotVerify := v } := by
  cases hvalue : parseBool value <;> simp +decide [set, hvalue]

theorem set_rebindProtection : set out (ascii "rebind_protection", value) =
    (parseBool value).elim (.error (invalid "rebind_protection"))
      fun v => .ok { out with rebindProtection := v } := by
  cases hvalue : parseBool value <;> simp +decide [set, hvalue]

theorem set_logLevel : set out (ascii "log_level", value) =
    (parseLogLevel value).elim (.error (invalid "log_level"))
      fun v => .ok { out with logLevel := v } := by
  cases hvalue : parseQuotedString value with
  | none => simp +decide [set, parseLogLevel, hvalue]
  | some v =>
    by_cases hlevel : isValidLogLevel (toLower v) = true <;>
      simp +decide [set, parseLogLevel, hvalue, hlevel]

theorem set_blocklistFile : set out (ascii "blocklist_file", value) =
    (parseQuotedString value).elim (.error (invalid "blocklist_file"))
      fun v => .ok { out with blocklistFile := v } := by
  cases hvalue : parseQuotedString value <;> simp +decide [set, hvalue]

theorem set_localRecordsFile : set out (ascii "local_records_file", value) =
    (parseQuotedString value).elim (.error (invalid "local_records_file"))
      fun v => .ok { out with localRecordsFile := v } := by
  cases hvalue : parseQuotedString value <;> simp +decide [set, hvalue]

theorem set_upstreamsFile : set out (ascii "upstreams_file", value) =
    (parseQuotedString value).elim (.error (invalid "upstreams_file"))
      fun v => .ok { out with upstreamsFile := v } := by
  cases hvalue : parseQuotedString value <;> simp +decide [set, hvalue]

end

theorem set_eq_error_iff (out : MainConfig) (pair : Bytes × Bytes) (e : Bytes) :
    set out pair = .error e ↔ refusalBy accepts pair = some e := by
  obtain ⟨key, value⟩ := pair
  by_cases h1 : key = ascii "listen_addr"
  · subst h1
    rw [set_listenAddr, elim_eq_error_iff]
    rfl
  by_cases h2 : key = ascii "listen_port"
  · subst h2
    rw [set_listenPort, elim_eq_error_iff]
    rfl
  by_cases h3 : key = ascii "cache_size_mb"
  · subst h3
    rw [set_cacheSizeMb, elim_eq_error_iff]
    rfl
  by_cases h4 : key = ascii "cache_ttl_sec"
  · subst h4
    rw [set_cacheTtlSec, elim_eq_error_iff]
    rfl
  by_cases h5 : key = ascii "dot_verify"
  · subst h5
    rw [set_dotVerify, elim_eq_error_iff]
    rfl
  by_cases h6 : key = ascii "rebind_protection"
  · subst h6
    rw [set_rebindProtection, elim_eq_error_iff]
    rfl
  by_cases h7 : key = ascii "log_level"
  · subst h7
    rw [set_logLevel, elim_eq_error_iff]
    rfl
  by_cases h8 : key = ascii "blocklist_file"
  · subst h8
    rw [set_blocklistFile, elim_eq_error_iff]
    rfl
  by_cases h9 : key = ascii "local_records_file"
  · subst h9
    rw [set_localRecordsFile, elim_eq_error_iff]
    rfl
  by_cases h10 : key = ascii "upstreams_file"
  · subst h10
    rw [set_upstreamsFile, elim_eq_error_iff]
    rfl
  · simp [set, refusalBy, accepts, h1, h2, h3, h4, h5, h6, h7, h8, h9, h10]

/-! The fields belong to their keys. -/

theorem field_listenAddr : Settings.Field set (ascii "listen_addr") parseQuotedString listenAddr :=
  .of_value set_listenAddr (fun out v => rfl) (by grind [set])

theorem field_listenPort : Settings.Field set (ascii "listen_port") parsePort listenPort :=
  .of_value set_listenPort (fun out v => rfl) (by grind [set])

theorem field_dotVerify : Settings.Field set (ascii "dot_verify") parseBool dotVerify :=
  .of_value set_dotVerify (fun out v => rfl) (by grind [set])

theorem field_rebindProtection : Settings.Field set (ascii "rebind_protection")
    parseBool rebindProtection :=
  .of_value set_rebindProtection (fun out v => rfl) (by grind [set])

theorem field_logLevel : Settings.Field set (ascii "log_level") parseLogLevel logLevel :=
  .of_value set_logLevel (fun out v => rfl) (by grind [set])

theorem field_blocklistFile : Settings.Field set (ascii "blocklist_file")
    parseQuotedString blocklistFile :=
  .of_value set_blocklistFile (fun out v => rfl) (by grind [set])

theorem field_localRecordsFile : Settings.Field set (ascii "local_records_file")
    parseQuotedString localRecordsFile :=
  .of_value set_localRecordsFile (fun out v => rfl) (by grind [set])

theorem field_upstreamsFile : Settings.Field set (ascii "upstreams_file")
    parseQuotedString upstreamsFile :=
  .of_value set_upstreamsFile (fun out v => rfl) (by grind [set])

theorem run_eq_ofValues {out : MainConfig} {pairs : List (Bytes × Bytes)}
    (hrun : Settings.run set {} pairs = .ok out) : out = ofValues (lastValue pairs) := by
  unfold ofValues lastValue
  rw [← field_listenAddr.get_eq_getD hrun, ← field_listenPort.get_eq_getD hrun,
    ← field_cacheSizeBytes.get_eq_getD hrun, ← field_cacheTtlSec.get_eq_getD hrun,
    ← field_dotVerify.get_eq_getD hrun, ← field_rebindProtection.get_eq_getD hrun,
    ← field_logLevel.get_eq_getD hrun, ← field_blocklistFile.get_eq_getD hrun,
    ← field_localRecordsFile.get_eq_getD hrun, ← field_upstreamsFile.get_eq_getD hrun]

end MainConfig

/-- What `LoadMainConfig` makes of a file: the first setting that is not taken is reported by its
key, wherever the lines that are taken stand; otherwise each field is the last value of its key, or
its default. -/
theorem loadMainConfig_decodes (path content : Bytes) :
    loadMainConfig path (some content) =
      let pairs := MainConfig.settings (getLines content)
      match pairs.findSome? (refusalBy MainConfig.accepts) with
      | some e => .error e
      | none => .ok (MainConfig.ofValues (lastValue pairs)) := by
  rw [loadMainConfig_eq_run, Except.map_id, id]
  dsimp only
  generalize MainConfig.settings (getLines content) = pairs
  cases hrefusal : pairs.findSome? (refusalBy MainConfig.accepts) with
  | some e => exact (Settings.run_eq_error_iff MainConfig.set_eq_error_iff).mpr hrefusal
  | none =>
    obtain ⟨out, hrun⟩ := Settings.exists_run_eq_ok MainConfig.set_eq_error_iff {} hrefusal
    rw [hrun, ← MainConfig.run_eq_ofValues hrun]

/-! ## `LoadUpstreamBlocklistConfig` -/

namespace UpstreamBlocklistConfig

def accepts : List (String × (Bytes → Bool)) :=
  [("update_interval_sec", fun v => (parseInteger v).isSome),
    ("urls", fun v => (parseStringArray v).isSome),
    ("cache_dir", fun v => (parseQuotedString v).isSome)]

/-- The configuration that these settings give. -/
def ofSettings (pairs : List (Bytes × Bytes)) : UpstreamBlocklistConfig where
  urls := allItems pairs "urls"
  updateIntervalSec :=
    ((lastValue pairs "update_interval_sec").bind fun v => (parseInteger v).map (·.toUInt32)).getD
      3600
  cacheDir := ((lastValue pairs "cache_dir").bind parseQuotedString).getD (ascii "/var/gravastar")

section
variable (out : UpstreamBlocklistConfig) (value : Bytes)

theorem set_urls : set out (ascii "urls", value) =
    (parseStringArray value).elim (.error (ascii "invalid urls"))
      fun items => .ok { out with urls := out.urls ++ items } := by
  cases hvalue : parseStringArray value <;> simp +decide [set, hvalue]

theorem set_cacheDir : set out (ascii "cache_dir", value) =
    (parseQuotedString value).elim (.error (ascii "invalid cache_dir"))
      fun v => .ok { out with cacheDir := v } := by
  cases hvalue : parseQuotedString value <;> simp +decide [set, hvalue]

end

theorem set_eq_error_iff (out : UpstreamBlocklistConfig) (pair : Bytes × Bytes) (e : Bytes) :
    set out pair = .error e ↔ refusalBy accepts pair = some e := by
  obtain ⟨key, value⟩ := pair
  by_cases h1 : key = ascii "update_interval_sec"
  · subst h1
    rw [set_updateIntervalSec, elim_eq_error_iff]
    rfl
  by_cases h2 : key = ascii "urls"
  · subst h2
    rw [set_urls, elim_eq_error_iff]
    rfl
  by_cases h3 : key = ascii "cache_dir"
  · subst h3
    rw [set_cacheDir, elim_eq_error_iff]
    rfl
  · simp [set, refusalBy, accepts, h1, h2, h3]

theorem field_cacheDir : Settings.Field set (ascii "cache_dir") parseQuotedString cacheDir :=
  .of_value set_cacheDir (fun out v => rfl) (by grind [set])

theorem collects_urls : Settings.Collects set (ascii "urls") parseStringArray urls :=
  .of_parse set_urls (fun out items => rfl) (by grind [set])

theorem run_eq_ofSettings {out : UpstreamBlocklistConfig} {pairs : List (Bytes × Bytes)}
    (hrun : Settings.run set ⟨[], 3600, ascii "/var/gravastar"⟩ pairs = .ok out) :
    out = ofSettings pairs := by
  have hurls : out.urls = allItems pairs "urls" := collects_urls.get_of_run hrun
  unfold ofSettings lastValue
  rw [← hurls, ← field_updateIntervalSec.get_eq_getD hrun, ← field_cacheDir.get_eq_getD hrun]

end UpstreamBlocklistConfig

/-! ## `LoadUpstreams` -/

namespace UpstreamServers

def set (out : UpstreamServers) : Bytes × Bytes → Except Bytes UpstreamServers
  | (key, value) =>
    if key = ascii "udp_servers" then
      match parseStringArray value with
      | none => .error (ascii "invalid udp_servers")
      | some items => .ok { out with udp := out.udp ++ items }
    else if key = ascii "dot_servers" then
      match parseStringArray value with
      | none => .error (ascii "invalid dot_servers")
      | some items => .ok { out with dot := out.dot ++ items }
    else .ok out

/-- The keys and values of the lines, with those that an array goes on over. -/
def settings : List Bytes → List (Bytes × Bytes)
  | [] => []
  | line :: rest =>
    match keyValue (trim (stripComment line)) with
    | none => settings rest
    | some (key, value) =>
      if key = ascii "udp_servers" ∨ key = ascii "dot_servers" then
        (key, (joinArray value rest).1) :: settings (joinArray value rest).2
      else (key, value) :: settings rest
termination_by rest => rest.length
decreasing_by
  all_goals
    first
    | exact Nat.lt_succ_self _
    | exact Nat.lt_succ_of_le (length_joinArray_le _ _)

def accepts : List (String × (Bytes → Bool)) :=
  [("udp_servers", fun v => (parseStringArray v).isSome),
    ("dot_servers", fun v => (parseStringArray v).isSome)]

section
variable {line key value : Bytes} (rest : List Bytes)

theorem settings_skip (h : keyValue (trim (stripComment line)) = none) :
    settings (line :: rest) = settings rest := by
  rw [settings, h]

theorem settings_plain (h : keyValue (trim (stripComment line)) = some (key, value))
    (hkey : ¬ (key = ascii "udp_servers" ∨ key = ascii "dot_servers")) :
    settings (line :: rest) = (key, value) :: settings rest := by
  rw [settings, h]
  exact if_neg hkey

theorem settings_array (h : keyValue (trim (stripComment line)) = some (key, value))
    (hkey : key = ascii "udp_servers" ∨ key = ascii "dot_servers") :
    settings (line :: rest) =
      (key, (joinArray value rest).1) :: settings (joinArray value rest).2 := by
  rw [settings, h]
  exact if_pos hkey

end

theorem lines_eq_run (out : UpstreamServers) (rest : List Bytes) :
    lines out rest = Settings.run set out (settings rest) := by
  fun_induction lines out rest with
  | case1 out =>
    rw [settings]
    rfl
  | case2 out line rest text hempty ih =>
    have hnil : trim (stripComment line) = [] := List.isEmpty_iff.mp hempty
    have hnone : keyValue (trim (stripComment line)) = none := by
      rw [hnil]
      rfl
    rw [settings_skip rest hnone, ih]
  | case3 out line rest text hempty hkey ih => rw [settings_skip rest hkey, ih]
  | case4 out line rest text hempty value hvalue hkey =>
    rw [settings_array rest hkey (.inl rfl), Settings.run_cons_error]
    simp [set, hvalue]
  | case5 out line rest text hempty value items hvalue hkey ih =>
    rw [settings_array rest hkey (.inl rfl), ih, Settings.run_cons_ok]
    simp [set, hvalue]
  | case6 out line rest text hempty value hvalue hkey hne =>
    rw [settings_array rest hkey (.inr rfl), Settings.run_cons_error]
    simp [set, hvalue, hne]
  | case7 out line rest text hempty value items hvalue hkey hne ih =>
    rw [settings_array rest hkey (.inr rfl), ih, Settings.run_cons_ok]
    simp [set, hvalue, hne]
  | case8 out line rest text hempty key value hkey hudp hdot ih =>
    rw [settings_plain rest hkey (not_or.mpr ⟨hudp, hdot⟩), ih, Settings.run_cons_ok]
    simp [set, hudp, hdot]

section
variable (out : UpstreamServers) (value : Bytes)

theorem set_udp : set out (ascii "udp_servers", value) =
    (parseStringArray value).elim (.error (ascii "invalid udp_servers"))
      fun items => .ok { out with udp := out.udp ++ items } := by
  cases hvalue : parseStringArray value <;> simp +decide [set, hvalue]

theorem set_dot : set out (ascii "dot_servers", value) =
    (parseStringArray value).elim (.error (ascii "invalid dot_servers"))
      fun items => .ok { out with dot := out.dot ++ items } := by
  cases hvalue : parseStringArray value <;> simp +decide [set, hvalue]

end

theorem set_eq_error_iff (out : UpstreamServers) (pair : Bytes × Bytes) (e : Bytes) :
    set out pair = .error e ↔ refusalBy accepts pair = some e := by
  obtain ⟨key, value⟩ := pair
  by_cases h1 : key = ascii "udp_servers"
  · subst h1
    rw [set_udp, elim_eq_error_iff]
    rfl
  by_cases h2 : key = ascii "dot_servers"
  · subst h2
    rw [set_dot, elim_eq_error_iff]
    rfl
  · simp [set, refusalBy, accepts, h1, h2]

theorem collects_udp : Settings.Collects set (ascii "udp_servers") parseStringArray udp :=
  .of_parse set_udp (fun out items => rfl) (by grind [set])

theorem collects_dot : Settings.Collects set (ascii "dot_servers") parseStringArray dot :=
  .of_parse set_dot (fun out items => rfl) (by grind [set])

end UpstreamServers

/-- What the loaders of lists make of a file: the first setting that is not taken is reported by
its key; otherwise a list has the items of all settings with its key, in their order, and a field
with one value is the last one, except that an interval of 0 is the default again. -/
theorem list_loaders_decode (path content : Bytes) :
    (loadUpstreamBlocklistConfig path (some content) =
      let pairs := UpstreamBlocklistConfig.settings (getLines content)
      match pairs.findSome? (refusalBy UpstreamBlocklistConfig.accepts) with
      | some e => .error e
      | none => .ok (UpstreamBlocklistConfig.ofSettings pairs).withInterval) ∧
    loadUpstreams path (some content) =
      let pairs := UpstreamServers.settings (getLines content)
      match pairs.findSome? (refusalBy UpstreamServers.accepts) with
      | some e => .error e
      | none => .ok ⟨allItems pairs "udp_servers", allItems pairs "dot_servers"⟩ := by
  constructor
  · rw [loadUpstreamBlocklistConfig_eq_run]
    dsimp only
    generalize UpstreamBlocklistConfig.settings (getLines content) = pairs
    cases hrefusal : pairs.findSome? (refusalBy UpstreamBlocklistConfig.accepts) with
    | some e =>
      rw [(Settings.run_eq_error_iff UpstreamBlocklistConfig.set_eq_error_iff).mpr hrefusal]
      rfl
    | none =>
      obtain ⟨out, hrun⟩ := Settings.exists_run_eq_ok UpstreamBlocklistConfig.set_eq_error_iff
        ⟨[], 3600, ascii "/var/gravastar"⟩ hrefusal
      rw [hrun, ← UpstreamBlocklistConfig.run_eq_ofSettings hrun]
      rfl
  · have heq : loadUpstreams path (some content) =
        Settings.run UpstreamServers.set ⟨[], []⟩ (UpstreamServers.settings (getLines content)) :=
      UpstreamServers.lines_eq_run ..
    rw [heq]
    dsimp only
    generalize UpstreamServers.settings (getLines content) = pairs
    cases hrefusal : pairs.findSome? (refusalBy UpstreamServers.accepts) with
    | some e => exact (Settings.run_eq_error_iff UpstreamServers.set_eq_error_iff).mpr hrefusal
    | none =>
      obtain ⟨out, hrun⟩ := Settings.exists_run_eq_ok UpstreamServers.set_eq_error_iff ⟨[], []⟩
        hrefusal
      have hudp : out.udp = allItems pairs "udp_servers" :=
        UpstreamServers.collects_udp.get_of_run hrun
      have hdot : out.dot = allItems pairs "dot_servers" :=
        UpstreamServers.collects_dot.get_of_run hrun
      rw [hrun, ← hudp, ← hdot]

end Gravastar
