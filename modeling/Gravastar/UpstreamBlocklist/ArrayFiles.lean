import Gravastar.Config.Arrays
import Gravastar.UpstreamBlocklist

/-!
# Files with arrays of strings

The two loaders that read arrays: the upstream servers, and the addresses of the
blocklists with the other settings of the updater. Both give back the items of
an array exactly in the layouts that the parser knows.
-/

namespace Gravastar

/-! ## Upstream servers -/

inductive ServerKind
  | udp
  | dot
  deriving DecidableEq

def ServerKind.key : ServerKind → Bytes
  | udp => ascii "udp_servers"
  | dot => ascii "dot_servers"

theorem ServerKind.plainKey (kind : ServerKind) : PlainKey kind.key := by
  cases kind <;> decide

/-- An array of servers with what stands above it. -/
structure ServerArray where
  above : List Remark
  server : ServerKind
  array : StringArray
  items_ne : array.items ≠ []

def ServerArray.lines (a : ServerArray) : List Bytes :=
  a.above.map Remark.text ++ a.array.lines a.server.key

def upstreamsFile (arrays : List ServerArray) (below : List Remark) : Bytes :=
  joinLines (arrays.flatMap ServerArray.lines ++ below.map Remark.text)

namespace UpstreamServers

variable (out : UpstreamServers)

def add (items : List Bytes) : ServerKind → UpstreamServers
  | .udp => { out with udp := out.udp ++ items }
  | .dot => { out with dot := out.dot ++ items }

theorem lines_remarks (above : List Remark) (rest : List Bytes) :
    out.lines (above.map Remark.text ++ rest) = out.lines rest := by
  induction above with
  | nil => rfl
  | cons r above ih =>
    rw [List.map_cons, List.cons_append, lines, trim_stripComment_remark]
    exact ih

/-- The loader on an array: the joined lines are parsed, and it goes on behind them. -/
theorem lines_array (kind : ServerKind) (a : StringArray) (rest : List Bytes) :
    out.lines (a.lines kind.key ++ rest) =
      match parseStringArray (joinArray a.value (a.more ++ rest)).1 with
      | none => .error (ascii "invalid " ++ kind.key)
      | some items => (out.add items kind).lines (joinArray a.value (a.more ++ rest)).2 := by
  obtain ⟨hempty, hkey⟩ :=
    keyLine_read kind.plainKey a.tight_value (a.notMem_value (.inl rfl)) a.first
  rw [StringArray.lines, List.cons_append, lines, hempty, hkey]
  cases kind with
  | udp | dot => rfl

/-- What the servers are after all arrays of a file. -/
def addAll (arrays : List ServerArray) : UpstreamServers :=
  arrays.foldl (fun out a => out.add a.array.items a.server) out

theorem lines_arrays {arrays : List ServerArray} (h : ∀ a ∈ arrays, a.array.ReadsBack)
    (rest : List Bytes) :
    out.lines (arrays.flatMap ServerArray.lines ++ rest) = (out.addAll arrays).lines rest := by
  induction arrays generalizing out with
  | nil => rfl
  | cons a arrays ih =>
    obtain ⟨v, hjoin, hparse⟩ := a.array.joinArray_of_readsBack a.items_ne
      (arrays.flatMap ServerArray.lines ++ rest) (h a List.mem_cons_self)
    rw [List.flatMap_cons, ServerArray.lines, List.append_assoc, List.append_assoc,
      lines_remarks, lines_array, hjoin, hparse]
    exact ih (out.add a.array.items a.server) fun b hb => h b (List.mem_cons_of_mem _ hb)

theorem lines_arrays_refused {arrays : List ServerArray} (h : ∃ a ∈ arrays, ¬ a.array.ReadsBack)
    (rest : List Bytes) :
    ∃ e, out.lines (arrays.flatMap ServerArray.lines ++ rest) = .error e := by
  induction arrays generalizing out with
  | nil => simp at h
  | cons a arrays ih =>
    rw [List.flatMap_cons, ServerArray.lines, List.append_assoc, List.append_assoc,
      lines_remarks, lines_array]
    by_cases ha : a.array.ReadsBack
    · obtain ⟨v, hjoin, hparse⟩ := a.array.joinArray_of_readsBack a.items_ne
        (arrays.flatMap ServerArray.lines ++ rest) ha
      rw [hjoin, hparse]
      obtain ⟨b, hb, hrefused⟩ := h
      have hrest : b ∈ arrays := (List.mem_cons.mp hb).resolve_left fun heq => hrefused (heq ▸ ha)
      exact ih (out.add a.array.items a.server) ⟨b, hrest, hrefused⟩
    · rw [a.array.parse_of_not_readsBack a.items_ne _ ha]
      exact ⟨_, rfl⟩

theorem lines_below (below : List Remark) : out.lines (below.map Remark.text) = .ok out := by
  have hend : out.lines [] = .ok out := by rw [lines]
  simpa [hend] using out.lines_remarks below []

end UpstreamServers

theorem loadUpstreams_upstreamsFile (path : Bytes) (arrays : List ServerArray)
    (below : List Remark) :
    loadUpstreams path (some (upstreamsFile arrays below)) =
      UpstreamServers.lines ⟨[], []⟩
        (arrays.flatMap ServerArray.lines ++ below.map Remark.text) := by
  rw [loadUpstreams, readLines, upstreamsFile, getLines_joinLines]
  · rfl
  · intro line hline
    simp only [ServerArray.lines, List.mem_append, List.mem_flatMap, List.mem_map] at hline
    rcases hline with ⟨a, -, ⟨r, -, rfl⟩ | ha⟩ | ⟨r, -, rfl⟩
    · exact r.oneLine
    · exact a.array.newline_notMem_lines a.server.plainKey line ha
    · exact r.oneLine

/-- The items of all arrays of one kind. -/
def serversOf (kind : ServerKind) (arrays : List ServerArray) : List Bytes :=
  (arrays.filter (·.server = kind)).flatMap (·.array.items)

theorem UpstreamServers.addAll_eq (out : UpstreamServers) (arrays : List ServerArray) :
    out.addAll arrays =
      ⟨out.udp ++ serversOf .udp arrays, out.dot ++ serversOf .dot arrays⟩ := by
  induction arrays generalizing out with
  | nil => simp [addAll, serversOf]
  | cons a arrays ih =>
    have hadd : out.addAll (a :: arrays) = (out.add a.array.items a.server).addAll arrays := rfl
    rw [hadd, ih]
    cases hkind : a.server <;> simp [add, serversOf, hkind]

theorem loadUpstreams_eq_iff (path : Bytes) (arrays : List ServerArray) (below : List Remark) :
    loadUpstreams path (some (upstreamsFile arrays below)) =
        .ok ⟨serversOf .udp arrays, serversOf .dot arrays⟩ ↔
      ∀ a ∈ arrays, a.array.ReadsBack := by
  have hservers := UpstreamServers.addAll_eq ⟨[], []⟩ arrays
  rw [loadUpstreams_upstreamsFile]
  constructor
  · intro hload
    by_contra h
    obtain ⟨e, he⟩ := UpstreamServers.lines_arrays_refused ⟨[], []⟩ (by simpa using h)
      (below.map Remark.text)
    rw [he] at hload
    cases hload
  · intro h
    rw [UpstreamServers.lines_arrays _ h, UpstreamServers.lines_below, hservers]
    rfl

/-! ## Addresses of blocklists -/

/-- A line of the updater's configuration besides the addresses. -/
inductive ConfigSetting
  | blank (remark : Remark)
  | updateInterval (seconds : Nat) (remark : Remark)
  | cacheDir (path : Bytes) (plain : 35 ∉ path ∧ newline ∉ path) (remark : Remark)

namespace ConfigSetting

def line : ConfigSetting → Bytes
  | blank remark => remark.text
  | updateInterval seconds remark =>
    keyLine (ascii "update_interval_sec") (decimal seconds) ++ remark.text
  | cacheDir path _ remark => keyLine (ascii "cache_dir") (quoted path) ++ remark.text

def apply (out : UpstreamBlocklistConfig) : ConfigSetting → UpstreamBlocklistConfig
  | blank _ => out
  | updateInterval seconds _ =>
    { out with updateIntervalSec := (UInt64.ofNat (min seconds (2 ^ 64 - 1))).toUInt32 }
  | cacheDir path _ _ => { out with cacheDir := path }

theorem newline_notMem_line (s : ConfigSetting) : newline ∉ s.line := by
  cases s with
  | blank remark => exact remark.oneLine
  | updateInterval seconds remark =>
    rw [line, List.mem_append, not_or]
    have hdigits : newline ∉ decimal seconds := fun h =>
      absurd (isDigit_of_mem_decimal h) (by decide)
    exact ⟨notMem_keyLine (by decide) (.inr rfl) hdigits, remark.oneLine⟩
  | cacheDir path plain remark =>
    rw [line, List.mem_append, not_or]
    exact ⟨notMem_keyLine (by decide) (.inr rfl) (notMem_quoted (by decide) plain.2),
      remark.oneLine⟩

end ConfigSetting

/-- The configuration of the updater. -/
structure UpdaterFile where
  above : List ConfigSetting
  urls : StringArray
  below : List ConfigSetting
  urls_ne : urls.items ≠ []

def UpdaterFile.text (f : UpdaterFile) : Bytes :=
  joinLines (f.above.map ConfigSetting.line ++ f.urls.lines (ascii "urls") ++
    f.below.map ConfigSetting.line)

namespace UpstreamBlocklistConfig

variable (out : UpstreamBlocklistConfig)

theorem lines_setting (s : ConfigSetting) (rest : List Bytes) :
    out.lines (s.line :: rest) = (s.apply out).lines rest := by
  cases s with
  | blank remark =>
    rw [ConfigSetting.line, lines, trim_stripComment_remark]
    rfl
  | updateInterval seconds remark =>
    have hdigits : 35 ∉ decimal seconds := fun h =>
      absurd (isDigit_of_mem_decimal h) (by decide)
    obtain ⟨hempty, hkey⟩ := keyLine_read (show PlainKey (ascii "update_interval_sec") by decide)
      (tight_decimal seconds) hdigits remark
    rw [ConfigSetting.line, lines, hempty, hkey]
    dsimp only
    rw [if_neg Bool.false_ne_true, if_pos rfl, parseInteger_decimal]
    rfl
  | cacheDir path plain remark =>
    obtain ⟨hempty, hkey⟩ := keyLine_read (show PlainKey (ascii "cache_dir") by decide)
      (tight_quoted path) (notMem_quoted (by decide) plain.1) remark
    rw [ConfigSetting.line, lines, hempty, hkey]
    dsimp only
    rw [if_neg Bool.false_ne_true, if_neg (by decide), if_neg (by decide), if_pos rfl,
      parseQuotedString_quoted]
    rfl

theorem lines_settings (settings : List ConfigSetting) (rest : List Bytes) :
    out.lines (settings.map ConfigSetting.line ++ rest) =
      (settings.foldl (fun out s => s.apply out) out).lines rest := by
  induction settings generalizing out with
  | nil => rfl
  | cons s settings ih =>
    rw [List.map_cons, List.cons_append, lines_setting]
    exact ih (s.apply out)

theorem urls_settings (settings : List ConfigSetting) :
    (settings.foldl (fun out s => s.apply out) out).urls = out.urls := by
  induction settings generalizing out with
  | nil => rfl
  | cons s settings ih =>
    have hurls : (s.apply out).urls = out.urls := by cases s <;> rfl
    exact (ih (s.apply out)).trans hurls

theorem lines_urls (a : StringArray) (rest : List Bytes) :
    out.lines (a.lines (ascii "urls") ++ rest) =
      match parseStringArray (joinArray a.value (a.more ++ rest)).1 with
      | none => .error (ascii "invalid urls")
      | some items =>
        lines { out with urls := out.urls ++ items } (joinArray a.value (a.more ++ rest)).2 := by
  obtain ⟨hempty, hkey⟩ := keyLine_read (show PlainKey (ascii "urls") by decide) a.tight_value
    (a.notMem_value (.inl rfl)) a.first
  rw [StringArray.lines, List.cons_append, lines, hempty, hkey]
  rfl

theorem lines_below (below : List ConfigSetting) :
    out.lines (below.map ConfigSetting.line) =
      .ok (below.foldl (fun out s => s.apply out) out) := by
  have hend : ∀ out : UpstreamBlocklistConfig, out.lines [] = .ok out := fun out => by rw [lines]
  simpa [hend] using out.lines_settings below []

end UpstreamBlocklistConfig

theorem loadUpstreamBlocklistConfig_text (path : Bytes) (f : UpdaterFile) :
    loadUpstreamBlocklistConfig path (some f.text) =
      (UpstreamBlocklistConfig.lines ⟨[], 3600, ascii "/var/gravastar"⟩
        (f.above.map ConfigSetting.line ++ f.urls.lines (ascii "urls") ++
          f.below.map ConfigSetting.line) >>= fun out =>
        pure (if out.updateIntervalSec = 0 then { out with updateIntervalSec := 3600 }
          else out)) := by
  rw [loadUpstreamBlocklistConfig, readLines, UpdaterFile.text, getLines_joinLines]
  · rfl
  · intro line hline
    simp only [List.mem_append, List.mem_map] at hline
    rcases hline with (⟨s, -, rfl⟩ | hurls) | ⟨s, -, rfl⟩
    · exact s.newline_notMem_line
    · exact f.urls.newline_notMem_lines (by decide) line hurls
    · exact s.newline_notMem_line

theorem loadUpstreamBlocklistConfig_urls_iff (path : Bytes) (f : UpdaterFile) :
    (loadUpstreamBlocklistConfig path (some f.text)).map (·.urls) = .ok f.urls.items ↔
      f.urls.ReadsBack := by
  have hrun : ∀ out : UpstreamBlocklistConfig,
      out.lines (f.above.map ConfigSetting.line ++ f.urls.lines (ascii "urls") ++
        f.below.map ConfigSetting.line) =
      (f.above.foldl (fun out s => s.apply out) out).lines
        (f.urls.lines (ascii "urls") ++ f.below.map ConfigSetting.line) := by
    intro out
    rw [List.append_assoc, UpstreamBlocklistConfig.lines_settings]
  rw [loadUpstreamBlocklistConfig_text, hrun, UpstreamBlocklistConfig.lines_urls]
  constructor
  · intro hload
    by_contra h
    rw [f.urls.parse_of_not_readsBack f.urls_ne _ h] at hload
    cases hload
  · intro h
    obtain ⟨v, hjoin, hparse⟩ :=
      f.urls.joinArray_of_readsBack f.urls_ne (f.below.map ConfigSetting.line) h
    rw [hjoin, hparse]
    change Except.map _ (UpstreamBlocklistConfig.lines _ _ >>= _) = _
    rw [UpstreamBlocklistConfig.lines_below]
    have hurls : ∀ out : UpstreamBlocklistConfig,
        (if out.updateIntervalSec = 0 then { out with updateIntervalSec := 3600 } else out).urls =
          out.urls := by
      intro out
      split_ifs <;> rfl
    refine congrArg Except.ok ((hurls _).trans ?_)
    rw [UpstreamBlocklistConfig.urls_settings, UpstreamBlocklistConfig.urls_settings]
    rfl

/-- Arrays of servers and of addresses are read back exactly in the layouts that the parser
knows. -/
theorem string_arrays_read_back_iff (path : Bytes) (arrays : List ServerArray)
    (below : List Remark) (f : UpdaterFile) :
    (loadUpstreams path (some (upstreamsFile arrays below)) =
        .ok ⟨serversOf .udp arrays, serversOf .dot arrays⟩ ↔
      ∀ a ∈ arrays, a.array.ReadsBack) ∧
    ((loadUpstreamBlocklistConfig path (some f.text)).map (·.urls) = .ok f.urls.items ↔
      f.urls.ReadsBack) :=
  ⟨loadUpstreams_eq_iff path arrays below, loadUpstreamBlocklistConfig_urls_iff path f⟩

/-- The example of the documentation: each address on its own line, with a comma. -/
def documentedFile : UpdaterFile where
  above := [.updateInterval 3600 .empty, .cacheDir (ascii "/var/gravastar") (by decide) .empty]
  urls := .perLine
    [⟨⟨ascii "https://example.com/hosts.txt", ⟨ascii "  ", by decide, by decide⟩, by decide⟩,
      [], .empty⟩,
     ⟨⟨ascii "https://example.com/domains.txt", ⟨ascii "  ", by decide, by decide⟩, by decide⟩,
      [], .empty⟩,
     ⟨⟨ascii "https://example.com/abp.txt", ⟨ascii "  ", by decide, by decide⟩, by decide⟩,
      [], .empty⟩]
    true .empty [] .empty .empty
  below := []
  urls_ne := by simp [StringArray.items]

/-- A server given by address and port, alone on its line. -/
def bracketedServer : ServerArray where
  above := []
  server := .udp
  array := .perLine
    [⟨⟨ascii "[2001:db8::1]:853", ⟨ascii "  ", by decide, by decide⟩, by decide⟩, [], .empty⟩]
    false .empty [] .empty .empty
  items_ne := by simp [StringArray.items]

theorem documented_layouts_refused :
    documentedFile.text = ascii "update_interval_sec = 3600\ncache_dir = \"/var/gravastar\"\n" ++
      ascii "urls = [\n  \"https://example.com/hosts.txt\",\n" ++
      ascii "  \"https://example.com/domains.txt\",\n" ++
      ascii "  \"https://example.com/abp.txt\",\n]\n" ∧
    loadUpstreamBlocklistConfig (ascii "upstream_blocklists.toml") (some documentedFile.text) =
      .error (ascii "invalid urls") ∧
    upstreamsFile [bracketedServer] [] =
      ascii "udp_servers = [\n  \"[2001:db8::1]:853\"\n]\n" ∧
    loadUpstreams (ascii "upstreams.toml") (some (upstreamsFile [bracketedServer] [])) =
      .error (ascii "invalid udp_servers") := by
  decide +kernel

end Gravastar
