import Gravastar.Config.MainConfig
import Gravastar.ControllerLog
import Gravastar.Program

/-!
# From the command line to the running program (`main.cpp`)

`main` reads its arguments and the files of the configuration, one after the
other, and exits at the first that it cannot use; what it has read is what the
server and the updater are made of. Then the files and the replies of the
running program are put together.
-/

namespace Gravastar

/-! ## Arguments -/

structure Options where
  configDir : Bytes := ascii "/etc/gravastar"
  upstreamBlocklistsPath : Bytes := []
  upstreamPathForced : Bool := false
  debug : Bool := false
  deriving DecidableEq, Repr

/-- The configuration of the upstream lists, which has a default. -/
def Options.listsPath (o : Options) : Bytes :=
  if o.upstreamBlocklistsPath.isEmpty then
    joinPath o.configDir (ascii "upstream_blocklists.toml")
  else o.upstreamBlocklistsPath

/-- How `main` ends before it runs the server: with its usage and an exit code, or with an error and
exit code 1. -/
inductive Exit where
  | usage (code : Nat)
  | error (text : Bytes)
  deriving DecidableEq, Repr

/-- The loop over `argv`, from behind the name of the program. -/
def parseArgs (o : Options) : List Bytes → Except Exit Options
  | [] => .ok o
  | [arg] =>
    if arg = ascii "-d" ∨ arg = ascii "--debug" then .ok { o with debug := true }
    else if arg = ascii "-h" ∨ arg = ascii "--help" then .error (.usage 0)
    else .error (.usage 1)
  | arg :: next :: rest =>
    if arg = ascii "-c" then parseArgs { o with configDir := next } rest
    else if arg = ascii "-u" then
      parseArgs { o with upstreamBlocklistsPath := next, upstreamPathForced := true } rest
    else if arg = ascii "-d" ∨ arg = ascii "--debug" then
      parseArgs { o with debug := true } (next :: rest)
    else if arg = ascii "-h" ∨ arg = ascii "--help" then .error (.usage 0)
    else .error (.usage 1)

/-! ## Files -/

/-- What the files hold, and which paths `stat` finds. -/
structure FileSystem where
  files : Disk
  stats : Bytes → Bool

/-- What a stream on the path gives; no file has the empty path. -/
def FileSystem.contents (fs : FileSystem) (path : Bytes) : Option Bytes :=
  if path.isEmpty then none else fs.files path

/-- What `main` has read when it is about to start its threads. `upstreamConfig` is empty if there
are no upstream lists. -/
structure Configured where
  config : MainConfig
  logLevel : LogLevel
  blockPath : Bytes
  blockDomains : Finset Bytes
  localRecords : List LocalRecord
  upstreams : UpstreamServers
  upstreamMode : Bool
  upstreamConfig : UpstreamBlocklistConfig
  deriving DecidableEq

/-- `main` puts the name of the file in front of the error. -/
def reporting {α : Type} (name : String) : Except Bytes α → Except Exit α
  | .error err => .error (.error (ascii name ++ ascii " error: " ++ err))
  | .ok a => .ok a

/-- The configuration of the updater, where there is one to make. -/
def updaterConfig (upstreamMode : Bool) (path : Bytes) (fs : FileSystem) :
    Except Exit UpstreamBlocklistConfig :=
  if upstreamMode then
    reporting "Upstream blocklist config" (loadUpstreamBlocklistConfig path (fs.contents path))
  else .ok ⟨[], 0, []⟩

/-- `main` as far as the threads. -/
def startUp (argv : List Bytes) (fs : FileSystem) : Except Exit Configured := do
  let options ← parseArgs {} argv
  let mainPath := joinPath options.configDir (ascii "gravastar.toml")
  let config ← reporting "Config" (loadMainConfig mainPath (fs.contents mainPath))
  let logLevel :=
    if options.debug then .debug else (LogSettings.levelFromString config.logLevel).getD .debug
  let upstreamBlocklistsPath := options.listsPath
  let upstreamMode := fs.stats upstreamBlocklistsPath
  if !upstreamMode && options.upstreamPathForced then
    .error (.error (ascii "Upstream blocklist config not found: " ++ upstreamBlocklistsPath))
  else
    let blockPath := joinPath options.configDir config.blocklistFile
    let blockDomains ← reporting "Blocklist" (loadBlocklist blockPath (fs.contents blockPath))
    let localPath := joinPath options.configDir config.localRecordsFile
    let localRecords ←
      reporting "Local records" (loadLocalRecords localPath (fs.contents localPath))
    let upstreamPath := joinPath options.configDir config.upstreamsFile
    let upstreams ← reporting "Upstreams" (loadUpstreams upstreamPath (fs.contents upstreamPath))
    let upstreamConfig ← updaterConfig upstreamMode upstreamBlocklistsPath fs
    .ok ⟨config, logLevel, blockPath, blockDomains, localRecords, upstreams, upstreamMode,
      upstreamConfig⟩

/-! ## The program -/

namespace Configured

variable (c : Configured)

def server (pton : InetPton) : DnsServer :=
  ⟨⟨c.config.rebindProtection⟩, .load c.localRecords, c.upstreams.udp, pton, true⟩

def updater : UpstreamBlocklistUpdater where
  urls := c.upstreamConfig.urls
  cacheDir := c.upstreamConfig.cacheDir
  customBlocklistPath := c.blockPath
  outputPath := joinPath c.upstreamConfig.cacheDir (ascii "blocklist.generated.toml")

/-- The blocklist and the empty cache. -/
def state : ServerState :=
  .initial (some ⟨c.blockDomains⟩)
    (some (c.config.cacheSizeBytes.toNat, c.config.cacheTtlSec.toNat))

/-- The running program with as many workers as `ι` has elements. -/
def program (ι : Type) [DecidableEq ι] [Fintype ι] (pton : InetPton) (disk : Disk) :
    Machine (Program ι) (ProgramEvent ι) (ProgramOutput ι) :=
  Program.machine (c.server pton) c.updater c.upstreamMode disk c.state

end Configured

/-! ## What a start has read -/

theorem reporting_eq_ok {α : Type} {name : String} {r : Except Bytes α} {a : α} :
    reporting name r = .ok a ↔ r = .ok a := by
  cases r <;> simp [reporting]

/-- Everything in it comes from the files that the arguments and the main file name. -/
structure Configured.ReadFrom (options : Options) (fs : FileSystem) (c : Configured) : Prop where
  config : ∃ path, path = joinPath options.configDir (ascii "gravastar.toml") ∧
    loadMainConfig path (fs.contents path) = .ok c.config
  blockPath : c.blockPath = joinPath options.configDir c.config.blocklistFile
  blockDomains : loadBlocklist c.blockPath (fs.contents c.blockPath) = .ok c.blockDomains
  localRecords : ∃ path, path = joinPath options.configDir c.config.localRecordsFile ∧
    loadLocalRecords path (fs.contents path) = .ok c.localRecords
  upstreams : ∃ path, path = joinPath options.configDir c.config.upstreamsFile ∧
    loadUpstreams path (fs.contents path) = .ok c.upstreams

theorem startUp_reads {argv : List Bytes} {fs : FileSystem} {c : Configured}
    (h : startUp argv fs = .ok c) : ∃ options, parseArgs {} argv = .ok options ∧
      c.ReadFrom options fs := by
  unfold startUp at h
  obtain ⟨options, hoptions, h⟩ := exists_of_bind_ok h
  obtain ⟨config, hconfig, h⟩ := exists_of_bind_ok h
  dsimp only at h
  split at h
  · cases h
  obtain ⟨blockDomains, hblock, h⟩ := exists_of_bind_ok h
  obtain ⟨localRecords, hlocal, h⟩ := exists_of_bind_ok h
  obtain ⟨upstreams, hupstreams, h⟩ := exists_of_bind_ok h
  obtain ⟨upstreamConfig, -, h⟩ := exists_of_bind_ok h
  obtain rfl := Except.ok.inj h
  exact ⟨options, hoptions, ⟨_, rfl, reporting_eq_ok.mp hconfig⟩, rfl, reporting_eq_ok.mp hblock,
    ⟨_, rfl, reporting_eq_ok.mp hlocal⟩, ⟨_, rfl, reporting_eq_ok.mp hupstreams⟩⟩

/-! ## The blocklist file stays in force -/

theorem Blocklist.isBlocked_mono {b b' : Blocklist} (h : b.domains ⊆ b'.domains) {name : Bytes}
    (hblocked : b.isBlocked name = true) : b'.isBlocked name = true := by
  rw [isBlocked_eq, Bool.or_eq_true, decide_eq_true_iff, suffixListed_iff] at hblocked ⊢
  rcases hblocked with hself | ⟨rest, hne, hsuffix, hmem⟩
  · exact .inl (h hself)
  · exact .inr ⟨rest, hne, hsuffix, h hmem⟩

/-- What is listed at the start, and in every custom list that an update loads, is listed after any
number of updates. -/
theorem UpstreamBlocklistUpdater.listed_after {u : UpstreamBlocklistUpdater}
    (hout : u.outputPath = joinPath u.cacheDir (ascii "blocklist.generated.toml"))
    {custom : Finset Bytes} {live : Blocklist} (hlive : custom ⊆ live.domains) (disk : Disk)
    {es : List UpdaterEvent} (hcustom : ∀ env, .update env ∈ es →
      ∀ loaded, u.customDomains env = .ok loaded → custom ⊆ loaded) :
    ∃ list, ((u.machine ⟨disk, some live⟩).after es).blocklist = some list ∧
      custom ⊆ list.domains := by
  induction es with
  | nil => exact ⟨live, rfl, hlive⟩
  | cons e es ih =>
    obtain ⟨list, hlist, hlisted⟩ := ih fun env henv => hcustom env (List.mem_cons_of_mem _ henv)
    cases e with
    | filesChange disk' => exact ⟨list, hlist, hlisted⟩
    | update env =>
      have hspec := updateOnce_spec hout ((u.machine ⟨disk, some live⟩).after es) env
      change ∃ list, (u.updateOnce ((u.machine ⟨disk, some live⟩).after es) env).2.blocklist =
        some list ∧ _
      generalize u.updateOnce ((u.machine ⟨disk, some live⟩).after es) env = r at hspec
      cases hspec with
      | fails => exact ⟨list, hlist, hlisted⟩
      | installs disk' can loaded hloaded =>
        refine ⟨_, congrArg (Option.map _) hlist, fun d hd => ?_⟩
        exact mem_installed.mpr (.inr (hcustom env List.mem_cons_self loaded hloaded hd))

section
variable {ι : Type} [DecidableEq ι] [Fintype ι]

theorem Program.mem_of_updaterEvents {server : DnsServer} {u : UpstreamBlocklistUpdater}
    {upstreamMode : Bool} {disk : Disk} {start : ServerState} {es : List (ProgramEvent ι)}
    {env : UpdateEnv} (h : .update env ∈ updaterEvents server u upstreamMode disk start es) :
    .updateOnce env ∈ es := by
  obtain ⟨p, e, he, hnew⟩ := Machine.exists_mem_of_eventsBelow h
  cases e with
  | updateOnce env' =>
    unfold updaterEvent at hnew
    dsimp only at hnew
    split_ifs at hnew
    · obtain rfl := UpdaterEvent.update.inj (List.mem_singleton.mp hnew)
      exact he
    · cases hnew
  | filesChange disk => cases List.mem_singleton.mp hnew
  | startUpdater | startServer | service | workersJoined | stopUpdater | updaterJoined | look
  | wakeUp => cases hnew

/-- A worker resolves one query at a time. -/
theorem DnsServer.Asks.unique {d : Datagram} {stage : Stage} {client client' : Option Answer}
    {job job' : Job} (h : DnsServer.Asks d stage client job)
    (h' : DnsServer.Asks d stage client' job') : job = job' := by
  cases h with
  | client parsed =>
    cases h' with
    | client parsed' => exact Option.some.inj (parsed.symm.trans parsed')
  | name parsed =>
    cases h' with
    | name parsed' => exact Option.some.inj (parsed.symm.trans parsed')

/-- A query that the blocklist or a record answers is answered in its first turn, without a call
into the resolver. -/
theorem DnsServer.Turn.resolved_of_answerLocally {server : DnsServer} {d : Datagram}
    {env : QueryEnv} {s s' : ServerState} {stage stage' : Stage} {out : TurnOutput}
    {client : Option Answer} {job : Job} {result : ResolveResult}
    (h : server.Turn d env s stage out stage' s') (hasks : DnsServer.Asks d stage client job)
    (hfound : server.answerLocally s.blocklist job.header job.question = some result) :
    out = .resolved ⟨job, result, []⟩ := by
  cases h with
  | refused unparsed =>
    cases hasks with
    | client parsed => simp [unparsed] at parsed
  | answered asks found =>
    obtain rfl := asks.unique hasks
    obtain rfl := Option.some.inj (found.symm.trans hfound)
    rfl
  | waits asks notFound =>
    obtain rfl := asks.unique hasks
    simp [notFound] at hfound
  | noName unparsed =>
    cases hasks with
    | name parsed => simp [unparsed] at parsed
  | hit | miss | forwarded | sent | logged | done => cases hasks

/-- What the files of the configuration say holds for every query that the running program resolves,
those for the names of clients included, as long as nobody changes the blocklist file: a name that
this file lists is answered with the sinkhole, whatever the upstream lists say and however many
updates succeed or fail; and one that has a record in the other file is answered by the sinkhole or
by a record. Neither reaches the cache or a call into the resolver. -/
theorem configuration_obeyed {argv : List Bytes} {fs : FileSystem} {c : Configured}
    (hstart : startUp argv fs = .ok c) (pton : InetPton) (disk : Disk)
    (es : List (ProgramEvent ι))
    (hfile : ∀ env, ProgramEvent.updateOnce env ∈ es →
      env.customFile = none ∨ env.customFile = fs.contents c.blockPath) :
    let m := c.program ι pton disk
    loadBlocklist c.blockPath (fs.contents c.blockPath) = .ok c.blockDomains ∧
      ∀ e w d out client job, (m.step (m.after es) e).1 = .service (.turned w d out) →
        DnsServer.Asks d ((m.after es).service.stages w) client job →
        ((⟨c.blockDomains⟩ : Blocklist).isBlocked job.question.qname = true →
          ∃ result, out = .resolved ⟨job, result, []⟩ ∧ result.source = .resolveBlocklist) ∧
        ((∃ rec ∈ c.localRecords, rec.IsFor job.question.qname job.question.qtype) →
          ∃ result, out = .resolved ⟨job, result, []⟩ ∧
            (result.source = .resolveBlocklist ∨ result.source = .resolveLocal)) := by
  intro m
  obtain ⟨options, -, hread⟩ := startUp_reads hstart
  refine ⟨hread.blockDomains, fun e w d out client job hturned hasks => ?_⟩
  -- An update that gets as far as the custom list has loaded the same file.
  have hcustom : ∀ env, .update env ∈
      Program.updaterEvents (c.server pton) c.updater c.upstreamMode disk c.state es →
      ∀ loaded, c.updater.customDomains env = .ok loaded → c.blockDomains ⊆ loaded := by
    intro env henv loaded hloaded
    have hpath : c.blockPath.isEmpty = false := by
      by_contra hempty
      have hnone : fs.contents c.blockPath = none := by
        unfold FileSystem.contents
        exact if_pos (by simpa using hempty)
      have hfailed := hread.blockDomains
      rw [hnone] at hfailed
      cases hfailed
    have hload : loadBlocklist c.blockPath env.customFile = .ok loaded := by
      unfold UpstreamBlocklistUpdater.customDomains at hloaded
      rwa [if_neg (by simpa [Configured.updater] using hpath)] at hloaded
    rcases hfile env (Program.mem_of_updaterEvents henv) with hnone | hsame
    · rw [hnone] at hload
      cases hload
    · rw [hsame, hread.blockDomains] at hload
      exact (Except.ok.inj hload).subset
  have hlive : c.blockDomains ⊆ (⟨c.blockDomains⟩ : Blocklist).domains := Finset.Subset.refl _
  obtain ⟨list, hlist, hlisted⟩ := UpstreamBlocklistUpdater.listed_after (u := c.updater) rfl hlive
    disk hcustom
  have hblocklist : (m.after es).service.shared.blocklist = some list :=
    (congrArg UpdaterState.blocklist (Program.run_updaterState (c.server pton) c.updater
      c.upstreamMode disk c.state es)).trans hlist
  have hattended : (m.after es).service.jobs.Attended :=
    Program.run_attended (c.server pton) c.updater c.upstreamMode disk c.state es
  obtain ⟨env, stage', s', hturn⟩ := (Program.step_spec (c.server pton) c.updater (m.after es)
    e).exists_turn hattended hturned
  have hanswer : ∀ result, (c.server pton).answerLocally (m.after es).service.shared.blocklist
      job.header job.question = some result → out = .resolved ⟨job, result, []⟩ :=
    fun result => hturn.resolved_of_answerLocally hasks
  rw [hblocklist] at hanswer
  have hsinkhole : isBlockedBy (some list) job.question.qname = true →
      ∃ result, out = .resolved ⟨job, result, []⟩ ∧ result.source = .resolveBlocklist :=
    fun hblocked => ⟨_, hanswer _ (answerLocally_blocked job.header hblocked), rfl⟩
  constructor
  · exact fun hblocked => hsinkhole (Blocklist.isBlocked_mono hlisted hblocked)
  · rintro ⟨rec, hmem, hfor⟩
    cases hblocked : isBlockedBy (some list) job.question.qname with
    | true =>
      obtain ⟨result, hout, hsource⟩ := hsinkhole hblocked
      exact ⟨result, hout, .inl hsource⟩
    | false =>
      cases hresolve : (c.server pton).localRecords.resolve job.question.qname
          job.question.qtype with
      | none => exact absurd hfor (LocalRecords.resolve_load_eq_none.mp hresolve rec hmem)
      | some record =>
        exact ⟨_, hanswer _ (answerLocally_record job.header hblocked hresolve), .inr rfl⟩

/-- A directory in which the name `a` is blocked and has a record all the same. -/
def oneNameFiles : FileSystem where
  files path :=
    if path = ascii "/c/gravastar.toml" then some (ascii "local_records_file = \"own.toml\"")
    else if path = ascii "/c/blocklist.toml" then some (ascii "domains = [\"a\"]")
    else if path = ascii "/c/own.toml" then
      some (ascii "[[record]]\nname = \"a\"\ntype = \"A\"\nvalue = \"10.0.0.1\"")
    else if path = ascii "/c/upstreams.toml" then some []
    else if path = ascii "/c/upstream_blocklists.toml" then some (ascii "urls = [\"u\"]")
    else none
  stats path := path = ascii "/c/upstream_blocklists.toml"

def oneNameConfigured : Configured where
  config := { localRecordsFile := ascii "own.toml" }
  logLevel := .debug
  blockPath := ascii "/c/blocklist.toml"
  blockDomains := {[97]}
  localRecords := [⟨[97], ascii "a", ascii "10.0.0.1"⟩]
  upstreams := ⟨[], []⟩
  upstreamMode := true
  upstreamConfig := ⟨[ascii "u"], 3600, ascii "/var/gravastar"⟩

/-- An update that replaces the list by that of the upstream, with `a.b`, and the file's. -/
def oneNameUpdate : UpdateEnv :=
  { UpstreamBlocklistUpdater.fetching ⟨.completed 200 (ascii "||a.b^"), true, true⟩ with
    customFile := some (ascii "domains = [\"a\"]") }

theorem configuration_obeyed_blocked :
    let m := oneNameConfigured.program Unit .own oneNameFiles.files
    let d : Datagram := ⟨plainQuery 7 [97] 1 1, .replicate 4 10, 5353⟩
    let es : List (ProgramEvent Unit) := [.service (.dequeue ()), .service (.receive d ∅),
      .updateOnce oneNameUpdate, .startServer true, .startUpdater true]
    (m.after es).service.shared.blocklist = some ⟨{ascii "a.b", [97]}⟩ ∧
      ∃ result, (m.step (m.after es) (.service (.turn () ⟨0, noReply, 0, 0⟩))).1 =
        .service (.turned () d (.resolved ⟨plainJob, result, []⟩)) ∧
          result.source = .resolveBlocklist := by
  intro m d es
  have hstart : startUp [ascii "-c", ascii "/c"] oneNameFiles = .ok oneNameConfigured := by
    decide +kernel
  have hfile : ∀ env, ProgramEvent.updateOnce env ∈ es → env.customFile = none ∨
      env.customFile = oneNameFiles.contents oneNameConfigured.blockPath := by
    intro env henv
    obtain rfl : env = oneNameUpdate := by simpa [es] using henv
    exact .inr (by decide +kernel)
  obtain ⟨-, hobeyed⟩ := configuration_obeyed hstart .own oneNameFiles.files es hfile
  let a : Answer := ⟨plainJob, ⟨sinkhole .own plainJob.header plainJob.question,
    .resolveBlocklist, []⟩, []⟩
  have hturned : (m.step (m.after es) (.service (.turn () ⟨0, noReply, 0, 0⟩))).1 =
      .service (.turned () d (.resolved a)) := by
    decide +kernel
  have hstage : (m.after es).service.stages () = .parsing := by decide +kernel
  have hasks : DnsServer.Asks d ((m.after es).service.stages ()) none plainJob := by
    rw [hstage]
    exact .client (by decide +kernel)
  obtain ⟨result, hout, hsource⟩ :=
    (hobeyed _ () d _ none plainJob hturned hasks).1 (by decide +kernel)
  exact ⟨by decide +kernel, result, hout ▸ hturned, hsource⟩

end

end Gravastar
