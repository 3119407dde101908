import Gravastar.Lib.Machine
import Gravastar.UpstreamBlocklist.Sources

/-!
# An update is complete or has no effect

A call that fails leaves the blocklist and the generated file alone. A call
that succeeds installs one set and writes its text; the set is the complete one
as long as every cache file that stands in for a download can be read.
-/

namespace Gravastar

/-- The fetched body, or the copy in the cache file when the fetch reported an error. -/
def SourceStep.wanted (cacheDir : Bytes) (step : SourceStep) : Option Bytes :=
  (fetchUrl step.env.transfer).orElse fun _ => step.copy cacheDir

inductive UpdaterEvent where
  | update (env : UpdateEnv)
  /-- Somebody else changes files. -/
  | filesChange (disk : Disk)

namespace UpstreamBlocklistUpdater

variable (u : UpstreamBlocklistUpdater)

def steps (disk : Disk) (env : UpdateEnv) : List SourceStep :=
  sourceSteps u.cacheDir u.urls env.fetches disk

/-- What the sources list, each as it should be read, and the custom domains. -/
def complete (disk : Disk) (env : UpdateEnv) (custom : Finset Bytes) : Finset Bytes :=
  unionDomains ((u.steps disk env).map fun step => (step.wanted u.cacheDir).getD []) ∪ custom

/-- Nothing that can fail fails: every source has a body or a copy, and the files can be written. -/
structure CanUpdate (disk : Disk) (env : UpdateEnv) : Prop where
  cacheDir : ensureDir env.cacheDir = true
  cacheDirAgain : ensureDir env.cacheDirAgain = true
  urls : u.urls ≠ []
  sources : ∀ step ∈ u.steps disk env, (step.wanted u.cacheDir).isSome
  custom : ∃ custom, u.customDomains env = .ok custom
  tmpOpens : env.tmpOpens = true
  renames : env.renames = true

/-- A failed call changes nothing; after a successful one, the live set and the generated file are
those of the complete union. -/
def AllOrNothing (s : UpdaterState) (env : UpdateEnv) : Prop :=
  let r := u.updateOnce s env
  (r.1 = false → r.2.blocklist = s.blocklist ∧ r.2.disk u.outputPath = s.disk u.outputPath) ∧
    (r.1 = true → (u.steps s.disk env).map SourceStep.url = u.urls ∧
      ∃ custom, u.customDomains env = .ok custom ∧
        r.2.blocklist = some ⟨u.complete s.disk env custom⟩ ∧
        r.2.disk u.outputPath = some (renderBlocklist (u.complete s.disk env custom)))

/-- Every cache file that stands in for a download can be opened, or its domains are listed by
another source too. -/
def SourcesRead (disk : Disk) (env : UpdateEnv) : Prop :=
  ∀ step ∈ u.steps disk env, fetchUrl step.env.transfer = none → step.env.readOpens = false →
    ∀ copy, step.copy u.cacheDir = some copy → ∀ d ∈ domainsOf copy,
      (∃ custom, u.customDomains env = .ok custom ∧ d ∈ custom) ∨
        ∃ other ∈ u.steps disk env, ∃ content,
          other.content u.cacheDir = some content ∧ d ∈ domainsOf content

/-! ## Paths -/

variable {u}

/-- The generated file is no cache file. -/
theorem outputPath_ne (hout : u.outputPath = joinPath u.cacheDir (ascii "blocklist.generated.toml"))
    (url : Bytes) : u.outputPath ≠ cachePathForUrl u.cacheDir url := by
  intro h
  have hcache : (cachePathForUrl u.cacheDir url).getLast? = some 116 := by
    rw [cachePathForUrl, List.getLast?_append_of_ne_nil _ (by decide)]
    decide
  have houtput : u.outputPath.getLast? = some 108 := by
    rw [hout, joinPath, if_neg (by decide), if_neg (by decide)]
    split_ifs <;> rw [List.getLast?_append_of_ne_nil _ (by decide)] <;> decide
  rw [h, hcache] at houtput
  cases houtput

theorem tmpPath_ne (path : Bytes) : path ++ ascii ".tmp" ≠ path := by
  intro h
  simpa [ascii] using congrArg List.length h

/-- A turn comes to a content exactly if there is a body or a copy. -/
theorem isSome_content_iff {cacheDir : Bytes} {step : SourceStep} :
    (step.content cacheDir).isSome ↔ (step.wanted cacheDir).isSome := by
  rw [SourceStep.content_eq, SourceStep.wanted]
  cases fetchUrl step.env.transfer <;> simp

/-! ## What a call does -/

/-- The writer replaces the file as a whole or leaves it. -/
theorem writeBlocklistToml_spec (disk : Disk) (path : Bytes) (domains : Finset Bytes)
    (tmpOpens renames : Bool) :
    let r := writeBlocklistToml disk path domains tmpOpens renames
    ((tmpOpens = true ∧ renames = true) ∧ r.1 = .ok () ∧
        r.2 path = some (renderBlocklist domains)) ∨
      ¬ (tmpOpens = true ∧ renames = true) ∧ (∃ err, r.1 = .error err) ∧ r.2 path = disk path := by
  have htmp := tmpPath_ne path
  cases tmpOpens with
  | false => exact .inr ⟨by simp, ⟨_, rfl⟩, rfl⟩
  | true =>
    cases renames with
    | true => exact .inl ⟨⟨rfl, rfl⟩, rfl, by simp [writeBlocklistToml, writeFile, rename]⟩
    | false =>
      refine .inr ⟨by simp, ⟨_, rfl⟩, ?_⟩
      simp [writeBlocklistToml, writeFile, unlink, Function.update_of_ne htmp.symm]

/-- What the sources list, each as it was read, and the custom domains. -/
def installed (u : UpstreamBlocklistUpdater) (disk : Disk) (env : UpdateEnv)
    (custom : Finset Bytes) : Finset Bytes :=
  unionDomains ((u.steps disk env).map fun step => (step.content u.cacheDir).getD []) ∪ custom

/-- How a call can end. -/
inductive Updates (u : UpstreamBlocklistUpdater) (s : UpdaterState) (env : UpdateEnv) :
    Bool × UpdaterState → Prop
  | fails (disk : Disk) (cannot : ¬ u.CanUpdate s.disk env)
      (kept : disk u.outputPath = s.disk u.outputPath) : Updates u s env (false, { s with disk })
  | installs (disk : Disk) (can : u.CanUpdate s.disk env) (custom : Finset Bytes)
      (loaded : u.customDomains env = .ok custom)
      (written : disk u.outputPath = some (renderBlocklist (u.installed s.disk env custom))) :
      Updates u s env
        (true, ⟨disk, s.blocklist.map (·.setDomains (u.installed s.disk env custom))⟩)

theorem updateOnce_spec
    (hout : u.outputPath = joinPath u.cacheDir (ascii "blocklist.generated.toml"))
    (s : UpdaterState) (env : UpdateEnv) : u.Updates s env (u.updateOnce s env) := by
  rw [updateOnce]
  split_ifs with hdir
  · exact .fails s.disk (fun can => by simp [can.cacheDir] at hdir) rfl
  · rw [buildBlocklistFromSources]
    split_ifs with hurls hagain
    · exact .fails s.disk (fun can => can.urls (by simpa using hurls)) rfl
    · exact .fails s.disk (fun can => by simp [can.cacheDirAgain] at hagain) rfl
    · have hkept := buildLoop_other (outputPath_ne hout) u.urls env.fetches s.disk ∅
      have hok := @buildLoop_eq_ok u.cacheDir u.urls env.fetches s.disk ∅
      have herror := @buildLoop_ok u.cacheDir u.urls env.fetches s.disk ∅
      generalize buildLoop u.cacheDir u.urls env.fetches s.disk ∅ = r at hkept hok herror
      obtain ⟨result, disk⟩ := r
      cases result with
      | error err =>
        refine .fails disk (fun can => ?_) hkept
        cases herror fun step hstep => isSome_content_iff.mpr (can.sources step hstep)
      | ok domains =>
        obtain ⟨hsources, hdomains⟩ := hok rfl
        rw [Finset.empty_union] at hdomains
        cases hcustom : u.customDomains env with
        | error err =>
          refine .fails disk (fun can => ?_) hkept
          obtain ⟨custom, hloaded⟩ := can.custom
          rw [hcustom] at hloaded
          cases hloaded
        | ok custom =>
          have hinstalled : domains ∪ custom = u.installed s.disk env custom := by
            rw [hdomains]
            rfl
          dsimp only
          rw [hinstalled]
          have hwrite := writeBlocklistToml_spec disk u.outputPath
            (u.installed s.disk env custom) env.tmpOpens env.renames
          generalize writeBlocklistToml disk u.outputPath (u.installed s.disk env custom)
            env.tmpOpens env.renames = w at hwrite
          obtain ⟨result, disk'⟩ := w
          rcases hwrite with ⟨⟨htmp, hrename⟩, rfl, hwritten⟩ | ⟨hfail, ⟨err, rfl⟩, hsame⟩
          · refine .installs disk' ⟨by simpa using hdir, by simpa using hagain,
              by simpa using hurls, fun step hstep => ?_, ⟨custom, hcustom⟩, htmp, hrename⟩
              custom hcustom hwritten
            exact isSome_content_iff.mp (hsources step hstep)
          · exact .fails disk' (fun can => hfail ⟨can.tmpOpens, can.renames⟩) (hsame.trans hkept)

/-! ## The installed set and the complete one -/

/-- A content is the wanted one, or it is empty because the copy could not be opened. -/
theorem content_cases {cacheDir content : Bytes} {step : SourceStep}
    (h : step.content cacheDir = some content) :
    step.wanted cacheDir = some content ∨
      fetchUrl step.env.transfer = none ∧ step.env.readOpens = false ∧ content = [] := by
  rw [SourceStep.content_eq] at h
  rw [SourceStep.wanted]
  cases hf : fetchUrl step.env.transfer with
  | some body =>
    rw [hf] at h
    exact .inl h
  | none =>
    rw [hf] at h
    obtain ⟨copy, hcopy, rfl⟩ := Option.map_eq_some_iff.mp h
    cases hr : step.env.readOpens with
    | true => exact .inl hcopy
    | false => exact .inr ⟨rfl, rfl, rfl⟩

/-- A wanted content is the one that was used, or a copy that could not be opened. -/
theorem wanted_cases {cacheDir content : Bytes} {step : SourceStep}
    (h : step.wanted cacheDir = some content) :
    step.content cacheDir = some content ∨
      fetchUrl step.env.transfer = none ∧ step.env.readOpens = false ∧
        step.copy cacheDir = some content := by
  rw [SourceStep.wanted] at h
  rw [SourceStep.content_eq]
  cases hf : fetchUrl step.env.transfer with
  | some body =>
    rw [hf] at h
    exact .inl h
  | none =>
    rw [hf] at h
    have hcopy : step.copy cacheDir = some content := h
    cases hr : step.env.readOpens with
    | true => exact .inl (by simp [hcopy])
    | false => exact .inr ⟨rfl, rfl, hcopy⟩

theorem mem_installed {disk : Disk} {env : UpdateEnv} {custom : Finset Bytes} {d : Bytes} :
    d ∈ u.installed disk env custom ↔
      (∃ step ∈ u.steps disk env, ∃ content,
        step.content u.cacheDir = some content ∧ d ∈ domainsOf content) ∨ d ∈ custom := by
  rw [installed, Finset.mem_union, mem_unionDomains_map]

theorem mem_complete {disk : Disk} {env : UpdateEnv} {custom : Finset Bytes} {d : Bytes} :
    d ∈ u.complete disk env custom ↔
      (∃ step ∈ u.steps disk env, ∃ content,
        step.wanted u.cacheDir = some content ∧ d ∈ domainsOf content) ∨ d ∈ custom := by
  rw [complete, Finset.mem_union, mem_unionDomains_map]

/-- What is installed is the complete set exactly if the sources were read. -/
theorem installed_eq_complete_iff {disk : Disk} {env : UpdateEnv} {custom : Finset Bytes}
    (loaded : u.customDomains env = .ok custom) :
    u.installed disk env custom = u.complete disk env custom ↔ u.SourcesRead disk env := by
  constructor
  · intro heq step hstep hfetch _ copy hcopy d hd
    have hwanted : step.wanted u.cacheDir = some copy := by
      rw [SourceStep.wanted, hfetch]
      exact hcopy
    have hmem : d ∈ u.complete disk env custom :=
      mem_complete.mpr (.inl ⟨step, hstep, copy, hwanted, hd⟩)
    rw [← heq, mem_installed] at hmem
    rcases hmem with hother | hcustom
    · exact .inr hother
    · exact .inl ⟨custom, loaded, hcustom⟩
  · intro hread
    ext d
    rw [mem_installed, mem_complete]
    constructor
    · rintro (⟨step, hstep, content, hcontent, hd⟩ | hcustom)
      · rcases content_cases hcontent with hwanted | ⟨-, -, rfl⟩
        · exact .inl ⟨step, hstep, content, hwanted, hd⟩
        · rw [domainsOf_nil] at hd
          cases hd
      · exact .inr hcustom
    · rintro (⟨step, hstep, content, hwanted, hd⟩ | hcustom)
      · rcases wanted_cases hwanted with hcontent | ⟨hfetch, hopens, hcopy⟩
        · exact .inl ⟨step, hstep, content, hcontent, hd⟩
        · rcases hread step hstep hfetch hopens content hcopy d hd with
            ⟨custom', hcustom', hd'⟩ | hother
          · obtain rfl := Except.ok.inj (loaded.symm.trans hcustom')
            exact .inr hd'
          · exact .inl hother
      · exact .inr hcustom

/-- A call is all or nothing exactly if it fails or reads its sources. -/
theorem allOrNothing_iff
    (hout : u.outputPath = joinPath u.cacheDir (ascii "blocklist.generated.toml"))
    {s : UpdaterState} (hlive : s.blocklist.isSome) (env : UpdateEnv) :
    u.AllOrNothing s env ↔ (u.CanUpdate s.disk env → u.SourcesRead s.disk env) := by
  have hspec := updateOnce_spec hout s env
  rw [AllOrNothing]
  generalize u.updateOnce s env = r at hspec
  obtain ⟨b, hb⟩ := Option.isSome_iff_exists.mp hlive
  cases hspec with
  | fails disk cannot kept =>
    constructor
    · intro _ can
      exact absurd can cannot
    · intro _
      exact ⟨fun _ => ⟨rfl, kept⟩, nofun⟩
  | installs disk can custom loaded written =>
    rw [forall_prop_of_true can]
    rw [← installed_eq_complete_iff loaded]
    constructor
    · rintro ⟨-, htrue⟩
      obtain ⟨-, custom', loaded', hblocklist, -⟩ := htrue rfl
      obtain rfl := Except.ok.inj (loaded.symm.trans loaded')
      simpa [hb, Blocklist.setDomains] using hblocklist
    · intro heq
      refine ⟨nofun, fun _ => ⟨?_, custom, loaded, ?_, ?_⟩⟩
      · exact sourceSteps_urls fun step hstep => isSome_content_iff.mpr (can.sources step hstep)
      · rw [← heq, hb]
        rfl
      · rw [← heq]
        exact written

/-! ## Runs -/

section
variable (u : UpstreamBlocklistUpdater)

def step (s : UpdaterState) : UpdaterEvent → Option Bool × UpdaterState
  | .update env => (some (u.updateOnce s env).1, (u.updateOnce s env).2)
  | .filesChange disk => (none, { s with disk })

def machine (start : UpdaterState) : Machine UpdaterState UpdaterEvent (Option Bool) :=
  ⟨start, u.step⟩

/-- The complete result of the last call of a run that returned true; at first, what was there. -/
def lastComplete (disk : Disk) (live : Blocklist) : List UpdaterEvent → Finset Bytes
  | [] => live.domains
  | .filesChange _ :: es => lastComplete disk live es
  | .update env :: es =>
    let s := (u.machine ⟨disk, some live⟩).after es
    match u.updateOnce s env, u.customDomains env with
    | (true, _), .ok custom => u.complete s.disk env custom
    | _, _ => lastComplete disk live es

/-- A property of the calls among the events. -/
def UpdateMeets (ok : UpdaterState → UpdateEnv → Prop) (s : UpdaterState) : UpdaterEvent → Prop
  | .update env => ok s env
  | .filesChange _ => True

end

/-- A call keeps the live blocklist in place, whatever it installs. -/
theorem live_after
    (hout : u.outputPath = joinPath u.cacheDir (ascii "blocklist.generated.toml")) (disk : Disk)
    (live : Blocklist) (es : List UpdaterEvent) :
    ((u.machine ⟨disk, some live⟩).after es).blocklist.isSome := by
  refine Machine.invariant (u.machine ⟨disk, some live⟩) (P := fun s => s.blocklist.isSome)
    rfl ?_ es
  intro s e hlive
  cases e with
  | filesChange disk' => exact hlive
  | update env =>
    have hspec := updateOnce_spec hout s env
    change (u.updateOnce s env).2.blocklist.isSome
    generalize u.updateOnce s env = r at hspec
    cases hspec with
    | fails => exact hlive
    | installs => simpa using hlive

/-- Along a run whose calls are all or nothing, the live set is the last complete one. -/
theorem live_eq_lastComplete
    (hout : u.outputPath = joinPath u.cacheDir (ascii "blocklist.generated.toml")) {disk : Disk}
    {live : Blocklist} {es : List UpdaterEvent}
    (h : (u.machine ⟨disk, some live⟩).Along (UpdateMeets u.AllOrNothing) es) :
    ((u.machine ⟨disk, some live⟩).after es).blocklist = some ⟨u.lastComplete disk live es⟩ := by
  induction es with
  | nil => rfl
  | cons e es ih =>
    obtain ⟨hall, hrest⟩ := h
    have hlast := ih hrest
    cases e with
    | filesChange disk' => exact hlast
    | update env =>
      change (u.updateOnce _ env).2.blocklist = some ⟨lastComplete u disk live _⟩
      rw [lastComplete]
      generalize (u.machine ⟨disk, some live⟩).after es = s at hall hlast ⊢
      have hspec := updateOnce_spec hout s env
      obtain ⟨hfalse, htrue⟩ : u.AllOrNothing s env := hall
      generalize u.updateOnce s env = r at hspec hfalse htrue
      cases hspec with
      | fails => exact hlast
      | installs =>
        obtain ⟨-, custom, hcustom, hblocklist, -⟩ := htrue rfl
        rw [hblocklist, hcustom]

theorem along_allOrNothing_iff
    (hout : u.outputPath = joinPath u.cacheDir (ascii "blocklist.generated.toml")) (disk : Disk)
    (live : Blocklist) (es : List UpdaterEvent) :
    (u.machine ⟨disk, some live⟩).Along (UpdateMeets u.AllOrNothing) es ↔
      (u.machine ⟨disk, some live⟩).Along (UpdateMeets fun s env =>
        u.CanUpdate s.disk env → u.SourcesRead s.disk env) es := by
  induction es with
  | nil => exact Iff.rfl
  | cons e es ih =>
    refine and_congr ?_ ih
    cases e with
    | filesChange disk' => exact Iff.rfl
    | update env => exact allOrNothing_iff hout (live_after hout disk live es) env

/-- The updates of a run are all or nothing exactly if every call that nothing stops reads its
sources; then the live set is always the last complete one. -/
theorem update_all_or_nothing (u : UpstreamBlocklistUpdater)
    (hout : u.outputPath = joinPath u.cacheDir (ascii "blocklist.generated.toml")) (disk : Disk)
    (live : Blocklist) (es : List UpdaterEvent) :
    let m := u.machine ⟨disk, some live⟩
    (m.Along (UpdateMeets u.AllOrNothing) es ↔ m.Along (UpdateMeets fun s env =>
        u.CanUpdate s.disk env → u.SourcesRead s.disk env) es) ∧
      (m.Along (UpdateMeets u.AllOrNothing) es →
        (m.after es).blocklist = some ⟨u.lastComplete disk live es⟩) :=
  ⟨along_allOrNothing_iff hout disk live es, live_eq_lastComplete hout⟩

/-! ## A copy that cannot be opened -/

/-- One list, and no custom list. -/
def oneList : UpstreamBlocklistUpdater where
  urls := [ascii "u"]
  cacheDir := ascii "c"
  customBlocklistPath := []
  outputPath := joinPath (ascii "c") (ascii "blocklist.generated.toml")

theorem oneCopy_copy (fetch : FetchEnv) :
    (⟨ascii "u", fetch, oneCopy⟩ : SourceStep).copy oneList.cacheDir = some (ascii "||a.b^") := by
  rw [SourceStep.copy, oneCopy]
  simp only [oneList, Function.update_self]

/-- Only what `fetch` says may go wrong. -/
def fetching (fetch : FetchEnv) : UpdateEnv where
  cacheDir := ⟨true, true, true⟩
  cacheDirAgain := ⟨true, true, true⟩
  fetches := fun _ => fetch
  customFile := none
  tmpOpens := true
  renames := true

theorem oneList_steps (disk : Disk) (fetch : FetchEnv) :
    ∀ step ∈ oneList.steps disk (fetching fetch), step = ⟨ascii "u", fetch, disk⟩ := by
  intro step hstep
  rw [UpstreamBlocklistUpdater.steps] at hstep
  exact List.mem_singleton.mp (sourceSteps_singleton (ascii "u") (fun _ => fetch) disk ▸ hstep)

/-- A list that is fetched is installed. -/
theorem update_all_or_nothing_fetched :
    let m := oneList.machine ⟨oneCopy, some ⟨∅⟩⟩
    let es := [UpdaterEvent.update (fetching ⟨.completed 200 (ascii "||a.b^"), true, true⟩)]
    m.Along (UpdateMeets oneList.AllOrNothing) es ∧
      (m.after es).blocklist = some ⟨oneList.lastComplete oneCopy ⟨∅⟩ es⟩ := by
  intro m es
  obtain ⟨hiff, hlast⟩ := update_all_or_nothing oneList rfl oneCopy ⟨∅⟩ es
  have hall : m.Along (UpdateMeets oneList.AllOrNothing) es := by
    refine hiff.mpr ⟨fun _ step hstep hfetch => ?_, trivial⟩
    obtain rfl := oneList_steps _ _ step hstep
    cases hfetch
  exact ⟨hall, hlast hall⟩

/-- The fetch fails and the copy, which lists `a.b`, cannot be opened: the call installs the empty
set and returns true. -/
theorem update_installs_less :
    let s : UpdaterState := ⟨oneCopy, some ⟨{ascii "a.b"}⟩⟩
    let env := fetching ⟨.failed, true, false⟩
    oneList.outputPath = joinPath oneList.cacheDir (ascii "blocklist.generated.toml") ∧
      (oneList.updateOnce s env).1 = true ∧
      (oneList.updateOnce s env).2.blocklist = some ⟨∅⟩ ∧ ¬ oneList.AllOrNothing s env := by
  intro s env
  refine ⟨rfl, rfl, rfl, fun hall => ?_⟩
  have hread := (allOrNothing_iff rfl rfl env).mp hall ?_
  · have hmem : ascii "a.b" ∈ domainsOf (ascii "||a.b^") := by decide +kernel
    rcases hread ⟨ascii "u", ⟨.failed, true, false⟩, oneCopy⟩ List.mem_cons_self rfl rfl _
      (oneCopy_copy _) _ hmem with ⟨custom, hcustom, hd⟩ | ⟨other, hother, content, hcontent, hd⟩
    · obtain rfl := Except.ok.inj hcustom
      cases hd
    · obtain rfl := oneList_steps _ _ other hother
      rw [SourceStep.content_eq, oneCopy_copy] at hcontent
      obtain rfl := Option.some.inj hcontent
      cases hd
  · refine ⟨rfl, rfl, nofun, fun step hstep => ?_, ⟨∅, rfl⟩, rfl, rfl⟩
    obtain rfl := oneList_steps _ _ step hstep
    rw [SourceStep.wanted, oneCopy_copy]
    rfl

end UpstreamBlocklistUpdater

end Gravastar
