import Gravastar.UpstreamBlocklist

/-!
# The sources of a download, one by one

`sourceSteps` are the turns that the loop of `BuildBlocklistFromSources` comes
to, each with the files as it finds them. What a call returns and which files it
leaves is read off them.
-/

namespace Gravastar

/-! ## The domains of a list -/

/-- The domains that a content adds to the empty set. -/
def domainsOf (content : Bytes) : Finset Bytes := parseUpstreamBlocklistContent content ∅

def unionDomains (contents : List Bytes) : Finset Bytes :=
  contents.foldr (fun content domains => domainsOf content ∪ domains) ∅

theorem mem_foldl_insert {d : Bytes} {ds : List Bytes} {s : Finset Bytes} :
    d ∈ ds.foldl (fun s d => insert d s) s ↔ d ∈ s ∨ d ∈ ds := by
  induction ds generalizing s with
  | nil => simp
  | cons e ds ih => grind

theorem mem_parse {d content : Bytes} {domains : Finset Bytes} :
    d ∈ parseUpstreamBlocklistContent content domains ↔
      d ∈ domains ∨ ∃ line ∈ getLines content, d ∈ lineDomains line := by
  rw [parseUpstreamBlocklistContent]
  induction getLines content generalizing domains with
  | nil => simp
  | cons line lines ih =>
    rw [List.foldl_cons, ih, mem_foldl_insert]
    grind

theorem mem_domainsOf {d content : Bytes} :
    d ∈ domainsOf content ↔ ∃ line ∈ getLines content, d ∈ lineDomains line := by
  rw [domainsOf, mem_parse]
  simp

/-- `ParseUpstreamBlocklistContent` adds the domains of the content to the set. -/
theorem parse_eq (content : Bytes) (domains : Finset Bytes) :
    parseUpstreamBlocklistContent content domains = domains ∪ domainsOf content := by
  ext d
  rw [mem_parse, Finset.mem_union, mem_domainsOf]

theorem mem_unionDomains {d : Bytes} {contents : List Bytes} :
    d ∈ unionDomains contents ↔ ∃ content ∈ contents, d ∈ domainsOf content := by
  induction contents with
  | nil => simp [unionDomains]
  | cons content contents ih =>
    rw [unionDomains, List.foldr_cons, Finset.mem_union]
    change _ ∨ d ∈ unionDomains contents ↔ _
    rw [ih]
    simp

theorem domainsOf_nil : domainsOf [] = ∅ := rfl

theorem mem_unionDomains_map {β : Type} {f : β → Option Bytes} {bs : List β} {d : Bytes} :
    d ∈ unionDomains (bs.map fun b => (f b).getD []) ↔
      ∃ b ∈ bs, ∃ content, f b = some content ∧ d ∈ domainsOf content := by
  rw [mem_unionDomains]
  constructor
  · rintro ⟨content, hmem, hd⟩
    obtain ⟨b, hb, rfl⟩ := List.mem_map.mp hmem
    cases hf : f b with
    | none => simp [hf, domainsOf_nil] at hd
    | some content =>
      rw [hf] at hd
      exact ⟨b, hb, content, hf, hd⟩
  · rintro ⟨b, hb, content, hf, hd⟩
    refine ⟨content, List.mem_map.mpr ⟨b, hb, ?_⟩, hd⟩
    rw [hf]
    rfl

/-! ## The turns of the loop -/

/-- A turn: the URL, what happens to it, and the files before. -/
structure SourceStep where
  url : Bytes
  env : FetchEnv
  disk : Disk

def sourceSteps (cacheDir : Bytes) : List Bytes → (Nat → FetchEnv) → Disk → List SourceStep
  | [], _, _ => []
  | url :: urls, fetches, disk =>
    ⟨url, fetches 0, disk⟩ ::
      match sourceContent cacheDir (fetches 0) disk url with
      | (.error _, _) => []
      | (.ok _, disk) => sourceSteps cacheDir urls (fun i => fetches (i + 1)) disk

namespace SourceStep

variable (cacheDir : Bytes) (step : SourceStep)

/-- The copy in the cache file of the URL, before the turn. -/
def copy : Option Bytes := step.disk (cachePathForUrl cacheDir step.url)

/-- The content that the turn comes to, none if the loop gives up. -/
def content : Option Bytes := (sourceContent cacheDir step.env step.disk step.url).1.toOption

/-- The copy in the cache file of the URL, behind the turn. -/
def newCopy : Option Bytes :=
  (sourceContent cacheDir step.env step.disk step.url).2 (cachePathForUrl cacheDir step.url)

theorem content_eq : step.content cacheDir =
    match fetchUrl step.env.transfer with
    | some body => some body
    | none => (step.copy cacheDir).map fun copy => if step.env.readOpens then copy else [] := by
  rw [content, sourceContent, copy]
  cases fetchUrl step.env.transfer with
  | some body => rfl
  | none =>
    dsimp only
    rw [fileExists, readFile]
    cases step.disk (cachePathForUrl cacheDir step.url) <;> rfl

theorem newCopy_eq : step.newCopy cacheDir =
    match fetchUrl step.env.transfer with
    | some body => if step.env.writeOpens then some body else step.copy cacheDir
    | none => step.copy cacheDir := by
  rw [newCopy, sourceContent, copy]
  cases fetchUrl step.env.transfer with
  | some body =>
    dsimp only
    rw [writeFile]
    cases step.env.writeOpens <;> simp
  | none =>
    dsimp only
    split_ifs <;> rfl

end SourceStep

section
variable {cacheDir : Bytes}

/-- A turn writes its own cache file and no other file. -/
theorem sourceContent_other {env : FetchEnv} {disk : Disk} {url path : Bytes}
    (h : path ≠ cachePathForUrl cacheDir url) :
    (sourceContent cacheDir env disk url).2 path = disk path := by
  rw [sourceContent]
  cases fetchUrl env.transfer with
  | some body =>
    dsimp only
    rw [writeFile]
    cases env.writeOpens <;> simp [Function.update_of_ne h]
  | none =>
    dsimp only
    split_ifs <;> rfl

/-- A file that is no cache file stays as it is. -/
theorem buildLoop_other {path : Bytes} (h : ∀ url, path ≠ cachePathForUrl cacheDir url)
    (urls : List Bytes) (fetches : Nat → FetchEnv) (disk : Disk) (domains : Finset Bytes) :
    (buildLoop cacheDir urls fetches disk domains).2 path = disk path := by
  induction urls generalizing fetches disk domains with
  | nil => rfl
  | cons url urls ih =>
    have hstep := @sourceContent_other cacheDir (fetches 0) disk url path (h url)
    rw [buildLoop]
    generalize sourceContent cacheDir (fetches 0) disk url = r at hstep
    obtain ⟨result, disk'⟩ := r
    cases result with
    | error err => exact hstep
    | ok content => exact (ih _ _ _).trans hstep

/-- The first turn gives up, and the call with it, or the loop goes on with the files it leaves. -/
theorem turn_cases (cacheDir url : Bytes) (urls : List Bytes) (fetches : Nat → FetchEnv)
    (disk : Disk) :
    let step : SourceStep := ⟨url, fetches 0, disk⟩
    (step.content cacheDir = none ∧ sourceSteps cacheDir (url :: urls) fetches disk = [step] ∧
        ∀ domains, ∃ err, (buildLoop cacheDir (url :: urls) fetches disk domains).1 = .error err) ∨
      ∃ content disk', step.content cacheDir = some content ∧
        sourceSteps cacheDir (url :: urls) fetches disk =
          step :: sourceSteps cacheDir urls (fun i => fetches (i + 1)) disk' ∧
        ∀ domains, buildLoop cacheDir (url :: urls) fetches disk domains =
          buildLoop cacheDir urls (fun i => fetches (i + 1)) disk'
            (domains ∪ domainsOf content) := by
  intro step
  rw [sourceSteps.eq_def]
  simp only [SourceStep.content, step, buildLoop]
  generalize sourceContent cacheDir (fetches 0) disk url = r
  obtain ⟨result, disk'⟩ := r
  cases result with
  | error err => exact .inl ⟨rfl, rfl, fun _ => ⟨err, rfl⟩⟩
  | ok content =>
    exact .inr ⟨content, disk', rfl, rfl, fun domains => by rw [← parse_eq content domains]⟩

theorem sourceSteps_singleton (url : Bytes) (fetches : Nat → FetchEnv) (disk : Disk) :
    sourceSteps cacheDir [url] fetches disk = [⟨url, fetches 0, disk⟩] := by
  rcases turn_cases cacheDir url [] fetches disk with ⟨-, hsteps, -⟩ | ⟨_, _, -, hsteps, -⟩
  · exact hsteps
  · exact hsteps

/-- Where every turn comes to a content, so do the first one and those behind it. -/
theorem turn_of_contents {url : Bytes} {urls : List Bytes} {fetches : Nat → FetchEnv} {disk : Disk}
    (h : ∀ step ∈ sourceSteps cacheDir (url :: urls) fetches disk,
      (step.content cacheDir).isSome) :
    ∃ content disk', SourceStep.content cacheDir ⟨url, fetches 0, disk⟩ = some content ∧
      sourceSteps cacheDir (url :: urls) fetches disk =
        ⟨url, fetches 0, disk⟩ :: sourceSteps cacheDir urls (fun i => fetches (i + 1)) disk' ∧
      (∀ domains, buildLoop cacheDir (url :: urls) fetches disk domains =
        buildLoop cacheDir urls (fun i => fetches (i + 1)) disk' (domains ∪ domainsOf content)) ∧
      ∀ step ∈ sourceSteps cacheDir urls (fun i => fetches (i + 1)) disk',
        (step.content cacheDir).isSome := by
  rcases turn_cases cacheDir url urls fetches disk with
    ⟨hnone, hsteps, -⟩ | ⟨content, disk', hsome, hsteps, hloop⟩
  · rw [hsteps] at h
    have hfirst := h _ List.mem_cons_self
    rw [hnone] at hfirst
    cases hfirst
  · rw [hsteps] at h
    exact ⟨content, disk', hsome, hsteps, hloop,
      fun step hstep => h step (List.mem_cons_of_mem _ hstep)⟩

/-- The loop adds the domains of all contents, if there is one in every turn. -/
theorem buildLoop_ok {urls : List Bytes} {fetches : Nat → FetchEnv} {disk : Disk}
    {domains : Finset Bytes}
    (h : ∀ step ∈ sourceSteps cacheDir urls fetches disk, (step.content cacheDir).isSome) :
    (buildLoop cacheDir urls fetches disk domains).1 = .ok (domains ∪
      unionDomains ((sourceSteps cacheDir urls fetches disk).map fun step =>
        (step.content cacheDir).getD [])) := by
  induction urls generalizing fetches disk domains with
  | nil => simp [buildLoop, sourceSteps, unionDomains]
  | cons url urls ih =>
    obtain ⟨content, disk', hsome, hsteps, hloop, hrest⟩ := turn_of_contents h
    rw [hloop, ih hrest, hsteps, List.map_cons, hsome, Finset.union_assoc]
    rfl

/-- A turn without content ends the loop. -/
theorem buildLoop_error {urls : List Bytes} {fetches : Nat → FetchEnv} {disk : Disk}
    {step : SourceStep} (hmem : step ∈ sourceSteps cacheDir urls fetches disk)
    (hnone : step.content cacheDir = none) (domains : Finset Bytes) :
    ∃ err, (buildLoop cacheDir urls fetches disk domains).1 = .error err := by
  induction urls generalizing fetches disk domains with
  | nil => cases hmem
  | cons url urls ih =>
    rcases turn_cases cacheDir url urls fetches disk with
      ⟨-, -, hloop⟩ | ⟨content, disk', hsome, hsteps, hloop⟩
    · exact hloop domains
    · rw [hsteps] at hmem
      rw [hloop]
      rcases List.mem_cons.mp hmem with rfl | hmem
      · rw [hnone] at hsome
        cases hsome
      · exact ih hmem _

/-- What a call that returns true has done. -/
theorem buildLoop_eq_ok {urls : List Bytes} {fetches : Nat → FetchEnv} {disk : Disk}
    {domains result : Finset Bytes}
    (h : (buildLoop cacheDir urls fetches disk domains).1 = .ok result) :
    (∀ step ∈ sourceSteps cacheDir urls fetches disk, (step.content cacheDir).isSome) ∧
      result = domains ∪ unionDomains ((sourceSteps cacheDir urls fetches disk).map fun step =>
        (step.content cacheDir).getD []) := by
  have hsome : ∀ step ∈ sourceSteps cacheDir urls fetches disk,
      (step.content cacheDir).isSome := by
    intro step hstep
    by_contra hnone
    obtain ⟨err, herr⟩ := buildLoop_error hstep (by simpa using hnone) domains
    rw [h] at herr
    cases herr
  refine ⟨hsome, ?_⟩
  rw [buildLoop_ok hsome] at h
  exact (Except.ok.inj h).symm

/-- If there is a content in every turn, every URL has had its turn, in order. -/
theorem sourceSteps_urls {urls : List Bytes} {fetches : Nat → FetchEnv} {disk : Disk}
    (h : ∀ step ∈ sourceSteps cacheDir urls fetches disk, (step.content cacheDir).isSome) :
    (sourceSteps cacheDir urls fetches disk).map SourceStep.url = urls := by
  induction urls generalizing fetches disk with
  | nil => rfl
  | cons url urls ih =>
    obtain ⟨content, disk', -, hsteps, -, hrest⟩ := turn_of_contents h
    rw [hsteps, List.map_cons, ih hrest]

end

/-! ## A call -/

/-- The turns of a call; there is none if the cache directory cannot be made. -/
def buildSteps (urls : List Bytes) (cacheDir : Bytes) (dir : DirEnv) (fetches : Nat → FetchEnv)
    (disk : Disk) : List SourceStep :=
  if ensureDir dir then sourceSteps cacheDir urls fetches disk else []

section
variable {urls : List Bytes} {cacheDir : Bytes} {dir : DirEnv} {fetches : Nat → FetchEnv}
  {disk : Disk}

/-- A call stops before its loop, or is its loop. -/
theorem build_cases (urls : List Bytes) (cacheDir : Bytes) (dir : DirEnv)
    (fetches : Nat → FetchEnv) (disk : Disk) :
    (buildSteps urls cacheDir dir fetches disk = [] ∧
        ∃ err, buildBlocklistFromSources urls cacheDir dir fetches disk = (.error err, disk)) ∨
      buildSteps urls cacheDir dir fetches disk = sourceSteps cacheDir urls fetches disk ∧
        buildBlocklistFromSources urls cacheDir dir fetches disk =
          buildLoop cacheDir urls fetches disk ∅ := by
  rw [buildSteps, buildBlocklistFromSources]
  cases urls with
  | nil => exact .inl ⟨by simp [sourceSteps], _, rfl⟩
  | cons url urls =>
    cases ensureDir dir with
    | false => exact .inl ⟨rfl, _, rfl⟩
    | true => exact .inr ⟨rfl, rfl⟩

/-- A turn without content makes the call fail. -/
theorem build_error {step : SourceStep} (hmem : step ∈ buildSteps urls cacheDir dir fetches disk)
    (hnone : step.content cacheDir = none) :
    ∃ err, (buildBlocklistFromSources urls cacheDir dir fetches disk).1 = .error err := by
  rcases build_cases urls cacheDir dir fetches disk with ⟨hsteps, -⟩ | ⟨hsteps, hcall⟩
  · rw [hsteps] at hmem
    cases hmem
  · rw [hsteps] at hmem
    rw [hcall]
    exact buildLoop_error hmem hnone ∅

/-- A call that returns true returns what its turns add. -/
theorem build_eq_ok {domains : Finset Bytes}
    (h : (buildBlocklistFromSources urls cacheDir dir fetches disk).1 = .ok domains) :
    domains = unionDomains ((buildSteps urls cacheDir dir fetches disk).map fun step =>
      (step.content cacheDir).getD []) := by
  rcases build_cases urls cacheDir dir fetches disk with ⟨-, err, hcall⟩ | ⟨hsteps, hcall⟩
  · rw [hcall] at h
    cases h
  · rw [hcall] at h
    rw [hsteps, (buildLoop_eq_ok h).2, Finset.empty_union]

end

/-- The copy of one list, which blocks `a.b`, and no other file. -/
def oneCopy : Disk :=
  Function.update (fun _ => none) (cachePathForUrl (ascii "c") (ascii "u")) (some (ascii "||a.b^"))

end Gravastar
