import Gravastar.Lib.Machine
import Gravastar.UpstreamBlocklist.Sources
import Mathlib.Data.Set.Function

/-!
# Whose copy a cache file holds

Cache files are named by a hash of the URL. The store that they make up is
compared with one that keeps, for each URL, the body that was fetched last: the
two agree for every set of URLs on which the hash is injective, and only then.
-/

namespace Gravastar

/-! ## Names of cache files -/

theorem cachePathForUrl_eq_iff {cacheDir u v : Bytes} :
    cachePathForUrl cacheDir u = cachePathForUrl cacheDir v ↔ hashUrl u = hashUrl v := by
  constructor
  · intro h
    rw [cachePathForUrl, cachePathForUrl, List.append_left_inj, List.append_right_inj] at h
    exact UInt64.toNat_inj.mp (decimal_injective h)
  · intro h
    rw [cachePathForUrl, cachePathForUrl, h]

/-! ## Runs of calls -/

structure BuildCall where
  urls : List Bytes
  dir : DirEnv
  fetches : Nat → FetchEnv

namespace BuildCall

variable (cacheDir : Bytes)

def machine (start : Disk) : Machine Disk BuildCall (Except Bytes (Finset Bytes)) :=
  ⟨start, fun disk call =>
    buildBlocklistFromSources call.urls cacheDir call.dir call.fetches disk⟩

def steps (call : BuildCall) (disk : Disk) : List SourceStep :=
  buildSteps call.urls cacheDir call.dir call.fetches disk

/-- The turns of all calls of a run, the newest first. -/
def turns (start : Disk) : List BuildCall → List SourceStep
  | [] => []
  | call :: calls =>
    (call.steps cacheDir ((machine cacheDir start).after calls)).reverse ++ turns start calls

end BuildCall

/-- The body that was fetched last for an URL. -/
def lastFetched (url : Bytes) (turns : List SourceStep) : Option Bytes :=
  turns.findSome? fun step => if step.url = url then fetchUrl step.env.transfer else none

/-- What stands in for a failed fetch is the body that was fetched last for the same URL. -/
def FallbackOwnUrl (cacheDir : Bytes) (turns : List SourceStep) : Prop :=
  ∀ newer step older, turns = newer ++ step :: older → fetchUrl step.env.transfer = none →
    ∀ content, step.content cacheDir = some content → lastFetched step.url older = some content

/-- The body that was written last to a cache file, by any URL with this hash. -/
def lastWritten (hash : UInt64) (turns : List SourceStep) : Option Bytes :=
  turns.findSome? fun step =>
    if hashUrl step.url = hash ∧ step.env.writeOpens = true then fetchUrl step.env.transfer
    else none

/-- Where a fetch fails and its cache file has been written, what can be read from the file is the
body that was fetched last for the URL. -/
def WrittenForOwnUrl (turns : List SourceStep) : Prop :=
  ∀ newer step older, turns = newer ++ step :: older → fetchUrl step.env.transfer = none →
    ∀ body, lastWritten (hashUrl step.url) older = some body →
      lastFetched step.url older = some (if step.env.readOpens then body else [])

/-- The cache file can be opened for what the turn does with it. -/
def SourceStep.Opens (step : SourceStep) : Prop :=
  match step.env.transfer with
  | .failed => step.env.readOpens = true
  | .completed _ _ => step.env.writeOpens = true

/-! ## From one turn to the next -/

/-- Each turn finds the files that the one before has left. -/
def Linked (cacheDir : Bytes) (start : Disk) : List SourceStep → Disk → Prop
  | [], disk => disk = start
  | step :: older, disk =>
    disk = (sourceContent cacheDir step.env step.disk step.url).2 ∧
      Linked cacheDir start older step.disk

section
variable {cacheDir : Bytes} {start : Disk}

theorem linked_buildLoop {older : List SourceStep} (urls : List Bytes) (fetches : Nat → FetchEnv)
    {disk : Disk} (domains : Finset Bytes) (h : Linked cacheDir start older disk) :
    Linked cacheDir start ((sourceSteps cacheDir urls fetches disk).reverse ++ older)
      (buildLoop cacheDir urls fetches disk domains).2 := by
  induction urls generalizing older fetches disk domains with
  | nil => exact h
  | cons url urls ih =>
    have hnext : Linked cacheDir start (⟨url, fetches 0, disk⟩ :: older)
        (sourceContent cacheDir (fetches 0) disk url).2 := ⟨rfl, h⟩
    rw [sourceSteps, buildLoop]
    generalize sourceContent cacheDir (fetches 0) disk url = r at hnext
    obtain ⟨result, disk'⟩ := r
    cases result with
    | error err => exact hnext
    | ok content =>
      rw [List.reverse_cons, List.append_assoc]
      exact ih _ _ hnext

theorem linked_turns (calls : List BuildCall) :
    Linked cacheDir start (BuildCall.turns cacheDir start calls)
      ((BuildCall.machine cacheDir start).after calls) := by
  induction calls with
  | nil => rfl
  | cons call calls ih =>
    rw [Machine.after_cons, BuildCall.turns, BuildCall.steps]
    change Linked _ _ _ (buildBlocklistFromSources _ _ _ _ _).2
    rcases build_cases call.urls cacheDir call.dir call.fetches
      ((BuildCall.machine cacheDir start).after calls) with
      ⟨hsteps, err, hcall⟩ | ⟨hsteps, hcall⟩
    · rw [hsteps, hcall]
      exact ih
    · rw [hsteps, hcall]
      exact linked_buildLoop _ _ _ ih

theorem Linked.older {newer older : List SourceStep} {step : SourceStep} {disk : Disk}
    (h : Linked cacheDir start (newer ++ step :: older) disk) :
    Linked cacheDir start older step.disk := by
  induction newer generalizing disk with
  | nil => exact h.2
  | cons later newer ih => exact ih h.2

/-! ## The files against the bodies fetched last -/

/-- A cache file holds what was written last under its hash. -/
theorem Linked.copy_eq (fresh : ∀ url, start (cachePathForUrl cacheDir url) = none)
    {turns : List SourceStep} {disk : Disk} (h : Linked cacheDir start turns disk) (url : Bytes) :
    disk (cachePathForUrl cacheDir url) = lastWritten (hashUrl url) turns := by
  induction turns generalizing disk with
  | nil =>
    obtain rfl : disk = start := h
    exact fresh url
  | cons step older ih =>
    obtain ⟨rfl, hrest⟩ := h
    have hold := ih hrest
    rw [lastWritten, List.findSome?_cons]
    by_cases hsame : hashUrl step.url = hashUrl url
    · have hnew := step.newCopy_eq cacheDir
      rw [SourceStep.newCopy, SourceStep.copy, cachePathForUrl_eq_iff.mpr hsame, hold] at hnew
      rw [hnew]
      cases fetchUrl step.env.transfer with
      | none => simp [lastWritten]
      | some body => cases step.env.writeOpens <;> simp [hsame, lastWritten]
    · have hpath : cachePathForUrl cacheDir url ≠ cachePathForUrl cacheDir step.url := by
        intro heq
        exact hsame (cachePathForUrl_eq_iff.mp heq).symm
      rw [sourceContent_other hpath, if_neg (fun hwrites => hsame hwrites.1)]
      exact hold

/-- In every run, the copies belong to their URLs exactly if the last writes do. -/
theorem fallbackOwnUrl_iff (fresh : ∀ url, start (cachePathForUrl cacheDir url) = none)
    (calls : List BuildCall) :
    FallbackOwnUrl cacheDir (BuildCall.turns cacheDir start calls) ↔
      WrittenForOwnUrl (BuildCall.turns cacheDir start calls) := by
  have hlinked := @linked_turns cacheDir start calls
  have hcopy : ∀ newer step older,
      BuildCall.turns cacheDir start calls = newer ++ step :: older →
        step.copy cacheDir = lastWritten (hashUrl step.url) older := by
    intro newer step older hturns
    rw [hturns] at hlinked
    exact hlinked.older.copy_eq fresh step.url
  constructor
  · intro h newer step older hturns hfetch body hbody
    refine h newer step older hturns hfetch _ ?_
    rw [SourceStep.content_eq, hfetch, hcopy newer step older hturns, hbody]
    rfl
  · intro h newer step older hturns hfetch content hcontent
    rw [SourceStep.content_eq, hfetch, hcopy newer step older hturns] at hcontent
    obtain ⟨body, hbody, rfl⟩ := Option.map_eq_some_iff.mp hcontent
    exact h newer step older hturns hfetch body hbody

/-- Where the hash is injective and the files open, the last write is the last fetch. -/
theorem lastWritten_eq {urls : Set Bytes} (hinj : Set.InjOn hashUrl urls)
    {turns : List SourceStep} (hurls : ∀ step ∈ turns, step.url ∈ urls)
    (opens : ∀ step ∈ turns, step.Opens) {url : Bytes} (hurl : url ∈ urls) :
    lastWritten (hashUrl url) turns = lastFetched url turns := by
  induction turns with
  | nil => rfl
  | cons step older ih =>
    have hold := ih (fun s hs => hurls s (List.mem_cons_of_mem _ hs))
      (fun s hs => opens s (List.mem_cons_of_mem _ hs))
    rw [lastWritten, lastFetched] at hold
    rw [lastWritten, lastFetched, List.findSome?_cons, List.findSome?_cons, hold]
    have hiff : hashUrl step.url = hashUrl url ↔ step.url = url :=
      ⟨hinj (hurls step List.mem_cons_self) hurl, congrArg hashUrl⟩
    have hopens := opens step List.mem_cons_self
    rw [SourceStep.Opens] at hopens
    cases htransfer : step.env.transfer with
    | failed => simp [fetchUrl]
    | completed status body =>
      rw [htransfer] at hopens
      simp [hiff, hopens]

end

/-! ## Runs that share a cache directory -/

/-- Some run over the URLs whose cache files can be opened. -/
structure BuildRun (cacheDir : Bytes) (urls : Set Bytes) where
  start : Disk
  calls : List BuildCall
  fresh : ∀ url, start (cachePathForUrl cacheDir url) = none
  fetched : ∀ step ∈ BuildCall.turns cacheDir start calls, step.url ∈ urls
  opens : ∀ step ∈ BuildCall.turns cacheDir start calls, step.Opens

theorem fallbackOwnUrl_of_injOn {cacheDir : Bytes} {urls : Set Bytes}
    (hinj : Set.InjOn hashUrl urls) (run : BuildRun cacheDir urls) :
    FallbackOwnUrl cacheDir (BuildCall.turns cacheDir run.start run.calls) := by
  refine (fallbackOwnUrl_iff run.fresh run.calls).mpr ?_
  intro newer step older hturns hfetch body hbody
  have hmem : ∀ s, s = step ∨ s ∈ older → s ∈ BuildCall.turns cacheDir run.start run.calls := by
    intro s hs
    rw [hturns]
    simpa using .inr hs
  have hreads : step.env.readOpens = true := by
    have hopens := run.opens step (hmem step (.inl rfl))
    rw [SourceStep.Opens] at hopens
    cases htransfer : step.env.transfer with
    | failed => rwa [htransfer] at hopens
    | completed status body => simp [htransfer, fetchUrl] at hfetch
  rw [if_pos hreads, ← hbody]
  refine (lastWritten_eq hinj (fun s hs => ?_) (fun s hs => ?_) ?_).symm
  · exact run.fetched s (hmem s (.inr hs))
  · exact run.opens s (hmem s (.inr hs))
  · exact run.fetched step (hmem step (.inl rfl))

/-- One URL is fetched, then the fetch of another one fails. -/
def fetchThenFail (fetched failed body : Bytes) : List BuildCall :=
  [⟨[failed], ⟨true, true, true⟩, fun _ => ⟨.failed, true, true⟩⟩,
    ⟨[fetched], ⟨true, true, true⟩, fun _ => ⟨.completed 200 body, true, true⟩⟩]

theorem turns_fetchThenFail (cacheDir fetched failed body : Bytes) :
    BuildCall.turns cacheDir (fun _ => none) (fetchThenFail fetched failed body) =
      [⟨failed, ⟨.failed, true, true⟩,
          Function.update (fun _ => none) (cachePathForUrl cacheDir fetched) (some body)⟩,
        ⟨fetched, ⟨.completed 200 body, true, true⟩, fun _ => none⟩] := by
  simp only [fetchThenFail, BuildCall.turns, BuildCall.steps, buildSteps, ensureDir, if_true,
    sourceSteps_singleton]
  rfl

theorem fetchThenFail_collides {cacheDir fetched failed : Bytes} (hne : fetched ≠ failed)
    (hhash : hashUrl fetched = hashUrl failed) (body : Bytes) :
    ¬ FallbackOwnUrl cacheDir
      (BuildCall.turns cacheDir (fun _ => none) (fetchThenFail fetched failed body)) := by
  intro h
  rw [fallbackOwnUrl_iff fun _ => rfl, turns_fetchThenFail] at h
  have hlast := h [] _ _ rfl rfl body (by simp [lastWritten, hhash, fetchUrl])
  simp [lastFetched, hne] at hlast

/-- In each run the copies belong to their URLs exactly if the last writes do. This is so in all
runs over a set of URLs, as long as the files open, exactly if the hash is injective on the set;
then no two of the URLs share a cache file. -/
theorem fallback_own_url (cacheDir : Bytes) :
    (∀ start calls, (∀ url, start (cachePathForUrl cacheDir url) = none) →
      (FallbackOwnUrl cacheDir (BuildCall.turns cacheDir start calls) ↔
        WrittenForOwnUrl (BuildCall.turns cacheDir start calls))) ∧
    ∀ urls : Set Bytes,
      ((∀ run : BuildRun cacheDir urls,
        FallbackOwnUrl cacheDir (BuildCall.turns cacheDir run.start run.calls)) ↔
          Set.InjOn hashUrl urls) ∧
      (Set.InjOn (cachePathForUrl cacheDir) urls ↔ Set.InjOn hashUrl urls) := by
  refine ⟨fun start calls fresh => fallbackOwnUrl_iff fresh calls, fun urls => ⟨⟨?_, ?_⟩, ?_⟩⟩
  · intro h u hu v hv hhash
    by_contra hne
    refine fetchThenFail_collides hne hhash [] (h ⟨_, fetchThenFail u v [], ?_, ?_, ?_⟩)
    · exact fun _ => rfl
    · simp [turns_fetchThenFail, hu, hv]
    · simp [turns_fetchThenFail, SourceStep.Opens]
  · exact fallbackOwnUrl_of_injOn
  · simp only [Set.InjOn, cachePathForUrl_eq_iff]

/-- Two addresses with one cache file: the list of the first stands in for the second. -/
theorem fallback_other_url :
    let first := ascii "http://x/ab"
    let second := ascii "http://x/bA"
    let list := ascii "||a.b^"
    let turns := BuildCall.turns (ascii "c") (fun _ => none) (fetchThenFail first second list)
    first ≠ second ∧ cachePathForUrl (ascii "c") first = cachePathForUrl (ascii "c") second ∧
      turns.map (SourceStep.content (ascii "c")) = [some list, some list] ∧
      ¬ FallbackOwnUrl (ascii "c") turns := by
  intro first second list turns
  have hne : first ≠ second := by decide
  have hhash : hashUrl first = hashUrl second := by decide +kernel
  refine ⟨hne, cachePathForUrl_eq_iff.mpr hhash, ?_, fetchThenFail_collides hne hhash list⟩
  decide +kernel

end Gravastar
