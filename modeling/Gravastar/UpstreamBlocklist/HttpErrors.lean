import Gravastar.UpstreamBlocklist.Sources

/-!
# HTTP errors and the cached copy

The turn of an URL falls back to the cached copy when no exchange with the
server was completed. An error status completes the exchange, and its page is
taken for a list.
-/

namespace Gravastar

/-- No answer from the server, or one that says error. -/
def Transfer.IsError : Transfer → Prop
  | .failed => True
  | .completed status _ => 400 ≤ status

namespace SourceStep

variable (cacheDir : Bytes) (step : SourceStep)

/-- The turn leaves the copy and adds its domains; without a copy it ends the loop. -/
def KeepsCopy : Prop :=
  step.newCopy cacheDir = step.copy cacheDir ∧
    match step.copy cacheDir with
    | some copy =>
      ∃ content, step.content cacheDir = some content ∧ domainsOf content = domainsOf copy
    | none => step.content cacheDir = none

/-- The copy can be opened when it is needed; a page that comes with an error status lists the
domains of the copy, and is the copy if it can be written. -/
def SparesCopy : Prop :=
  match step.env.transfer with
  | .failed => ∀ copy, step.copy cacheDir = some copy → step.env.readOpens = false →
      domainsOf copy = ∅
  | .completed status page => 400 ≤ status → ∃ copy, step.copy cacheDir = some copy ∧
      domainsOf page = domainsOf copy ∧ (step.env.writeOpens = true → page = copy)

variable {cacheDir step}

theorem keepsCopy_failed (h : step.env.transfer = .failed) :
    step.KeepsCopy cacheDir ↔ ∀ copy, step.copy cacheDir = some copy →
      step.env.readOpens = false → domainsOf copy = ∅ := by
  rw [KeepsCopy, newCopy_eq, content_eq, h]
  cases step.copy cacheDir with
  | none => simp [fetchUrl]
  | some copy =>
    cases step.env.readOpens with
    | true => simp [fetchUrl]
    | false => simp [fetchUrl, domainsOf_nil, eq_comm]

theorem keepsCopy_completed {status : Nat} {page : Bytes}
    (h : step.env.transfer = .completed status page) :
    step.KeepsCopy cacheDir ↔ ∃ copy, step.copy cacheDir = some copy ∧
      domainsOf page = domainsOf copy ∧ (step.env.writeOpens = true → page = copy) := by
  rw [KeepsCopy, newCopy_eq, content_eq, h]
  cases step.copy cacheDir with
  | none => simp [fetchUrl]
  | some copy => cases step.env.writeOpens <;> simp [fetchUrl, and_comm]

theorem keepsCopy_iff : (step.env.transfer.IsError → step.KeepsCopy cacheDir) ↔
    step.SparesCopy cacheDir := by
  rw [SparesCopy]
  cases h : step.env.transfer with
  | failed => simp only [Transfer.IsError, forall_const, keepsCopy_failed h]
  | completed status page => simp only [Transfer.IsError, keepsCopy_completed h]

end SourceStep

/-- An error keeps the cached copy and uses it; the call fails if there is none. -/
def ErrorsKeepCopies (urls : List Bytes) (cacheDir : Bytes) (dir : DirEnv)
    (fetches : Nat → FetchEnv) (disk : Disk) : Prop :=
  ∀ step ∈ buildSteps urls cacheDir dir fetches disk, step.env.transfer.IsError →
    step.KeepsCopy cacheDir ∧ (step.copy cacheDir = none →
      ∃ err, (buildBlocklistFromSources urls cacheDir dir fetches disk).1 = .error err)

/-- Errors keep the copies exactly if each of them finds a copy that it spares. -/
theorem http_error_keeps_copy (urls : List Bytes) (cacheDir : Bytes) (dir : DirEnv)
    (fetches : Nat → FetchEnv) (disk : Disk) :
    (ErrorsKeepCopies urls cacheDir dir fetches disk ↔
      ∀ step ∈ buildSteps urls cacheDir dir fetches disk, step.SparesCopy cacheDir) ∧
    ∀ domains, (buildBlocklistFromSources urls cacheDir dir fetches disk).1 = .ok domains →
      domains = unionDomains ((buildSteps urls cacheDir dir fetches disk).map fun step =>
        (step.content cacheDir).getD []) := by
  refine ⟨⟨fun h step hstep => ?_, fun h step hstep herror => ?_⟩, fun _ => build_eq_ok⟩
  · exact SourceStep.keepsCopy_iff.mp fun herror => (h step hstep herror).1
  · have hkeeps := SourceStep.keepsCopy_iff.mpr (h step hstep) herror
    refine ⟨hkeeps, fun hnone => ?_⟩
    have hgivesUp := hkeeps.2
    rw [hnone] at hgivesUp
    exact build_error hstep hgivesUp

/-- The page of a 404 empties the list and takes the place of the copy, so that the next call, whose
fetch fails, is served the page. -/
theorem http_error_replaces_list :
    let page := ascii "<html>404 Not Found</html>"
    let path := cachePathForUrl (ascii "c") (ascii "u")
    let notFound : Nat → FetchEnv := fun _ => ⟨.completed 404 page, true, true⟩
    let outage : Nat → FetchEnv := fun _ => ⟨.failed, true, true⟩
    let first := buildBlocklistFromSources [ascii "u"] (ascii "c") ⟨true, true, true⟩ notFound
      oneCopy
    domainsOf (ascii "||a.b^") = {ascii "a.b"} ∧ oneCopy path = some (ascii "||a.b^") ∧
      first.1 = .ok ∅ ∧ first.2 path = some page ∧
      (buildBlocklistFromSources [ascii "u"] (ascii "c") ⟨true, true, true⟩ outage
        first.2).1 = .ok ∅ ∧
      ¬ ErrorsKeepCopies [ascii "u"] (ascii "c") ⟨true, true, true⟩ notFound oneCopy := by
  intro page path notFound outage first
  have hcopy : oneCopy path = some (ascii "||a.b^") := by
    simp only [oneCopy, path, Function.update_self]
  refine ⟨by decide +kernel, hcopy, ?_, ?_, ?_, fun h => ?_⟩
  · decide +kernel
  · decide +kernel
  · decide +kernel
  · obtain ⟨⟨hkept, -⟩, -⟩ := h _ List.mem_cons_self (by change 400 ≤ 404; decide)
    revert hkept
    decide +kernel

end Gravastar
