import Gravastar.DnsServer.Forwarding
import Gravastar.DnsServer.Interleaving
import Gravastar.DnsServer.Shutdown
import Gravastar.UpstreamBlocklist.AllOrNothing
import Gravastar.UpstreamBlocklist.UpdaterThread

/-!
# The running program (`main.cpp`)

After the files were loaded, `main` starts the updater, runs the server, stops
the updater and returns. The server's workers, the updater's thread and `main`
take their steps in any order. Seen from the server, the program is a run of
`Service`; seen from the updater, a run of its machine; and it comes to its end.
-/

namespace Gravastar

/-- Where `main` is; from the stop on, with the exit code. -/
inductive MainPhase where
  /-- About to call `updater->Start()`. -/
  | startingUpdater
  /-- About to call `server.Run()`. -/
  | startingServer
  /-- In `server.Run()`, with the workers started. -/
  | serving
  /-- About to call `updater->Stop()`. -/
  | stoppingUpdater (code : Nat)
  /-- In `updater->Stop()`, waiting for the thread. -/
  | joiningUpdater (code : Nat)
  | exited (code : Nat)
  deriving DecidableEq, Repr

/-- `main` waits for the thread of the updater. -/
def MainPhase.joins : MainPhase → Bool
  | .joiningUpdater _ => true
  | .startingUpdater | .startingServer | .serving | .stoppingUpdater _ | .exited _ => false

/-- `main` is about to call `updater->Stop()`. -/
def MainPhase.stops : MainPhase → Bool
  | .stoppingUpdater _ => true
  | .startingUpdater | .startingServer | .serving | .joiningUpdater _ | .exited _ => false

/-- How many moves are left until the exit, where this many are left to the workers and to the
thread of the updater. -/
def MainPhase.toDo (workers updater : Nat) : MainPhase → Nat
  | .startingUpdater | .startingServer | .exited _ => 0
  | .serving => workers + 5
  | .stoppingUpdater _ => 4
  | .joiningUpdater _ => 1 + updater

section
variable {ι : Type}

structure Program (ι : Type) where
  phase : MainPhase
  updater : UpdaterThread
  disk : Disk
  service : Service ι

inductive ProgramEvent (ι : Type) where
  | startUpdater (created : Bool)
  /-- `binds` says whether the socket can be set up. -/
  | startServer (binds : Bool)
  /-- The receiver or a worker takes a step. -/
  | service (e : ServiceEvent ι)
  /-- `StopWorkers` has joined all workers. -/
  | workersJoined
  | stopUpdater
  | updaterJoined
  /-- The thread of the updater is done with `UpdateOnce`. -/
  | updateOnce (env : UpdateEnv)
  | look
  | wakeUp
  /-- Somebody else changes files. -/
  | filesChange (disk : Disk)

inductive ProgramOutput (ι : Type) where
  | none
  | service (out : ServiceOutput ι)
  | updated (ok : Bool)
  deriving DecidableEq

def ServiceEvent.isSetDomains : ServiceEvent ι → Bool
  | .setDomains _ => true
  | .receive _ _ | .stopWorkers | .wakeUp _ | .dequeue _ | .turn _ _ => false

/-- What somebody who watches the server sees. -/
def ServiceOutput.seen : ServiceOutput ι → Option (ServiceOutput ι)
  | .queue out => out.seen.map .queue
  | .turned w d out => some (.turned w d out)

def ProgramOutput.serviceSeen : ProgramOutput ι → Option (ServiceOutput ι)
  | .service out => out.seen
  | .none | .updated _ => Option.none

namespace Program

open UpdaterThread (Sound.running joining_start joining_updated joining_look joining_wakeUp
  thread_eq_none)

variable [DecidableEq ι] [Fintype ι]

/-- What the thread of the updater works on. -/
def updaterState (p : Program ι) : UpdaterState := ⟨p.disk, p.service.shared.blocklist⟩

def setUpdaterState (p : Program ι) (s : UpdaterState) : Program ι :=
  { p with
    disk := s.disk
    service := { p.service with shared := { p.service.shared with blocklist := s.blocklist } } }

/-- A thread that is elsewhere does nothing. -/
def step (server : DnsServer) (u : UpstreamBlocklistUpdater) (p : Program ι) :
    ProgramEvent ι → ProgramOutput ι × Program ι
  | .startUpdater created =>
    match p.phase with
    | .startingUpdater =>
      (.none, { p with phase := .startingServer, updater := (p.updater.start created).2 })
    | _ => (.none, p)
  | .startServer binds =>
    match p.phase with
    | .startingServer =>
      (.none, { p with phase := if binds then .serving else .stoppingUpdater 1 })
    | _ => (.none, p)
  | .service e =>
    if p.phase = .serving ∧ e.isSetDomains = false then
      let (out, service) := p.service.step server e
      (.service out, { p with service })
    else (.none, p)
  | .workersJoined =>
    if p.phase = .serving ∧ p.service.jobs.receiving = false ∧
        ∀ w, p.service.jobs.workers w = .left then
      (.none, { p with phase := .stoppingUpdater 0 })
    else (.none, p)
  | .stopUpdater =>
    match p.phase with
    | .stoppingUpdater code =>
      (.none,
        { p with
          phase := if p.updater.running then .joiningUpdater code else .exited code
          updater := p.updater.stop })
    | _ => (.none, p)
  | .updaterJoined =>
    match p.phase with
    | .joiningUpdater code =>
      if p.updater.thread = some .ended then
        (.none, { p with phase := .exited code, updater := p.updater.join })
      else (.none, p)
    | _ => (.none, p)
  | .updateOnce env =>
    if p.updater.updates then
      let (ok, s) := u.updateOnce p.updaterState env
      (.updated ok, { p.setUpdaterState s with updater := p.updater.updated })
    else (.none, p)
  | .look => (.none, { p with updater := p.updater.look })
  | .wakeUp => (.none, { p with updater := p.updater.wakeUp })
  | .filesChange disk => (.none, { p with disk })

/-- `main` after the files were loaded; without upstream lists there is no updater to start. -/
def init (upstreamMode : Bool) (disk : Disk) (start : ServerState) : Program ι :=
  ⟨if upstreamMode then .startingUpdater else .startingServer, .new, disk,
    ⟨SignalQueue.machine.init, fun _ => .returning, start⟩⟩

def machine (server : DnsServer) (u : UpstreamBlocklistUpdater) (upstreamMode : Bool) (disk : Disk)
    (start : ServerState) : Machine (Program ι) (ProgramEvent ι) (ProgramOutput ι) :=
  ⟨init upstreamMode disk start, step server u⟩

/-! ## One step -/

/-- The event is a move of a thread that `main` waits for, or of `main`. -/
def Moves (p : Program ι) : ProgramEvent ι → Prop
  | .service e => p.phase = .serving ∧ p.service.Moves e
  | .workersJoined =>
    p.phase = .serving ∧ p.service.jobs.receiving = false ∧
      ∀ w, p.service.jobs.workers w = .left
  | .stopUpdater => p.phase.stops = true
  | .updaterJoined => p.phase.joins = true ∧ p.updater.thread = some .ended
  | .updateOnce _ => p.phase.joins = true ∧ p.updater.updates = true
  | .look => p.phase.joins = true ∧ p.updater.thread = some .looking
  | .wakeUp => p.phase.joins = true ∧ p.updater.thread = some (.waiting true)
  | .startUpdater _ | .startServer _ | .filesChange _ => False

instance (p : Program ι) : ∀ e, Decidable (p.Moves e)
  | .service e => inferInstanceAs (Decidable (_ ∧ p.service.Moves e))
  | .workersJoined | .stopUpdater | .updaterJoined | .updateOnce _ | .look | .wakeUp => by
    unfold Moves
    infer_instance
  | .startUpdater _ | .startServer _ | .filesChange _ => inferInstanceAs (Decidable False)

/-- The event of the updater that an event of the program comes to. -/
def updaterEvent (p : Program ι) : ProgramEvent ι → List UpdaterEvent
  | .updateOnce env => if p.updater.updates then [.update env] else []
  | .filesChange disk => [.filesChange disk]
  | .startUpdater _ | .startServer _ | .service _ | .workersJoined | .stopUpdater | .updaterJoined
  | .look | .wakeUp => []

/-- What a step can do, with what it has found out. -/
inductive Step (server : DnsServer) (u : UpstreamBlocklistUpdater) (p : Program ι) :
    ProgramEvent ι → ProgramOutput ι → Program ι → Prop
  | startUpdater (created : Bool) (phase : p.phase = .startingUpdater) :
      Step server u p (.startUpdater created) .none
        { p with phase := .startingServer, updater := (p.updater.start created).2 }
  | startServer (binds : Bool) (phase : p.phase = .startingServer) :
      Step server u p (.startServer binds) .none
        { p with phase := if binds then .serving else .stoppingUpdater 1 }
  | service (e : ServiceEvent ι) (phase : p.phase = .serving) (notSet : e.isSetDomains = false) :
      Step server u p (.service e) (.service (p.service.step server e).1)
        { p with service := (p.service.step server e).2 }
  | workersJoined (phase : p.phase = .serving) (stopped : p.service.jobs.receiving = false)
      (left : ∀ w, p.service.jobs.workers w = .left) :
      Step server u p .workersJoined .none { p with phase := .stoppingUpdater 0 }
  | stopUpdater (code : Nat) (phase : p.phase = .stoppingUpdater code) :
      Step server u p .stopUpdater .none
        { p with
          phase := if p.updater.running then .joiningUpdater code else .exited code
          updater := p.updater.stop }
  | updaterJoined (code : Nat) (phase : p.phase = .joiningUpdater code)
      (ended : p.updater.thread = some .ended) :
      Step server u p .updaterJoined .none
        { p with phase := .exited code, updater := p.updater.join }
  | updateOnce (env : UpdateEnv) (updates : p.updater.updates = true) :
      Step server u p (.updateOnce env) (.updated (u.updateOnce p.updaterState env).1)
        { p.setUpdaterState (u.updateOnce p.updaterState env).2 with updater := p.updater.updated }
  | look : Step server u p .look .none { p with updater := p.updater.look }
  | wakeUp : Step server u p .wakeUp .none { p with updater := p.updater.wakeUp }
  | filesChange (disk : Disk) : Step server u p (.filesChange disk) .none { p with disk }
  | nothing (e : ProgramEvent ι) (still : ¬ p.Moves e) (noUpdate : p.updaterEvent e = []) :
      Step server u p e .none p

theorem step_spec (server : DnsServer) (u : UpstreamBlocklistUpdater) (p : Program ι)
    (e : ProgramEvent ι) : Step server u p e (p.step server u e).1 (p.step server u e).2 := by
  cases e with
  | startUpdater created =>
    rw [step]
    cases hphase : p.phase with
    | startingUpdater => exact .startUpdater created hphase
    | startingServer | serving | stoppingUpdater | joiningUpdater | exited =>
      exact .nothing _ nofun rfl
  | startServer binds =>
    rw [step]
    cases hphase : p.phase with
    | startingServer => exact .startServer binds hphase
    | startingUpdater | serving | stoppingUpdater | joiningUpdater | exited =>
      exact .nothing _ nofun rfl
  | service e =>
    rw [step]
    split_ifs with h
    · exact .service e h.1 h.2
    · refine .nothing _ (fun moves => h ⟨moves.1, ?_⟩) rfl
      cases e with
      | setDomains => exact moves.2.elim
      | receive | stopWorkers | wakeUp | dequeue | turn => rfl
  | workersJoined =>
    rw [step]
    split_ifs with h
    · exact .workersJoined h.1 h.2.1 h.2.2
    · exact .nothing _ h rfl
  | stopUpdater =>
    rw [step]
    cases hphase : p.phase with
    | stoppingUpdater code => exact .stopUpdater code hphase
    | startingUpdater | startingServer | serving | joiningUpdater | exited =>
      exact .nothing _ (fun moves => by simp [Moves, hphase, MainPhase.stops] at moves) rfl
  | updaterJoined =>
    rw [step]
    cases hphase : p.phase with
    | joiningUpdater code =>
      dsimp only
      split_ifs with h
      · exact .updaterJoined code hphase h
      · exact .nothing _ (fun moves => h moves.2) rfl
    | startingUpdater | startingServer | serving | stoppingUpdater | exited =>
      exact .nothing _ (fun moves => by simp [Moves, hphase, MainPhase.joins] at moves) rfl
  | updateOnce env =>
    rw [step]
    split_ifs with h
    · exact .updateOnce env h
    · exact .nothing _ (fun moves => h moves.2) (if_neg h)
  | look => exact .look
  | wakeUp => exact .wakeUp
  | filesChange disk => exact .filesChange disk

/-! ## The server in the program -/

variable {server : DnsServer} {u : UpstreamBlocklistUpdater}

/-- What a call of `UpdateOnce` does to the blocklist. -/
theorem updateOnce_blocklist (u : UpstreamBlocklistUpdater) (s : UpdaterState) (env : UpdateEnv) :
    (u.updateOnce s env).2.blocklist = s.blocklist ∨
      ∃ domains, (u.updateOnce s env).2.blocklist = s.blocklist.map (·.setDomains domains) := by
  rw [UpstreamBlocklistUpdater.updateOnce]
  split_ifs
  · exact .inl rfl
  · cases buildBlocklistFromSources u.urls u.cacheDir env.cacheDirAgain env.fetches s.disk with
    | mk result disk =>
      cases result with
      | error err => exact .inl rfl
      | ok domains =>
        dsimp only
        cases u.customDomains env with
        | error err => exact .inl rfl
        | ok custom =>
          dsimp only
          cases writeBlocklistToml disk u.outputPath (domains ∪ custom) env.tmpOpens
            env.renames with
          | mk result disk =>
            cases result with
            | error err => exact .inl rfl
            | ok _ => exact .inr ⟨_, rfl⟩

/-- The server in a step of the program takes one step or none. -/
theorem Step.service_run {p p' : Program ι} {e : ProgramEvent ι} {out : ProgramOutput ι}
    (h : Step server u p e out p') (start : ServerState) :
    let below := (Service.machine server start).startingAt p.service
    ∃ ds, p'.service = below.after ds ∧
      below.observed (fun entry => entry.2.seen) ds = out.serviceSeen.toList := by
  intro below
  cases h with
  | service e =>
    refine ⟨[e], rfl, ?_⟩
    rw [Machine.observed_cons]
    exact List.append_nil _
  | updateOnce env =>
    rcases updateOnce_blocklist u p.updaterState env with hkept | ⟨domains, hset⟩
    · refine ⟨[], ?_, rfl⟩
      dsimp only [setUpdaterState]
      rw [hkept]
      rfl
    · refine ⟨[.setDomains domains], ?_, rfl⟩
      dsimp only [setUpdaterState]
      rw [hset]
      rfl
  | startUpdater | startServer | workersJoined | stopUpdater | updaterJoined | look | wakeUp
  | filesChange | nothing => exact ⟨[], rfl, rfl⟩

/-! ## The updater in the program -/

/-- The workers do not change the blocklist. -/
theorem turn_blocklist {d : Datagram} {env : QueryEnv} {s s' : ServerState} {stage stage' : Stage}
    {out : TurnOutput} (h : server.Turn d env s stage out stage' s') :
    s'.blocklist = s.blocklist := by
  cases h <;> rfl

theorem service_blocklist {s s' : Service ι} {e : ServiceEvent ι} {out : ServiceOutput ι}
    (h : Service.Step server s e out s') (he : e.isSetDomains = false) :
    s'.shared.blocklist = s.shared.blocklist := by
  cases h with
  | queue | nothing => rfl
  | turned handling going turn => exact turn_blocklist turn
  | setDomains => cases he

theorem Step.updaterState {p p' : Program ι} {e : ProgramEvent ι} {out : ProgramOutput ι}
    (h : Step server u p e out p') (hp : p.service.jobs.Attended) (start : UpdaterState) :
    p'.updaterState = ((u.machine start).startingAt p.updaterState).after (p.updaterEvent e) := by
  cases h with
  | service e phase notSet =>
    have hkept := service_blocklist (Service.step_spec server hp e) notSet
    rw [Program.updaterState, hkept]
    rfl
  | updateOnce env updates =>
    rw [updaterEvent, if_pos updates]
    rfl
  | nothing e still noUpdate =>
    rw [noUpdate]
    rfl
  | startUpdater | startServer | workersJoined | stopUpdater | updaterJoined | look | wakeUp
  | filesChange => rfl

section
variable (server : DnsServer) (u : UpstreamBlocklistUpdater) (upstreamMode : Bool) (disk : Disk)
  (start : ServerState)

theorem simulates_service :
    (machine server u upstreamMode disk start : Machine (Program ι) _ _).Simulates
      (Service.machine server start)
      (fun p s => p.service = s) (fun entry => entry.2.serviceSeen)
      (fun entry => entry.2.seen) where
  init := rfl
  step := by
    rintro es _ e rfl
    exact (step_spec server u _ e).service_run start

variable (es : List (ProgramEvent ι))

theorem exists_service_run :
    ∃ ds, ((machine server u upstreamMode disk start).after es).service =
        (Service.machine server start).after ds ∧
      (Service.machine server start).observed (fun entry => entry.2.seen) ds =
        (machine server u upstreamMode disk start).observed (fun entry => entry.2.serviceSeen) es :=
  (simulates_service server u upstreamMode disk start).exists_run es

theorem run_attended :
    ((machine server u upstreamMode disk start).after es).service.jobs.Attended := by
  obtain ⟨ds, hafter, -⟩ := exists_service_run server u upstreamMode disk start es
  rw [hafter]
  exact Service.run_attended server start ds

/-- What the updater does in a run of the program, and what happens to its files. -/
def updaterEvents (es : List (ProgramEvent ι)) : List UpdaterEvent :=
  (machine server u upstreamMode disk start).eventsBelow updaterEvent es

/-- The files and the blocklist are where the updater's machine has brought them. -/
theorem run_updaterState :
    ((machine server u upstreamMode disk start).after es).updaterState =
      (u.machine ⟨disk, start.blocklist⟩).after
        (updaterEvents server u upstreamMode disk start es) :=
  Machine.after_eventsBelow (fun (p : Program ι) s => p.updaterState = s) rfl (by
    rintro es e _ rfl
    exact (step_spec server u _ e).updaterState (run_attended server u upstreamMode disk start es)
      _) es

end

/-! ## Every run -/

/-- The updater's thread is where `main` may expect it, and who has stopped serving has joined the
workers. -/
structure Sound (p : Program ι) : Prop where
  updater : p.updater.Sound
  joining : p.updater.joining = p.phase.joins
  exited : ∀ code, p.phase = .exited code → p.updater.thread = none
  left : ∀ w, p.phase = .stoppingUpdater 0 ∨ p.phase = .joiningUpdater 0 ∨ p.phase = .exited 0 →
    p.service.jobs.workers w = .left

theorem Step.sound {p p' : Program ι} {e : ProgramEvent ι} {out : ProgramOutput ι}
    (h : Step server u p e out p') (hp : p.Sound) : p'.Sound := by
  obtain ⟨hupdater, hjoining, hexited, hleft⟩ := hp
  cases h with
  | startUpdater created phase =>
    rw [phase] at hjoining
    exact ⟨hupdater.start hjoining created, (joining_start _ _).trans hjoining, nofun, nofun⟩
  | startServer binds phase =>
    rw [phase] at hjoining
    cases binds <;> exact ⟨hupdater, hjoining, nofun, nofun⟩
  | service e phase notSet =>
    refine ⟨hupdater, hjoining, hexited, fun w h => ?_⟩
    dsimp only at h
    simp [phase] at h
  | workersJoined phase stopped left =>
    rw [phase] at hjoining
    exact ⟨hupdater, hjoining, nofun, fun w _ => left w⟩
  | stopUpdater code phase =>
    rw [phase] at hjoining
    have hleft' : code = 0 → ∀ w, p.service.jobs.workers w = .left :=
      fun hcode w => hleft w (.inl (hcode ▸ phase))
    generalize p.updater = t at hupdater hjoining
    cases hupdater with
    | idle =>
      refine ⟨.idle, rfl, fun _ _ => rfl, fun w h => hleft' ?_ w⟩
      simpa using h
    | running alive =>
      refine ⟨(Sound.running alive).stop, rfl, nofun, fun w h => hleft' ?_ w⟩
      simpa using h
    | joining => cases hjoining
  | updaterJoined code phase ended =>
    have hleft' : code = 0 → ∀ w, p.service.jobs.workers w = .left :=
      fun hcode w => hleft w (.inr (.inl (hcode ▸ phase)))
    rw [phase] at hjoining
    have hjoin : p.updater.join = { p.updater with thread := none, joining := false } :=
      if_pos ⟨hjoining, ended⟩
    refine ⟨hupdater.join, ?_, fun _ _ => ?_, fun w h => hleft' ?_ w⟩
    · rw [hjoin]
      rfl
    · rw [hjoin]
    · simpa using h
  | updateOnce env updates =>
    refine ⟨hupdater.updated, (joining_updated _).trans hjoining, fun code h => ?_, hleft⟩
    exact (thread_eq_none (hexited code h)).1
  | look =>
    refine ⟨hupdater.look, (joining_look _).trans hjoining, fun code h => ?_, hleft⟩
    exact (thread_eq_none (hexited code h)).2.1
  | wakeUp =>
    refine ⟨hupdater.wakeUp, (joining_wakeUp _).trans hjoining, fun code h => ?_, hleft⟩
    exact (thread_eq_none (hexited code h)).2.2
  | filesChange disk => exact ⟨hupdater, hjoining, hexited, hleft⟩
  | nothing => exact ⟨hupdater, hjoining, hexited, hleft⟩

/-! ## The end -/

/-- `Run` has called `StopWorkers`, or could not start the server, and `main` will exit with this
code. -/
def Ends (code : Nat) (p : Program ι) : Prop :=
  (code = 0 ∧ p.phase = .serving ∧ p.service.jobs.receiving = false) ∨
    p.phase = .stoppingUpdater code ∨ p.phase = .joiningUpdater code ∨ p.phase = .exited code

/-- How many moves are left until the exit. -/
def toDo (p : Program ι) : Nat := p.phase.toDo p.service.toDo p.updater.toDo

/-- All that is known from then on. -/
structure Ending (code : Nat) (p : Program ι) : Prop where
  sound : p.Sound
  ends : p.Ends code
  stopped : p.phase = .serving → p.service.jobs.Stopped

theorem Step.ending {p p' : Program ι} {e : ProgramEvent ι} {out : ProgramOutput ι}
    (h : Step server u p e out p') {code : Nat} (hp : p.Ending code) : p'.Ending code := by
  have hsound := h.sound hp.sound
  obtain ⟨-, hends, hstopped⟩ := hp
  cases h with
  | startUpdater created phase => simp [Ends, phase] at hends
  | startServer binds phase => simp [Ends, phase] at hends
  | service e phase =>
    have hservice := ((Service.step_spec server (hstopped phase).attended e).stopped
      (hstopped phase)).1
    refine ⟨hsound, ?_, fun _ => hservice⟩
    rcases hends with ⟨hcode, -, -⟩ | h | h | h
    · exact .inl ⟨hcode, phase, hservice.receiving⟩
    all_goals simp [phase] at h
  | workersJoined phase stopped left =>
    refine ⟨hsound, ?_, nofun⟩
    rcases hends with ⟨rfl, -, -⟩ | h | h | h
    · exact .inr (.inl rfl)
    all_goals simp [phase] at h
  | stopUpdater code' phase =>
    have hcode : code' = code := by simpa [Ends, phase] using hends
    refine ⟨hsound, ?_, fun h => ?_⟩
    · dsimp only [Ends]
      split_ifs
      · exact .inr (.inr (.inl (by rw [hcode])))
      · exact .inr (.inr (.inr (by rw [hcode])))
    · dsimp only at h
      split_ifs at h
  | updaterJoined code' phase ended =>
    have hcode : code' = code := by simpa [Ends, phase] using hends
    exact ⟨hsound, .inr (.inr (.inr (by rw [hcode]))), nofun⟩
  | updateOnce | look | wakeUp | filesChange | nothing => exact ⟨hsound, hends, hstopped⟩

/-- The thread of the updater counts while `main` waits for it. -/
theorem toDo_updater {phase : MainPhase} {workers updater updater' : Nat} {moves : Prop}
    (h : phase.joins = true → updater' ≤ updater ∧ (moves → updater' < updater)) :
    phase.toDo workers updater' ≤ phase.toDo workers updater ∧
      (phase.joins = true ∧ moves → phase.toDo workers updater' < phase.toDo workers updater) := by
  cases phase with
  | joiningUpdater code =>
    obtain ⟨hle, hlt⟩ := h rfl
    exact ⟨Nat.add_le_add_left hle 1, fun moves => Nat.add_lt_add_left (hlt moves.2) 1⟩
  | startingUpdater | startingServer | serving | stoppingUpdater | exited =>
    exact ⟨le_rfl, fun moves => absurd moves.1 nofun⟩

omit [DecidableEq ι] [Fintype ι] in
theorem running_of_joins {p : Program ι} (hp : p.Sound) (h : p.phase.joins = true) :
    p.updater.running = false := by
  have hjoining := hp.joining.trans h
  have hupdater := hp.updater
  generalize p.updater = t at hjoining hupdater
  cases hupdater with
  | idle | running => cases hjoining
  | joining => rfl

/-- Every move brings the exit nearer, and nothing takes it further away. -/
theorem Step.toDo {p p' : Program ι} {e : ProgramEvent ι} {out : ProgramOutput ι}
    (h : Step server u p e out p') {code : Nat} (hp : p.Ending code) :
    p'.toDo ≤ p.toDo ∧ (p.Moves e → p'.toDo < p.toDo) := by
  have hlt : p'.toDo < p.toDo → p'.toDo ≤ p.toDo ∧ (p.Moves e → p'.toDo < p.toDo) :=
    fun h => ⟨h.le, fun _ => h⟩
  obtain ⟨hsound, hends, hstopped⟩ := hp
  cases h with
  | startUpdater created phase => simp [Ends, phase] at hends
  | startServer binds phase => simp [Ends, phase] at hends
  | service e phase =>
    obtain ⟨hle, hlt'⟩ := (Service.step_spec server (hstopped phase).attended e).toDo
      (hstopped phase)
    simp only [Program.toDo, phase]
    exact ⟨Nat.add_le_add_right hle 5, fun moves => Nat.add_lt_add_right (hlt' moves.2) 5⟩
  | workersJoined phase =>
    apply hlt
    simp only [Program.toDo, phase, MainPhase.toDo]
    omega
  | stopUpdater code' phase =>
    apply hlt
    have hle := p.updater.stop.toDo_le
    simp only [Program.toDo, phase]
    split_ifs <;> simp only [MainPhase.toDo] <;> omega
  | updaterJoined code' phase =>
    apply hlt
    simp only [Program.toDo, phase, MainPhase.toDo]
    omega
  | updateOnce env updates => exact toDo_updater fun _ => p.updater.toDo_updated
  | look => exact toDo_updater fun h => UpdaterThread.toDo_look (running_of_joins hsound h)
  | wakeUp => exact toDo_updater fun h => UpdaterThread.toDo_wakeUp (running_of_joins hsound h)
  | filesChange => exact ⟨le_rfl, nofun⟩
  | nothing e still => exact ⟨le_rfl, fun moves => absurd moves still⟩

section
variable (server : DnsServer) (u : UpstreamBlocklistUpdater) (upstreamMode : Bool) (disk : Disk)
  (start : ServerState)

theorem shrinks (code : Nat) :
    (machine server u upstreamMode disk start : Machine (Program ι) _ _).Shrinks (Ending code)
      Moves Program.toDo where
  keep p e hp := (step_spec server u p e).ending hp
  smaller p e hp := ((step_spec server u p e).toDo hp).2
  le p e hp := ((step_spec server u p e).toDo hp).1

theorem run_sound (es : List (ProgramEvent ι)) :
    ((machine server u upstreamMode disk start).after es).Sound := by
  apply Machine.invariant
  · cases upstreamMode <;> exact ⟨.idle, rfl, nofun, nofun⟩
  · exact fun p e hp => (step_spec server u p e).sound hp

/-- As long as the program has not exited, somebody can go on, and not for a timer's sake. -/
theorem Ending.exists_move {code : Nat} {p : Program ι} (hp : p.Ending code)
    (hrunning : p.phase ≠ .exited code) : ∃ e, p.Moves e := by
  rcases hp.ends with ⟨-, hphase, hreceiving⟩ | hphase | hphase | hphase
  · by_cases hleft : ∀ w, p.service.jobs.workers w = .left
    · exact ⟨.workersJoined, hphase, hreceiving, hleft⟩
    · obtain ⟨w, hw⟩ := not_forall.mp hleft
      have hstopped := hp.stopped hphase
      rcases Service.moves_of_stopped hstopped hw with hmove | hmove
      · exact ⟨.service (.dequeue w), hphase, hmove⟩
      · exact ⟨.service (.turn w ⟨0, noReply, 0, 0⟩), hphase, hmove _⟩
  · exact ⟨.stopUpdater, by rw [Moves, hphase]; rfl⟩
  · have hjoins : p.phase.joins = true := by rw [hphase]; rfl
    rcases hp.sound.updater.goes_on (hp.sound.joining.trans hjoins) with
      (hupdates | hlooking | hwaiting) | hended
    · exact ⟨.updateOnce (UpstreamBlocklistUpdater.fetching ⟨.failed, true, true⟩), hjoins,
        hupdates⟩
    · exact ⟨.look, hjoins, hlooking⟩
    · exact ⟨.wakeUp, hjoins, hwaiting⟩
    · exact ⟨.updaterJoined, hjoins, hended⟩
  · exact absurd hphase hrunning

variable (es : List (ProgramEvent ι))

/-- What the server does in a run of the program, the newest first. -/
def serviceOutputs : List (ServiceOutput ι) :=
  (machine server u upstreamMode disk start).observed (fun entry => entry.2.serviceSeen) es

/-- The datagrams that the program received. -/
def received : List Datagram :=
  (serviceOutputs server u upstreamMode disk start es).filterMap ServiceOutput.received

/-- The datagrams that it settled, with the answers sent. -/
def settled : List (Datagram × Option Answer) :=
  (serviceOutputs server u upstreamMode disk start es).filterMap ServiceOutput.settled

omit [DecidableEq ι] [Fintype ι] in
theorem seen_bind_received (out : ServiceOutput ι) :
    out.seen.bind ServiceOutput.received = out.received := by
  cases out with
  | queue out => cases out <;> rfl
  | turned w d out => rfl

omit [DecidableEq ι] [Fintype ι] in
theorem seen_bind_settled (out : ServiceOutput ι) :
    out.seen.bind ServiceOutput.settled = out.settled := by
  cases out with
  | queue out => cases out <;> rfl
  | turned w d out => rfl

/-- The server in the program is a run of the server alone. -/
theorem exists_service_history :
    ∃ ds, ((machine server u upstreamMode disk start).after es).service =
        (Service.machine server start).after ds ∧
      received server u upstreamMode disk start es = Service.received server start ds ∧
      settled server u upstreamMode disk start es = Service.settled server start ds := by
  obtain ⟨ds, hafter, hseen⟩ := exists_service_run server u upstreamMode disk start es
  refine ⟨ds, hafter, ?_, ?_⟩
  · have h := congrArg (List.filterMap ServiceOutput.received) hseen
    rw [Machine.filterMap_observed] at h
    simp only [seen_bind_received] at h
    exact h.symm
  · have h := congrArg (List.filterMap ServiceOutput.settled) hseen
    rw [Machine.filterMap_observed] at h
    simp only [seen_bind_settled] at h
    exact h.symm

theorem run_ending {code : Nat}
    (ends : ((machine server u upstreamMode disk start).after es).Ends code) :
    ((machine server u upstreamMode disk start).after es).Ending code := by
  refine ⟨run_sound server u upstreamMode disk start es, ends, fun hserving => ?_⟩
  have hreceiving : ((machine server u upstreamMode disk start).after es).service.jobs.receiving =
      false := by
    rcases ends with ⟨-, -, h⟩ | h | h | h
    · exact h
    all_goals simp [hserving] at h
  obtain ⟨ds, hafter, -⟩ := exists_service_run server u upstreamMode disk start es
  rw [hafter] at hreceiving ⊢
  exact (Service.received_append server start ds hreceiving []).2

/-- Once `StopWorkers` has run, or the server could not be started, the program exits: until then
somebody can go on without waiting for the timer, and the moves are no more than ten for each
datagram in the queue and each worker, and five; whatever the clients, the network and the timer do
in between. A signal alone does not bring this about, as `Run` does not look at `g_running` while
datagrams wait; and an exchange with the upstreams is one move, which is taken to end. At the exit
the thread of the updater is joined, and with exit code 0 the workers have left and every datagram
received is settled. -/
theorem program_exits [Nonempty ι] (before later : List (ProgramEvent ι)) (code : Nat)
    (ends : ((machine server u upstreamMode disk start).after before).Ends code) :
    let p := (machine server u upstreamMode disk start).after before
    let p' := (machine server u upstreamMode disk start).after (later ++ before)
    ((machine server u upstreamMode disk start).startingAt p).moves Moves later ≤
        10 * (p.service.jobs.queue.length + Fintype.card ι) + 5 ∧
      (p'.phase ≠ .exited code → ∃ e, p'.Moves e) ∧
      (p'.phase = .exited code → p'.updater.thread = none ∧
        (code = 0 → (∀ w, p'.service.jobs.workers w = .left) ∧
          ((settled server u upstreamMode disk start (later ++ before)).map Prod.fst).Perm
            (received server u upstreamMode disk start (later ++ before)))) := by
  intro p p'
  have hshrinks := @shrinks ι _ _ server u upstreamMode disk start code
  have hstart : p.Ending code := run_ending server u upstreamMode disk start before ends
  have hending : p'.Ending code := hshrinks.keeps_append hstart later
  refine ⟨(hshrinks.moves_le hstart later).trans ?_, hending.exists_move, fun hexited => ?_⟩
  · have hworkers := p.service.toDo_le
    have hupdater := p.updater.toDo_le
    rw [Program.toDo]
    cases p.phase <;> simp only [MainPhase.toDo] <;> omega
  · refine ⟨hending.sound.exited code hexited, fun hcode => ?_⟩
    subst hcode
    have hleft : ∀ w, p'.service.jobs.workers w = .left :=
      fun w => hending.sound.left w (.inr (.inr hexited))
    refine ⟨hleft, ?_⟩
    obtain ⟨ds, hafter, hreceived, hsettled⟩ := exists_service_history server u upstreamMode disk
      start (later ++ before)
    obtain ⟨w⟩ := ‹Nonempty ι›
    rw [hreceived, hsettled]
    refine Service.settled_perm server start ds (w := w) ?_ fun v => ?_
    · rw [← hafter]
      exact hleft w
    · rw [← hafter, hleft v]
      rfl

/-! ## Which blocklist a query meets -/

/-- The sinkhole answers exactly the blocked names. -/
theorem source_of_answerLocally {server : DnsServer} {blocklist : Option Blocklist}
    {header : DnsHeader} {question : DnsQuestion} {result : ResolveResult}
    (h : server.answerLocally blocklist header question = some result) :
    result.source = .resolveBlocklist ↔ isBlockedBy blocklist question.qname = true := by
  cases hb : isBlockedBy blocklist question.qname with
  | true =>
    rw [answerLocally_blocked header hb] at h
    obtain rfl := Option.some.inj h
    simp [sinkholeResult]
  | false =>
    cases hr : server.localRecords.resolve question.qname question.qtype with
    | none => simp [answerLocally_none header hb hr] at h
    | some r =>
      rw [answerLocally_record header hb hr] at h
      obtain rfl := Option.some.inj h
      simp

/-- A turn in the program is a turn of one of its workers. -/
theorem Step.exists_turn {server : DnsServer} {u : UpstreamBlocklistUpdater} {p p' : Program ι}
    {e : ProgramEvent ι} {programOut : ProgramOutput ι} (h : Step server u p e programOut p')
    (hp : p.service.jobs.Attended) {w : ι} {d : Datagram} {out : TurnOutput}
    (hout : programOut = .service (.turned w d out)) :
    ∃ env stage s', server.Turn d env p.service.shared (p.service.stages w) out stage s' := by
  cases h with
  | service e =>
    have hspec := Service.step_spec server hp e
    have hservice := ProgramOutput.service.inj hout
    generalize p.service.step server e = r at hspec hservice
    obtain ⟨serviceOut, service⟩ := r
    subst hservice
    cases hspec with
    | turned handling going turn => exact ⟨_, _, _, turn⟩
  | startUpdater | startServer | workersJoined | stopUpdater | updaterJoined | updateOnce | look
  | wakeUp | filesChange | nothing => cases hout

/-- At any point of any run the blocklist is the one that the updates finished so far have left, and
the last complete one if these have read their sources; and the turn in which a worker parses a
datagram answers it with the sinkhole exactly if this blocklist blocks the name. -/
theorem judged_by_last_update
    (hout : u.outputPath = joinPath u.cacheDir (ascii "blocklist.generated.toml"))
    (live : Blocklist) (cache : Option DnsCache) :
    let p := (machine server u upstreamMode disk ⟨some live, cache⟩).after es
    let updates := updaterEvents server u upstreamMode disk ⟨some live, cache⟩ es
    let m := u.machine ⟨disk, some live⟩
    ∃ list : Blocklist, p.service.shared.blocklist = some list ∧
      (m.after updates).blocklist = some list ∧
      (m.Along (UpstreamBlocklistUpdater.UpdateMeets fun s env =>
          u.CanUpdate s.disk env → u.SourcesRead s.disk env) updates →
        list.domains = u.lastComplete disk live updates) ∧
      ∀ e w d out, (p.step server u e).1 = .service (.turned w d out) →
        p.service.stages w = .parsing →
        ((∃ a, out = .resolved a ∧ a.result.source = .resolveBlocklist) ↔
          ∃ job, parsedJob d.packet = some job ∧ list.isBlocked job.question.qname = true) := by
  intro p updates m
  have hstate : p.service.shared.blocklist = (m.after updates).blocklist :=
    congrArg UpdaterState.blocklist
      (run_updaterState server u upstreamMode disk ⟨some live, cache⟩ es)
  obtain ⟨list, hlist⟩ := Option.isSome_iff_exists.mp
    (UpstreamBlocklistUpdater.live_after hout disk live updates)
  have hblocklist : p.service.shared.blocklist = some list := hstate.trans hlist
  refine ⟨list, hblocklist, hlist, fun read => ?_, fun e w d out hturned hstage => ?_⟩
  · have hcomplete := UpstreamBlocklistUpdater.live_eq_lastComplete hout
      ((UpstreamBlocklistUpdater.along_allOrNothing_iff hout disk live _).mpr read)
    exact congrArg Blocklist.domains (Option.some.inj (hlist.symm.trans hcomplete))
  have hattended : p.service.jobs.Attended := run_attended server u upstreamMode disk _ es
  have hturn := (step_spec server u p e).exists_turn hattended hturned
  rw [hstage] at hturn
  obtain ⟨env, stage, s', hturn⟩ := hturn
  cases hturn with
  | refused unparsed => simp [unparsed]
  | answered asks found =>
    cases asks with
    | client parsed =>
      rw [hblocklist] at found
      simp [parsed, source_of_answerLocally found, isBlockedBy]
  | waits asks notFound =>
    cases asks with
    | client parsed =>
      rw [hblocklist] at notFound
      have hfree := (answerLocally_eq_none.mp notFound).1
      rw [isBlockedBy] at hfree
      simp [parsed, hfree]

end

/-! ## Two runs -/

def idleProgram : Machine (Program Unit) (ProgramEvent Unit) (ProgramOutput Unit) :=
  machine (plainServer false) UpstreamBlocklistUpdater.oneList false (fun _ => none)
    (.initial none none)

/-- A datagram that does not parse is in the queue when the stop comes. -/
def idleStop : List (ProgramEvent Unit) :=
  [.service .stopWorkers, .service (.receive Service.badDatagram ∅), .startServer true]

/-- It is settled on the way out. -/
def idleExit : List (ProgramEvent Unit) :=
  [.stopUpdater, .workersJoined, .service (.dequeue ()), .service (.turn () ⟨0, noReply, 0, 0⟩),
    .service (.turn () ⟨0, noReply, 0, 0⟩), .service (.dequeue ())]

theorem program_exits_idle :
    (idleProgram.startingAt (idleProgram.after idleStop)).moves Moves idleExit ≤ 25 ∧
      (idleProgram.after (idleExit ++ idleStop)).updater.thread = none := by
  have ends : (idleProgram.after idleStop).Ends 0 := .inl ⟨rfl, rfl, rfl⟩
  have hphase : (idleProgram.after (idleExit ++ idleStop)).phase = .exited 0 := by decide +kernel
  have hsize : 10 * ((idleProgram.after idleStop).service.jobs.queue.length + Fintype.card Unit) +
      5 ≤ 25 := by decide
  obtain ⟨hmoves, -, hexited⟩ := program_exits (plainServer false)
    UpstreamBlocklistUpdater.oneList false (fun _ => none) (.initial none none) idleStop idleExit 0
    ends
  exact ⟨hmoves.trans hsize, (hexited hphase).1⟩

/-- The name `a` is blocked from the start, and a failed update leaves it so. -/
theorem judged_by_last_update_failed :
    let m : Machine (Program Unit) _ _ := machine (plainServer false)
      UpstreamBlocklistUpdater.oneList true (fun _ => none) ⟨some ⟨{[97]}⟩, none⟩
    let es : List (ProgramEvent Unit) := [.service (.dequeue ()),
      .service (.receive ⟨plainQuery 7 [97] 1 1, .replicate 4 10, 5353⟩ ∅),
      .updateOnce (UpstreamBlocklistUpdater.fetching ⟨.failed, true, true⟩), .startServer true,
      .startUpdater true]
    ∃ list : Blocklist, (m.after es).service.shared.blocklist = some list ∧
      list.isBlocked [97] = true := by
  intro m es
  obtain ⟨list, hblocklist, -, -, hturn⟩ := judged_by_last_update (plainServer false)
    UpstreamBlocklistUpdater.oneList true (fun _ => none) es rfl ⟨{[97]}⟩ none
  let d : Datagram := ⟨plainQuery 7 [97] 1 1, .replicate 4 10, 5353⟩
  let a : Answer := ⟨plainJob, ⟨sinkhole InetPton.own plainJob.header plainJob.question,
    .resolveBlocklist, []⟩, []⟩
  have hout : ((m.after es).step (plainServer false) UpstreamBlocklistUpdater.oneList
      (.service (.turn () ⟨0, noReply, 0, 0⟩))).1 = .service (.turned () d (.resolved a)) := by
    decide +kernel
  obtain ⟨job, hjob, hblocked⟩ := (hturn _ () d _ hout (by decide +kernel)).mp ⟨a, rfl, rfl⟩
  have hplain : parsedJob d.packet = some plainJob := by decide +kernel
  obtain rfl := Option.some.inj (hplain.symm.trans hjob)
  exact ⟨list, hblocklist, hblocked⟩

end Program

end

end Gravastar
