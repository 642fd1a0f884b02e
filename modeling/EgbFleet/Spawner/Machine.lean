import EgbFleet.Support.Dicts
import EgbFleet.Support.Runs
import Mathlib.Logic.Function.Basic

/-!
# Spawner — the machine

`FleetSpawner` starts and stops fleet adapters, each a process with a temporary configuration file
and a `FleetAdapterProcessManager`.  Its callbacks run one at a time, on the main thread; a signal
handler may run between any two of their steps, and what it interrupts never resumes, since the
handler ends by raising `SystemExit`: `main` then runs `cleanup` once more and exits.

An action lets the program take one step, to each of whose calls the environment answers with an
`Outcome`; or lets a request arrive, the timer tick, a process die, a signal arrive, or `spin`
return.  Chargers, patterns and maps only go into the configuration files, and log messages into
logs; both are left out.
-/

namespace EgbFleet.Spawner

/-! ### Managers -/

/-- A process that has been spawned. -/
structure Process where
  alive : Bool := true
  /-- Whether it has been sent `SIGTERM`. -/
  signalled : Bool := false
  deriving DecidableEq

/-- A `FleetAdapterProcessManager`, of which `start` is called at most once, with the process it has
spawned. -/
structure FleetAdapterProcessManager where
  fleetName : String := ""
  /-- Whether the file `_create_fleet_config_file` made exists. -/
  configFile : Bool := false
  spawned : Option Process := none
  /-- Whether `self.process` is not `None`. -/
  process : Bool := false
  deriving DecidableEq

/-- How a call turns out.  What fails late has had its effect. -/
inductive Outcome where
  | ok
  | raises (message : String)
  | raisesLate (message : String)
  deriving DecidableEq

/-- Where `stop` is: before it sends `SIGTERM`, waiting for the process to terminate, before it
deletes the file, and after. -/
inductive StopStage where
  | kill
  | wait
  | unlink
  | finish
  deriving DecidableEq

namespace FleetAdapterProcessManager

variable (m : FleetAdapterProcessManager)

/-- Its process is running. -/
def running : Bool := m.spawned.any Process.alive

/-- Its process is running, and has not been sent a termination signal. -/
def loose : Bool := m.spawned.any fun p => p.alive && !p.signalled

/-- `is_running`. -/
def isRunning : Bool := m.process && m.running

def spawn : FleetAdapterProcessManager := { m with spawned := some {}, process := true }

def die : FleetAdapterProcessManager :=
  { m with spawned := m.spawned.map fun p => { p with alive := false } }

def signal : FleetAdapterProcessManager :=
  { m with spawned := m.spawned.map fun p => { p with signalled := true } }

/-- The next step of `stop`: where it goes on, or what it returns.  Both of its waits, and the
`SIGKILL` between them, are one: it raises if the process outlasts them. -/
def stop : Outcome → StopStage → FleetAdapterProcessManager → FleetAdapterProcessManager ×
    (StopStage ⊕ Bool)
  | .ok, .kill, m => if m.process then (m.signal, .inl .wait) else (m, .inr true)
  | _, .kill, m => (m, .inr !m.process)
  | .ok, .wait, m => (m, .inl (if m.running then .wait else .unlink))
  | .ok, .unlink, m => ({ m with configFile := false }, .inl .finish)
  | .ok, .finish, m => ({ m with process := false }, .inr true)
  | _, .wait, m | _, .unlink, m | _, .finish, m => (m, .inr false)

end FleetAdapterProcessManager

/-! ### Callbacks -/

/-- The number of a manager. -/
abbrev ManagerId := Nat

/-- The response of a batch service. -/
structure Response where
  success : List Bool := []
  messages : List String := []
  deriving DecidableEq

def Response.append (success : Bool) (message : String) (r : Response) : Response :=
  ⟨r.success ++ [success], r.messages ++ [message]⟩

/-- What the callbacks do with an exception. -/
def Response.except (requested : Nat) (message : String) (r : Response) : Response :=
  if r.success.isEmpty then ⟨List.replicate requested false, List.replicate requested message⟩
  else r

/-- Where `start_fleet_adapters_callback` is in an entry: manager `i` has been made, has spawned its
process, or has returned from `start` with success. -/
inductive StartStage where
  | next
  | made (i : ManagerId)
  | spawned (i : ManagerId)
  | started (i : ManagerId)
  deriving DecidableEq

/-- The manager whose process is running and not yet recorded. -/
def StartStage.pending? : StartStage → Option ManagerId
  | .spawned i | .started i => some i
  | .next | .made _ => none

/-- Where the main thread is. -/
inductive Control where
  | spinning
  /-- `start_fleet_adapters_callback`: how many entries it was given, and those it is left with. -/
  | starting (requested : Nat) (entries : List String) (stage : StartStage) (response : Response)
  /-- `stop_fleet_adapters_callback`, and the manager it is stopping. -/
  | stopping (requested : Nat) (names : List String) (stage : Option (ManagerId × StopStage))
      (response : Response)
  /-- `publish_status`, with the dead adapters it is left with. -/
  | ticking (dead : List String)
  /-- `cleanup`, with the adapters it is left with, called by `signal_handler` or, once `main` has
  reached it, by its `finally` clause. -/
  | cleaning (final : Bool) (adapters : List (String × ManagerId)) (stage : Option StopStage)
  | exited
  deriving DecidableEq

structure FleetSpawner where
  activeAdapters : Dict String ManagerId
  managers : ManagerId → FleetAdapterProcessManager
  nextManager : ManagerId
  control : Control
  /-- What the callbacks have returned, the newest first. -/
  responses : List Response

namespace FleetSpawner

variable (s : FleetSpawner)

def modify (i : ManagerId) (m : FleetAdapterProcessManager) : FleetSpawner :=
  { s with managers := Function.update s.managers i m }

/-- `FleetAdapterProcessManager(fleet_name, …)`, as far as its configuration file. -/
def construct (fleetName : String) : FleetSpawner :=
  { s.modify s.nextManager { fleetName, configFile := true } with nextManager := s.nextManager + 1 }

/-- `del self.active_adapters[fleet_name]`. -/
def delete (fleetName : String) : FleetSpawner :=
  { s with activeAdapters := s.activeAdapters.erase fleetName }

/-- `self.active_adapters[fleet_name] = manager`. -/
def store (fleetName : String) (i : ManagerId) : FleetSpawner :=
  { s with activeAdapters := s.activeAdapters.put fleetName i }

/-- A callback returns. -/
def respond (response : Response) : FleetSpawner :=
  { s with control := .spinning, responses := response :: s.responses }

/-- `start` has returned `False` for an entry. -/
def failed (fleetName : String) (entries : List String) (requested : Nat) (response : Response) :
    FleetSpawner :=
  let response := response.append false ("Failed to start fleet adapter for " ++ fleetName)
  { s with control := .starting requested entries .next response }

/-- The next step of `start_fleet_adapters_callback`. -/
def start (o : Outcome) (requested : Nat) (response : Response) :
    List String → StartStage → FleetSpawner
  | [], _ => s.respond response
  | fleetName :: entries, .next =>
      match s.activeAdapters.get? fleetName, o with
      | some _, _ =>
          let response := response.append false ("Fleet adapter already running for " ++ fleetName)
          { s with control := .starting requested entries .next response }
      | none, .ok =>
          let stage := .made s.nextManager
          { s.construct fleetName with
            control := .starting requested (fleetName :: entries) stage response }
      | none, .raises message => s.respond (response.except requested message)
      | none, .raisesLate message =>
          (s.construct fleetName).respond (response.except requested message)
  | fleetName :: entries, .made i =>
      if o = .ok then
        { s.modify i (s.managers i).spawn with
          control := .starting requested (fleetName :: entries) (.spawned i) response }
      else s.failed fleetName entries requested response
  | fleetName :: entries, .spawned i =>
      if o = .ok ∧ (s.managers i).running = true then
        { s with control := .starting requested (fleetName :: entries) (.started i) response }
      else s.failed fleetName entries requested response
  | fleetName :: entries, .started i =>
      let response := response.append true ("Fleet adapter started for " ++ fleetName)
      { s.store fleetName i with control := .starting requested entries .next response }

/-- The next step of `stop_fleet_adapters_callback`. -/
def stop (o : Outcome) (requested : Nat) (response : Response) :
    List String → Option (ManagerId × StopStage) → FleetSpawner
  | [], _ => s.respond response
  | fleetName :: names, none =>
      match s.activeAdapters.get? fleetName with
      | none =>
          let response := response.append false ("Fleet adapter not found for " ++ fleetName)
          { s with control := .stopping requested names none response }
      | some i =>
          { s with control := .stopping requested (fleetName :: names) (some (i, .kill)) response }
  | fleetName :: names, some (i, stage) =>
      let (m, result) := FleetAdapterProcessManager.stop o stage (s.managers i)
      match result with
      | .inl stage =>
          { s.modify i m with
            control := .stopping requested (fleetName :: names) (some (i, stage)) response }
      | .inr true =>
          let response := response.append true ("Fleet adapter stopped for " ++ fleetName)
          { (s.modify i m).delete fleetName with
            control := .stopping requested names none response }
      | .inr false =>
          let response := response.append false ("Failed to stop fleet adapter for " ++ fleetName)
          { s.modify i m with control := .stopping requested names none response }

/-- The next step of `publish_status`, once it knows the dead adapters. -/
def tick (o : Outcome) : List String → FleetSpawner
  | [] => { s with control := .spinning }
  | fleetName :: dead =>
      if o = .ok then { s.delete fleetName with control := .ticking dead }
      else { s with control := .spinning }

/-- `cleanup` begins. -/
def clean (final : Bool) : FleetSpawner :=
  { s with control := .cleaning final s.activeAdapters.entries none }

/-- The next step of `cleanup`. -/
def cleanup (o : Outcome) (final : Bool) :
    List (String × ManagerId) → Option StopStage → FleetSpawner
  | [], _ => if final then { s with control := .exited } else s.clean true
  | adapters, none => { s with control := .cleaning final adapters (some .kill) }
  | (fleetName, i) :: adapters, some stage =>
      let (m, result) := FleetAdapterProcessManager.stop o stage (s.managers i)
      match result with
      | .inl stage =>
          { s.modify i m with control := .cleaning final ((fleetName, i) :: adapters) (some stage) }
      | .inr _ =>
          { (s.modify i m).delete fleetName with control := .cleaning final adapters none }

/-- The program's next step. -/
def advance (o : Outcome) : Option FleetSpawner :=
  match s.control with
  | .starting requested entries stage response =>
      some (s.start o requested response entries stage)
  | .stopping requested names stage response => some (s.stop o requested response names stage)
  | .ticking dead => some (s.tick o dead)
  | .cleaning final adapters stage => some (s.cleanup o final adapters stage)
  | .spinning | .exited => none

end FleetSpawner

/-- What of manager `i` stays as it was, stays so of every manager. -/
theorem apply_update_eq {β : Type*} (f : FleetAdapterProcessManager → β)
    {managers : ManagerId → FleetAdapterProcessManager} {i : ManagerId}
    {m : FleetAdapterProcessManager} (h : f m = f (managers i)) (j : ManagerId) :
    f (Function.update managers i m j) = f (managers j) := by
  by_cases e : j = i
  · subst e; rw [Function.update_self]; exact h
  · rw [Function.update_of_ne e]

/-! ### The whole -/

inductive SpawnerAction where
  | startFleetAdapters (fleetNames : List String)
  | stopFleetAdapters (fleetNames : List String)
  | publishStatus
  | advance (o : Outcome)
  /-- Manager `i`'s process dies. -/
  | die (i : ManagerId)
  | signal
  /-- `spin` returns or raises. -/
  | spinReturns

/-- `SystemExit` is raised once a handler's `cleanup` is done: in `main`, or in its `finally`
clause. -/
def Control.final : Control → Bool
  | .cleaning final _ _ => final
  | _ => false

def FleetSpawner.step (s : FleetSpawner) : SpawnerAction → Option FleetSpawner
  | .startFleetAdapters fleetNames =>
      if s.control = .spinning then
        some { s with control := .starting fleetNames.length fleetNames .next {} }
      else none
  | .stopFleetAdapters fleetNames =>
      if s.control = .spinning then
        some { s with control := .stopping fleetNames.length fleetNames none {} }
      else none
  | .publishStatus =>
      if s.control = .spinning then
        some { s with control := .ticking ((s.activeAdapters.entries.filter fun e =>
          !(s.managers e.2).isRunning).map Prod.fst) }
      else none
  | .advance o => s.advance o
  | .die i => some (s.modify i (s.managers i).die)
  | .signal => if s.control = .exited then none else some (s.clean s.control.final)
  | .spinReturns => if s.control = .spinning then some (s.clean true) else none

def fleetSpawner : Lts FleetSpawner SpawnerAction where
  init := ⟨.empty, fun _ => {}, 0, .spinning, []⟩
  step := FleetSpawner.step

/-- The steps of the program. -/
inductive FleetSpawner.Moves (s : FleetSpawner) : SpawnerAction → FleetSpawner → Prop where
  | startRequest (fleetNames : List String) (idle : s.control = .spinning) :
      Moves s (.startFleetAdapters fleetNames)
        { s with control := .starting fleetNames.length fleetNames .next {} }
  | stopRequest (fleetNames : List String) (idle : s.control = .spinning) :
      Moves s (.stopFleetAdapters fleetNames)
        { s with control := .stopping fleetNames.length fleetNames none {} }
  | publishStatus (idle : s.control = .spinning) :
      Moves s .publishStatus
        { s with control := .ticking ((s.activeAdapters.entries.filter fun e =>
          !(s.managers e.2).isRunning).map Prod.fst) }
  | start {requested : Nat} {entries : List String} {stage : StartStage} {response : Response}
      (o : Outcome) (busy : s.control = .starting requested entries stage response) :
      Moves s (.advance o) (s.start o requested response entries stage)
  | stop {requested : Nat} {names : List String} {stage : Option (ManagerId × StopStage)}
      {response : Response} (o : Outcome)
      (busy : s.control = .stopping requested names stage response) :
      Moves s (.advance o) (s.stop o requested response names stage)
  | tick {dead : List String} (o : Outcome) (busy : s.control = .ticking dead) :
      Moves s (.advance o) (s.tick o dead)
  | cleanup {final : Bool} {adapters : List (String × ManagerId)} {stage : Option StopStage}
      (o : Outcome) (busy : s.control = .cleaning final adapters stage) :
      Moves s (.advance o) (s.cleanup o final adapters stage)
  | die (i : ManagerId) : Moves s (.die i) (s.modify i (s.managers i).die)
  | signal (running : s.control ≠ .exited) : Moves s .signal (s.clean s.control.final)
  | spinReturns (idle : s.control = .spinning) : Moves s .spinReturns (s.clean true)

theorem FleetSpawner.step_moves {s s' : FleetSpawner} {a : SpawnerAction}
    (h : s.step a = some s') : s.Moves a s' := by
  cases a with
  | startFleetAdapters fleetNames =>
      simp only [step] at h
      split at h
      · rename_i idle
        cases h
        exact .startRequest fleetNames idle
      · cases h
  | stopFleetAdapters fleetNames =>
      simp only [step] at h
      split at h
      · rename_i idle
        cases h
        exact .stopRequest fleetNames idle
      · cases h
  | publishStatus =>
      simp only [step] at h
      split at h
      · rename_i idle
        cases h
        exact .publishStatus idle
      · cases h
  | advance o =>
      simp only [step, advance] at h
      split at h
      · rename_i busy
        cases h
        exact .start o busy
      · rename_i busy
        cases h
        exact .stop o busy
      · rename_i busy
        cases h
        exact .tick o busy
      · rename_i busy
        cases h
        exact .cleanup o busy
      · cases h
      · cases h
  | die i =>
      cases h
      exact .die i
  | signal =>
      simp only [step] at h
      split at h
      · cases h
      · rename_i running
        cases h
        exact .signal running
  | spinReturns =>
      simp only [step] at h
      split at h
      · rename_i idle
        cases h
        exact .spinReturns idle
      · cases h

end EgbFleet.Spawner
