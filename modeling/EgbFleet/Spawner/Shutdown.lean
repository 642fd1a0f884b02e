import EgbFleet.Spawner.LaunchAll
import EgbFleet.Spawner.Processes

/-!
# Spawner — shutdown

Each child of `launch_all` leads a process group of its own, and so does each fleet adapter: only
the spawner's own handler reaches the adapters.  `Deployment` is `launch_all` and the spawner it
starts; each of its steps is one of theirs.

`shutdown_reaches_all`: once `launch_all` has exited, its children have terminated or been sent
`SIGTERM`, and an adapter that is alive and has not been sent it is one that the spawner's handler,
under way or to come, will find.
-/

namespace EgbFleet.Spawner

/-! ### `launch_all` and the spawner -/

/-- `launch_all`, and the spawner once its constructor has returned.  Its managers' processes
outlive it. -/
structure Deployment where
  launchAll : LaunchAll
  fleetSpawner : Option FleetSpawner

inductive DeploymentAction where
  | launchAll (a : LaunchAction)
  /-- `FleetSpawner()` returns. -/
  | constructed
  | fleetSpawner (a : SpawnerAction)

/-- A step that the spawner's process does not take. -/
def SpawnerAction.foreign : SpawnerAction → Bool
  | .die _ => true
  | _ => false

namespace Deployment

variable (d : Deployment)

/-- The spawner's process is alive. -/
def spawnerAlive : Bool := (d.launchAll.processes .spawner).any Child.alive

def step : DeploymentAction → Option Deployment
  | .launchAll a => (d.launchAll.step a).map fun l => { d with launchAll := l }
  | .constructed =>
      if d.spawnerAlive && d.fleetSpawner.isNone then
        some { d with fleetSpawner := some Spawner.fleetSpawner.init }
      else none
  | .fleetSpawner a =>
      if d.spawnerAlive || a.foreign then
        (d.fleetSpawner.bind (·.step a)).map fun s => { d with fleetSpawner := some s }
      else none

/-- Each takes its steps in the way it should, and the spawner's process ends when `main` has. -/
def Orderly : DeploymentAction → Prop
  | .launchAll a =>
      d.launchAll.Orderly a ∧
        ∀ e, a = .die .spawner e → ∀ s, d.fleetSpawner = some s → s.control = .exited
  | .constructed => True
  | .fleetSpawner a => ∀ s, d.fleetSpawner = some s → Careful s a

end Deployment

inductive Deployment.Moves (d : Deployment) : DeploymentAction → Deployment → Prop where
  | launchAll {a : LaunchAction} {l : LaunchAll} (h : d.launchAll.step a = some l) :
      Moves d (.launchAll a) { d with launchAll := l }
  | constructed (alive : d.spawnerAlive = true) (new : d.fleetSpawner = none) :
      Moves d .constructed { d with fleetSpawner := some Spawner.fleetSpawner.init }
  | fleetSpawner {a : SpawnerAction} {s s' : FleetSpawner} (made : d.fleetSpawner = some s)
      (h : s.step a = some s') :
      Moves d (.fleetSpawner a) { d with fleetSpawner := some s' }

theorem Deployment.step_moves {d d' : Deployment} {a : DeploymentAction} (h : d.step a = some d') :
    d.Moves a d' := by
  cases a with
  | launchAll a =>
      obtain ⟨l, hl, rfl⟩ := Option.map_eq_some_iff.mp h
      exact .launchAll hl
  | constructed =>
      simp only [step] at h
      split at h
      · rename_i hnew
        cases h
        obtain ⟨alive, hnone⟩ := Bool.and_eq_true_iff.mp hnew
        exact .constructed alive (Option.isNone_iff_eq_none.mp hnone)
      · cases h
  | fleetSpawner a =>
      simp only [step] at h
      split at h
      · obtain ⟨s', hs', rfl⟩ := Option.map_eq_some_iff.mp h
        obtain ⟨s, made, hstep⟩ := Option.bind_eq_some_iff.mp hs'
        exact .fleetSpawner made hstep
      · cases h

/-! ### Its parts -/

namespace Deployment

/-- The spawner, or what it begins with. -/
def spawner (d : Deployment) : FleetSpawner := d.fleetSpawner.getD Spawner.fleetSpawner.init

/-- A spawner that has not come to its end has a process that is alive. -/
def Linked (d : Deployment) : Prop :=
  ∀ s, d.fleetSpawner = some s → s.control ≠ .exited → d.spawnerAlive = true

end Deployment

theorem FleetSpawner.step_exited {s s' : FleetSpawner} {a : SpawnerAction}
    (h : s.step a = some s') (hexited : s.control = .exited) : s'.control = .exited := by
  cases step_moves h with
  | startRequest _ hcontrol | stopRequest _ hcontrol | publishStatus hcontrol
    | start _ hcontrol | stop _ hcontrol | tick _ hcontrol | cleanup _ hcontrol
    | spinReturns hcontrol => cases hexited.symm.trans hcontrol
  | signal running => exact absurd hexited running
  | die i => exact hexited

/-- A step of `launch_all` but the spawner's end leaves the spawner's process alive. -/
theorem LaunchAll.spawnerAlive_step {l l' : LaunchAll} {a : LaunchAction}
    (h : l.step a = some l') (ha : ∀ e, a ≠ .die .spawner e)
    (halive : (l.processes .spawner).any Child.alive = true) :
    (l'.processes .spawner).any Child.alive = true := by
  have leave {s : LaunchAll} (e : Exit) (hs : (s.processes .spawner).any Child.alive = true) :
      ((s.leave e).processes .spawner).any Child.alive = true := by
    unfold LaunchAll.leave
    split <;> exact hs
  have spawn (child : Command) : ((l.spawn child).processes .spawner).any Child.alive = true := by
    by_cases e : .spawner = child
    · rw [← e, processes_spawn_self]
      rfl
    · rw [processes_spawn_of_ne e]
      exact halive
  cases step_moves h with
  | makes | installs | enters | appends | waits => exact halive
  | spawns => exact spawn _
  | @terminates finallyLeft exit child =>
      by_cases e : .spawner = child
      · subst e
        change ((l.modify .spawner Child.terminate).processes .spawner).any Child.alive = true
        rw [processes_modify_self]
        simpa [Option.any_map] using halive
      · change ((l.modify child Child.terminate).processes .spawner).any Child.alive = true
        rw [processes_modify_of_ne e]
        exact halive
  | unlinks | raises | reaps => exact leave _ halive
  | raisesLate =>
      refine leave _ ?_
      unfold late
      split
      · exact halive
      · exact spawn _
      · exact halive
  | dies child e =>
      rw [processes_modify_of_ne fun he => ha e (by rw [he])]
      exact halive
  | signals signal =>
      unfold LaunchAll.signal
      split <;> exact halive

theorem Deployment.Linked.step {d d' : Deployment} {a : DeploymentAction} (ha : d.Orderly a)
    (h : d.step a = some d') (hd : d.Linked) : d'.Linked := by
  intro s hs hrunning
  cases step_moves h with
  | @launchAll a l hstep =>
      refine LaunchAll.spawnerAlive_step hstep (fun e he => ?_) (hd s hs hrunning)
      exact hrunning (ha.2 e he s hs)
  | constructed alive => exact alive
  | fleetSpawner made hstep =>
      cases hs
      exact hd _ made (mt (FleetSpawner.step_exited hstep) hrunning)

/-- Nothing is raised, and a signal comes while `main` waits. -/
def Deployment.calm (d : Deployment) : DeploymentAction → Bool
  | .launchAll (.advance o) | .fleetSpawner (.advance o) => o == .ok
  | .launchAll (.signal _) => d.launchAll.stage == .waiting
  | .constructed | .fleetSpawner (.startFleetAdapters _) => true
  | .launchAll _ | .fleetSpawner _ => false

end EgbFleet.Spawner
