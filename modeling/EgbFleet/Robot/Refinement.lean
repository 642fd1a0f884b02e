import EgbFleet.Recovery.Spacing
import EgbFleet.Robot.Machine
import EgbFleet.Support.Simulation

/-!
# Robot — its parts

The machine of one robot is made of two that are looked at alone elsewhere: `navigation`, and the
calls of `check_deadlock_recovery`, `recovery`.  Each step of the robot is a run of the one, of two
steps at most, and of the other, of one; so the parts of a robot are in states that the machines
reach by themselves (`robot_refines`).

`Moves` and `TickMoves` invert the step function once.  What ties the update of the navigation stack
to the robot's is `Tick.Synced`.
-/

noncomputable section

namespace EgbFleet.Robot

open Frames Paths

variable {G : Type}

/-! ### What an update can do -/

/-- `tick`, by the branch it takes. -/
inductive TickMoves (site : Site) (o : Observation) (s : State G) : State G → Prop where
  | noPose (idle : s.update = .idle) : TickMoves site o s s
  | reads {rmfPose : Pose} {i : SessionId} (idle : s.update = .idle)
      (session : s.nav.mem.session = some i) :
      TickMoves site o s
        { s with
          nav := updated s.nav
          update := .lanes ⟨rmfPose, s.batterySoc⟩ s.nav.mem.log i }
  | noSession {rmfPose : Pose} (idle : s.update = .idle) (session : s.nav.mem.session = none) :
      TickMoves site o s
        (State.tell s.nav.mem.log (site.onMap rmfPose)
          { s with nav := updated s.nav, update := .position ⟨rmfPose, s.batterySoc⟩ })
  | tells {job : Job} {seen : List (Event G WaypointMsg)} {i : SessionId}
      (at_lanes : s.update = .lanes job seen i) :
      TickMoves site o s
        (State.tell seen
          (site.positionOf i job.rmfPose ((Route.ofPlan (s.plans i)).navigationLanes
            (s.nav.mem.sessions i).currentTargetIndex))
          { s with nav := updated s.nav, update := .position job })
  | places {job : Job} (at_position : s.update = .position job) :
      TickMoves site o s
        { s with
          currentPosition := job.rmfPose
          nearbyLanes := site.nearbyLanes job.rmfPose o.now
          update := .drain job }
  | drains {job : Job} (at_drain : s.update = .drain job) :
      TickMoves site o s
        { s with
          nav := updated s.nav
          update := if (updated s.nav).update = .recovery then .recovery job else .drain job }
  | readsAgain {job : Job} {i : SessionId} (at_recovery : s.update = .recovery job)
      (session : s.nav.mem.session = some i) :
      TickMoves site o s
        { s.tell s.nav.mem.log (.batterySoc job.batterySoc) with
          nav := updated s.nav
          update := .done job s.nav.mem.log o.now i }
  | checksNone {job : Job} (at_recovery : s.update = .recovery job) :
      TickMoves site o s
        ((s.tell s.nav.mem.log (.batterySoc job.batterySoc)).check site job s.nav.mem.log o.now
          none)
  | checksDone {job : Job} {seen : List (Event G WaypointMsg)} {now : ℤ} {i : SessionId}
      (at_done : s.update = .done job seen now i) (isDone : (s.nav.mem.sessions i).done = true) :
      TickMoves site o s (s.check site job seen now (some (s.nav.mem.sessions i)))
  | notDone {job : Job} {seen : List (Event G WaypointMsg)} {now : ℤ} {i : SessionId}
      (at_done : s.update = .done job seen now i) :
      TickMoves site o s { s with update := .reason job seen now i }
  | checksReason {job : Job} {seen : List (Event G WaypointMsg)} {now : ℤ} {i : SessionId}
      (at_reason : s.update = .reason job seen now i) :
      TickMoves site o s
        (s.check site job seen now (some { s.nav.mem.sessions i with done := false }))

theorem State.tick_moves (site : Site) (o : Observation) (s : State G) :
    TickMoves site o s (s.tick site o) := by
  unfold tick
  split
  · rename_i idle
    split
    · exact .noPose idle
    · split
      · rename_i session
        exact .reads idle session
      · rename_i session
        exact .noSession idle session
  · rename_i at_lanes
    exact .tells at_lanes
  · rename_i at_position
    exact .places at_position
  · rename_i at_drain
    exact .drains at_drain
  · rename_i at_recovery
    dsimp only
    split
    · exact .checksNone at_recovery
    · split
      · rename_i session
        exact .readsAgain at_recovery session
      · exact .checksNone at_recovery
  · rename_i at_done
    split
    · rename_i isDone
      exact .checksDone at_done isDone
    · exact .notDone at_done
  · rename_i at_reason
    exact .checksReason at_reason

/-! ### What a step can do -/

/-- `step`, by what moves. -/
inductive Moves [DecidableEq G] (site : Site) (s : State G) : Action G → State G → Prop where
  | raises {c : RmfCall G} (error : c.prepare site s.currentPosition s.nearbyLanes = .error ()) :
      Moves site s (.call c) { s with raised := true }
  | prepares {c : RmfCall G} {prepared : Prepared G}
      (ok : c.prepare site s.currentPosition s.nearbyLanes = .ok prepared) :
      Moves site s (.call c) { s with ready := some prepared }
  | starts {prepared : Prepared G} {nav : EgbFleet.State G WaypointMsg}
      (ready : s.ready = some prepared) (hnav : navStep s.nav (.call prepared.call) = some nav) :
      Moves site s .exec
        { s with
          nav
          ready := none
          plans := Function.update s.plans s.nav.mem.nextSession prepared.plan }
  | navigates {a : Action G} {b : EgbFleet.Action G WaypointMsg}
      {nav : EgbFleet.State G WaypointMsg} (hnav : navStep s.nav b = some nav)
      (hcall : ∀ c, b ≠ .call c) (hupdate : b ≠ .update) : Moves site s a { s with nav }
  | updates {o : Observation} {s' : State G} (h : TickMoves site o s s') :
      Moves site s (.update o) s'
  | batteryState (percentage : ℝ) :
      Moves site s (.batteryState percentage) { s with batterySoc := percentage }

theorem step_moves [DecidableEq G] {site : Site} {s s' : State G} {a : Action G}
    (h : step site s a = some s') : Moves site s a s' := by
  have move {b : EgbFleet.Action G WaypointMsg} {t : State G} (h : s.move b = some t) :
      ∃ nav, navStep s.nav b = some nav ∧ t = { s with nav } := by
    obtain ⟨nav, hnav, rfl⟩ := Option.map_eq_some_iff.mp h
    exact ⟨nav, hnav, rfl⟩
  cases a with
  | call c =>
      simp only [step] at h
      split at h
      · split at h
        · rename_i error
          cases h
          exact .raises error
        · rename_i ok
          cases h
          exact .prepares ok
      · cases h
  | exec =>
      simp only [step] at h
      split at h
      · obtain ⟨nav, hnav, rfl⟩ := move h
        exact .navigates hnav nofun nofun
      · rename_i prepared ready
        obtain ⟨t, ht, rfl⟩ := Option.map_eq_some_iff.mp h
        obtain ⟨nav, hnav, rfl⟩ := move ht
        exact .starts ready hnav
  | update o =>
      cases h
      exact .updates (s.tick_moves site o)
  | batteryState percentage =>
      cases h
      exact .batteryState percentage
  | recvStatus entries =>
      obtain ⟨nav, hnav, rfl⟩ := move h
      exact .navigates hnav nofun nofun
  | status k =>
      obtain ⟨nav, hnav, rfl⟩ := move h
      exact .navigates hnav nofun nofun
  | recvFeedback message =>
      obtain ⟨nav, hnav, rfl⟩ := move h
      exact .navigates hnav nofun nofun
  | feedback =>
      obtain ⟨nav, hnav, rfl⟩ := move h
      exact .navigates hnav nofun nofun

/-! ### The navigation stack -/

/-- The navigation stack's update is on its way from `drain_pending_feedback` to `replan`. -/
def draining : UpdateThread → Bool
  | .drain | .drainCheck _ | .drainTake _ | .drainForward _ _ _ | .takeFailure | .replan => true
  | .idle | .lanes _ | .recovery | .blocked _ => false

/-- Where the navigation stack's update is, while the robot's is there. -/
def Tick.Synced : Tick G → UpdateThread → Prop
  | .idle, u => u = .idle
  | .lanes _ _ i, u => u = .lanes i
  | .position _, u => u = .drain
  | .drain _, u => draining u = true
  | .recovery _, u => u = .recovery
  | .done _ _ _ i, u | .reason _ _ _ i, u => u = .blocked i

theorem draining_step {u : UpdateThread} (hu : draining u = true) (m : Mem G WaypointMsg)
    (hne : (u.step m).2 ≠ .recovery) : draining (u.step m).2 = true := by
  cases u with
  | idle | lanes _ | recovery | blocked _ => cases hu
  | drain =>
      simp only [UpdateThread.step]
      split <;> rfl
  | drainCheck i =>
      simp only [UpdateThread.step]
      split <;> rfl
  | drainTake i =>
      simp only [UpdateThread.step]
      split <;> rfl
  | drainForward i p fb => rfl
  | takeFailure =>
      by_cases hflag : m.pendingFailure = true
      · simp only [UpdateThread.step, hflag, if_true]
        rfl
      · simp [UpdateThread.step, hflag] at hne
  | replan => exact absurd rfl hne

section

variable {s : EgbFleet.State G WaypointMsg} {i : SessionId}

/-! The reads of the session change nothing but where the update is. -/

theorem updated_of_idle_some (h : s.update = .idle) (hs : s.mem.session = some i) :
    updated s = { s with update := .lanes i } := by
  simp [updated, h, hs, UpdateThread.step]

theorem updated_of_idle_none (h : s.update = .idle) (hs : s.mem.session = none) :
    updated s = { s with update := .drain } := by
  simp [updated, h, hs, UpdateThread.step]

theorem updated_of_lanes (h : s.update = .lanes i) : updated s = { s with update := .drain } := by
  simp [updated, h, UpdateThread.step]

theorem updated_of_recovery_some (h : s.update = .recovery) (hs : s.mem.session = some i) :
    updated s = { s with update := .blocked i } := by
  simp [updated, h, hs, UpdateThread.step]

theorem updated_of_recovery_none (h : s.update = .recovery) (hs : s.mem.session = none) :
    updated s = { s with update := .idle } := by
  simp [updated, h, hs, UpdateThread.step]

theorem updated_of_blocked (h : s.update = .blocked i) :
    updated s = { s with update := .idle } := by
  simp [updated, h, UpdateThread.step]

end

section

variable [DecidableEq G]

theorem run_navStep {s s' : EgbFleet.State G WaypointMsg} {a : EgbFleet.Action G WaypointMsg}
    (h : navStep s a = some s') : (navigation G WaypointMsg).Run (fun _ _ => True) s [a] s' :=
  .one trivial h

theorem run_updated (s : EgbFleet.State G WaypointMsg) :
    (navigation G WaypointMsg).Run (fun _ _ => True) s [.update] (updated s) :=
  run_navStep rfl

theorem run_idle_of_blocked {s : EgbFleet.State G WaypointMsg} {i : SessionId}
    (h : s.update = .blocked i) :
    (navigation G WaypointMsg).Run (fun _ _ => True) s [.update] { s with update := .idle } :=
  updated_of_blocked h ▸ run_updated s

/-- A robot that is held does not read the session; the navigation stack may, and does nothing. -/
theorem exists_run_idle {s : EgbFleet.State G WaypointMsg} (h : s.update = .recovery) :
    ∃ bs, (navigation G WaypointMsg).Run (fun _ _ => True) s bs { s with update := .idle } := by
  cases hs : s.mem.session with
  | none => exact ⟨_, updated_of_recovery_none h hs ▸ run_updated s⟩
  | some i =>
      have hread := updated_of_recovery_some h hs ▸ run_updated s
      exact ⟨_, hread.append (run_idle_of_blocked rfl)⟩

/-- A step of the update is one of the navigation stack's update, or two, or none. -/
theorem TickMoves.navigation {site : Site} {o : Observation} {s s' : State G}
    (h : TickMoves site o s s') (hs : s.update.Synced s.nav.update) :
    s'.update.Synced s'.nav.update ∧
      ∃ bs, (navigation G WaypointMsg).Run (fun _ _ => True) s.nav bs s'.nav := by
  cases h with
  | noPose idle => exact ⟨hs, [], .nil _⟩
  | reads idle session =>
      rw [idle] at hs
      refine ⟨?_, _, run_updated s.nav⟩
      simp [Tick.Synced, updated_of_idle_some hs session]
  | noSession idle session =>
      rw [idle] at hs
      refine ⟨?_, _, run_updated s.nav⟩
      simp [Tick.Synced, State.tell, updated_of_idle_none hs session]
  | tells at_lanes =>
      rw [at_lanes] at hs
      refine ⟨?_, _, run_updated s.nav⟩
      simp [Tick.Synced, State.tell, updated_of_lanes hs]
  | places at_position =>
      rw [at_position] at hs
      refine ⟨?_, [], .nil _⟩
      change draining s.nav.update = true
      have hdrain : s.nav.update = .drain := hs
      rw [hdrain]
      rfl
  | drains at_drain =>
      rw [at_drain] at hs
      refine ⟨?_, _, run_updated s.nav⟩
      split
      · rename_i hrecovery
        exact hrecovery
      · rename_i hne
        exact draining_step hs _ hne
  | readsAgain at_recovery session =>
      rw [at_recovery] at hs
      refine ⟨?_, _, run_updated s.nav⟩
      simp [Tick.Synced, updated_of_recovery_some hs session]
  | checksNone at_recovery =>
      rw [at_recovery] at hs
      exact ⟨rfl, exists_run_idle hs⟩
  | checksDone at_done =>
      rw [at_done] at hs
      exact ⟨rfl, _, run_idle_of_blocked hs⟩
  | notDone at_done =>
      rw [at_done] at hs
      exact ⟨hs, [], .nil _⟩
  | checksReason at_reason =>
      rw [at_reason] at hs
      exact ⟨rfl, _, run_idle_of_blocked hs⟩

/-- Only an update moves the navigation stack's update. -/
theorem update_navStep {s s' : EgbFleet.State G WaypointMsg} {a : EgbFleet.Action G WaypointMsg}
    (h : navStep s a = some s') (ha : a ≠ .update) : s'.update = s.update := by
  cases navStep_moves h with
  | update => exact absurd rfl ha
  | call | exec | recvStatus | status | recvFeedback | feedback => rfl

theorem simulates_navigation (site : Site) (currentPosition : Pose)
    (P : State G → Action G → Prop) :
    Lts.Simulates (robot G site currentPosition) P (navigation G WaypointMsg) (fun _ _ => True)
      State.nav fun s => s.update.Synced s.nav.update := by
  intro s a s' _ hstep hs
  cases step_moves hstep with
  | raises | prepares | batteryState => exact ⟨hs, [], .nil _⟩
  | starts ready hnav =>
      rw [← update_navStep hnav nofun] at hs
      exact ⟨hs, _, run_navStep hnav⟩
  | navigates hnav hcall hupdate =>
      rw [← update_navStep hnav hupdate] at hs
      exact ⟨hs, _, run_navStep hnav⟩
  | updates h => exact h.navigation hs

end

/-! ### The calls of `check_deadlock_recovery` -/

def Told.check? : Told → Option (Recovery.Call Pose)
  | .checked c => some c
  | .onLanes _ _ _ | .atWaypoint _ _ _ | .onMap _ _ _ _ | .batterySoc _ => none

/-- The calls so far, newest first. -/
def State.checks (s : State G) : List (Recovery.Call Pose) :=
  s.told.filterMap fun report => report.told.check?

/-- What `check_deadlock_recovery` has to do with the robot. -/
def State.checking (s : State G) : Recovery.State Pose := ⟨s.recovery, s.checks⟩

theorem run_check (s : State G) (site : Site) (job : Job) (seen : List (Event G WaypointMsg))
    (now : ℤ) (session : Option (NavigationSession G)) :
    (Recovery.recovery G Pose).Run (fun _ _ => True) s.checking
      [⟨now, session, site.mapName, job.rmfPose⟩] (s.check site job seen now session).checking :=
  .one trivial rfl

theorem check?_positionOf (site : Site) (p : SessionId) (rmfPose : Pose)
    (info : Option NavigationLaneInfo) : (site.positionOf p rmfPose info).check? = none := by
  cases info with
  | none => rfl
  | some info =>
      simp only [Site.positionOf]
      split
      · split <;> rfl
      · rfl

theorem TickMoves.recovery {site : Site} {o : Observation} {s s' : State G}
    (h : TickMoves site o s s') :
    ∃ bs, (Recovery.recovery G Pose).Run (fun _ _ => True) s.checking bs s'.checking := by
  cases h with
  | noPose | reads | noSession | places | drains | readsAgain | notDone => exact ⟨[], .nil _⟩
  | @tells job seen i at_lanes =>
      refine ⟨[], ?_⟩
      have hsame : (State.tell seen
          (site.positionOf i job.rmfPose ((Route.ofPlan (s.plans i)).navigationLanes
            (s.nav.mem.sessions i).currentTargetIndex))
          { s with nav := updated s.nav, update := .position job }).checking = s.checking := by
        simp [State.checking, State.checks, State.tell, check?_positionOf]
      exact hsame ▸ .nil _
  | @checksNone job at_recovery =>
      exact ⟨_, run_check (s.tell s.nav.mem.log (.batterySoc job.batterySoc)) site job
        s.nav.mem.log o.now none⟩
  | @checksDone job seen now i at_done isDone =>
      exact ⟨_, run_check s site job seen now (some (s.nav.mem.sessions i))⟩
  | @checksReason job seen now i at_reason =>
      exact ⟨_, run_check s site job seen now (some { s.nav.mem.sessions i with done := false })⟩

section

variable [DecidableEq G]

theorem simulates_recovery (site : Site) (currentPosition : Pose)
    (P : State G → Action G → Prop) :
    Lts.Simulates (robot G site currentPosition) P (Recovery.recovery G Pose) (fun _ _ => True)
      State.checking fun _ => True := by
  intro s a s' _ hstep _
  refine ⟨trivial, ?_⟩
  cases step_moves hstep with
  | raises | prepares | starts | navigates | batteryState => exact ⟨[], .nil _⟩
  | updates h => exact h.recovery

/-- **The parts of a robot.**  Whatever state a robot reaches, the navigation stack reaches its part
by itself, and so do the calls of `check_deadlock_recovery`. -/
theorem robot_refines {site : Site} {currentPosition : Pose} {P : State G → Action G → Prop}
    {s : State G} (h : (robot G site currentPosition).Reach P s) :
    s.update.Synced s.nav.update ∧
      (navigation G WaypointMsg).Reach (fun _ _ => True) s.nav ∧
      (Recovery.recovery G Pose).Reach (fun _ _ => True) s.checking := by
  obtain ⟨hsynced, hnav⟩ := h.simulates (simulates_navigation site currentPosition P) rfl rfl
  exact ⟨hsynced, hnav, (h.simulates (simulates_recovery site currentPosition P) rfl trivial).2⟩

end

theorem robot_refines_underWay :
    ∃ s : State ℕ, s.nearbyLanes ≠ [] ∧ s.update.Synced s.nav.update ∧
      (navigation ℕ WaypointMsg).Reach (fun _ _ => True) s.nav ∧
      (Recovery.recovery ℕ Pose).Reach (fun _ _ => True) s.checking := by
  obtain ⟨s, hrun, hnearby, -⟩ := exists_run_underWay
  exact ⟨s, hnearby, robot_refines ⟨_, hrun⟩⟩

end EgbFleet.Robot

end
