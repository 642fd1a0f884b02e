import EgbFleet.Navigation.Reported
import EgbFleet.Paths.Limits
import EgbFleet.Robot.Refinement

/-!
# Robot — what it tells RMF

What an update reports is read at different times: the session of the path in one step, its target
or its failure reason in later ones, while paths are followed, stopped and replaced.

* `positions_follow_plan`: a position on lanes is on those of the path that was active when the
  session was read, at the waypoint feedback for that path's own goals last named, or the first.
* `interruptions_follow_feedback`: RMF is interrupted after 8 s of calls that each found a failure
  which feedback for a goal of the robot's had reported; and the interruptions are spaced.
* `never_raises`: as long as RMF's plans are of the graph, neither `follow_new_path` nor `dock` gets
  `get_lane` or `get_waypoint` to raise; the lanes `dock` searches are those nearby the position
  last stored.  An update reads no lane and no waypoint.
-/

noncomputable section

namespace EgbFleet.Robot

open Frames Paths

variable {G : Type}

/-! ### The lanes nearby -/

/-- RMF's plans are of the graph. -/
def PlansOnGraph (site : Site) : Action G → Prop
  | .call (.followNewPath plan _ _ _) => OnGraph site.graph plan
  | _ => True

theorem approachYawFor_ne_error {g : Graph (ℝ × ℝ)} (currentPosition : Pose)
    {graphIndex : Option ℕ} (h : ∀ i ∈ graphIndex, i < g.waypoints.length) :
    approachYawFor (some g) currentPosition graphIndex ≠ .error () := by
  intro herror
  cases graphIndex with
  | none => cases herror
  | some i =>
      rw [approachYawFor, if_pos (h i rfl)] at herror
      cases herror

theorem prepareFollow_ne_error {site : Site} {plan : List RoutePoint}
    (h : OnGraph site.graph plan) (currentPosition : Pose) (estimator finished : Bool)
    (net : Network G) :
    site.prepareFollow currentPosition plan estimator finished net ≠ .error () := by
  have hlanes : ∀ w ∈ plan.map RoutePoint.toPlanWaypoint, ∀ i ∈ w.approachLanes,
      i < site.graph.lanes.length := by
    simp only [List.forall_mem_map]
    exact fun w hw => (h w hw).1
  obtain ⟨limits, hlimits⟩ := waypointSpeedLimits_eq_ok hlanes
  intro herror
  simp only [Site.prepareFollow, hlimits] at herror
  split at herror
  · rename_i hyaw
    split at hyaw
    · rename_i w
      exact approachYawFor_ne_error currentPosition (h w List.mem_cons_self).2 hyaw
    · cases hyaw
  · cases herror

/-- `dock` looks up only lanes nearby, and the best approach lane, which is one of the graph. -/
theorem dock_ne_raised {g : Graph (ℝ × ℝ)} {nearbyLanes : List ℕ}
    (h : ∀ i ∈ nearbyLanes, i < g.lanes.length) (x : Externals) (dockName : String)
    (t : CoordinateTransforms) :
    PathHandle.dock x dockName ⟨t, some g, true, nearbyLanes⟩ ≠ .raised := by
  intro hraised
  simp only [PathHandle.dock, findDock_eq dockName h] at hraised
  split at hraised
  · cases hraised
  · cases hdock : List.find? (·.docks dockName) (nearbyLanes.filterMap g.getLane) with
    | none =>
        rw [hdock] at hraised
        cases hraised
    | some dockingLane =>
        simp only [hdock] at hraised
        split at hraised
        · split at hraised
          · cases hraised
          · rename_i i hbest
            obtain ⟨lane, hlane, -⟩ := leaves_of_findBestApproachLane hbest
            simp only [hlane] at hraised
            cases hraised
        · cases hraised

/-- No call of RMF's has raised; and the nearby lanes are none, as before the first update, or those
nearby the position stored with them. -/
structure Placed (site : Site) (s : State G) : Prop where
  raised : s.raised = false
  nearby : s.nearbyLanes = [] ∨ ∃ now, s.nearbyLanes = site.nearbyLanes s.currentPosition now

theorem Placed.lt {site : Site} {s : State G} (hs : Placed site s) {i : ℕ}
    (hi : i ∈ s.nearbyLanes) : i < site.graph.lanes.length := by
  rcases hs.nearby with e | ⟨now, e⟩
  · rw [e] at hi
    cases hi
  · rw [e] at hi
    exact Site.lt_of_mem_nearbyLanes hi

theorem Placed.prepare_ne_error {site : Site} {s : State G} (hs : Placed site s) {c : RmfCall G}
    (hc : PlansOnGraph site (.call c)) :
    c.prepare site s.currentPosition s.nearbyLanes ≠ .error () := by
  cases c with
  | followNewPath plan estimator finished net =>
      exact prepareFollow_ne_error hc s.currentPosition estimator finished net
  | dock dockName finished net =>
      simp only [RmfCall.prepare]
      split
      · rename_i hraised
        exact absurd hraised
          (dock_ne_raised (fun _ => hs.lt) site.externals dockName site.coordinateTransforms)
      · exact nofun
      · exact nofun
  | stop | updateAction a elapsed now context navigationInterface net | cancelNavigation =>
      exact nofun

theorem TickMoves.placed {site : Site} {o : Observation} {s s' : State G}
    (h : TickMoves site o s s') (hs : Placed site s) : Placed site s' := by
  cases h with
  | places => exact ⟨hs.raised, .inr ⟨o.now, rfl⟩⟩
  | noPose => exact hs
  | reads | noSession | tells | drains | readsAgain | checksNone | checksDone | notDone
  | checksReason => exact ⟨hs.raised, hs.nearby⟩

theorem Placed.step [DecidableEq G] {site : Site} {s s' : State G} {a : Action G}
    (ha : PlansOnGraph site a) (h : step site s a = some s') (hs : Placed site s) :
    Placed site s' := by
  cases step_moves h with
  | raises error => exact absurd error (hs.prepare_ne_error ha)
  | prepares | starts | navigates | batteryState => exact ⟨hs.raised, hs.nearby⟩
  | updates h => exact h.placed hs

/-- **No call of RMF's raises.**  Whatever the order of the steps. -/
theorem never_raises [DecidableEq G] {site : Site} {currentPosition : Pose} {s : State G}
    (h : (robot G site currentPosition).Reach (fun _ a => PlansOnGraph site a) s) :
    Placed site s :=
  h.invariant ⟨rfl, .inl rfl⟩ fun _ _ _ ha hstep hs => hs.step ha hstep

theorem onGraph_firstLane : OnGraph forkSite.graph firstLane := by
  intro w hw
  simp only [firstLane, List.mem_cons, List.not_mem_nil, or_false] at hw
  rcases hw with rfl | rfl
  · exact ⟨by simp, by simp [forkSite, fork]⟩
  · exact ⟨by simp [forkSite, fork], by simp [forkSite, fork]⟩

theorem never_raises_underWay : ∃ s : State ℕ, s.nearbyLanes ≠ [] ∧ Placed forkSite s := by
  obtain ⟨s, hrun, hnearby, -⟩ := exists_run_underWay
  have hrun := hrun.of_mem (P := fun _ a => PlansOnGraph forkSite a) fun a ha _ => by
    simp only [underWay, List.mem_cons, List.not_mem_nil, or_false] at ha
    rcases ha with rfl | rfl | rfl | rfl | rfl
    · exact onGraph_firstLane
    all_goals trivial
  exact ⟨s, hnearby, never_raises ⟨_, hrun⟩⟩

/-! ### What an update has read -/

/-- The session an update has read, and the log when it did. -/
def Tick.reads? : Tick G → Option (SessionId × List (Event G WaypointMsg))
  | .lanes _ seen i | .done _ seen _ i | .reason _ seen _ i => some (i, seen)
  | .idle | .position _ | .drain _ | .recovery _ => none

/-- The path a position is reported on. -/
def Told.path? : Told → Option SessionId
  | .onLanes p _ _ | .atWaypoint p _ _ => some p
  | .onMap _ _ _ _ | .batterySoc _ | .checked _ => none

/-- The path was active when its session was read, and `k` is its first waypoint, or one that
feedback for a goal of the path has named. -/
def Report.Targets (r : Report G) (p : SessionId) (k : ℕ) : Prop :=
  activePath r.seen = some p ∧ (k = 0 ∨ TargetReported r.log p k)

/-- A position on lanes is on lanes of the plan, at its target; one at a waypoint is at the target,
where no lanes arrive there. -/
def Report.OnPlan (plans : SessionId → List RoutePoint) (r : Report G) : Prop :=
  match r.told with
  | .onLanes p _ lanes => lanes ≠ [] ∧ ∃ k, r.Targets p k ∧ LanesAt (plans p) k lanes
  | .atWaypoint p graphIndex _ =>
      ∃ k, r.Targets p k ∧ LanesAt (plans p) k [] ∧
        (plans p)[k]?.map (·.graphIndex) = some (some graphIndex)
  | .onMap _ _ _ _ | .batterySoc _ | .checked _ => True

/-- A call of `check_deadlock_recovery` that found the robot blocked had read the session of the
active path, and the failure it found is one that feedback for a goal has reported. -/
def Report.Evident (r : Report G) : Prop :=
  match r.told with
  | .checked c => c.blocked = true →
      ∃ p, activePath r.seen = some p ∧ ∃ reason, reason ≠ .none ∧ FailureReported r.log reason
  | .onLanes _ _ _ | .atWaypoint _ _ _ | .onMap _ _ _ _ | .batterySoc _ => True

/-- A report, of a path whose session has been made if it is of one. -/
structure Report.Ok (plans : SessionId → List RoutePoint) (next : SessionId) (r : Report G) :
    Prop where
  made : ∀ p ∈ r.told.path?, p < next
  onPlan : r.OnPlan plans
  evident : r.Evident

theorem Report.Ok.of_path?_eq_none {plans : SessionId → List RoutePoint} {next : SessionId}
    {r : Report G} (h : r.told.path? = none) (he : r.Evident) : r.Ok plans next where
  made := fun p hp => by
    rw [h] at hp
    cases hp
  onPlan := by
    obtain ⟨told, seen, log⟩ := r
    cases told with
    | onLanes | atWaypoint => cases h
    | onMap | batterySoc | checked => trivial
  evident := he

theorem Report.Ok.mono {plans plans' : SessionId → List RoutePoint} {next next' : SessionId}
    {r : Report G} (hr : r.Ok plans next) (hnext : next ≤ next')
    (hplans : ∀ p < next, plans' p = plans p) : r.Ok plans' next' where
  made := fun p hp => (hr.made p hp).trans_le hnext
  onPlan := by
    obtain ⟨hmade, hplan, -⟩ := hr
    obtain ⟨told, seen, log⟩ := r
    cases told with
    | onLanes p rmfPose lanes =>
        simp only [Report.OnPlan, hplans p (hmade p rfl)]
        exact hplan
    | atWaypoint p graphIndex orientation =>
        simp only [Report.OnPlan, hplans p (hmade p rfl)]
        exact hplan
    | onMap | batterySoc | checked => trivial
  evident := hr.evident

/-- What the lanes of a plan make of a position. -/
theorem positionOf_ok (site : Site) {plans : SessionId → List RoutePoint} {next p k : ℕ}
    {seen log : List (Event G WaypointMsg)} (rmfPose : Pose) (hp : p < next)
    (hseen : activePath seen = some p) (hk : k = 0 ∨ TargetReported log p k) :
    Report.Ok plans next
      ⟨site.positionOf p rmfPose ((Route.ofPlan (plans p)).navigationLanes k), seen, log⟩ := by
  cases hinfo : (Route.ofPlan (plans p)).navigationLanes k with
  | none => exact .of_path?_eq_none rfl trivial
  | some info =>
      obtain ⟨hlanes, hindex⟩ := navigationLanes_ofPlan hinfo
      simp only [Site.positionOf]
      split
      · rename_i hempty
        rw [List.isEmpty_iff.mp hempty] at hlanes
        cases hgraph : info.graphIndex with
        | none => exact .of_path?_eq_none rfl trivial
        | some graphIndex =>
            rw [hgraph] at hindex
            refine ⟨?_, ⟨k, ⟨hseen, hk⟩, hlanes, hindex⟩, trivial⟩
            rintro _ ⟨⟩
            exact hp
      · rename_i hne
        refine ⟨?_, ⟨fun hnil => hne (List.isEmpty_iff.mpr hnil), k, ⟨hseen, hk⟩, hlanes⟩, trivial⟩
        rintro _ ⟨⟩
        exact hp

/-- What an update has read, and what has been told. -/
structure TellInv (s : State G) : Prop where
  reads : ∀ i seen, s.update.reads? = some (i, seen) →
    activePath seen = some i ∧ i < s.nav.mem.nextSession
  told : ∀ r ∈ s.told, r.Ok s.plans s.nav.mem.nextSession

/-- What is known of the navigation stack, by its own invariants. -/
structure NavKnown (s : State G) : Prop where
  nav : NavInv s.nav
  read : ReadInv s.nav

theorem NavKnown.active {s : State G} (hs : NavKnown s) {i : SessionId}
    (hi : s.nav.mem.session = some i) :
    activePath s.nav.mem.log = some i ∧ i < s.nav.mem.nextSession :=
  ⟨hs.read.active.active i hi, hs.nav.nav.mem.session_lt i hi⟩

section

variable [DecidableEq G]

theorem NavKnown.reach {site : Site} {currentPosition : Pose} {P : State G → Action G → Prop}
    {s : State G} (h : (robot G site currentPosition).Reach P s) : NavKnown s :=
  have hnav := (robot_refines h).2.1
  ⟨.reach hnav, .reach hnav⟩

theorem updated_moves (s : EgbFleet.State G WaypointMsg) :
    EgbFleet.Moves s .update (updated s) :=
  have h : navStep s .update = some (updated s) := rfl
  navStep_moves h

theorem NavKnown.updated_nextSession {s : State G} (hs : NavKnown s) :
    s.nav.mem.nextSession ≤ (updated s.nav).mem.nextSession :=
  ((updated_moves s.nav).nextSession hs.nav).1

theorem NavKnown.updated_log {s : State G} (hs : NavKnown s) :
    s.nav.mem.log <:+ (updated s.nav).mem.log :=
  (updated_moves s.nav).suffix hs.nav

end

/-- A step that tells nothing and reads no session. -/
theorem TellInv.next {s s' : State G} (hs : TellInv s)
    (hnext : s.nav.mem.nextSession ≤ s'.nav.mem.nextSession) (htold : s'.told = s.told)
    (hplans : ∀ p < s.nav.mem.nextSession, s'.plans p = s.plans p)
    (hreads : ∀ x, s'.update.reads? = some x → s.update.reads? = some x) : TellInv s' where
  reads := fun i seen h =>
    have ⟨hseen, hi⟩ := hs.reads i seen (hreads _ h)
    ⟨hseen, hi.trans_le hnext⟩
  told := fun r hr => (hs.told r (htold ▸ hr)).mono hnext hplans

/-- A step that tells one thing. -/
theorem TellInv.tell {s s' : State G} (hs : TellInv s) {r : Report G}
    (hnext : s.nav.mem.nextSession ≤ s'.nav.mem.nextSession) (htold : s'.told = r :: s.told)
    (hplans : s'.plans = s.plans) (hr : r.Ok s.plans s'.nav.mem.nextSession)
    (hreads : ∀ i seen, s'.update.reads? = some (i, seen) →
      activePath seen = some i ∧ i < s'.nav.mem.nextSession) : TellInv s' where
  reads := hreads
  told := fun r' hr' => by
    rw [hplans]
    rcases List.mem_cons.mp (htold ▸ hr') with rfl | hr'
    · exact hr
    · exact (hs.told r' hr').mono hnext fun _ _ => rfl

/-- The end of an update tells what `check_deadlock_recovery` did. -/
theorem TellInv.check {s : State G} (hs : TellInv s) (site : Site) (job : Job)
    {seen : List (Event G WaypointMsg)} (now : ℤ) {session : Option (NavigationSession G)}
    (h : session.any NavigationSession.blocked = true →
      ∃ p, activePath seen = some p ∧ ∃ reason, reason ≠ .none ∧
        FailureReported s.nav.mem.log reason) :
    TellInv (s.check site job seen now session) :=
  hs.tell le_rfl rfl rfl (.of_path?_eq_none rfl h) nofun

theorem TickMoves.tellInv [DecidableEq G] {site : Site} {o : Observation} {s s' : State G}
    (h : TickMoves site o s s') (hnav : NavKnown s) (hs : TellInv s) : TellInv s' := by
  have hnext := hnav.updated_nextSession
  have battery (job : Job) : TellInv (s.tell s.nav.mem.log (.batterySoc job.batterySoc)) :=
    hs.tell le_rfl rfl rfl (.of_path?_eq_none rfl trivial) hs.reads
  cases h with
  | noPose => exact hs
  | @reads rmfPose i idle session =>
      obtain ⟨hseen, hi⟩ := hnav.active session
      refine ⟨?_, fun r hr => (hs.told r hr).mono hnext fun _ _ => rfl⟩
      rintro _ _ ⟨⟩
      exact ⟨hseen, hi.trans_le hnext⟩
  | noSession => exact hs.tell hnext rfl rfl (.of_path?_eq_none rfl trivial) nofun
  | @tells job seen i at_lanes =>
      obtain ⟨hseen, hi⟩ := hs.reads i seen (by rw [at_lanes]; rfl)
      have htarget := ((hnav.read.reported i).mono hnav.updated_log).target
      exact hs.tell hnext rfl rfl
        (positionOf_ok site job.rmfPose (hi.trans_le hnext) hseen htarget) nofun
  | places => exact hs.next le_rfl rfl (fun _ _ => rfl) nofun
  | drains =>
      refine hs.next hnext rfl (fun _ _ => rfl) fun x hx => ?_
      dsimp only at hx
      split at hx <;> cases hx
  | @readsAgain job i at_recovery session =>
      obtain ⟨hseen, hi⟩ := hnav.active session
      refine ⟨?_, fun r hr => ((battery job).told r hr).mono hnext fun _ _ => rfl⟩
      rintro _ _ ⟨⟩
      exact ⟨hseen, hi.trans_le hnext⟩
  | @checksNone job at_recovery => exact (battery job).check site job o.now nofun
  | @checksDone job seen now i at_done isDone =>
      refine hs.check site job now fun hblocked => ?_
      simp [NavigationSession.blocked, isDone] at hblocked
  | @notDone job seen now i at_done =>
      refine hs.next le_rfl rfl (fun _ _ => rfl) fun x hx => ?_
      rw [at_done]
      exact hx
  | @checksReason job seen now i at_reason =>
      obtain ⟨hseen, -⟩ := hs.reads i seen (by rw [at_reason]; rfl)
      refine hs.check site job now fun hblocked => ⟨i, hseen, ?_⟩
      have hreason : (s.nav.mem.sessions i).failureReason ≠ .none := by
        simpa [NavigationSession.blocked] using hblocked
      exact ⟨_, hreason, (hnav.read.reported i).reason.resolve_left hreason⟩

section

variable [DecidableEq G]

theorem TellInv.step {site : Site} {s s' : State G} {a : Action G}
    (h : step site s a = some s') (hnav : NavKnown s) (hs : TellInv s) : TellInv s' := by
  cases step_moves h with
  | raises | prepares | batteryState => exact ⟨hs.reads, hs.told⟩
  | starts ready hnavStep =>
      refine hs.next ((navStep_moves hnavStep).nextSession hnav.nav).1 rfl ?_ fun _ => id
      exact fun p hp => Function.update_of_ne hp.ne _ _
  | navigates hnavStep =>
      exact hs.next ((navStep_moves hnavStep).nextSession hnav.nav).1 rfl (fun _ _ => rfl)
        fun _ => id
  | updates h => exact h.tellInv hnav hs

theorem TellInv.reach {site : Site} {currentPosition : Pose} {P : State G → Action G → Prop}
    {s : State G} (h : (robot G site currentPosition).Reach P s) : TellInv s :=
  h.invariant_of (fun _ hs => NavKnown.reach hs) ⟨nofun, nofun⟩
    fun _ _ _ _ hstep hnav hs => hs.step hstep hnav

/-- **Positions follow the plan.**  Whatever the order of the steps, every position told RMF on
lanes or at a waypoint is at the target of the path active when its session was read: the lanes are
those its plan arrives by there, and the target is the first waypoint or one that feedback for the
path's own goals has named. -/
theorem positions_follow_plan {site : Site} {currentPosition : Pose}
    {P : State G → Action G → Prop} {s : State G}
    (h : (robot G site currentPosition).Reach P s) : ∀ r ∈ s.told, r.OnPlan s.plans :=
  fun r hr => ((TellInv.reach h).told r hr).onPlan

theorem positions_follow_plan_underWay :
    ∃ s : State ℕ, (∃ r ∈ s.told, ∃ rmfPose, r.told = .onLanes 0 rmfPose [0]) ∧
      ∀ r ∈ s.told, r.OnPlan s.plans := by
  obtain ⟨s, hrun, -, htold⟩ := exists_run_underWay
  exact ⟨s, htold, positions_follow_plan ⟨_, hrun⟩⟩

/-- **Interruptions follow feedback.**  Whatever the order of the steps, the calls of
`check_deadlock_recovery` that interrupt or resume are spaced, an interruption after 8 s of calls
that found the robot blocked; and each of those had read the session of a path then active, and a
failure that feedback for a goal of the robot's has reported. -/
theorem interruptions_follow_feedback {site : Site} {currentPosition : Pose}
    {P : State G → Action G → Prop} {s : State G}
    (h : (robot G site currentPosition).Reach P s) :
    Log.Justified Recovery.Spaced s.checks ∧ ∀ r ∈ s.told, r.Evident :=
  ⟨(Recovery.timed (robot_refines h).2.2).spaced,
    fun r hr => ((TellInv.reach h).told r hr).evident⟩

/-- So many steps of an update, at this time. -/
def updatesAt (n : ℕ) (now : ℤ) : List (Action ℕ) :=
  List.replicate n (.update { atTheOrigin with now })

/-- RMF gives the plan, feedback reports an obstacle, and two updates run, 8 s apart. -/
def held : List (Action ℕ) :=
  .call (.followNewPath firstLane true true ⟨7, true, some true⟩) :: List.replicate 7 .exec ++
    .recvFeedback ⟨7, 1, 5, 2⟩ :: List.replicate 7 .feedback ++ updatesAt 11 0 ++
    updatesAt 10 (seconds 8)

/-- The second update interrupts. -/
theorem interruptions_follow_feedback_held :
    ∃ s : State ℕ, s.checks.map Recovery.Call.interrupts = [true, false] ∧
      Log.Justified Recovery.Spaced s.checks ∧ ∀ r ∈ s.told, r.Evident := by
  have hruns : (robot ℕ forkSite ⟨(0, 0), 0⟩).runs (fun _ _ => True)
    (robot ℕ forkSite ⟨(0, 0), 0⟩).init held = some _ := rfl
  exact ⟨_, rfl, interruptions_follow_feedback ⟨_, Lts.run_of_runs hruns⟩⟩

end

end EgbFleet.Robot

end
