import EgbFleet.Navigation.Legs
import EgbFleet.Paths.Goals
import EgbFleet.Support.Results
import EgbFleet.Support.Scan

/-!
# Paths — the speed limits of a goal's lanes

`follow_new_path` works out, for each waypoint of a plan, the slowest of the lanes that arrive
there, and `generate_lanes` gives the lane to that waypoint this limit.  A limit of 0 is none.

But the loop over the arriving lanes takes 0 for no limit seen yet, too, and so a lane of limit 0
lifts those listed before it.  `lane_limit_iff`: the limit sent is that of the slowest lane exactly
if each limit is matched by one no higher, listed after the last 0.
-/

noncomputable section

namespace EgbFleet.Paths

open Frames

/-- The limits that are set of the lanes that arrive. -/
def laneLimits (g : Graph (ℝ × ℝ)) (approachLanes : List ℕ) : List ℚ :=
  approachLanes.filterMap fun i => (g.getLane i).bind GraphLane.speedLimit

/-- Those after the last 0. -/
def lastLimits (g : Graph (ℝ × ℝ)) (approachLanes : List ℕ) : List ℚ :=
  (laneLimits g approachLanes).rtakeWhile fun limit => 0 < limit

/-- The loop ends where every lane that arrives is one of the graph. -/
theorem arrivalLimit_eq_ok_iff {g : Graph (ℝ × ℝ)} {approachLanes : List ℕ} {limit : ℚ} :
    arrivalLimit g approachLanes = .ok limit ↔
      (∀ i ∈ approachLanes, i < g.lanes.length) ∧
        limit = (laneLimits g approachLanes).foldl Scan.refine 0 := by
  unfold arrivalLimit laneLimits
  generalize (0 : ℚ) = kept
  induction approachLanes generalizing kept with
  | nil => simpa [pure, Except.pure] using eq_comm
  | cons i approachLanes ih =>
      rw [List.foldlM_cons, Except.bind_eq_ok]
      cases hlane : g.getLane i with
      | none =>
          have hout : ¬ i < g.lanes.length := not_lt.mpr (List.getElem?_eq_none_iff.mp hlane)
          simp [slowest, hlane, hout]
      | some lane =>
          have hin : i < g.lanes.length := (List.getElem?_eq_some_iff.mp hlane).1
          cases hlimit : lane.speedLimit with
          | none => simp [slowest, hin, hlane, hlimit, ih]
          | some laneLimit => simp [slowest, hin, hlane, hlimit, ih, Scan.refine]

theorem arrivalLimit_iff {g : Graph (ℝ × ℝ)} {approachLanes : List ℕ} {limit : ℚ}
    (hlimit : arrivalLimit g approachLanes = .ok limit)
    (h : ∀ limit ∈ laneLimits g approachLanes, 0 ≤ limit) :
    Scan.LeastPos (laneLimits g approachLanes) limit ↔
      ∀ limit ∈ laneLimits g approachLanes, 0 < limit →
        ∃ limit' ∈ lastLimits g approachLanes, limit' ≤ limit := by
  rw [(arrivalLimit_eq_ok_iff.mp hlimit).2]
  exact Scan.leastPos_foldl_iff h

/-- The limits have been worked out just if every lane that arrives is one of the graph. -/
theorem waypointSpeedLimits_eq_ok {g : Graph (ℝ × ℝ)} {plan : List PlanWaypoint}
    (h : ∀ w ∈ plan, ∀ i ∈ w.approachLanes, i < g.lanes.length) :
    ∃ limits, waypointSpeedLimits g plan = .ok limits :=
  ⟨plan.map fun w => (laneLimits g w.approachLanes).foldl Scan.refine 0,
    Except.mapM_eq_ok.mpr (List.forall₂_map_right_iff.mpr (List.forall₂_same.mpr fun w hw =>
      arrivalLimit_eq_ok_iff.mpr ⟨h w hw, rfl⟩))⟩

/-- Lane `i` has the limit of waypoint `i + 1`. -/
theorem speedLimit_generateLanes {n i : ℕ} {limits : List ℚ} {lane : Lane} {limit : ℚ}
    (hlane : (generateLanes n limits)[i]? = some lane) (hlimit : limits[i + 1]? = some limit) :
    lane.speedLimit = limit := by
  simp only [generateLanes, List.getElem?_map, Option.map_eq_some_iff] at hlane
  obtain ⟨j, hj, rfl⟩ := hlane
  obtain ⟨hlt, rfl⟩ := List.getElem?_eq_some_iff.mp hj
  rw [List.getElem_range]
  simp [List.getD_eq_getElem?_getD, hlimit]

/-- **Speed limits.**  The limit sent for a leg is that of the slowest lane that arrives, exactly if
none of those listed before the last limit of 0 is slower than all those after it. -/
theorem lane_limit_iff {G : Type} [DecidableEq G] (x : Externals) (tr : CoordinateTransforms)
    (g : Graph (ℝ × ℝ)) (plan : List PlanWaypoint) (approachYaw : Option ℝ)
    (estimator finished : Bool) (net : Network G) (s s₁ t : State G WaypointMsg)
    (as : List (Action G WaypointMsg)) (c : CallId) (goalId : G) (waypoints : List WaypointMsg)
    (lanes : List Lane) (limits : List ℚ) (hwork : waypointSpeedLimits g plan = .ok limits)
    (hlimits : ∀ w ∈ plan, ∀ limit ∈ laneLimits g w.approachLanes, 0 ≤ limit)
    (hs : (navigation G WaypointMsg).Reach (fun _ _ => True) s)
    (hcall : (navigation G WaypointMsg).step s (.call (.followNewPath
      (followWaypoints x tr plan approachYaw) limits estimator finished net)) = some s₁)
    (hrun : (navigation G WaypointMsg).Run (fun _ _ => True) s₁ as t)
    (hsent : .sent c goalId waypoints lanes ∈ t.mem.log)
    (hgoal : PathGoal t.mem.log s.mem.nextSession goalId) :
    lanes.length = plan.length - 1 ∧
      ∀ (i : ℕ) (lane : Lane) (w : PlanWaypoint), lanes[i]? = some lane → plan[i + 1]? = some w →
        (Scan.LeastPos (laneLimits g w.approachLanes) lane.speedLimit ↔
          ∀ limit ∈ laneLimits g w.approachLanes, 0 < limit →
            ∃ limit' ∈ lastLimits g w.approachLanes, limit' ≤ limit) := by
  obtain ⟨rfl, rfl⟩ := sent_of_followed hs hcall hrun hsent hgoal
  have hcount : (followWaypoints x tr plan approachYaw).length = plan.length := by
    simp [followWaypoints]
  refine ⟨by simp [generateLanes, hcount], fun i lane w hlane hw => ?_⟩
  have hworked := Except.mapM_eq_ok.mp hwork
  obtain ⟨hi, rfl⟩ := List.getElem?_eq_some_iff.mp hw
  have hi' : i + 1 < limits.length := hworked.length_eq ▸ hi
  rw [speedLimit_generateLanes hlane (List.getElem?_eq_getElem hi')]
  exact arrivalLimit_iff (hworked.get hi hi') (hlimits _ (List.getElem_mem hi))

/-! ### A lane of limit 0 -/

/-- Two lanes to waypoint 1, one of them without a limit. -/
def twoArrivals : Graph (ℝ × ℝ) where
  waypoints := [(0, 0), (1, 0), (1, 1)]
  lanes := [{ entry := 0, exit := 1, speedLimit := some 1 },
    { entry := 2, exit := 1, speedLimit := some 0 }]
  ends := by simp

/-- Two waypoints, the second reached by these lanes. -/
def planTo (approachLanes : List ℕ) : List PlanWaypoint :=
  [⟨⟨(0, 0), 0⟩, []⟩, ⟨⟨(1, 0), 0⟩, approachLanes⟩]

/-- `follow_new_path`, of that plan with these limits. -/
def followTo (tr : CoordinateTransforms) (approachLanes : List ℕ) (limits : List ℚ) :
    Call ℕ WaypointMsg :=
  .followNewPath (followWaypoints standard tr (planTo approachLanes) none) limits true true
    ⟨7, true, some true⟩

/-- Its goal is sent. -/
theorem exists_sent_followTo (tr : CoordinateTransforms) (approachLanes : List ℕ)
    (limits : List ℚ) :
    ∃ s₁ t waypoints,
      (navigation ℕ WaypointMsg).step navStart (.call (followTo tr approachLanes limits)) =
        some s₁ ∧
      (navigation ℕ WaypointMsg).Run (fun _ _ => True) s₁ [.exec, .exec, .exec, .exec, .exec] t ∧
      .sent 0 7 waypoints (generateLanes 2 limits) ∈ t.mem.log ∧ PathGoal t.mem.log 0 7 := by
  have hruns : ∃ s₁ t waypoints,
      (navigation ℕ WaypointMsg).step navStart (.call (followTo tr approachLanes limits)) =
        some s₁ ∧
        (navigation ℕ WaypointMsg).runs (fun _ _ => True) s₁ [.exec, .exec, .exec, .exec, .exec] =
          some t ∧
        .sent 0 7 waypoints (generateLanes 2 limits) ∈ t.mem.log ∧ PathGoal t.mem.log 0 7 :=
    ⟨_, _, _, rfl, rfl, .head _, 0, true, .tail _ (.head _)⟩
  obtain ⟨s₁, t, waypoints, hstep, hrun, hsent, hgoal⟩ := hruns
  exact ⟨s₁, t, waypoints, hstep, Lts.run_of_runs hrun, hsent, hgoal⟩

theorem laneLimits_twoArrivals :
    laneLimits twoArrivals [0, 1] = [1, 0] ∧ laneLimits twoArrivals [1, 0] = [0, 1] := ⟨rfl, rfl⟩

theorem limits_planTo :
    waypointSpeedLimits twoArrivals (planTo [1, 0]) = .ok [0, 1] ∧
      waypointSpeedLimits twoArrivals (planTo [0, 1]) = .ok [0, 0] := by
  constructor <;> refine Except.mapM_eq_ok.mpr (.cons ?_ (.cons ?_ .nil)) <;>
    refine arrivalLimit_eq_ok_iff.mpr ⟨by simp [twoArrivals], ?_⟩
  · rfl
  · simp [laneLimits_twoArrivals.2, Scan.refine]
  · rfl
  · simp [laneLimits_twoArrivals.1, Scan.refine]

/-- The lane of limit 0 is listed first. -/
theorem lane_limit_iff_first :
    ∃ (t : State ℕ WaypointMsg) (waypoints : List WaypointMsg) (lanes : List Lane) (lane : Lane),
      .sent 0 7 waypoints lanes ∈ t.mem.log ∧ lanes[0]? = some lane ∧
        Scan.LeastPos (laneLimits twoArrivals [1, 0]) lane.speedLimit := by
  obtain ⟨s₁, t, waypoints, hstep, hrun, hsent, hgoal⟩ :=
    exists_sent_followTo ⟨[], .nil⟩ [1, 0] [0, 1]
  refine ⟨t, waypoints, _, _, hsent, rfl, ?_⟩
  have hlimits : ∀ w ∈ planTo [1, 0], ∀ limit ∈ laneLimits twoArrivals w.approachLanes,
      0 ≤ limit := by
    simp only [planTo, List.forall_mem_cons, laneLimits_twoArrivals.2]
    simp [laneLimits]
  have hlegs := (lane_limit_iff standard ⟨[], .nil⟩ twoArrivals (planTo [1, 0]) none true true
    ⟨7, true, some true⟩ navStart s₁ t _ 0 7 waypoints _ _ limits_planTo.1 hlimits .init hstep hrun
    hsent hgoal).2
  refine (hlegs 0 _ ⟨⟨(1, 0), 0⟩, [1, 0]⟩ rfl rfl).mpr ?_
  simp [lastLimits, laneLimits_twoArrivals, List.rtakeWhile]

/-- The lane of limit 0 is listed last, and lifts the limit of 1. -/
theorem limit_lifted :
    ∃ (s₁ t : State ℕ WaypointMsg) (limits : List ℚ) (waypoints : List WaypointMsg)
      (lanes : List Lane) (lane : Lane),
      waypointSpeedLimits twoArrivals (planTo [0, 1]) = .ok limits ∧
        (navigation ℕ WaypointMsg).step navStart (.call (followTo ⟨[], .nil⟩ [0, 1] limits)) =
          some s₁ ∧
        (navigation ℕ WaypointMsg).Run (fun _ _ => True) s₁ [.exec, .exec, .exec, .exec, .exec] t ∧
        .sent 0 7 waypoints lanes ∈ t.mem.log ∧ lanes[0]? = some lane ∧
        ¬ Scan.LeastPos (laneLimits twoArrivals [0, 1]) lane.speedLimit := by
  obtain ⟨s₁, t, waypoints, hstep, hrun, hsent, -⟩ :=
    exists_sent_followTo ⟨[], .nil⟩ [0, 1] [0, 0]
  refine ⟨s₁, t, _, waypoints, _, _, limits_planTo.2, hstep, hrun, hsent, rfl, ?_⟩
  have hlane : ([0, 0] : List ℚ).getD 1 0 = 0 := rfl
  dsimp only
  rw [hlane, laneLimits_twoArrivals.1]
  rintro (⟨-, hpos, -⟩ | ⟨-, hnone⟩)
  · exact absurd hpos (lt_irrefl _)
  · exact hnone 1 (by simp) one_pos

end EgbFleet.Paths

end
