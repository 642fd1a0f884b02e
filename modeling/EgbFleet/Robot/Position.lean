import EgbFleet.Paths.ApproachYaw
import EgbFleet.Paths.UndockPlan

/-!
# Robot — where it is

What `RobotState` and `PathHandle` know of one robot's place: the lanes near its pose, on which
`dock` decides, and the lanes of the plan it follows, on which its position is reported.

A session keeps the arrival lanes and the graph indices of its plan's waypoints, and
`get_navigation_lanes` reads those of the waypoint the robot is driving to.
-/

noncomputable section

namespace EgbFleet.Robot

open Frames Paths

/-- What one robot's objects are made with: `RobotState` and `PathHandle` get one graph and one
table of transforms. -/
structure Site where
  externals : Externals
  computePlanStarts : (g : Graph (ℝ × ℝ)) → String → Pose → ℤ → List (PlanStart g)
  mapName : String
  coordinateTransforms : CoordinateTransforms
  graph : Graph (ℝ × ℝ)

/-! ### The lanes nearby -/

/-- The lanes an update passes to `PathHandle::update_position`: those of the plan starts, or all,
if no start is on a lane. -/
def Site.nearbyLanes (site : Site) (rmfPose : Pose) (now : ℤ) : List ℕ :=
  let lanes := (site.computePlanStarts site.graph site.mapName rmfPose now).filterMap
    fun start => start.lane.map Fin.val
  if lanes.isEmpty then List.range site.graph.lanes.length else lanes

/-- They are lanes of the graph. -/
theorem Site.lt_of_mem_nearbyLanes {site : Site} {rmfPose : Pose} {now : ℤ} {i : ℕ}
    (h : i ∈ site.nearbyLanes rmfPose now) : i < site.graph.lanes.length := by
  simp only [nearbyLanes] at h
  split at h
  · exact List.mem_range.mp h
  · obtain ⟨start, -, hi⟩ := List.mem_filterMap.mp h
    obtain ⟨lane, -, rfl⟩ := Option.map_eq_some_iff.mp hi
    exact lane.isLt

/-- There are some, if the graph has any lane. -/
theorem Site.nearbyLanes_ne_nil {site : Site} (h : site.graph.lanes ≠ []) (rmfPose : Pose)
    (now : ℤ) : site.nearbyLanes rmfPose now ≠ [] := by
  simp only [nearbyLanes]
  split
  · rw [Ne, List.range_eq_nil, List.length_eq_zero_iff]
    exact h
  · rename_i hne
    exact fun hnil => hne (List.isEmpty_iff.mpr hnil)

/-- The loop of `dock` over lanes of the graph finds the first that ends in the dock. -/
theorem findDock_eq {g : Graph (ℝ × ℝ)} (dockName : String) {nearby : List ℕ}
    (h : ∀ i ∈ nearby, i < g.lanes.length) :
    g.findDock dockName nearby =
      .ok ((nearby.filterMap g.getLane).find? (·.docks dockName)) := by
  induction nearby with
  | nil => rfl
  | cons i nearby ih =>
      have hlt : i < g.lanes.length := h i List.mem_cons_self
      have hi : g.getLane i = some g.lanes[i] := List.getElem?_eq_getElem hlt
      have hnearby := ih fun j hj => h j (List.mem_cons_of_mem i hj)
      by_cases hdocks : g.lanes[i].docks dockName = true
      · simp [Graph.findDock, hi, hdocks]
      · simp [Graph.findDock, hi, hdocks, hnearby]

/-! ### The lanes of the plan -/

/-- `rmf_traffic::agv::Plan::Waypoint`, with its `graph_index()`. -/
structure RoutePoint extends PlanWaypoint where
  graphIndex : Option ℕ

/-- The vectors of a `NavigationSession` that `get_navigation_lanes` reads. -/
structure Route where
  waypointApproachLanes : List (List ℕ)
  waypointGraphIndices : List (Option ℕ)

def Route.ofPlan (plan : List RoutePoint) : Route where
  waypointApproachLanes := plan.map (·.approachLanes)
  waypointGraphIndices := plan.map (·.graphIndex)

/-- `PathHandle::NavigationLaneInfo`. -/
structure NavigationLaneInfo where
  lanes : List ℕ
  graphIndex : Option ℕ

/-- `PathHandle::get_navigation_lanes`, of a session with this target. -/
def Route.navigationLanes (r : Route) (idx : ℕ) : Option NavigationLaneInfo :=
  if r.waypointApproachLanes.length ≤ idx then none
  else
    let lanes := r.waypointApproachLanes.getD idx []
    some
      { lanes :=
          if lanes.isEmpty ∧ idx + 1 < r.waypointApproachLanes.length then
            r.waypointApproachLanes.getD (idx + 1) []
          else lanes
        graphIndex := r.waypointGraphIndices.getD idx none }

/-- `lanes` are those the plan arrives by at `idx`, or, where none arrive there, at the waypoint
after it. -/
def LanesAt (plan : List RoutePoint) (idx : ℕ) (lanes : List ℕ) : Prop :=
  ∃ w, plan[idx]? = some w ∧ (lanes = w.approachLanes ∨
    w.approachLanes = [] ∧ ∃ next, plan[idx + 1]? = some next ∧ lanes = next.approachLanes)

theorem navigationLanes_ofPlan {plan : List RoutePoint} {idx : ℕ} {info : NavigationLaneInfo}
    (h : (Route.ofPlan plan).navigationLanes idx = some info) :
    LanesAt plan idx info.lanes ∧ plan[idx]?.map (·.graphIndex) = some info.graphIndex := by
  simp only [Route.navigationLanes, Route.ofPlan, List.length_map] at h
  split at h
  · cases h
  rename_i hidx
  have hlt : idx < plan.length := not_le.mp hidx
  have hget : plan[idx]? = some plan[idx] := List.getElem?_eq_getElem hlt
  have hlanes : (plan.map (·.approachLanes)).getD idx [] = plan[idx].approachLanes := by
    simp [List.getD_eq_getElem?_getD, hget]
  cases h
  refine ⟨⟨_, hget, ?_⟩, by simp [List.getD_eq_getElem?_getD, hget]⟩
  dsimp only
  split
  · rename_i hempty
    have hget' : plan[idx + 1]? = some plan[idx + 1] := List.getElem?_eq_getElem hempty.2
    rw [hlanes] at hempty
    refine .inr ⟨List.isEmpty_iff.mp hempty.1, _, hget', ?_⟩
    simp [List.getD_eq_getElem?_getD, hget']
  · exact .inl hlanes

end EgbFleet.Robot

end
