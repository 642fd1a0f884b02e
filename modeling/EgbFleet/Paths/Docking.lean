import EgbFleet.Frames.Conversion
import EgbFleet.Paths.Graph
import EgbFleet.Support.Scan

/-!
# Paths — `dock`

`PathHandle::dock` looks for the lane, among those near the robot, that ends in the named dock.  If
the dock has a way out other than back along that lane, it takes the robot to be leaving: it chooses
one of the lanes that leave the dock, `find_best_approach_lane`, and sends the robot a path of two
waypoints.

The second waypoint is made of the *entry* of the chosen lane.  That is the dock itself, since the
lane leaves it: the path never leads away (`undock_leads_out_iff`).

Lengths and angles are real numbers.
-/

noncomputable section

namespace EgbFleet.Paths

open Real Frames

/-! ### Directions -/

/-- `Eigen`'s `normalized`: a vector of length zero stays as it is. -/
def normalized (v : ℝ × ℝ) : ℝ × ℝ :=
  let squaredNorm := v.1 * v.1 + v.2 * v.2
  if 0 < squaredNorm then (v.1 / √squaredNorm, v.2 / √squaredNorm) else v

/-- `std::atan2` of a direction's components. -/
def heading (direction : ℝ × ℝ) : ℝ := Complex.arg ⟨direction.1, direction.2⟩

/-- From a lane's entry to its exit. -/
def Graph.laneDirection (g : Graph (ℝ × ℝ)) (lane : GraphLane) : ℝ × ℝ :=
  g.location lane.exit - g.location lane.entry

/-- `while (angle_diff > M_PI) angle_diff -= 2 * M_PI`. -/
def lowerAngle (a : ℝ) : ℝ := if π < a then lowerAngle (a - (π + π)) else a
termination_by ⌈(a - π) / (π + π)⌉.toNat
decreasing_by
  rename_i h
  have hturn : 0 < π + π := add_pos pi_pos pi_pos
  have hpos : 0 < ⌈(a - π) / (π + π)⌉ := Int.ceil_pos.mpr (div_pos (sub_pos.mpr h) hturn)
  have heq : (a - (π + π) - π) / (π + π) = (a - π) / (π + π) - 1 := by
    rw [sub_right_comm, sub_div, div_self hturn.ne']
  rw [heq, Int.ceil_sub_one]
  omega

/-- `while (angle_diff < -M_PI) angle_diff += 2 * M_PI`. -/
def raiseAngle (a : ℝ) : ℝ := if a < -π then raiseAngle (a + (π + π)) else a
termination_by ⌈(-π - a) / (π + π)⌉.toNat
decreasing_by
  rename_i h
  have hturn : 0 < π + π := add_pos pi_pos pi_pos
  have hpos : 0 < ⌈(-π - a) / (π + π)⌉ := Int.ceil_pos.mpr (div_pos (sub_pos.mpr h) hturn)
  have heq : (-π - (a + (π + π))) / (π + π) = (-π - a) / (π + π) - 1 := by
    rw [← sub_sub, sub_div, div_self hturn.ne']
  rw [heq, Int.ceil_sub_one]
  omega

theorem lowerAngle_le (a : ℝ) : lowerAngle a ≤ π := by
  induction a using lowerAngle.induct with
  | case1 a h ih => rw [lowerAngle, if_pos h]; exact ih
  | case2 a h => rw [lowerAngle, if_neg h]; exact not_lt.mp h

theorem raiseAngle_mem {a : ℝ} (ha : a ≤ π) : raiseAngle a ∈ Set.Icc (-π) π := by
  induction a using raiseAngle.induct with
  | case1 a h ih =>
      rw [raiseAngle, if_pos h]
      exact ih (by linarith)
  | case2 a h =>
      rw [raiseAngle, if_neg h]
      exact ⟨not_lt.mp h, ha⟩

/-! ### The lane to leave by -/

/-- How far a lane's direction is from the opposite of the docking direction: `dist_from_180`. -/
def distFrom180 (dockAngle : ℝ) (dockPos appExitPos : ℝ × ℝ) : ℝ :=
  |(|raiseAngle (lowerAngle (heading (normalized (appExitPos - dockPos)) - dockAngle))| - π)|

/-- No lane is too far off to be the best of all. -/
theorem distFrom180_lt (dockAngle : ℝ) (dockPos appExitPos : ℝ × ℝ) :
    distFrom180 dockAngle dockPos appExitPos < π + 1 := by
  unfold distFrom180
  have habs := abs_le.mpr (raiseAngle_mem (lowerAngle_le
    (heading (normalized (appExitPos - dockPos)) - dockAngle)))
  rw [abs_sub_comm, abs_of_nonneg (sub_nonneg.mpr habs)]
  have := abs_nonneg (raiseAngle (lowerAngle
    (heading (normalized (appExitPos - dockPos)) - dockAngle)))
  linarith

/-- `PathHandle::find_best_approach_lane`. -/
def findBestApproachLane (g : Graph (ℝ × ℝ)) (dockingLane : GraphLane) (dockWaypoint : Nat) :
    Option Nat :=
  let dockDirection := normalized (g.location dockingLane.exit - g.location dockingLane.entry)
  (Scan.least (fun lane => lane.1.entry == dockWaypoint)
    (fun lane =>
      distFrom180 (heading dockDirection) (g.location dockWaypoint) (g.location lane.1.exit))
    (π + 1, none) g.lanes.zipIdx).2.map Prod.snd

variable {g : Graph (ℝ × ℝ)} {dockingLane : GraphLane} {dockWaypoint : Nat}

/-- What it returns is a lane that leaves the waypoint. -/
theorem leaves_of_findBestApproachLane {i : Nat}
    (h : findBestApproachLane g dockingLane dockWaypoint = some i) :
    ∃ lane, g.getLane i = some lane ∧ lane.entry = dockWaypoint := by
  obtain ⟨⟨lane, j⟩, hbest, rfl⟩ := Option.map_eq_some_iff.mp h
  obtain ⟨-, k, hk⟩ := Scan.firstLeast_of_least_none hbest
  exact ⟨lane, List.mk_mem_zipIdx_iff_getElem?.mp hk.mem, beq_iff_eq.mp hk.holds⟩

/-- If a lane leaves the waypoint, it returns one. -/
theorem findBestApproachLane_ne_none {lane : GraphLane} (hmem : lane ∈ g.lanes)
    (he : lane.entry = dockWaypoint) : findBestApproachLane g dockingLane dockWaypoint ≠ none := by
  obtain ⟨i, hi⟩ := List.mem_iff_getElem?.mp hmem
  refine mt Option.map_eq_none_iff.mp ?_
  exact Scan.least_ne_none (List.mk_mem_zipIdx_iff_getElem?.mpr hi) (beq_iff_eq.mpr he)
    (distFrom180_lt _ _ _)

/-! ### The call -/

/-- The loop over `nearby_lanes_`: the first lane that ends in the dock; an error is
`std::out_of_range`. -/
def Graph.findDock {P : Type} (g : Graph P) (dockName : String) :
    List Nat → Except Unit (Option GraphLane)
  | [] => .ok none
  | i :: nearby =>
      match g.getLane i with
      | none => .error ()
      | some lane => if lane.docks dockName then .ok (some lane) else g.findDock dockName nearby

/-- `has_undock_paths`: a lane leaves the dock, and not back to where the docking lane starts. -/
def Graph.hasUndockPaths {P : Type} (g : Graph P) (dockingLane : GraphLane) : Bool :=
  g.lanes.any fun lane => lane.entry == dockingLane.exit && lane.exit != dockingLane.entry

/-- A waypoint message at a position of the robot's frame. -/
def waypointAt (id : String) (sequenceId : UInt32) (position : ℝ × ℝ) (yaw : ℝ) : WaypointMsg where
  id := id
  sequenceId := sequenceId
  pose := { x := position.1, y := position.2, z := 0, orientation := yawQuaternion yaw }

/-- `std::atan2` of the opposite of a direction.  Of no direction it is that of two negative
zeros. -/
def oppositeHeading (direction : ℝ × ℝ) : ℝ :=
  if direction = 0 then -π else heading (-direction)

/-- `undock_path`, of the docking lane and the lane chosen. -/
def undockPath (x : Externals) (t : CoordinateTransforms) (g : Graph (ℝ × ℝ)) (dockName : String)
    (dockingLane approachLane : GraphLane) : List WaypointMsg :=
  let dockPos := g.location dockingLane.exit
  let dockDirection := normalized (dockPos - g.location dockingLane.entry)
  let appEntryPos := g.location approachLane.entry
  let appDirection := normalized (dockPos - appEntryPos)
  [waypointAt ("dock_" ++ dockName) 0 (transformPosition x t dockPos) (heading dockDirection),
    waypointAt "app_entry" 1 (transformPosition x t appEntryPos) (oppositeHeading appDirection)]

/-- What `dock` does: it raises, it only calls `docking_finished_callback`, or it passes a path to
`execute_path`, with that callback. -/
inductive DockResult where
  | raised
  | finished
  | undock (path : List WaypointMsg)

/-- The fields of a `PathHandle` that `dock` reads. -/
structure PathHandle where
  coordinateTransforms : CoordinateTransforms
  graph : Option (Graph (ℝ × ℝ))
  controlAdapter : Bool
  nearbyLanes : List Nat

/-- `PathHandle::dock`. -/
def PathHandle.dock (x : Externals) (dockName : String) (h : PathHandle) : DockResult :=
  match h.graph with
  | none => .finished
  | some g =>
      if h.nearbyLanes.isEmpty then .finished
      else
        match g.findDock dockName h.nearbyLanes with
        | .error () => .raised
        | .ok none => .finished
        | .ok (some dockingLane) =>
            if g.hasUndockPaths dockingLane then
              match findBestApproachLane g dockingLane dockingLane.exit with
              | none => .finished
              | some i =>
                  match g.getLane i with
                  | none => .raised
                  | some approachLane =>
                      if h.controlAdapter then
                        .undock (undockPath x h.coordinateTransforms g dockName dockingLane
                          approachLane)
                      else .finished
            else .finished

/-- Where the robot is sent, the undock path is that of a lane which leaves the dock. -/
theorem PathHandle.exists_of_dock {x : Externals} {dockName : String} {h : PathHandle}
    {path : List WaypointMsg} (hd : h.dock x dockName = .undock path) :
    ∃ g dockingLane approachLane, h.graph = some g ∧
      g.findDock dockName h.nearbyLanes = .ok (some dockingLane) ∧
      approachLane.entry = dockingLane.exit ∧
      path = undockPath x h.coordinateTransforms g dockName dockingLane approachLane := by
  unfold dock at hd
  split at hd
  · cases hd
  rename_i g hg
  split at hd
  · cases hd
  split at hd
  · cases hd
  · cases hd
  rename_i dockingLane hl
  split at hd
  · split at hd
    · cases hd
    rename_i i hi
    obtain ⟨approachLane, hlane, he⟩ := leaves_of_findBestApproachLane hi
    simp only [hlane] at hd
    split at hd
    · cases hd
      exact ⟨g, dockingLane, approachLane, hg, hl, he, rfl⟩
    · cases hd
  · cases hd

/-- It is sent wherever the dock has a way out. -/
theorem PathHandle.dock_undock (x : Externals) {dockName : String} {h : PathHandle}
    {g : Graph (ℝ × ℝ)} {dockingLane : GraphLane} (hg : h.graph = some g)
    (hl : g.findDock dockName h.nearbyLanes = .ok (some dockingLane))
    (hout : g.hasUndockPaths dockingLane = true) (hc : h.controlAdapter = true) :
    ∃ path, h.dock x dockName = .undock path := by
  obtain ⟨lane, hmem, he⟩ := List.any_eq_true.mp hout
  have he : lane.entry = dockingLane.exit := by simp at he; exact he.1
  have hbest : findBestApproachLane g dockingLane dockingLane.exit ≠ none :=
    findBestApproachLane_ne_none hmem he
  obtain ⟨i, hi⟩ := Option.ne_none_iff_exists'.mp hbest
  obtain ⟨approachLane, hlane, -⟩ := leaves_of_findBestApproachLane hi
  have hne : h.nearbyLanes ≠ [] := by
    intro hnil
    rw [hnil] at hl
    cases hl
  simp [dock, hg, hl, hout, hi, hlane, hc, hne]

/-! ### Where the path leads -/

/-- The position of a waypoint message. -/
def position (w : WaypointMsg) : ℝ × ℝ := (w.pose.x, w.pose.y)

/-- The path starts at the dock and ends at the exit of a lane that leaves it, in the robot's
frame. -/
structure LeadsOut (x : Externals) (t : CoordinateTransforms) (g : Graph (ℝ × ℝ)) (dock : Nat)
    (path : List WaypointMsg) : Prop where
  start : ∃ first, path.head? = some first ∧
    position first = transformPosition x t (g.location dock)
  finish : ∃ last, path.getLast? = some last ∧ ∃ lane ∈ g.lanes, lane.entry = dock ∧
    position last = transformPosition x t (g.location lane.exit)

variable {x : Externals} {t : CoordinateTransforms} {dockName : String} {approachLane : GraphLane}

/-- The path ends where it starts, at the dock. -/
theorem undockPath_stays (x : Externals) (t : CoordinateTransforms) (g : Graph (ℝ × ℝ))
    (dockName : String) (happ : approachLane.entry = dockingLane.exit) :
    ∃ last, (undockPath x t g dockName dockingLane approachLane).getLast? = some last ∧
      position last = transformPosition x t (g.location dockingLane.exit) := by
  refine ⟨_, rfl, ?_⟩
  change transformPosition x t (g.location approachLane.entry) = _
  rw [happ]

theorem undockPath_leadsOut_iff (happ : approachLane.entry = dockingLane.exit) :
    LeadsOut x t g dockingLane.exit (undockPath x t g dockName dockingLane approachLane) ↔
      ∃ out ∈ g.lanes, out.entry = dockingLane.exit ∧
        transformPosition x t (g.location dockingLane.exit) =
          transformPosition x t (g.location out.exit) := by
  obtain ⟨last, hlast, hstays⟩ := undockPath_stays x t g dockName happ
  constructor
  · rintro ⟨-, last', hlast', out, hmem, he, hpos⟩
    cases hlast.symm.trans hlast'
    exact ⟨out, hmem, he, hstays.symm.trans hpos⟩
  · rintro ⟨out, hmem, he, hpos⟩
    exact ⟨⟨_, rfl, rfl⟩, last, hlast, out, hmem, he, hstays.trans hpos⟩

/-- A transform that can be undone moves no two positions to one. -/
theorem transformPosition_inj (hx : x.Documented) {p q : ℝ × ℝ} :
    transformPosition x t p = transformPosition x t q ↔ p = q := by
  unfold transformPosition
  split
  · exact Iff.rfl
  · rename_i T _
    refine ⟨fun h => ?_, fun h => by rw [h]⟩
    have heq : x.apply T ⟨p, 0⟩ = x.apply T ⟨q, 0⟩ := by
      simp only [hx.apply] at h ⊢
      rw [h]
    have := congrArg (x.applyInverse T) heq
    rw [hx.applyInverse_apply, hx.applyInverse_apply] at this
    exact congrArg Pose.position this

/-- **Where the undock path leads.**  Out of the dock, just if some lane that leaves the dock ends
where the dock is. -/
theorem undock_leads_out_iff {h : PathHandle} {path : List WaypointMsg} (hx : x.Documented)
    (hg : h.graph = some g) (hl : g.findDock dockName h.nearbyLanes = .ok (some dockingLane))
    (hd : h.dock x dockName = .undock path) :
    LeadsOut x h.coordinateTransforms g dockingLane.exit path ↔
      ∃ out ∈ g.lanes, out.entry = dockingLane.exit ∧
        g.location out.exit = g.location dockingLane.exit := by
  obtain ⟨g', dockingLane', approachLane, hg', hl', happ, rfl⟩ := h.exists_of_dock hd
  cases hg.symm.trans hg'
  cases hl.symm.trans hl'
  simp only [undockPath_leadsOut_iff happ, transformPosition_inj hx, eq_comm]

/-- A dock, the lane into it, and a lane out of it to a waypoint at `p`. -/
def leafDock (p : ℝ × ℝ) : Graph (ℝ × ℝ) where
  waypoints := [(0, 0), (1, 0), p]
  lanes := [{ entry := 0, exit := 1, exitEvent := some (.dock "dock_1") },
    { entry := 1, exit := 2 }]
  ends := by simp

/-- A robot at that dock. -/
def docked (p : ℝ × ℝ) : PathHandle where
  coordinateTransforms := ⟨[], .nil⟩
  graph := some (leafDock p)
  controlAdapter := true
  nearbyLanes := [0]

theorem findDock_leafDock (p : ℝ × ℝ) :
    (leafDock p).findDock "dock_1" [0] =
      .ok (some { entry := 0, exit := 1, exitEvent := some (.dock "dock_1") }) := by
  simp [Graph.findDock, Graph.getLane, leafDock, GraphLane.docks]

theorem exists_dock_docked (x : Externals) (p : ℝ × ℝ) :
    ∃ path, (docked p).dock x "dock_1" = .undock path :=
  PathHandle.dock_undock x rfl (findDock_leafDock p)
    (by simp [Graph.hasUndockPaths, leafDock]) rfl

/-- The way out leads to where the dock is. -/
theorem undock_leads_out_iff_coincident :
    ∃ path, (docked (1, 0)).dock standard "dock_1" = .undock path ∧
      LeadsOut standard ⟨[], .nil⟩ (leafDock (1, 0)) 1 path := by
  obtain ⟨path, hpath⟩ := exists_dock_docked standard (1, 0)
  refine ⟨path, hpath, ?_⟩
  refine (undock_leads_out_iff standard_documented rfl (findDock_leafDock _) hpath).mpr ?_
  exact ⟨{ entry := 1, exit := 2 }, by simp [leafDock], rfl, rfl⟩

/-- The way out leads a metre away, and the path stays at the dock. -/
theorem undock_stays :
    ¬ ∀ (h : PathHandle) (g : Graph (ℝ × ℝ)) (dockName : String) (dockingLane : GraphLane)
      (path : List WaypointMsg), h.graph = some g →
      g.findDock dockName h.nearbyLanes = .ok (some dockingLane) →
      h.dock standard dockName = .undock path →
      LeadsOut standard h.coordinateTransforms g dockingLane.exit path := by
  intro h
  obtain ⟨path, hpath⟩ := exists_dock_docked standard (1, 1)
  have hleads := h _ _ _ _ path rfl (findDock_leafDock _) hpath
  obtain ⟨g, dockingLane, approachLane, hg, hl, happ, rfl⟩ := PathHandle.exists_of_dock hpath
  cases hg
  cases (findDock_leafDock _).symm.trans hl
  obtain ⟨out, hmem, he, hpos⟩ := (undockPath_leadsOut_iff happ).mp hleads
  simp only [leafDock, List.mem_cons, List.not_mem_nil, or_false] at hmem
  rcases hmem with rfl | rfl
  · cases he
  · simp [transformPosition, CoordinateTransforms.first?, docked, leafDock, Graph.location] at hpos

end EgbFleet.Paths

end
