import EgbFleet.Paths.ClosestWaypoint
import EgbFleet.Paths.Docking
import EgbFleet.Support.Segment

/-!
# Paths — the approach yaw

`PathHandle::approach_yaw_for` guesses the direction a robot came in by: that of the lane into its
waypoint that it is nearest to.  How far it is from a lane is `distance_to_lane`, by the foot of a
perpendicular, clamped to the lane; that is the least distance from any of the lane's points, if
the lane is not too short (`isLeast_distanceToLane`).  Lanes shorter than 1e-6 are passed over.

The search starts from `std::numeric_limits<double>::max()`: no lane so far away is chosen.
-/

noncomputable section

namespace EgbFleet.Paths

open Frames

/-- `distance_to_lane`: how far `p` is from the segment `ab`. -/
def distanceToLane (p a b : ℝ × ℝ) : ℝ :=
  let ab := b - a
  let lenSq := Plane.dot ab ab
  if lenSq < 1e-12 then Plane.norm (p - a)
  else
    let t := Plane.dot (p - a) ab / lenSq
    let t := max 0 (min 1 t)
    Plane.norm (p - (a + t • ab))

/-- The loop of `approach_yaw_for`: the lane whose heading is in `yaw` at its end. -/
def Graph.approachLane (g : Graph (ℝ × ℝ)) (idx : ℕ) (robot : ℝ × ℝ) : Option GraphLane :=
  let exit := g.location idx
  (Scan.least
    (fun lane => lane.exit == idx && !decide (Plane.norm (exit - g.location lane.entry) < 1e-6))
    (fun lane => distanceToLane robot (g.location lane.entry) exit) (maxDouble, none) g.lanes).2

/-- `PathHandle::approach_yaw_for`, of the waypoint's `graph_index()`; an error is
`std::out_of_range`. -/
def approachYawFor (graph : Option (Graph (ℝ × ℝ))) (currentPosition : Pose)
    (graphIndex : Option ℕ) : Except Unit (Option ℝ) :=
  match graphIndex, graph with
  | some idx, some g =>
      if idx < g.waypoints.length then
        .ok ((g.approachLane idx currentPosition.position).map fun lane =>
          heading (g.location idx - g.location lane.entry))
      else .error ()
  | _, _ => .ok none

/-! ### The distance to a lane -/

/-- It is the least distance from a point of the lane. -/
theorem isLeast_distanceToLane (p : ℝ × ℝ) {a b : ℝ × ℝ} (hab : 1e-6 ≤ Plane.norm (b - a)) :
    IsLeast ((fun q => Plane.norm (p - q)) '' segment ℝ a b) (distanceToLane p a b) := by
  have hlen : ¬ Plane.dot (b - a) (b - a) < 1e-12 := by
    rw [← Plane.norm_sq]
    nlinarith [Plane.norm_nonneg (b - a)]
  have hne : b - a ≠ 0 := by
    intro hzero
    rw [hzero, Plane.norm_eq_zero.mpr rfl] at hab
    norm_num at hab
  have heq : distanceToLane p a b = Plane.norm (p - Plane.nearest p a b) := if_neg hlen
  rw [heq]
  exact Plane.isLeast_nearest p hne

/-! ### The lane the robot came in by -/

/-- A lane into the waypoint, of some length. -/
structure Graph.Arrives (g : Graph (ℝ × ℝ)) (idx : ℕ) (lane : GraphLane) : Prop where
  exit : lane.exit = idx
  length : 1e-6 ≤ Plane.norm (g.laneDirection lane)

def Graph.laneDistance (g : Graph (ℝ × ℝ)) (robot : ℝ × ℝ) (lane : GraphLane) : ℝ :=
  distanceToLane robot (g.location lane.entry) (g.location lane.exit)

variable {g : Graph (ℝ × ℝ)} {idx : ℕ}

theorem Graph.arrives_iff {lane : GraphLane} :
    (lane.exit == idx &&
      !decide (Plane.norm (g.location idx - g.location lane.entry) < 1e-6)) = true ↔
      g.Arrives idx lane := by
  simp only [Bool.and_eq_true, beq_iff_eq, Bool.not_eq_true', decide_eq_false_iff_not, not_lt]
  constructor
  · rintro ⟨rfl, hlen⟩
    exact ⟨rfl, hlen⟩
  · rintro ⟨rfl, hlen⟩
    exact ⟨rfl, hlen⟩

variable {robot : ℝ × ℝ}

/-- The lane chosen is the first of the nearest. -/
theorem Graph.firstLeast_of_approachLane {lane : GraphLane}
    (h : g.approachLane idx robot = some lane) :
    ∃ i, Scan.FirstLeast (g.Arrives idx) (g.laneDistance robot) g.lanes i lane := by
  obtain ⟨-, i, hi⟩ := Scan.firstLeast_of_least_none h
  refine ⟨i, hi.congr (fun _ => arrives_iff) fun other hother => ?_⟩
  rw [laneDistance, hother.exit]

theorem Graph.approachLane_eq_none_iff :
    g.approachLane idx robot = none ↔
      ∀ lane ∈ g.lanes, g.Arrives idx lane → maxDouble ≤ g.laneDistance robot lane := by
  rw [approachLane, Scan.least_eq_none_iff]
  refine forall₂_congr fun lane _ => ?_
  rw [arrives_iff]
  refine forall_congr' fun h => ?_
  rw [laneDistance, h.exit]

/-- **The approach yaw.**  None is returned just if all lanes into the waypoint are out of reach;
else it is the heading of the first of the nearest, of those of length 1e-6 and more. -/
theorem approach_yaw_nearest (g : Graph (ℝ × ℝ)) (idx : Fin g.waypoints.length)
    (currentPosition : Pose) :
    (∀ lane, g.Arrives idx lane →
      IsLeast ((fun q => Plane.norm (currentPosition.position - q)) ''
          segment ℝ (g.location lane.entry) (g.location lane.exit))
        (g.laneDistance currentPosition.position lane)) ∧
    ∃ yaw, approachYawFor (some g) currentPosition (some idx) = .ok yaw ∧
      (yaw = none ↔ ∀ lane ∈ g.lanes, g.Arrives idx lane →
        maxDouble ≤ g.laneDistance currentPosition.position lane) ∧
      ∀ θ, yaw = some θ → ∃ i lane,
        Scan.FirstLeast (g.Arrives idx) (g.laneDistance currentPosition.position) g.lanes i lane ∧
        θ = heading (g.laneDirection lane) := by
  refine ⟨fun lane h => isLeast_distanceToLane _ h.length, _, if_pos idx.isLt, ?_, ?_⟩
  · rw [Option.map_eq_none_iff]
    exact Graph.approachLane_eq_none_iff
  · intro θ hθ
    obtain ⟨lane, hlane, rfl⟩ := Option.map_eq_some_iff.mp hθ
    obtain ⟨i, hi⟩ := Graph.firstLeast_of_approachLane hlane
    exact ⟨i, lane, hi, by rw [Graph.laneDirection, hi.holds.exit]⟩

/-- One lane, of length 1, to the origin. -/
def laneToOrigin : Graph (ℝ × ℝ) where
  waypoints := [(-1, 0), (0, 0)]
  lanes := [{ entry := 0, exit := 1 }]
  ends := by simp

theorem arrives_laneToOrigin : laneToOrigin.Arrives 1 { entry := 0, exit := 1 } where
  exit := rfl
  length := by
    simp only [Graph.laneDirection, Graph.location, laneToOrigin, Plane.norm]
    norm_num

/-- Beyond the origin, the robot is as far from the lane as from there. -/
theorem laneDistance_laneToOrigin {x : ℝ} (hx : 0 ≤ x) :
    laneToOrigin.laneDistance (x, 0) { entry := 0, exit := 1 } = x := by
  have hclamp : max 0 (min 1 (x + 1)) = 1 := by
    rw [min_eq_left (le_add_of_nonneg_left hx), max_eq_right zero_le_one]
  simp only [Graph.laneDistance, distanceToLane, Graph.location, laneToOrigin, Plane.dot]
  norm_num [hclamp, Plane.norm, Real.sqrt_sq hx]

/-- The robot is too far from the one lane that ends at the waypoint. -/
theorem lane_out_of_reach :
    ¬ ∀ (g : Graph (ℝ × ℝ)) (idx : Fin g.waypoints.length) (currentPosition : Pose),
      ∃ yaw, approachYawFor (some g) currentPosition (some idx) = .ok yaw ∧
        (yaw = none ↔ ∀ lane ∈ g.lanes, ¬ g.Arrives idx lane) ∧
        ∀ θ, yaw = some θ → ∃ i lane,
          Scan.FirstLeast (g.Arrives idx) (g.laneDistance currentPosition.position) g.lanes i lane ∧
          θ = heading (g.laneDirection lane) := by
  intro h
  let robot : Pose := ⟨(maxDouble, 0), 0⟩
  have hidx : 1 < laneToOrigin.waypoints.length := by simp [laneToOrigin]
  obtain ⟨yaw, hyaw, hnone, -⟩ := h laneToOrigin ⟨1, hidx⟩ robot
  have hfar : laneToOrigin.approachLane 1 robot.position = none := by
    refine Graph.approachLane_eq_none_iff.mpr fun lane hmem _ => ?_
    cases List.mem_singleton.mp hmem
    exact (laneDistance_laneToOrigin (Nat.cast_nonneg _)).ge
  have hyaw' : approachYawFor (some laneToOrigin) robot (some 1) = .ok none := by
    simp [approachYawFor, hidx, hfar]
  cases hyaw'.symm.trans hyaw
  exact hnone.mp rfl _ List.mem_cons_self arrives_laneToOrigin

end EgbFleet.Paths

end
