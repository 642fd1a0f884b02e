import EgbFleet.Paths.Docking
import EgbFleet.Support.Procrustes

/-!
# Paths — the best approach lane

`PathHandle::find_best_approach_lane` looks for the lane out of the dock that is most opposed to the
docking direction.  It compares angles, brought into `[-π, π]` by two loops and folded about π;
that is to compare products of unit vectors (`distFrom180_eq`).

But a lane of length zero has an angle too: `normalized` leaves it as it is, and `std::atan2(0, 0)`
is 0.  Such a lane competes as if it pointed along the x axis.  `best_approach_iff` says when it
does not win.
-/

noncomputable section

namespace EgbFleet.Paths

open Real

/-! ### The angle between two directions -/

@[simp] theorem cos_lowerAngle (a : ℝ) : cos (lowerAngle a) = cos a := by
  induction a using lowerAngle.induct with
  | case1 a h ih => rw [lowerAngle, if_pos h, ih, ← two_mul, cos_sub_two_pi]
  | case2 a h => rw [lowerAngle, if_neg h]

@[simp] theorem cos_raiseAngle (a : ℝ) : cos (raiseAngle a) = cos a := by
  induction a using raiseAngle.induct with
  | case1 a h ih => rw [raiseAngle, if_pos h, ih, ← two_mul, cos_add_two_pi]
  | case2 a h => rw [raiseAngle, if_neg h]

/-- The fold about π, of an angle brought into range. -/
theorem distFrom180_eq (dockAngle : ℝ) (dockPos appExitPos : ℝ × ℝ) :
    distFrom180 dockAngle dockPos appExitPos =
      π - arccos (cos (heading (normalized (appExitPos - dockPos)) - dockAngle)) := by
  unfold distFrom180
  generalize heading (normalized (appExitPos - dockPos)) - dockAngle = a
  have habs : |raiseAngle (lowerAngle a)| ≤ π := abs_le.mpr (raiseAngle_mem (lowerAngle_le a))
  have hcos : cos |raiseAngle (lowerAngle a)| = cos a := by simp
  rw [← hcos, arccos_cos (abs_nonneg _) habs, abs_sub_comm, abs_of_nonneg (sub_nonneg.mpr habs)]

/-- Where an angle computed from a direction points. -/
def pointing (direction : ℝ × ℝ) : ℝ × ℝ := (cos (heading direction), sin (heading direction))

theorem cos_heading_sub (v w : ℝ × ℝ) :
    cos (heading v - heading w) = Plane.dot (pointing w) (pointing v) := by
  rw [cos_sub, Plane.dot, pointing, pointing]
  ring

/-- A direction points along itself. -/
theorem pointing_normalized {v : ℝ × ℝ} (hv : v ≠ 0) : pointing (normalized v) = normalized v := by
  have hpos : 0 < v.1 * v.1 + v.2 * v.2 := Plane.dot_self_pos hv
  have hunit : (normalized v).1 ^ 2 + (normalized v).2 ^ 2 = 1 := by
    simp only [normalized, if_pos hpos, div_pow, sq_sqrt hpos.le]
    rw [← add_div, sq, sq, div_self hpos.ne']
  exact Prod.ext (Plane.cos_atan2 hunit) (Plane.sin_atan2 hunit)

/-- No direction points along the x axis. -/
@[simp] theorem pointing_zero : pointing (normalized 0) = (1, 0) := by
  have hnormalized : normalized 0 = 0 := by simp [normalized]
  have hheading : heading 0 = 0 := Complex.arg_zero
  simp [hnormalized, pointing, hheading]

/-! ### The lane most opposed to the docking direction -/

/-- A lane out of the waypoint that has a direction. -/
structure Graph.LeadsAway (g : Graph (ℝ × ℝ)) (w : ℕ) (lane : GraphLane) : Prop where
  entry : lane.entry = w
  direction : g.laneDirection lane ≠ 0

/-- The product of the unit vectors along the docking lane and another. -/
def Graph.alignment (g : Graph (ℝ × ℝ)) (dockingLane lane : GraphLane) : ℝ :=
  Plane.dot (normalized (g.laneDirection dockingLane)) (normalized (g.laneDirection lane))

/-- The cosine of the angle between the docking lane and another, as their angles have it. -/
def Graph.turn (g : Graph (ℝ × ℝ)) (dockingLane lane : GraphLane) : ℝ :=
  cos (heading (normalized (g.laneDirection lane)) -
    heading (normalized (g.laneDirection dockingLane)))

variable {g : Graph (ℝ × ℝ)} {dockingLane lane : GraphLane} {dockWaypoint : ℕ}

theorem Graph.turn_of_ne_zero (hdock : g.laneDirection dockingLane ≠ 0)
    (hlane : g.laneDirection lane ≠ 0) :
    g.turn dockingLane lane = g.alignment dockingLane lane := by
  rw [turn, cos_heading_sub, pointing_normalized hdock, pointing_normalized hlane, alignment]

/-- A lane without a direction counts as one along the x axis. -/
theorem Graph.turn_of_eq_zero (hdock : g.laneDirection dockingLane ≠ 0)
    (hlane : g.laneDirection lane = 0) :
    g.turn dockingLane lane = (normalized (g.laneDirection dockingLane)).1 := by
  rw [turn, cos_heading_sub, pointing_normalized hdock, hlane, pointing_zero, Plane.dot, mul_one,
    mul_zero, add_zero]

theorem strictMonoOn_sub_arccos : StrictMonoOn (fun c => π - arccos c) (Set.Icc (-1) 1) :=
  fun _ hc _ hd hlt => sub_lt_sub_left (strictAntiOn_arccos hc hd hlt) π

/-- The lane returned is the first of those with the least `turn`. -/
theorem firstLeast_of_findBestApproachLane {i : ℕ}
    (h : findBestApproachLane g dockingLane dockWaypoint = some i) :
    ∃ lane, Scan.FirstLeast (fun lane => lane.entry = dockWaypoint) (g.turn dockingLane) g.lanes i
      lane := by
  obtain ⟨⟨lane, j⟩, hbest, rfl⟩ := Option.map_eq_some_iff.mp h
  obtain ⟨-, k, hk⟩ := Scan.firstLeast_of_least_none hbest
  have hturn : Scan.FirstLeast (fun other => other.1.entry = dockWaypoint)
      (fun other => π - arccos (g.turn dockingLane other.1)) g.lanes.zipIdx k (lane, j) := by
    refine hk.congr (fun other => beq_iff_eq) fun other hother => ?_
    rw [distFrom180_eq, ← hother]
    rfl
  refine ⟨lane, (Scan.FirstLeast.of_strictMonoOn strictMonoOn_sub_arccos fun other _ => ?_).mp
    hturn.of_zipIdx⟩
  exact ⟨neg_one_le_cos _, cos_le_one _⟩

/-- It returns none just if no lane leaves the waypoint. -/
theorem findBestApproachLane_eq_none_iff :
    findBestApproachLane g dockingLane dockWaypoint = none ↔
      ∀ lane ∈ g.lanes, lane.entry ≠ dockWaypoint := by
  constructor
  · intro h lane hmem he
    exact findBestApproachLane_ne_none hmem he h
  · intro h
    by_contra hne
    obtain ⟨i, hi⟩ := Option.ne_none_iff_exists'.mp hne
    obtain ⟨lane, hlane, he⟩ := leaves_of_findBestApproachLane hi
    exact h lane (List.mem_of_getElem? hlane) he

/-- The lane returned is that most opposed to the docking direction, of those that have a direction,
just if each of those that have none is beaten, where it counts as pointing along the x axis. -/
theorem firstLeast_alignment_iff (hdock : g.laneDirection dockingLane ≠ 0)
    (haway : ∃ lane ∈ g.lanes, g.LeadsAway dockWaypoint lane) :
    (∃ i lane, findBestApproachLane g dockingLane dockWaypoint = some i ∧
      Scan.FirstLeast (g.LeadsAway dockWaypoint) (g.alignment dockingLane) g.lanes i lane) ↔
    ∀ (k : ℕ) (still : GraphLane), g.getLane k = some still → still.entry = dockWaypoint →
      g.laneDirection still = 0 →
      ∃ (l : ℕ) (lane : GraphLane), g.getLane l = some lane ∧ g.LeadsAway dockWaypoint lane ∧
        (g.alignment dockingLane lane < (normalized (g.laneDirection dockingLane)).1 ∨
          g.alignment dockingLane lane = (normalized (g.laneDirection dockingLane)).1 ∧ l < k) := by
  obtain ⟨lane, hmem, hlane⟩ := haway
  have hne : findBestApproachLane g dockingLane dockWaypoint ≠ none :=
    findBestApproachLane_ne_none hmem hlane.entry
  obtain ⟨i, hi⟩ := Option.ne_none_iff_exists'.mp hne
  obtain ⟨best, hbest⟩ := firstLeast_of_findBestApproachLane hi
  have haligned : ∀ other, g.LeadsAway dockWaypoint other →
      g.turn dockingLane other = g.alignment dockingLane other :=
    fun other hother => Graph.turn_of_ne_zero hdock hother.direction
  have hiff := hbest.holds_iff (P := g.LeadsAway dockWaypoint) fun _ hother => hother.entry
  constructor
  · rintro ⟨i', best', hi', hbest'⟩ k still hget hentry hstill
    cases hi.symm.trans hi'
    cases hbest.get.symm.trans hbest'.get
    obtain ⟨l, other, hl, hother, hbeaten⟩ :=
      hiff.mp hbest'.holds k still hget hentry fun h => h.direction hstill
    rw [haligned other hother, Graph.turn_of_eq_zero hdock hstill] at hbeaten
    exact ⟨l, other, hl, hother, hbeaten⟩
  · intro hbeaten
    have haway : g.LeadsAway dockWaypoint best := by
      refine hiff.mpr fun k still hget hentry hnot => ?_
      have hstill : g.laneDirection still = 0 := by
        by_contra hne
        exact hnot ⟨hentry, hne⟩
      rw [Graph.turn_of_eq_zero hdock hstill]
      obtain ⟨l, other, hl, hother, hlt⟩ := hbeaten k still hget hentry hstill
      exact ⟨l, other, hl, hother, by rwa [haligned other hother]⟩
    exact ⟨i, best, hi, (hbest.restrict (fun _ hother => hother.entry) haway).congr
      (fun _ => Iff.rfl) haligned⟩

/-- None is returned just if no lane leaves the waypoint; where some lane out of it has a direction,
the one returned is the first of the most opposed to the docking direction. -/
structure IsBestApproach (g : Graph (ℝ × ℝ)) (dockingLane : GraphLane) (w : ℕ)
    (result : Option ℕ) : Prop where
  none_iff : result = none ↔ ∀ lane ∈ g.lanes, lane.entry ≠ w
  opposed : (∃ lane ∈ g.lanes, g.LeadsAway w lane) → ∃ i lane, result = some i ∧
    Scan.FirstLeast (g.LeadsAway w) (g.alignment dockingLane) g.lanes i lane

/-- **The best approach lane.**  It is the best one just if each lane out of the dock that has no
direction is beaten, as if it pointed along the x axis; or if no lane out of the dock has one. -/
theorem best_approach_iff (hdock : g.laneDirection dockingLane ≠ 0) :
    IsBestApproach g dockingLane dockWaypoint (findBestApproachLane g dockingLane dockWaypoint) ↔
      ((∃ lane ∈ g.lanes, g.LeadsAway dockWaypoint lane) →
        ∀ (k : ℕ) (still : GraphLane), g.getLane k = some still → still.entry = dockWaypoint →
          g.laneDirection still = 0 →
          ∃ (l : ℕ) (lane : GraphLane), g.getLane l = some lane ∧ g.LeadsAway dockWaypoint lane ∧
            (g.alignment dockingLane lane < (normalized (g.laneDirection dockingLane)).1 ∨
              g.alignment dockingLane lane = (normalized (g.laneDirection dockingLane)).1 ∧
                l < k)) := by
  constructor
  · intro h haway
    exact (firstLeast_alignment_iff hdock haway).mp (h.opposed haway)
  · intro h
    exact ⟨findBestApproachLane_eq_none_iff,
      fun haway => (firstLeast_alignment_iff hdock haway).mpr (h haway)⟩

/-- A dock at the origin that is entered from `p`.  A lane out of it stays there, on another floor;
another leads north. -/
def liftDock (p : ℝ × ℝ) : Graph (ℝ × ℝ) where
  waypoints := [p, (0, 0), (0, 0), (0, 1)]
  lanes := [{ entry := 0, exit := 1 }, { entry := 1, exit := 2 }, { entry := 1, exit := 3 }]
  ends := by simp

theorem leadsAway_liftDock {p : ℝ × ℝ} {l : ℕ} {lane : GraphLane}
    (hl : (liftDock p).getLane l = some lane) :
    (liftDock p).LeadsAway 1 lane ↔ lane = { entry := 1, exit := 3 } := by
  have hmem := List.mem_of_getElem? hl
  simp only [liftDock, List.mem_cons, List.not_mem_nil, or_false] at hmem
  constructor
  · intro h
    rcases hmem with rfl | rfl | rfl
    · cases h.entry
    · exact absurd (by simp [Graph.laneDirection, Graph.location, liftDock]) h.direction
    · rfl
  · rintro rfl
    exact ⟨rfl, by simp [Graph.laneDirection, Graph.location, liftDock]⟩

/-- The lane north is at a right angle to the docking lane from `(x, 0)`. -/
theorem alignment_liftDock (x : ℝ) :
    (liftDock (x, 0)).alignment { entry := 0, exit := 1 } { entry := 1, exit := 3 } = 0 := by
  have hnorth : (normalized ((liftDock (x, 0)).laneDirection { entry := 1, exit := 3 })).1 = 0 := by
    simp [normalized, Graph.laneDirection, Graph.location, liftDock]
  have hdock : (normalized ((liftDock (x, 0)).laneDirection { entry := 0, exit := 1 })).2 = 0 := by
    simp [normalized, Graph.laneDirection, Graph.location, liftDock]
    split <;> simp
  rw [Graph.alignment, Plane.dot, hnorth, hdock, mul_zero, zero_mul, add_zero]

/-- Entered eastward, the lane to the other floor is not chosen. -/
theorem best_approach_iff_liftDock :
    IsBestApproach (liftDock (-1, 0)) { entry := 0, exit := 1 } 1
      (findBestApproachLane (liftDock (-1, 0)) { entry := 0, exit := 1 } 1) := by
  refine (best_approach_iff ?_).mpr fun _ k still _ _ _ => ⟨2, _, rfl, ?_, .inl ?_⟩
  · simp [Graph.laneDirection, Graph.location, liftDock]
  · exact (leadsAway_liftDock (l := 2) rfl).mpr rfl
  · rw [alignment_liftDock]
    simp [normalized, Graph.laneDirection, Graph.location, liftDock]

/-- Entered westward, it is. -/
theorem lift_lane_preferred :
    ¬ ∀ (g : Graph (ℝ × ℝ)) (dockingLane : GraphLane) (dockWaypoint : ℕ),
      g.laneDirection dockingLane ≠ 0 →
      IsBestApproach g dockingLane dockWaypoint
        (findBestApproachLane g dockingLane dockWaypoint) := by
  intro h
  have hdock : (liftDock (1, 0)).laneDirection { entry := 0, exit := 1 } ≠ 0 := by
    simp [Graph.laneDirection, Graph.location, liftDock]
  have haway : ∃ lane ∈ (liftDock (1, 0)).lanes, (liftDock (1, 0)).LeadsAway 1 lane :=
    ⟨_, by simp [liftDock], (leadsAway_liftDock (l := 2) rfl).mpr rfl⟩
  have hbest := (h (liftDock (1, 0)) _ 1 hdock).opposed haway
  obtain ⟨l, lane, hl, hlane, hbeaten⟩ := (firstLeast_alignment_iff hdock haway).mp hbest 1
    { entry := 1, exit := 2 } rfl rfl (by simp [Graph.laneDirection, Graph.location, liftDock])
  cases (leadsAway_liftDock hl).mp hlane
  rw [alignment_liftDock] at hbeaten
  simp [normalized, Graph.laneDirection, Graph.location, liftDock] at hbeaten
  linarith

end EgbFleet.Paths

end
