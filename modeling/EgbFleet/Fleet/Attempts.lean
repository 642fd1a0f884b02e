import EgbFleet.Fleet.Roster

/-!
# Fleet — attempts that fail

`add_dynamic_robot` can fail at many points, and a scan of a later cycle tries again.  Once it has a
pose it stores the command handle it has made, before it reads the profile, looks for the transform,
computes the starts and calls `add_robot`; only `robots_` waits for these.

`failed_attempt_unchanged_iff`: a failure leaves discovery's maps as they were exactly if it comes
before there is a pose.  The handle stored otherwise is a new one, also where an earlier failure has
left one (`Past`).
-/

noncomputable section

namespace EgbFleet.Fleet

open Frames

variable {S : Type} {f : FleetConfig S} {x : Externals}

/-- It fails before it has a pose. -/
def Attempt.FailsEarly (a : Attempt) : Prop := a.constructed = false ∨ a.initialPose 10 = none

/-- The command handles that discovery holds were made in earlier attempts. -/
def Past (d : RestRobotDiscovery) (h : FleetHandle S) : Prop :=
  ∀ robotName i, d.commandHandles robotName = some i → i < h.attempts

section

variable {d : RestRobotDiscovery} {h : FleetHandle S}

theorem Past.mono (hp : Past d h) {h' : FleetHandle S} (hle : h.attempts ≤ h'.attempts) :
    Past d h' :=
  fun robotName i hi => (hp robotName i hi).trans_le hle

/-- The handle of this attempt is stored. -/
theorem Past.store (hp : Past d h) (robotName : String) (robots : String → Option AttemptId)
    {h' : FleetHandle S} (hh' : h'.attempts = h.attempts + 1) :
    Past ⟨robots, Function.update d.commandHandles robotName (some h.attempts)⟩ h' := by
  intro other i hi
  rw [hh']
  by_cases hname : other = robotName
  · subst hname
    simp only [Function.update_self, Option.some.injEq] at hi
    subst hi
    exact Nat.lt_succ_self _
  · simp only [ne_eq, hname, not_false_eq_true, Function.update_of_ne] at hi
    exact (hp other i hi).trans (Nat.lt_succ_self _)

theorem Past.addDynamicRobot (hp : Past d h) (robotName : String) (a : Attempt) :
    Past (d.addDynamicRobot f x robotName a h).2.1 (d.addDynamicRobot f x robotName a h).2.2 := by
  rcases d.addDynamicRobot_cases (f := f) (x := x) robotName a h with
    ⟨-, e⟩ | ⟨-, handles, rfl, e | ⟨r, -, ⟨-, e⟩ | ⟨-, e⟩⟩⟩
  · rw [e]
    exact hp.mono (Nat.le_succ _)
  · rw [e]
    exact hp.store robotName _ rfl
  · rw [e]
    exact hp.store robotName _ rfl
  · rw [e]
    exact hp.store robotName _ rfl

theorem Past.discoverRobots (hp : Past d h) (attempt : String → Attempt) (names : List String) :
    Past (RestRobotDiscovery.discoverRobots f x attempt names (d, h)).1
      (RestRobotDiscovery.discoverRobots f x attempt names (d, h)).2 := by
  induction names generalizing d h with
  | nil => exact hp
  | cons robotName names ih =>
      simp only [RestRobotDiscovery.discoverRobots]
      split
      · exact ih (hp.addDynamicRobot robotName (attempt robotName))
      · exact ih hp

end

/-! ### Runs -/

/-- Discovery's command handles are past ones. -/
def FleetAdapter.HandlesPast (s : FleetAdapter S) : Prop :=
  ∀ d, s.discovery = some d → Past d s.fleetHandle

theorem FleetAdapter.HandlesPast.initializeStatic {s : FleetAdapter S} (hs : s.HandlesPast)
    (robotName : String) (a : Attempt) : (s.initializeStatic f robotName a).HandlesPast := by
  unfold FleetAdapter.initializeStatic
  split
  · exact fun d hd => (hs d hd).mono (Nat.le_succ _)
  · split
    · exact fun d hd => (hs d hd).mono (Nat.le_succ _)
    · exact fun d hd => (hs d hd).mono (Nat.le_succ _)

theorem FleetAdapter.HandlesPast.discover {s : FleetAdapter S} (hs : s.HandlesPast)
    (scan : Option Scan) : (s.discover f x scan).HandlesPast := by
  unfold FleetAdapter.discover
  split
  · exact hs
  · rename_i d hd
    cases scan with
    | none =>
        rintro _ ⟨⟩
        exact hs d hd
    | some scan =>
        rintro _ ⟨⟩
        exact (hs d hd).discoverRobots scan.attempt scan.names

theorem FleetAdapter.HandlesPast.step {s s' : FleetAdapter S} {a : FleetAction}
    (hs : s.HandlesPast) (h : s.step f x a = some s') : s'.HandlesPast := by
  cases FleetAdapter.step_moves h with
  | nameless => exact hs
  | static robotName a => exact hs.initializeStatic robotName a
  | start discovery =>
      intro d hd
      cases discovery with
      | false => cases hd
      | true =>
          cases hd
          intro robotName i hi
          cases hi
  | tick scan => exact hs.discover scan
  | shutdown =>
      intro d hd
      cases hd

theorem FleetAdapter.HandlesPast.reach {P : FleetAdapter S → FleetAction → Prop}
    {s : FleetAdapter S} (h : (fleetAdapter f x).Reach P s) : s.HandlesPast :=
  h.invariant (I := FleetAdapter.HandlesPast) (fun _ hd => by cases hd)
    fun _ _ _ _ hstep hs => hs.step hstep

/-! ### A failure -/

/-- An attempt that fails once it has a pose leaves its command handle, and nothing else. -/
theorem RestRobotDiscovery.addDynamicRobot_failed {d : RestRobotDiscovery} {h : FleetHandle S}
    {robotName : String} {a : Attempt}
    (hfail : (d.addDynamicRobot f x robotName a h).1 = false) :
    a.FailsEarly ∧ (d.addDynamicRobot f x robotName a h).2.1 = d ∨
      ¬ a.FailsEarly ∧ (d.addDynamicRobot f x robotName a h).2.1 =
        ⟨d.robots, Function.update d.commandHandles robotName (some h.attempts)⟩ := by
  rcases d.addDynamicRobot_cases (f := f) (x := x) robotName a h with
    ⟨hearly, e⟩ | ⟨hlate, handles, rfl, e | ⟨r, -, ⟨-, e⟩ | ⟨-, e⟩⟩⟩
  · exact .inl ⟨hearly, by rw [e]⟩
  · exact .inr ⟨hlate, by rw [e]⟩
  · exact .inr ⟨hlate, by rw [e]⟩
  · rw [e] at hfail
    cases hfail

/-- **Failures.**  At any point of a scan, in every run: an attempt that fails leaves both maps as
they were exactly if it fails before it has a pose. -/
theorem failed_attempt_unchanged_iff {P : FleetAdapter S → FleetAction → Prop}
    {s : FleetAdapter S} (hs : (fleetAdapter f x).Reach P s) {d₀ : RestRobotDiscovery}
    (hd₀ : s.discovery = some d₀) (attempt : String → Attempt) (names : List String)
    (robotName : String) (a : Attempt) {d : RestRobotDiscovery} {h : FleetHandle S}
    (hscan : RestRobotDiscovery.discoverRobots f x attempt names (d₀, s.fleetHandle) = (d, h))
    (hfail : (d.addDynamicRobot f x robotName a h).1 = false) :
    (d.addDynamicRobot f x robotName a h).2.1 = d ↔ a.FailsEarly := by
  have hpast : Past d h := by
    have := (FleetAdapter.HandlesPast.reach hs d₀ hd₀).discoverRobots (f := f) (x := x) attempt
      names
    rwa [hscan] at this
  rcases RestRobotDiscovery.addDynamicRobot_failed hfail with ⟨hearly, e⟩ | ⟨hlate, e⟩
  · exact iff_of_true e hearly
  · -- the handle that is stored is a new one
    refine iff_of_false (fun heq => ?_) hlate
    have hhandle := congrArg (fun d' => d'.commandHandles robotName) (e.symm.trans heq)
    simp only [Function.update_self] at hhandle
    exact Nat.lt_irrefl _ (hpast robotName h.attempts hhandle.symm)

/-- A robot without a pose. -/
def lost : Attempt := { smooth with poses := fun _ => none }

theorem failed_attempt_unchanged_lost :
    (RestRobotDiscovery.start.addDynamicRobot (oneFloor ⟨0, 1, (1, 0), one_pos⟩) standard "robot_2"
        lost ⟨0, []⟩).2.1 = .start ↔ lost.FailsEarly :=
  failed_attempt_unchanged_iff (P := fun _ _ => True)
    ⟨[.start true], .cons trivial rfl (.nil _)⟩ rfl (fun _ => lost) [] "robot_2" lost rfl rfl

/-- A robot on a floor that has no transform. -/
def elsewhere : Attempt := { smooth with mapName := "Floor1" }

/-- Its pose cannot be converted: the command handle stays. -/
theorem handle_left_behind :
    ∃ (f : FleetConfig Unit) (s : FleetAdapter Unit),
      (fleetAdapter f standard).Reach (fun _ _ => True) s ∧
        ∃ d, s.discovery = some d ∧
          (d.addDynamicRobot f standard "robot_2" elsewhere s.fleetHandle).1 = false ∧
          (d.addDynamicRobot f standard "robot_2" elsewhere s.fleetHandle).2.1 ≠ d := by
  refine ⟨oneFloor ⟨0, 1, (1, 0), one_pos⟩, _, ⟨[.start true], .cons trivial rfl (.nil _)⟩, _,
    rfl, rfl, fun h => ?_⟩
  have hhandle := congrArg (fun d => d.commandHandles "robot_2") h
  cases hhandle

end EgbFleet.Fleet

end
