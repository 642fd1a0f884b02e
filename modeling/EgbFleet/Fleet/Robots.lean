import EgbFleet.Frames.Tf
import EgbFleet.Robot.Machine
import EgbFleet.Support.Simulation

/-!
# Fleet — several robots

The robots of a fleet share a Zenoh session, a TF buffer and the timer of `update_loop`.  Each has
subscribers of its own, under keys that begin with its name; but a key is a string, and the buffer
takes the transforms of all.  The timer updates one robot after another.

`robots_apart`: where no name extends another's by a slash, whatever the others do and whatever is
published under their names, a robot is in a state that its own machine reaches, and the one it
reaches if nothing but its own steps and what is published under its own name takes place.

A key is taken literally: a name has no wildcards.  The callbacks of a subscriber run one after
another.
-/

noncomputable section

namespace EgbFleet.Fleet

open Frames Robot Wire

variable {G ι : Type}

/-! ### Messages -/

/-- What a payload is read as, by the subscriber it is for. -/
inductive Message (G : Type) where
  | tf (transforms : List TransformStamped)
  | batteryState (percentage : ℝ)
  | feedback (message : FeedbackMessage G)
  | status (entries : StatusList G)

/-- The topic of the subscriber. -/
def Message.topic : Message G → String
  | .tf _ => "tf"
  | .batteryState _ => "battery_state"
  | .feedback _ => "follow_waypoints/_action/feedback"
  | .status _ => "follow_waypoints/_action/status"

/-! ### The robots -/

/-- What a robot's objects are made with, and its `current_position_` before the first update. -/
structure Member where
  handler : TfHandler
  site : Site
  currentPosition : Pose

def Member.name (m : Member) : String := m.handler.robotName

/-- The key of a subscriber. -/
def Member.key (m : Member) (topic : String) : String := namespacify m.name topic

/-- The robots have names, as have their frames, and none extends another's by a slash. -/
structure Distinct (members : ι → Member) : Prop where
  name_ne : ∀ i, (members i).name ≠ ""
  mapFrame_ne : ∀ i, (members i).handler.mapFrame ≠ ""
  robotFrame_ne : ∀ i, (members i).handler.robotFrame ≠ ""
  apart : ∀ i j, j ≠ i → Frames.Apart (members i).name (members j).name

theorem Distinct.owns_key {members : ι → Member} (hm : Distinct members) (i : ι) {topic : String}
    (h : topic ≠ "") : Owns (members i).name ((members i).key topic) :=
  owns_namespacify (hm.name_ne i) h

structure Robots (ι G : Type) where
  robots : ι → Robot.State G
  /-- What the TF callback of each has still to offer. -/
  offers : ι → List TransformStamped
  /-- What the buffer has been offered. -/
  offered : List TransformStamped
  published : List (String × Message G)

inductive RobotsAction (ι G : Type) where
  /-- Someone publishes under a key. -/
  | publish (key : String) (m : Message G)
  /-- A subscriber of robot `i` receives what has been published. -/
  | receive (i : ι) (key : String) (m : Message G)
  /-- Its TF callback offers the buffer a transform. -/
  | offer (i : ι)
  /-- RMF, or the robot's action, calls it. -/
  | call (i : ι) (c : RmfCall G)
  | exec (i : ι)
  | status (i : ι) (k : ℕ)
  | feedback (i : ι)
  /-- The timer takes a step of its update. -/
  | update (i : ι) (updateHandle : Bool) (now : ℤ)

/-- An undock action plans from the pose the robot has at the time. -/
def RmfCall.seeing (transform : Option RosPose) : RmfCall G → RmfCall G
  | .updateAction a elapsed now context navigationInterface net =>
      .updateAction a elapsed now { context with transform } navigationInterface net
  | .followNewPath plan estimator finished net => .followNewPath plan estimator finished net
  | .stop => .stop
  | .dock dockName finished net => .dock dockName finished net
  | .cancelNavigation => .cancelNavigation

variable [DecidableEq G] [DecidableEq ι]

section

variable (lookup : Lookup) (members : ι → Member)

/-- Robot `i` takes a step. -/
def Robots.move (s : Robots ι G) (i : ι) (a : Robot.Action G) : Option (Robots ι G) :=
  (Robot.step (members i).site (s.robots i) a).map fun r =>
    { s with robots := Function.update s.robots i r }

/-- What `get_transform` finds for robot `i`. -/
def Robots.transform (s : Robots ι G) (i : ι) : Option RosPose :=
  (members i).handler.getTransform lookup s.offered

/-- A subscriber of robot `i` is called. -/
def Robots.receive (s : Robots ι G) (i : ι) : Message G → Option (Robots ι G)
  | .tf transforms =>
      if (s.offers i).isEmpty then
        some { s with
          offers := Function.update s.offers i
            ((members i).handler.tfCallback (some transforms)) }
      else none
  | .batteryState percentage => s.move members i (.batteryState percentage)
  | .feedback message => s.move members i (.recvFeedback message)
  | .status entries => s.move members i (.recvStatus entries)

open scoped Classical in
def Robots.step (s : Robots ι G) : RobotsAction ι G → Option (Robots ι G)
  | .publish key m => some { s with published := (key, m) :: s.published }
  | .receive i key m =>
      if (key, m) ∈ s.published ∧ key = (members i).key m.topic then s.receive members i m
      else none
  | .offer i =>
      match s.offers i with
      | [] => none
      | o :: offers =>
          some { s with
            offers := Function.update s.offers i offers
            offered := s.offered ++ [o] }
  | .call i c => s.move members i (.call (RmfCall.seeing (s.transform lookup members i) c))
  | .exec i => s.move members i .exec
  | .status i k => s.move members i (.status k)
  | .feedback i => s.move members i .feedback
  | .update i updateHandle now =>
      if ∀ j ≠ i, (s.robots j).update = .idle then
        s.move members i (.update ⟨updateHandle, s.transform lookup members i, now⟩)
      else none

/-- The robots of a fleet. -/
def robots (G : Type) [DecidableEq G] : Lts (Robots ι G) (RobotsAction ι G) where
  init :=
    { robots := fun i => (robot G (members i).site (members i).currentPosition).init
      offers := fun _ => []
      offered := []
      published := [] }
  step := Robots.step lookup members

/-! ### What a step can do -/

/-- An action is one of robot `i`'s, which does `b`. -/
inductive Robots.Does (s : Robots ι G) : RobotsAction ι G → ι → Robot.Action G → Prop where
  | batteryState {i : ι} {key : String} {percentage : ℝ}
      (published : (key, .batteryState percentage) ∈ s.published)
      (own : key = (members i).key "battery_state") :
      Does s (.receive i key (.batteryState percentage)) i (.batteryState percentage)
  | recvFeedback {i : ι} {key : String} {message : FeedbackMessage G}
      (published : (key, .feedback message) ∈ s.published)
      (own : key = (members i).key "follow_waypoints/_action/feedback") :
      Does s (.receive i key (.feedback message)) i (.recvFeedback message)
  | recvStatus {i : ι} {key : String} {entries : StatusList G}
      (published : (key, .status entries) ∈ s.published)
      (own : key = (members i).key "follow_waypoints/_action/status") :
      Does s (.receive i key (.status entries)) i (.recvStatus entries)
  | call (i : ι) (c : RmfCall G) :
      Does s (.call i c) i (.call (RmfCall.seeing (s.transform lookup members i) c))
  | exec (i : ι) : Does s (.exec i) i .exec
  | status (i : ι) (k : ℕ) : Does s (.status i k) i (.status k)
  | feedback (i : ι) : Does s (.feedback i) i .feedback
  | update {i : ι} (updateHandle : Bool) (now : ℤ)
      (idle : ∀ j ≠ i, (s.robots j).update = .idle) :
      Does s (.update i updateHandle now) i
        (.update ⟨updateHandle, s.transform lookup members i, now⟩)

/-- `Robots.step`, by what moves. -/
inductive Robots.Moves (s : Robots ι G) : RobotsAction ι G → Robots ι G → Prop where
  | publish (key : String) (m : Message G) :
      Moves s (.publish key m) { s with published := (key, m) :: s.published }
  | tf {i : ι} {key : String} {transforms : List TransformStamped}
      (published : (key, .tf transforms) ∈ s.published) (own : key = (members i).key "tf")
      (idle : s.offers i = []) :
      Moves s (.receive i key (.tf transforms))
        { s with
          offers := Function.update s.offers i
            ((members i).handler.tfCallback (some transforms)) }
  | offer {i : ι} {o : TransformStamped} {offers : List TransformStamped}
      (head : s.offers i = o :: offers) :
      Moves s (.offer i)
        { s with
          offers := Function.update s.offers i offers
          offered := s.offered ++ [o] }
  | robot {i : ι} {a : RobotsAction ι G} {b : Robot.Action G} {r : Robot.State G}
      (does : s.Does lookup members a i b)
      (h : Robot.step (members i).site (s.robots i) b = some r) :
      Moves s a { s with robots := Function.update s.robots i r }

end

variable {lookup : Lookup} {members : ι → Member} {s s' t : Robots ι G} {a : RobotsAction ι G}
  {i : ι}

theorem Robots.move_eq_some {b : Robot.Action G} :
    s.move members i b = some s' ↔ ∃ r, Robot.step (members i).site (s.robots i) b = some r ∧
      s' = { s with robots := Function.update s.robots i r } := by
  simp only [move, Option.map_eq_some_iff, eq_comm (a := s')]

theorem Robots.step_moves (h : s.step lookup members a = some s') :
    s.Moves lookup members a s' := by
  have robot {i : ι} {b : Robot.Action G} (does : s.Does lookup members a i b)
      (h : s.move members i b = some s') : s.Moves lookup members a s' := by
    obtain ⟨r, hr, rfl⟩ := move_eq_some.mp h
    exact .robot does hr
  cases a with
  | publish key m =>
      cases h
      exact .publish key m
  | receive i key m =>
      simp only [step] at h
      split at h
      · rename_i hguard
        obtain ⟨published, own⟩ := hguard
        cases m with
        | tf transforms =>
            simp only [receive] at h
            split at h
            · rename_i idle
              cases h
              exact .tf published own (List.isEmpty_iff.mp idle)
            · cases h
        | batteryState percentage => exact robot (.batteryState published own) h
        | feedback message => exact robot (.recvFeedback published own) h
        | status entries => exact robot (.recvStatus published own) h
      · cases h
  | offer i =>
      simp only [step] at h
      split at h
      · cases h
      · rename_i head
        cases h
        exact .offer head
  | call i c => exact robot (.call i c) h
  | exec i => exact robot (.exec i) h
  | status i k => exact robot (.status i k) h
  | feedback i => exact robot (.feedback i) h
  | update i updateHandle now =>
      simp only [step] at h
      split at h
      · rename_i idle
        exact robot (.update updateHandle now idle) h
      · cases h

theorem Robots.Moves.step (h : s.Moves lookup members a s') :
    s.step lookup members a = some s' := by
  cases h with
  | publish key m => rfl
  | tf published own idle =>
      refine (if_pos ⟨published, own⟩).trans ?_
      simp only [receive, if_pos (List.isEmpty_iff.mpr idle)]
  | offer head => simp only [Robots.step, head]
  | robot does h =>
      have hmove := move_eq_some.mpr ⟨_, h, rfl⟩
      cases does with
      | batteryState published own | recvFeedback published own | recvStatus published own =>
          exact (if_pos ⟨published, own⟩).trans hmove
      | call | exec | status | feedback => exact hmove
      | update updateHandle now idle => exact (if_pos idle).trans hmove

/-! ### One robot and the others -/

/-- A step is one of robot `i`'s, or publishes under its name. -/
def RobotsAction.about (members : ι → Member) (i : ι) : RobotsAction ι G → Bool
  | .publish key _ => decide (Owns (members i).name key)
  | .receive j _ _ | .offer j | .call j _ | .exec j | .status j _ | .feedback j | .update j _ _ =>
      decide (j = i)

/-- What the callbacks have still to offer, they have namespaced. -/
def Namespaced (members : ι → Member) (offers : ι → List TransformStamped) : Prop :=
  ∀ j, ∀ o ∈ offers j, ∃ o', o = (members j).handler.namespaced o'

theorem Namespaced.update {offers : ι → List TransformStamped} (h : Namespaced members offers)
    {l : List TransformStamped} (hl : ∀ o ∈ l, ∃ o', o = (members i).handler.namespaced o') :
    Namespaced members (Function.update offers i l) := by
  intro j o ho
  by_cases hj : j = i
  · subst hj
    exact hl o (by rwa [Function.update_self] at ho)
  · exact h j o (by rwa [Function.update_of_ne hj] at ho)

/-- The buffer tells robot `i`'s frames from the others'. -/
structure TfOk (members : ι → Member) (i : ι) (s : Robots ι G) : Prop where
  offers : Namespaced members s.offers
  split : Split (members i).name s.offered

theorem TfOk.step (hm : Distinct members) (h : s.Moves lookup members a s')
    (hs : TfOk members i s) : TfOk members i s' := by
  cases h with
  | publish | robot => exact ⟨hs.offers, hs.split⟩
  | tf =>
      refine ⟨hs.offers.update fun o ho => ?_, hs.split⟩
      obtain ⟨o', -, rfl⟩ := List.mem_map.mp ho
      exact ⟨o', rfl⟩
  | @offer j o offers head =>
      refine ⟨hs.offers.update fun o' ho' => ?_, ?_⟩
      · exact hs.offers j o' (head ▸ List.mem_cons_of_mem _ ho')
      obtain ⟨o', rfl⟩ := hs.offers j o (head ▸ List.mem_cons_self)
      refine hs.split.concat ?_
      by_cases hj : j = i
      · exact .inl ⟨hj ▸ rfl, hm.name_ne i⟩
      · exact .inr (hm.apart i j hj)

/-- `t` is `s` as robot `i` sees it, and no other robot has taken a step. -/
structure Agree (lookup : Lookup) (members : ι → Member) (i : ι) (s t : Robots ι G) : Prop where
  robot : t.robots i = s.robots i
  offers : t.offers i = s.offers i
  offered : ownOf (members i).name t.offered = ownOf (members i).name s.offered
  published : ∀ x ∈ s.published, Owns (members i).name x.1 → x ∈ t.published
  others : ∀ j ≠ i, t.robots j = (robots lookup members G).init.robots j

theorem Agree.transform (hl : lookup.Documented) (hm : Distinct members)
    (h : Agree lookup members i s t) (hs : TfOk members i s) (ht : TfOk members i t) :
    t.transform lookup members i = s.transform lookup members i :=
  getTransform_congr hl (hm.name_ne i) (hm.mapFrame_ne i) (hm.robotFrame_ne i) ht.split hs.split
    h.offered

/-- What a robot does, it does in the states it cannot tell apart. -/
theorem Agree.does (hl : lookup.Documented) (hm : Distinct members)
    (h : Agree lookup members i s t) (hs : TfOk members i s) (ht : TfOk members i t)
    {b : Robot.Action G} (hdoes : s.Does lookup members a i b) : t.Does lookup members a i b := by
  cases hdoes with
  | batteryState published own =>
      exact .batteryState (h.published _ published (own ▸ hm.owns_key _ (by decide))) own
  | recvFeedback published own =>
      exact .recvFeedback (h.published _ published (own ▸ hm.owns_key _ (by decide))) own
  | recvStatus published own =>
      exact .recvStatus (h.published _ published (own ▸ hm.owns_key _ (by decide))) own
  | call i c =>
      rw [← h.transform hl hm hs ht]
      exact .call i c
  | exec i => exact .exec i
  | status i k => exact .status i k
  | feedback i => exact .feedback i
  | update updateHandle now idle =>
      rw [← h.transform hl hm hs ht]
      refine .update updateHandle now fun j hj => ?_
      rw [h.others j hj]
      rfl

/-- The steps of the others, and what is published under other names, robot `i` does not see. -/
theorem Agree.other (hm : Distinct members) (hs : TfOk members i s)
    (h : Agree lookup members i s t) (hmoves : s.Moves lookup members a s')
    (hother : a.about members i = false) : Agree lookup members i s' t := by
  cases hmoves with
  | publish key m =>
      refine ⟨h.robot, h.offers, h.offered, fun x hx howns => ?_, h.others⟩
      rcases List.mem_cons.mp hx with rfl | hx
      · exact absurd howns (of_decide_eq_false hother)
      · exact h.published x hx howns
  | tf =>
      refine ⟨h.robot, ?_, h.offered, h.published, h.others⟩
      exact h.offers.trans (Function.update_of_ne (Ne.symm (of_decide_eq_false hother)) _ _).symm
  | @offer j o offers head =>
      have hj : j ≠ i := of_decide_eq_false hother
      refine ⟨h.robot, ?_, ?_, h.published, h.others⟩
      · exact h.offers.trans (Function.update_of_ne hj.symm _ _).symm
      · obtain ⟨o', rfl⟩ := hs.offers j o (head ▸ List.mem_cons_self)
        rw [ownOf_concat, ownOf_namespaced (hm.apart i j hj), List.append_nil]
        exact h.offered
  | @robot j a b r does =>
      have hj : j ≠ i := by
        cases does <;> exact of_decide_eq_false hother
      refine ⟨?_, h.offers, h.offered, h.published, h.others⟩
      exact h.robot.trans (Function.update_of_ne hj.symm _ _).symm

/-- Its own steps it can take without the others. -/
theorem Agree.own (hl : lookup.Documented) (hm : Distinct members) (hs : TfOk members i s)
    (ht : TfOk members i t) (h : Agree lookup members i s t)
    (hmoves : s.Moves lookup members a s') (hown : a.about members i = true) :
    ∃ t', t.Moves lookup members a t' ∧ Agree lookup members i s' t' := by
  cases hmoves with
  | publish key m =>
      refine ⟨_, .publish key m, h.robot, h.offers, h.offered, fun x hx howns => ?_, h.others⟩
      rcases List.mem_cons.mp hx with rfl | hx
      · exact List.mem_cons_self
      · exact List.mem_cons_of_mem _ (h.published x hx howns)
  | @tf j key transforms published own idle =>
      obtain rfl : j = i := of_decide_eq_true hown
      have published := h.published _ published (own ▸ hm.owns_key _ (by decide))
      refine ⟨_, .tf published own (h.offers.trans idle), h.robot, ?_, h.offered, h.published,
        h.others⟩
      simp only [Function.update_self]
  | @offer j o offers head =>
      obtain rfl : j = i := of_decide_eq_true hown
      refine ⟨_, .offer (h.offers.trans head), h.robot, ?_, ?_, h.published, h.others⟩
      · simp only [Function.update_self]
      · rw [ownOf_concat, ownOf_concat, h.offered]
  | @robot j a b r does hstep =>
      obtain rfl : j = i := by
        cases does <;> exact of_decide_eq_true hown
      refine ⟨_, .robot (h.does hl hm hs ht does) (h.robot ▸ hstep), ?_, h.offers, h.offered,
        h.published, fun k hk => ?_⟩
      · simp only [Function.update_self]
      · exact (Function.update_of_ne hk _ _).trans (h.others k hk)

/-- A robot's part of the fleet moves as its own machine does. -/
theorem simulates_robot (lookup : Lookup) (members : ι → Member) (i : ι) :
    Lts.Simulates (robots lookup members G) (fun _ _ => True)
      (robot G (members i).site (members i).currentPosition) (fun _ _ => True) (·.robots i)
      (fun _ => True) := by
  intro s a s' _ hstep _
  refine ⟨trivial, ?_⟩
  cases Robots.step_moves hstep with
  | publish | tf | offer => exact ⟨[], .nil _⟩
  | @robot j a b r does h =>
      by_cases hj : j = i
      · subst hj
        exact ⟨[b], .one trivial (h.trans (congrArg some (Function.update_self j r s.robots).symm))⟩
      · simp only [Function.update_of_ne (Ne.symm hj)]
        exact ⟨[], .nil _⟩

/-- **The robots are apart.**  Whatever a fleet does, each of its robots is in a state its own
machine reaches, and in the one it reaches without the others. -/
theorem robots_apart (hl : lookup.Documented) (hm : Distinct members)
    {as : List (RobotsAction ι G)}
    (h : (robots lookup members G).Run (fun _ _ => True) (robots lookup members G).init as s)
    (i : ι) :
    (robot G (members i).site (members i).currentPosition).Reach (fun _ _ => True) (s.robots i) ∧
      ∃ t, (robots lookup members G).Run (fun _ _ => True) (robots lookup members G).init
          (as.filter (·.about members i)) t ∧
        t.robots i = s.robots i ∧
        ∀ j ≠ i, t.robots j = (robots lookup members G).init.robots j := by
  constructor
  · exact (Lts.Reach.simulates (simulates_robot lookup members i) rfl trivial ⟨as, h⟩).2
  have hinit : TfOk members i (robots lookup members G).init := ⟨nofun, nofun⟩
  obtain ⟨t, hrun, -, -, hagree⟩ := h.filter
    (R := fun s t => TfOk members i s ∧ TfOk members i t ∧ Agree lookup members i s t)
    (fun s a s' t hother hstep ⟨hs, ht, hagree⟩ =>
      have hmoves := Robots.step_moves hstep
      ⟨hs.step hm hmoves, ht, hagree.other hm hs hmoves hother⟩)
    (fun s a s' t hown hstep ⟨hs, ht, hagree⟩ => by
      have hmoves := Robots.step_moves hstep
      obtain ⟨t', ht', hagree'⟩ := hagree.own hl hm hs ht hmoves hown
      exact ⟨t', ht'.step, hs.step hm hmoves, ht.step hm ht', hagree'⟩)
    ⟨hinit, hinit, rfl, rfl, rfl, nofun, fun _ _ => rfl⟩
  exact ⟨t, hrun, hagree.robot, hagree.others⟩

/-- Two robots with frames of the same names. -/
def twins (first : Bool) : Member where
  handler := ⟨if first then "tb1" else "tb2", "base_link", "map"⟩
  site := forkSite
  currentPosition := ⟨(0, 0), 0⟩

theorem distinct_twins : Distinct twins where
  name_ne := by decide
  mapFrame_ne := by decide
  robotFrame_ne := by decide
  apart := by
    intro i j hj
    cases i <;> cases j
    · exact absurd rfl hj
    · exact apart_of_slash_free (by decide) (by decide) (by decide) (by decide) (by decide)
    · exact apart_of_slash_free (by decide) (by decide) (by decide) (by decide) (by decide)
    · exact absurd rfl hj

/-- A robot's transform, with it at `(x, 0)`. -/
def sends (x : ℝ) : Message ℕ := .tf [⟨"map", "base_link", 0, ⟨x, 0, 0, yawQuaternion 0⟩⟩]

/-- Both send where they are, and an update of the first tells RMF. -/
def bothSend : List (RobotsAction Bool ℕ) :=
  [.publish "tb1/tf" (sends 1), .publish "tb2/tf" (sends (-1)), .receive true "tb1/tf" (sends 1),
    .receive false "tb2/tf" (sends (-1)), .offer true, .offer false, .update true true 0]

theorem exists_run_bothSend : ∃ s,
    (robots newestBetween twins ℕ).Run (fun _ _ => True) (robots newestBetween twins ℕ).init
        bothSend s ∧
      ∃ r ∈ (s.robots true).told, ∃ rmfPose, r.told = .onMap "Floor0" rmfPose 1 1 := by
  have step {s s' : Robots Bool ℕ} {a : RobotsAction Bool ℕ}
      (h : s.Moves newestBetween twins a s') :
      (robots newestBetween twins ℕ).step s a = some s' := h.step
  refine ⟨_, .cons trivial rfl (.cons trivial rfl
    (.cons trivial (step (.tf (List.mem_cons_of_mem _ List.mem_cons_self) (by decide) rfl))
    (.cons trivial (step (.tf List.mem_cons_self (by decide) rfl))
    (.cons trivial rfl (.cons trivial rfl
    (.cons trivial (step (.robot (.update _ _ fun _ _ => rfl) rfl)) (.nil _))))))),
    _, List.mem_cons_self, _, rfl⟩

theorem robots_apart_twins : ∃ s t : Robots Bool ℕ,
    (∃ r ∈ (s.robots true).told, ∃ rmfPose, r.told = .onMap "Floor0" rmfPose 1 1) ∧
      (robots newestBetween twins ℕ).Run (fun _ _ => True) (robots newestBetween twins ℕ).init
          (bothSend.filter (·.about twins true)) t ∧
        t.robots true = s.robots true := by
  obtain ⟨s, hrun, htold⟩ := exists_run_bothSend
  obtain ⟨-, t, hrun', heq, -⟩ := robots_apart newestBetween_documented distinct_twins hrun true
  exact ⟨s, t, htold, hrun', heq⟩

end EgbFleet.Fleet

end
