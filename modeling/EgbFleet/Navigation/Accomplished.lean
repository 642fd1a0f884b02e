import EgbFleet.Navigation.Manoeuvre

/-!
# Navigation — a manoeuvre reported as done has succeeded

A manoeuvre is reported as done by its completion callback, which `status_callback` calls when the
robot reports success.  But `execute_path` calls it too: where it finds no session to run in, and
where the robot does not accept the goal.

`manoeuvre_accomplished`: where neither happens (`Embarks`), a manoeuvre that was sent before the
robot's report (`Served`) is reported as done only after the robot has reported success for its own
goal, which was sent with its own waypoints.
-/

namespace EgbFleet

variable {G W : Type}

/-! ### What it takes to be done -/

/-- The waypoints planned for call `c` were sent, and the robot has reported success for their
goal. -/
def Accomplished (h : List (Event G W)) (c : CallId) (kind : CompletionKind) : Prop :=
  ∃ ws g lanes i, Planned h c ws kind ∧ .sent c g ws lanes ∈ h ∧ .status i g .succeeded ∈ h

theorem Accomplished.mono {h h' : List (Event G W)} (hs : h <:+ h') {c : CallId}
    {kind : CompletionKind} (hd : Accomplished h c kind) : Accomplished h' c kind := by
  obtain ⟨ws, g, lanes, i, hp, hsent, hst⟩ := hd
  exact ⟨ws, g, lanes, i, hp.mono hs, hs.subset hsent, hs.subset hst⟩

/-- A manoeuvre is reported as done only once the robot has reported its success. -/
def DoneOk : Event G W → List (Event G W) → Prop
  | .docked (some c), h => Accomplished h c .dock
  | .actionReturned a .completed, h => ∃ c, Accomplished h c (.undock a)
  | _, _ => True

/-- A callback that is called was called for a success: the one of the goal that was sent for the
manoeuvre. -/
theorem Delivered.accomplished {m : Mem G W} (hm : MemOk m) (hs : SentOk m) {i : SessionId}
    {k : Completion} (hd : Delivered m.log k.call k.kind) (ht : Taken m.log i (.completion k)) :
    Accomplished m.log k.call k.kind := by
  obtain ⟨ws, g, lanes, hp, hsent⟩ := hd
  cases ht with
  | @completion k g' status goal path =>
      obtain ⟨k', hk', -⟩ := hs.sent hsent
      obtain ⟨rfl, -⟩ := hm.goals.call_inj goal hk'
      exact ⟨ws, _, lanes, i, hp, hsent, status⟩

/-! ### The condition -/

def Call.net? : Call G W → Option (Network G)
  | .followNewPath _ _ _ _ net | .dock _ _ net | .updateAction _ _ net => some net
  | .stop | .cancelNavigation => none

/-- A manoeuvre finds a session to run in, and the robot accepts its goal. -/
def Embarks (s : State G W) : Action G W → Prop
  | .call c => ∀ ws ∈ c.manoeuvre s.mem, s.mem.lock s.alive ≠ none ∧
      ∀ net ∈ c.net?, sendWaypoints net ws = true
  | _ => True

instance (s : State G W) : ∀ a, Decidable (Embarks s a)
  | .call c => inferInstanceAs (Decidable (∀ ws ∈ c.manoeuvre s.mem,
      s.mem.lock s.alive ≠ none ∧ ∀ net ∈ c.net?, sendWaypoints net ws = true))
  | .exec | .update | .recvStatus _ | .status _ | .recvFeedback _ | .feedback =>
      inferInstanceAs (Decidable True)

/-- If the request is a manoeuvre's, the robot accepts its goal. -/
def PathRequest.Embarks (r : PathRequest G W) : Prop :=
  ∀ kind, r.callback = some kind → kind.manoeuvre = true → sendWaypoints r.net r.waypoints = true

/-- The executor has no manoeuvre whose goal the robot will refuse, or has refused. -/
def Exec.Embarks : Exec G W → Prop
  | .install j _ | .sendGoal j _ | .awaitReply j _ => j.request.Embarks
  | .notAccepted j _ => ∀ kind, j.request.callback = some kind → kind.manoeuvre = false
  | .fire _ _ f => ∀ k, f = .enter (.completion k) → k.kind.manoeuvre = false
  | _ => True

theorem PathStep.embarks {alive : SessionId → Bool} {r : PathRequest G W} {m m' : Mem G W}
    {e' : Exec G W} (h : PathStep alive r m m' e') (hr : r.Embarks)
    (hl : ∀ kind, r.callback = some kind → kind.manoeuvre = true → m.lock alive ≠ none) :
    e'.Embarks := by
  cases h with
  | locked => exact hr
  | @lost k lanes hi hk =>
      rintro _ ⟨⟩
      exact Bool.eq_false_iff.mpr fun hman => hl k hk hman hi
  | lostSilent => trivial

theorem ExecStep.embarks {alive : SessionId → Bool} {e e' : Exec G W} {m m' : Mem G W}
    (h : ExecStep alive e m m' e') (hnav : NavOk m e) (he : e.Embarks) : e'.Embarks := by
  cases h with
  | executePath h =>
      refine h.embarks ?_ ?_
      · rintro _ ⟨⟩ hman; cases hman
      · rintro _ ⟨⟩ hman; cases hman
  | install | handOver => exact he
  | refused h =>
      refine fun kind hk => Bool.eq_false_iff.mpr fun hman => ?_
      rw [he kind hk hman] at h
      cases h
  | notAccepted hk =>
      -- the callback in the session is the job's own
      obtain ⟨kind, hkind, rfl⟩ :=
        Option.map_eq_some_iff.mp (hnav.exec.2.completion hnav.mem hk)
      rintro _ ⟨⟩
      exact he kind hkind
  | fire h =>
      cases h with
      | enterPath | enterFailure | reset => exact nofun
  | _ => trivial

theorem CallStep.embarks {alive : SessionId → Bool} {c : Call G W} {e' : Exec G W} {m m' : Mem G W}
    (h : CallStep alive c m m' e')
    (hc : ∀ ws ∈ c.manoeuvre m, m.lock alive ≠ none ∧
      ∀ net ∈ c.net?, sendWaypoints net ws = true) : e'.Embarks := by
  cases h with
  | @dock ws fin net m m' e' h =>
      cases fin with
      | true => exact h.embarks (fun _ _ _ => (hc ws rfl).2 net rfl) fun _ _ _ => (hc ws rfl).1
      | false => exact h.embarks nofun nofun
  | @undock a env ws net m m' e' ha htime hpath hnav h =>
      have hman : ws ∈ (Call.updateAction a env net).manoeuvre m := by
        simp [Call.manoeuvre, ha, htime, hpath, hnav]
      exact h.embarks (fun _ _ _ => (hc ws hman).2 net rfl) fun _ _ _ => (hc ws hman).1
  | _ => trivial

/-! ### Steps -/

/-- The log and the undock actions. -/
structure DoneMem (m : Mem G W) : Prop where
  undock : ∀ a, (m.undock a).navCompleted = true ∨ (m.undock a).state = .completed →
    ∃ c, Accomplished m.log c (.undock a)
  reports : Log.Justified DoneOk m.log

theorem DoneMem.report {m : Mem G W} (hm : DoneMem m) {e : Event G W} (he : DoneOk e m.log) :
    DoneMem (m.record e) where
  undock := fun a ha =>
    let ⟨c, hc⟩ := hm.undock a ha
    ⟨c, hc.mono (List.suffix_cons _ _)⟩
  reports := ⟨he, hm.reports⟩

theorem doneOk_of_plain (e : Event G W) (h : List (Event G W)) (he : e.plain = true) :
    DoneOk e h := by
  cases e with
  | docked c =>
      cases c with
      | none => trivial
      | some c => cases he
  | actionReturned a st =>
      cases st with
      | completed => cases he
      | _ => trivial
  | _ => trivial

theorem DoneMem.record {m : Mem G W} (hm : DoneMem m) {e : Event G W} (he : e.plain = true) :
    DoneMem (m.record e) :=
  hm.report (doneOk_of_plain e m.log he)

/-- The fields `DoneMem` does not read may change. -/
theorem DoneMem.of_log {m m' : Mem G W} (hm : DoneMem m) (hl : m'.log = m.log)
    (hu : m'.undock = m.undock) : DoneMem m' :=
  ⟨fun a ha => by rw [hl]; exact hm.undock a (hu ▸ ha), by rw [hl]; exact hm.reports⟩

theorem DoneMem.setUndock {m : Mem G W} (hm : DoneMem m) {a : ActionId} {u : UndockAction}
    (hu : u.navCompleted = true ∨ u.state = .completed → ∃ c, Accomplished m.log c (.undock a)) :
    DoneMem (m.setUndock a u) where
  undock := fun b hb => by
    by_cases e : b = a
    · subst e
      rw [Mem.setUndock_undock, Function.update_self] at hb
      exact hu hb
    · rw [Mem.setUndock_undock, Function.update_of_ne e] at hb
      exact hm.undock b hb
  reports := hm.reports

theorem DoneMem.returnFrom {m : Mem G W} (hm : DoneMem m) (c : Caller) :
    DoneMem (m.returnFrom c) := by
  cases c with
  | follow p => exact hm.record rfl
  | dock => exact hm
  | undock a =>
      have h₁ : DoneMem (m.setUndock a { m.undock a with state := .navigating }) :=
        hm.setUndock fun h => hm.undock a (h.imp_right nofun)
      exact h₁.record rfl

theorem ClosureStep.done {alive : SessionId → Bool} {f : Firing} {f' : Option Firing}
    {m m' : Mem G W} (h : ClosureStep alive f m m' f') (hm : DoneMem m)
    (hf : ∀ k, f = .enter (.completion k) → k.kind.manoeuvre = true →
      Accomplished m.log k.call k.kind) : DoneMem m' := by
  have invoked (c : Closure) : DoneMem (m.record (.invoked c)) := hm.record rfl
  cases h with
  | enterPath | enterFailure => split <;> exact (invoked _).of_log rfl rfl
  | @enterDock k m hk =>
      have hd := hf k rfl (by rw [hk]; rfl)
      rw [hk] at hd
      exact (invoked _).report (hd.mono (List.suffix_cons _ _))
  | @enterUndock k a m hk =>
      have hd := hf k rfl (by rw [hk]; rfl)
      rw [hk] at hd
      exact (invoked _).setUndock fun _ => ⟨_, hd.mono (List.suffix_cons _ _)⟩
  | reset => exact hm.of_log rfl rfl
  | reportArrived =>
      split
      · exact hm.record rfl
      · exact hm
  | reportFailed =>
      have h₁ : DoneMem (m.setPendingFailure true) := hm.of_log rfl rfl
      exact h₁.record rfl

theorem PathStep.done {alive : SessionId → Bool} {r : PathRequest G W} {m m' : Mem G W}
    {e' : Exec G W} (h : PathStep alive r m m' e') (hm : DoneMem m) : DoneMem m' := by
  have h₁ : DoneMem m.newCall := hm.of_log rfl rfl
  have hd : DoneMem (m.drawGoal r) := h₁.record rfl
  cases h with
  | locked | lost => exact hd
  | lostSilent => exact hd.returnFrom _

theorem ExecStep.done {alive : SessionId → Bool} {e e' : Exec G W} {m m' : Mem G W}
    (h : ExecStep alive e m m' e') (he : e.Embarks) (hm : DoneMem m) : DoneMem m' := by
  have flag : DoneMem (m.setPendingFailure false) := hm.of_log rfl rfl
  -- no manoeuvre's callback is called here
  have refuses {f : Firing} (hf : ∀ k, f = .enter (.completion k) → k.kind.manoeuvre = false)
      (k : Completion) (hk : f = .enter (.completion k)) (hman : k.kind.manoeuvre = true) :
      Accomplished m.log k.call k.kind := by
    rw [hf k hk] at hman
    cases hman
  cases h with
  | invalidateOld | setSession | install | notAccepted | stopInvalidate | stopReset =>
      exact hm.of_log rfl rfl
  | armSession =>
      have h₁ : DoneMem ((m.setPendingFailure false).record .unflagged) := flag.record rfl
      exact h₁.of_log rfl rfl
  | executePath h => exact h.done hm
  | handOver => exact hm.report trivial
  | accepted => exact hm.returnFrom _
  | @notAcceptedSilent j i m hk =>
      have h₁ : DoneMem (m.modify i .markDone) := hm.of_log rfl rfl
      exact h₁.returnFrom _
  | fire h => exact h.done hm (refuses he)
  | fired h => exact (h.done hm (refuses he)).returnFrom _
  | stopCancel | cancel =>
      split
      · exact hm.of_log rfl rfl
      · exact hm
  | stopClear =>
      have h₁ : DoneMem ((m.setPendingFailure false).record .unflagged) := flag.record rfl
      exact h₁.record rfl
  | refused | stopRead | stopReadNone => exact hm

theorem CallStep.done {alive : SessionId → Bool} {c : Call G W} {e' : Exec G W} {m m' : Mem G W}
    (h : CallStep alive c m m' e') (hm : DoneMem m) : DoneMem m' := by
  have new (limits : List ℚ) (ws : List W) :
      DoneMem ((m.newSession limits).record (.followed m.nextSession ws)) := by
    have h₁ : DoneMem (m.newSession limits) := hm.of_log rfl rfl
    exact h₁.record rfl
  cases h with
  | followEmpty =>
      refine DoneMem.record ?_ rfl
      split
      · exact (new _ _).record rfl
      · exact new _ _
  | follow | followOver => exact (new _ _).of_log rfl rfl
  | stop | stopNone | cancelNavigation | cancelNone => exact hm.record rfl
  | noDock =>
      split
      · exact hm.record rfl
      · exact hm
  | @dock ws fin net m m' e' h =>
      have h₁ : DoneMem (m.record (.dockPlanned m.nextCall ws)) := hm.record rfl
      exact h.done h₁
  | @undock a env ws net m m' e' _ _ _ _ h =>
      have h₁ : DoneMem (m.record (.undockPlanned a m.nextCall ws)) := hm.record rfl
      exact h.done h₁
  | @undockReturns a env net m state returned hc =>
      have h₁ : DoneMem (m.setUndock a { m.undock a with state }) :=
        hm.setUndock fun h => hm.undock a (h.elim .inl fun h => hc (.inl h))
      refine h₁.report ?_
      cases returned with
      | completed => exact hm.undock a (hc (.inr rfl))
      | _ => trivial

theorem StatusStep.done [DecidableEq G] {alive : SessionId → Bool} {t t' : StatusThread G}
    {m m' : Mem G W} (h : StatusStep alive t m m' t') (hm : DoneMem m)
    (ht : t.Fires fun _ f => ∀ k, f = .enter (.completion k) → k.kind.manoeuvre = true →
      Accomplished m.log k.call k.kind) : DoneMem m' := by
  cases h with
  | quiet => exact hm
  | silent =>
      split
      · exact (hm.record rfl).of_log rfl rfl
      · exact hm.record rfl
  | take => exact (hm.record rfl).of_log rfl rfl
  | fire h | fired h => exact h.done hm ht

theorem UpdateStep.done {u u' : UpdateThread} {m m' : Mem G W} (h : UpdateStep u m m' u')
    (hm : DoneMem m) : DoneMem m' := by
  cases h with
  | read => exact hm
  | drainTake => exact hm.of_log rfl rfl
  | drainForward | replan => exact hm.record rfl
  | takeFailure =>
      have h₁ : DoneMem (m.setPendingFailure false) := hm.of_log rfl rfl
      exact h₁.record rfl

/-! ### Every run -/

/-- A callback on its way from `status_callback` is that of a manoeuvre accomplished. -/
theorem SentInv.accomplished {s : State G W} (hs : SentInv s) {t : StatusThread G}
    (ht : t ∈ s.status) : t.Fires fun _ f => ∀ k, f = .enter (.completion k) →
      k.kind.manoeuvre = true → Accomplished s.mem.log k.call k.kind := by
  have hsent := hs.status t ht
  have htaken := hs.nav.status t ht
  cases t with
  | fire i f =>
      rintro k rfl hman
      obtain ⟨c, hc, hof⟩ := htaken
      cases hof
      exact (hsent k rfl hman).accomplished hs.nav.nav.mem hs.mem hc
  | lock _ | process _ _ | done => trivial

/-- What holds while every manoeuvre is served, and none refused. -/
structure DoneInv (s : State G W) : Prop where
  exec : s.exec.Embarks
  mem : DoneMem s.mem

theorem DoneInv.start : DoneInv (navStart : State G W) where
  exec := trivial
  mem := by
    refine ⟨fun a h => ?_, trivial⟩
    simp [navStart, Mem.start] at h

theorem DoneInv.step [DecidableEq G] {s s' : State G W} {a : Action G W} (hP : Embarks s a)
    (h : navStep s a = some s') (hsent : SentInv s) (hs : DoneInv s) : DoneInv s' := by
  cases navStep_moves h with
  | call c idle fresh =>
      have hc := callStep s.alive c s.mem
      exact ⟨hc.embarks hP, hc.done hs.mem⟩
  | exec busy =>
      have he := execStep s.alive busy s.mem
      exact ⟨he.embarks hsent.nav.nav hs.exec, he.done hs.exec hs.mem⟩
  | update => exact ⟨hs.exec, (updateStep s.update s.mem).done hs.mem⟩
  | recvStatus entries => exact ⟨hs.exec, hs.mem⟩
  | status k t at_k =>
      exact ⟨hs.exec, (statusStep s.alive t s.mem).done hs.mem
        (hsent.accomplished (List.mem_of_getElem? at_k))⟩
  | recvFeedback msg idle =>
      have h₁ : DoneMem s.mem.newReceipt := hs.mem.of_log rfl rfl
      exact ⟨hs.exec, h₁.record rfl⟩
  | feedback =>
      refine ⟨hs.exec, ?_⟩
      cases s.feedback <;> exact hs.mem.of_log rfl rfl

/-- A manoeuvre is served, and its goal accepted. -/
def Smooth [DecidableEq G] (s : State G W) (a : Action G W) : Prop := Served s a ∧ Embarks s a

instance [DecidableEq G] [DecidableEq W] (s : State G W) (a : Action G W) :
    Decidable (Smooth s a) :=
  inferInstanceAs (Decidable (_ ∧ _))

theorem DoneInv.reach [DecidableEq G] {t : State G W} (h : (navigation G W).Reach Smooth t) :
    DoneInv t := by
  refine h.invariant_of (J := SentInv) (fun s hs => ?_) .start
    fun _ _ _ hP hstep hsent hs => hs.step hP.2 hstep hsent
  exact hs.invariant .start fun _ _ _ hP hstep hs => hs.step hP.1 hstep

/-- **Done is a success.**  In runs whose manoeuvres find a session, and in which the robot accepts
their goals and reports success only for goals handed over, `docking_finished_callback` is called
and `update_action` returns `COMPLETED` only after the robot has reported success for a goal with
the manoeuvre's own waypoints. -/
theorem manoeuvre_accomplished [DecidableEq G] {t : State G W}
    (h : (navigation G W).Reach Smooth t) : Log.Justified DoneOk t.mem.log :=
  (DoneInv.reach h).mem.reports

theorem manoeuvre_accomplished_undocking :
    ∃ t, (navigation ℕ ℕ).Run Smooth navStart undocking t ∧
      t.mem.log.head? = some (.docked (some 1)) ∧ Log.Justified DoneOk t.mem.log := by
  obtain ⟨t, ht, hq⟩ := Lts.exists_run (navigation ℕ ℕ) Smooth navStart undocking
    (fun t => t.mem.log.head? == some (.docked (some 1))) (by decide)
  exact ⟨t, ht, beq_iff_eq.mp hq, manoeuvre_accomplished ⟨_, ht⟩⟩

end EgbFleet
