import EgbFleet.Navigation.Invariant
import EgbFleet.Support.Logs

/-!
# Navigation — what a step records

Most events say no more than that a step was taken (`Event.bland`).  `Adds` lists the steps that
record one of the others, and `Moves.adds` inverts a step into it, so that a property of the log
is shown once for each of these.
-/

namespace EgbFleet

variable {G W : Type}

/-- All events but those a path, a goal or a replan turns on. -/
def Event.bland : Event G W → Bool
  | .followed _ _ | .status _ _ _ | .finished _ | .flagged _ | .consumed | .replan | .feedback _ _
  | .arrival _ _ => false
  | _ => true

/-- Only bland events are added. -/
abbrev Grows : List (Event G W) → List (Event G W) → Prop := Log.Grows Event.bland

/-! ### The executor -/

theorem grows_record (m : Mem G W) {e : Event G W} (he : e.bland = true) :
    Grows m.log (m.record e).log :=
  (Log.Grows.refl _).cons he

theorem grows_returnFrom (c : Caller) (m : Mem G W) : Grows m.log (m.returnFrom c).log := by
  cases c with
  | follow p => exact grows_record m rfl
  | dock => exact .refl _
  | undock a => exact (Log.Grows.refl _).cons rfl

theorem ClosureStep.adds {alive : SessionId → Bool} {f : Firing} {f' : Option Firing}
    {m m' : Mem G W} (h : ClosureStep alive f m m' f') :
    Grows m.log m'.log ∨
      (∃ p, f = .report (.arrived p true) ∧ m'.log = .finished p :: m.log) ∨
      ∃ p, f = .report (.failed p) ∧ m'.log = .flagged p :: m.log := by
  cases h with
  | enterPath | enterFailure => split <;> exact .inl (grows_record _ rfl)
  | enterDock => exact .inl ((grows_record _ rfl).cons rfl)
  | enterUndock => exact .inl (grows_record _ rfl)
  | reset => exact .inl (.refl _)
  | @reportArrived p fin m =>
      cases fin with
      | true => exact .inr (.inl ⟨p, rfl, rfl⟩)
      | false => exact .inl (.refl _)
  | reportFailed => exact .inr (.inr ⟨_, rfl, rfl⟩)

theorem PathStep.grows {alive : SessionId → Bool} {r : PathRequest G W} {m m' : Mem G W}
    {e' : Exec G W} (h : PathStep alive r m m' e') : Grows m.log m'.log := by
  have draw : Grows m.log (m.drawGoal r).log := (Log.Grows.refl _).cons rfl
  cases h with
  | locked | lost => exact draw
  | lostSilent => exact draw.trans (grows_returnFrom _ _)

/-- The closure the executor runs is a completion callback. -/
theorem ExecOk.adds {alive : SessionId → Bool} {j : PathJob G W} {i : Option SessionId}
    {f : Firing} {f' : Option Firing} {m m' : Mem G W} (he : ExecOk m (.fire j i f))
    (h : ClosureStep alive f m m' f') :
    Grows m.log m'.log ∨ ∃ p, f = .report (.arrived p true) ∧ m'.log = .finished p :: m.log := by
  rcases h.adds with hg | hf | ⟨p, rfl, -⟩
  · exact .inl hg
  · exact .inr hf
  · obtain ⟨-, ⟨_, _ | _ | _⟩, -, hof⟩ := he
    all_goals cases hof with
    | report ht => cases ht

theorem ExecStep.adds {alive : SessionId → Bool} {e e' : Exec G W} {m m' : Mem G W}
    (h : ExecStep alive e m m' e') (he : ExecOk m e) :
    Grows m.log m'.log ∨
      ∃ j i p, e = .fire j i (.report (.arrived p true)) ∧
        Grows (.finished p :: m.log) m'.log := by
  cases h with
  | executePath h => exact .inl h.grows
  | armSession | handOver => exact .inl (grows_record _ rfl)
  | accepted => exact .inl (grows_returnFrom _ _)
  | @notAcceptedSilent j i m => exact .inl (grows_returnFrom _ (m.modify i .markDone))
  | fire h =>
      rcases he.adds h with hg | ⟨p, rfl, hl⟩
      · exact .inl hg
      · exact .inr ⟨_, _, p, rfl, hl ▸ .refl _⟩
  | fired h =>
      rcases he.adds h with hg | ⟨p, rfl, hl⟩
      · exact .inl (hg.trans (grows_returnFrom _ _))
      · exact .inr ⟨_, _, p, rfl, hl ▸ grows_returnFrom _ _⟩
  | stopCancel | cancel => split <;> exact .inl (.refl _)
  | stopClear => exact .inl ((grows_record _ rfl).cons rfl)
  | _ => exact .inl (.refl _)

theorem CallStep.adds {alive : SessionId → Bool} {c : Call G W} {e' : Exec G W} {m m' : Mem G W}
    (h : CallStep alive c m m' e') :
    Grows m.log m'.log ∨
      c.isFollow = true ∧
        ((∃ ws, Grows (.followed m.nextSession ws :: m.log) m'.log) ∨
          Grows (.finished m.nextSession :: .followed m.nextSession [] :: m.log) m'.log) := by
  cases h with
  | @followEmpty limits est fin net m =>
      cases fin with
      | true => exact .inr ⟨rfl, .inr ((Log.Grows.refl _).cons rfl)⟩
      | false => exact .inr ⟨rfl, .inl ⟨[], (Log.Grows.refl _).cons rfl⟩⟩
  | follow | followOver => exact .inr ⟨rfl, .inl ⟨_, .refl _⟩⟩
  | noDock =>
      split
      · exact .inl (grows_record _ rfl)
      · exact .inl (.refl _)
  | @dock ws fin net m m' e' h =>
      exact .inl ((grows_record m (e := .dockPlanned m.nextCall ws) rfl).trans h.grows)
  | @undock a env ws net m m' e' _ _ _ _ h =>
      exact .inl ((grows_record m (e := .undockPlanned a m.nextCall ws) rfl).trans h.grows)
  | stop | stopNone | undockReturns | cancelNavigation | cancelNone =>
      exact .inl ((Log.Grows.refl _).cons rfl)

theorem UpdateStep.adds {u u' : UpdateThread} {m m' : Mem G W} (h : UpdateStep u m m' u') :
    m'.log = m.log ∨
      (∃ i p fb, u = .drainForward i p fb ∧ m'.log = .arrival p fb :: m.log) ∨
      (u = .takeFailure ∧ m.pendingFailure = true ∧ m'.log = .consumed :: m.log) ∨
      (u = .replan ∧ m'.log = .replan :: m.log) := by
  cases h with
  | read | drainTake => exact .inl rfl
  | drainForward => exact .inr (.inl ⟨_, _, _, rfl, rfl⟩)
  | takeFailure h => exact .inr (.inr (.inl ⟨rfl, h, rfl⟩))
  | replan => exact .inr (.inr (.inr ⟨rfl, rfl⟩))

/-! ### Any step -/

/-- From `s`, action `a` leads to this log. -/
inductive Adds [DecidableEq G] (s : State G W) : Action G W → List (Event G W) → Prop where
  | bland {a : Action G W} {h : List (Event G W)} (grows : Grows s.mem.log h) : Adds s a h
  | followed {c : Call G W} {ws : List W} {h : List (Event G W)} (follow : c.isFollow = true)
      (grows : Grows (.followed s.mem.nextSession ws :: s.mem.log) h) : Adds s (.call c) h
  | followedEmpty {c : Call G W} {h : List (Event G W)} (follow : c.isFollow = true)
      (grows : Grows (.finished s.mem.nextSession :: .followed s.mem.nextSession [] :: s.mem.log)
        h) : Adds s (.call c) h
  | refused {j : PathJob G W} {i : Option SessionId} {p : SessionId} {h : List (Event G W)}
      (exec : s.exec = .fire j i (.report (.arrived p true)))
      (grows : Grows (.finished p :: s.mem.log) h) : Adds s .exec h
  | arrival {i p : SessionId} {fb : PendingFeedback} (update : s.update = .drainForward i p fb) :
      Adds s .update (.arrival p fb :: s.mem.log)
  | consumed (update : s.update = .takeFailure) (flag : s.mem.pendingFailure = true) :
      Adds s .update (.consumed :: s.mem.log)
  | replan (update : s.update = .replan) : Adds s .update (.replan :: s.mem.log)
  | status {k : Nat} {x : Found G} (finds : s.finds k = some x) :
      Adds s (.status k) (.status x.session x.goal x.status :: s.mem.log)
  | finished {k : Nat} {i p : SessionId}
      (at_k : s.status[k]? = some (.fire i (.report (.arrived p true)))) :
      Adds s (.status k) (.finished p :: s.mem.log)
  | flagged {k : Nat} {i p : SessionId}
      (at_k : s.status[k]? = some (.fire i (.report (.failed p)))) :
      Adds s (.status k) (.flagged p :: s.mem.log)
  | feedback {msg : FeedbackMessage G} :
      Adds s (.recvFeedback msg) (.feedback s.mem.nextReceipt msg :: s.mem.log)

theorem Moves.adds [DecidableEq G] {s s' : State G W} {a : Action G W} (h : Moves s a s')
    (hs : NavInv s) : Adds s a s'.mem.log := by
  cases h with
  | call c idle fresh =>
      rcases (callStep s.alive c s.mem).adds with hg | ⟨hc, ⟨ws, hg⟩ | hg⟩
      · exact .bland hg
      · exact .followed hc hg
      · exact .followedEmpty hc hg
  | exec busy =>
      rcases (execStep s.alive busy s.mem).adds hs.nav.exec with hg | ⟨j, i, p, he, hg⟩
      · exact .bland hg
      · exact .refused he hg
  | update =>
      rcases (updateStep s.update s.mem).adds with
        hl | ⟨i, p, fb, hu, hl⟩ | ⟨hu, hf, hl⟩ | ⟨hu, hl⟩
      · exact .bland (hl ▸ .refl _)
      · exact hl ▸ .arrival hu
      · exact hl ▸ .consumed hu hf
      · exact hl ▸ .replan hu
  | recvStatus entries => exact .bland (.refl _)
  | status k t at_k =>
      have hk := statusStep s.alive t s.mem
      dsimp only
      generalize (t.step s.alive s.mem).1 = m', (t.step s.alive s.mem).2 = t' at hk ⊢
      have closure {i : SessionId} {f : Firing} {f' : Option Firing}
          (h : ClosureStep s.alive f s.mem m' f') (hf : s.status[k]? = some (.fire i f)) :
          Adds s (.status k) m'.log := by
        rcases h.adds with hg | ⟨p, rfl, hl⟩ | ⟨p, rfl, hl⟩
        · exact .bland hg
        · exact hl ▸ .finished hf
        · exact hl ▸ .flagged hf
      cases hk with
      | quiet => exact .bland (.refl _)
      | @silent i entries g st m hg hst hc =>
          have hx : s.finds k = some ⟨i, g, st⟩ := State.finds_eq_some.mpr ⟨entries, at_k, hg, hst⟩
          split <;> exact .status hx
      | @take i entries g st c m hg hst hc =>
          have hx : s.finds k = some ⟨i, g, st⟩ := State.finds_eq_some.mpr ⟨entries, at_k, hg, hst⟩
          exact .status hx
      | fire h | fired h => exact closure h at_k
  | recvFeedback msg idle => exact .feedback
  | feedback => exact .bland (by cases s.feedback <;> exact .refl _)

/-- The events that an update records. -/
def Event.ofUpdate : Event G W → Bool
  | .arrival _ _ | .consumed | .replan => true
  | _ => false

/-- What the step of another thread adds to the log is not an update's. -/
theorem Moves.grows [DecidableEq G] {s s' : State G W} {a : Action G W} (h : Moves s a s')
    (hs : NavInv s) (ha : a ≠ .update) :
    Log.Grows (fun e => !e.ofUpdate) s.mem.log s'.mem.log := by
  have bland {h h' : List (Event G W)} (hg : Grows h h') :
      Log.Grows (fun e => !e.ofUpdate) h h' := by
    refine hg.mono fun e he => ?_
    cases e with
    | arrival _ _ | consumed | replan => cases he
    | _ => rfl
  have one {e : Event G W} (he : e.ofUpdate = false) :
      Log.Grows (fun e => !e.ofUpdate) s.mem.log (e :: s.mem.log) :=
    (Log.Grows.refl _).cons (by simp [he])
  have hadds := h.adds hs
  generalize s'.mem.log = l at hadds
  cases hadds with
  | bland grows => exact bland grows
  | followed _ grows | refused _ grows => exact (one rfl).trans (bland grows)
  | followedEmpty _ grows => exact ((one rfl).cons rfl).trans (bland grows)
  | status | finished | flagged | feedback => exact one rfl
  | arrival | consumed | replan => exact absurd rfl ha

/-! ### The names of paths -/

theorem ExecStep.nextSession {alive : SessionId → Bool} {e e' : Exec G W} {m m' : Mem G W}
    (h : ExecStep alive e m m' e') : m.nextSession ≤ m'.nextSession := by
  cases h with
  | executePath h => exact h.nextSession.ge
  | accepted => exact (Mem.nextSession_returnFrom _ _).ge
  | notAcceptedSilent => rw [Mem.nextSession_returnFrom]; exact le_rfl
  | fire h => exact h.tame.goals.nextSession
  | fired h => rw [Mem.nextSession_returnFrom]; exact h.tame.goals.nextSession
  | stopCancel | cancel => split <;> exact le_rfl
  | _ => exact le_rfl

theorem CallStep.nextSession {alive : SessionId → Bool} {c : Call G W} {e' : Exec G W}
    {m m' : Mem G W} (h : CallStep alive c m m' e') :
    m'.nextSession = if c.isFollow then m.nextSession + 1 else m.nextSession := by
  cases h with
  | followEmpty => rw [Mem.record_nextSession]; split <;> rfl
  | noDock => split <;> rfl
  | dock h | undock _ _ _ _ h => exact h.nextSession
  | _ => rfl

/-- A path is given a name no path has been given before. -/
theorem Moves.nextSession [DecidableEq G] {s s' : State G W} {a : Action G W} (h : Moves s a s')
    (hs : NavInv s) :
    s.mem.nextSession ≤ s'.mem.nextSession ∧
      ∀ c, a = .call c → c.isFollow = true → s.mem.nextSession < s'.mem.nextSession := by
  cases h with
  | call c idle fresh =>
      have hc := (callStep s.alive c s.mem).nextSession
      refine ⟨?_, ?_⟩
      · dsimp only
        rw [hc]
        split
        · exact Nat.le_succ _
        · exact le_rfl
      · rintro _ ⟨⟩ hf
        dsimp only
        rw [hc, if_pos hf]
        exact Nat.lt_succ_self _
  | exec busy => exact ⟨(execStep s.alive busy s.mem).nextSession, nofun⟩
  | update => exact ⟨(updateStep s.update s.mem).zenohStep.goals.nextSession, nofun⟩
  | recvStatus | recvFeedback => exact ⟨le_rfl, nofun⟩
  | status k t at_k =>
      have ht := hs.status t (List.mem_of_getElem? at_k)
      exact ⟨((statusStep s.alive t s.mem).zenohStep ht).goals.nextSession, nofun⟩
  | feedback =>
      exact ⟨(FeedbackThread.zenohStep s.alive s.feedback s.mem).goals.nextSession, nofun⟩

/-- A path in the log has a name given before, and to no other path. -/
structure Named (m : Mem G W) : Prop where
  lt : ∀ {p ws}, .followed p ws ∈ m.log → p < m.nextSession
  unique : ∀ {p ws ws'}, .followed p ws ∈ m.log → .followed p ws' ∈ m.log → ws = ws'

/-- A path in the log is an old one, or has the next name. -/
theorem Moves.followed [DecidableEq G] {s s' : State G W} {a : Action G W} (h : Moves s a s')
    (hs : NavInv s) : ∃ ws, ∀ p ws', .followed p ws' ∈ s'.mem.log →
      .followed p ws' ∈ s.mem.log ∨
        p = s.mem.nextSession ∧ ws' = ws ∧ s.mem.nextSession < s'.mem.nextSession := by
  obtain ⟨-, hlt⟩ := h.nextSession hs
  have hadds := h.adds hs
  generalize s'.mem.log = l at hadds
  cases hadds with
  | bland grows => exact ⟨[], fun p ws' hp => .inl (grows.back rfl hp)⟩
  | @followed c ws _ hc grows =>
      refine ⟨ws, fun p ws' hp => ?_⟩
      rcases List.mem_cons.mp (grows.back rfl hp) with e | hp
      · cases e; exact .inr ⟨rfl, rfl, hlt _ rfl hc⟩
      · exact .inl hp
  | followedEmpty hc grows =>
      refine ⟨[], fun p ws' hp => ?_⟩
      have hp := (List.mem_cons.mp (grows.back rfl hp)).resolve_left fun h => by cases h
      rcases List.mem_cons.mp hp with e | hp
      · cases e; exact .inr ⟨rfl, rfl, hlt _ rfl hc⟩
      · exact .inl hp
  | refused _ grows =>
      exact ⟨[], fun p ws' hp =>
        .inl ((List.mem_cons.mp (grows.back rfl hp)).resolve_left fun h => by cases h)⟩
  | arrival | consumed | replan | status | finished | flagged | feedback =>
      exact ⟨[], fun p ws' hp => .inl ((List.mem_cons.mp hp).resolve_left fun h => by cases h)⟩

theorem Named.step [DecidableEq G] {s s' : State G W} {a : Action G W} (h : Moves s a s')
    (hs : NavInv s) (hn : Named s.mem) : Named s'.mem := by
  obtain ⟨ws, hf⟩ := h.followed hs
  refine ⟨fun hp => ?_, fun {p ws₁ ws₂} h₁ h₂ => ?_⟩
  · rcases hf _ _ hp with hp | ⟨rfl, -, hlt⟩
    · exact (hn.lt hp).trans_le (h.nextSession hs).1
    · exact hlt
  · rcases hf _ _ h₁ with h₁ | ⟨rfl, rfl, -⟩ <;> rcases hf _ _ h₂ with h₂ | ⟨e, rfl, -⟩
    · exact hn.unique h₁ h₂
    · exact absurd (hn.lt h₁) (e ▸ Nat.lt_irrefl _)
    · exact absurd (hn.lt h₂) (Nat.lt_irrefl _)
    · rfl

end EgbFleet
