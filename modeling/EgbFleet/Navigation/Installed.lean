import EgbFleet.Navigation.Invariant

/-!
# Navigation — the session stays installed

`PathHandle::session_` is the only lasting strong reference to a session.  `follow_new_path`
stores its session there; the closures of `follow_new_path` and `stop` clear it, without looking
at what it holds.

`session_kept`: once stored, a session stays until its own closure, a `stop` or a later
`follow_new_path` takes it out, in every run where no path is followed while a closure has its
`session_.reset()` still ahead, and no closure is taken out of a session other than the one
stored (`Orderly`).  Without that it does not (`session_not_kept`): the closure of a replaced path
clears the session of the path that replaced it.
-/

namespace EgbFleet

variable {G W : Type}

/-! ### Closures in flight -/

def Exec.firing? : Exec G W → Option Firing
  | .fire _ _ f => some f
  | _ => none

def StatusThread.firing? : StatusThread G → Option Firing
  | .fire _ f => some f
  | _ => none

/-- The closures being run outside the session lock. -/
def State.firings (s : State G W) : List Firing :=
  s.exec.firing?.toList ++ s.status.filterMap (·.firing?)

theorem mem_firings {s : State G W} {i : SessionId} {f : Firing}
    (h : StatusThread.fire i f ∈ s.status) : f ∈ s.firings :=
  List.mem_append_right _ (List.mem_filterMap.mpr ⟨_, h, rfl⟩)

/-! ### Who writes `session_` -/

theorem ClosureStep.session {alive : SessionId → Bool} {f : Firing} {f' : Option Firing}
    {m m' : Mem G W} (h : ClosureStep alive f m m' f') :
    m'.session = m.session ∨ m'.session = none ∧ ∃ t, f = .reset t := by
  cases h with
  | enterPath | enterFailure | reportArrived => split <;> exact .inl rfl
  | enterDock | enterUndock | reportFailed => exact .inl rfl
  | reset => exact .inr ⟨rfl, _, rfl⟩

theorem StatusStep.session [DecidableEq G] {alive : SessionId → Bool} {t t' : StatusThread G}
    {m m' : Mem G W} (h : StatusStep alive t m m' t') :
    m'.session = m.session ∨ m'.session = none ∧ ∃ i u, t = .fire i (.reset u) := by
  cases h with
  | quiet | take => exact .inl rfl
  | silent => split <;> exact .inl rfl
  | fire h | fired h =>
      rcases h.session with e | ⟨e, u, rfl⟩
      · exact .inl e
      · exact .inr ⟨e, _, u, rfl⟩

theorem ExecStep.session {alive : SessionId → Bool} {e e' : Exec G W} {m m' : Mem G W}
    (h : ExecStep alive e m m' e') :
    m'.session = m.session ∨
      m'.session = none ∧
        ((∃ held, e = .stopReset held) ∨ ∃ j i t, e = .fire j i (.reset t)) := by
  cases h with
  | executePath h => exact .inl h.session
  | accepted | notAcceptedSilent => exact .inl (Mem.session_returnFrom _ _)
  | fire h =>
      rcases h.session with e | ⟨e, u, rfl⟩
      · exact .inl e
      · exact .inr ⟨e, .inr ⟨_, _, u, rfl⟩⟩
  | fired h =>
      rw [Mem.session_returnFrom]
      rcases h.session with e | ⟨e, u, rfl⟩
      · exact .inl e
      · exact .inr ⟨e, .inr ⟨_, _, u, rfl⟩⟩
  | stopReset => exact .inr ⟨rfl, .inl ⟨_, rfl⟩⟩
  | stopCancel | cancel => split <;> exact .inl rfl
  | _ => exact .inl rfl

/-- A call that replaces `session_`. -/
def Call.follows : Call G W → Bool
  | .followNewPath ws _ _ _ _ => !ws.isEmpty
  | _ => false

theorem Call.follows_of_ne_nil {ws : List W} (hws : ws ≠ []) {limits : List ℚ}
    {estimator finished : Bool} {net : Network G} :
    (Call.followNewPath ws limits estimator finished net).follows = true := by
  cases ws with
  | nil => exact absurd rfl hws
  | cons w ws => rfl

theorem CallStep.session {alive : SessionId → Bool} {c : Call G W} {e' : Exec G W} {m m' : Mem G W}
    (h : CallStep alive c m m' e') :
    c.follows = false ∧ m'.session = m.session ∨
      c.follows = true ∧ m'.session = some m.nextSession := by
  cases h with
  | follow hws | followOver hws => exact .inr ⟨Call.follows_of_ne_nil hws, rfl⟩
  | followEmpty =>
      refine .inl ⟨rfl, ?_⟩
      rw [Mem.record_session]
      split <;> rfl
  | noDock => exact .inl ⟨rfl, by split <;> rfl⟩
  | dock h | undock _ _ _ _ h => exact .inl ⟨rfl, h.session⟩
  | _ => exact .inl ⟨rfl, rfl⟩

theorem UpdateStep.session {u u' : UpdateThread} {m m' : Mem G W} (h : UpdateStep u m m' u') :
    m'.session = m.session := by
  cases h with
  | read | drainTake | drainForward | takeFailure | replan => rfl

theorem FeedbackThread.session [DecidableEq G] (alive : SessionId → Bool) (t : FeedbackThread G)
    (m : Mem G W) : (t.step alive m).1.session = m.session := by
  cases t <;> rfl

/-! ### The condition -/

/-- No path is followed while a closure has its `session_.reset()` still to execute, and no
path's closure is taken while another path's session is stored. -/
def Orderly [DecidableEq G] (s : State G W) : Action G W → Prop
  | .call c => c.follows = true → ∀ f ∈ s.firings, f.resets? = none
  | .status k => ∀ x ∈ s.finds k, ∀ c ∈ s.taken x,
      c.path? = none ∨ s.mem.session = none ∨ s.mem.session = some x.session
  | _ => True

instance [DecidableEq G] (s : State G W) : ∀ a, Decidable (Orderly s a)
  | .call c => inferInstanceAs (Decidable (c.follows = true → ∀ f ∈ s.firings, f.resets? = none))
  | .status k => inferInstanceAs (Decidable (∀ x ∈ s.finds k, ∀ c ∈ s.taken x,
      c.path? = none ∨ s.mem.session = none ∨ s.mem.session = some x.session))
  | .exec | .update | .recvStatus _ | .recvFeedback _ | .feedback =>
      inferInstanceAs (Decidable True)

/-- `session_` is empty or holds the session of path `p`. -/
def Holds (m : Mem G W) (p : SessionId) : Prop := m.session = none ∨ m.session = some p

theorem Holds.of_session {m m' : Mem G W} {p : SessionId} (hp : Holds m p)
    (h : m'.session = m.session ∨ m'.session = none) : Holds m' p := by
  rcases h with e | e
  · unfold Holds; rw [e]; exact hp
  · exact .inl e

/-- Only the path whose session is stored has a `session_.reset()` ahead of it. -/
def ResetsOk (m : Mem G W) (f : Firing) : Prop := ∀ p, f.resets? = some p → Holds m p

/-- The closure the executor runs belongs to the path it follows. -/
theorem NavInv.exec_holds {s : State G W} (hs : NavInv s) {f : Firing}
    (hf : s.exec.firing? = some f) {p : SessionId} (hp : f.path? = some p) : Holds s.mem p := by
  obtain ⟨m, e, u, st, fb⟩ := s
  cases e with
  | fire j i f' =>
      cases hf
      obtain ⟨hj, k, hk, hof⟩ := hs.nav.exec
      exact hs.nav.follows p (Caller.path?_eq_some.mpr (hj.made.path hk (hof.path? ▸ hp)))
  | _ => cases hf

/-- A closure that is being run resets `session_` once at most. -/
theorem ClosureStep.resets {alive : SessionId → Bool} {f f' : Firing} {m m' : Mem G W}
    (h : ClosureStep alive f m m' (some f')) {p : SessionId} (hp : f'.resets? = some p) :
    f.resets? = some p := by
  cases h with
  | @enterPath k p fin m hk =>
      obtain ⟨n, kind⟩ := k
      cases hk
      exact hp
  | enterFailure => exact hp
  | reset => cases hp

/-- What one step does to `session_`. -/
theorem Moves.session [DecidableEq G] {s s' : State G W} {a : Action G W} (h : Moves s a s') :
    (s'.mem.session = s.mem.session ∨ s'.mem.session = none) ∨
      ∃ c, a = .call c ∧ c.follows = true := by
  cases h with
  | call c idle fresh =>
      rcases (callStep s.alive c s.mem).session with ⟨-, e⟩ | ⟨hc, -⟩
      · exact .inl (.inl e)
      · exact .inr ⟨c, rfl, hc⟩
  | exec busy => exact .inl ((execStep s.alive busy s.mem).session.imp_right And.left)
  | update => exact .inl (.inl (updateStep s.update s.mem).session)
  | recvStatus | recvFeedback => exact .inl (.inl rfl)
  | status k t at_k => exact .inl ((statusStep s.alive t s.mem).session.imp_right And.left)
  | feedback => exact .inl (.inl (FeedbackThread.session _ _ _))

theorem resetsOk_step [DecidableEq G] {s s' : State G W} {a : Action G W} (hP : Orderly s a)
    (h : navStep s a = some s') (hs : NavInv s)
    (hr : ∀ t ∈ s.status, t.Fires fun _ => ResetsOk s.mem) :
    ∀ t ∈ s'.status, t.Fires fun _ => ResetsOk s'.mem := by
  have hm := navStep_moves h
  rcases hm.session with hsess | ⟨c, rfl, hc⟩
  · refine hm.fires hr (fun _ f hf p hp => (hf p hp).of_session hsess) ?_ ?_
    · rintro k x c rfl hx hc hmem p hp
      obtain ⟨_, -, hg, -⟩ := State.finds_eq_some.mp hx
      obtain rfl := (Taken.of_closureFor hs.nav.mem hg hc).path p hp
      rcases hP x hx c hc with hn | hn
      · exact absurd (hn.symm.trans hp) (by simp)
      · exact Holds.of_session hn hsess
    · intro k _ f f' _ hf hok p hp
      exact (hok p (hf.resets hp)).of_session hsess
  · have none : ∀ t ∈ s.status, t.Fires fun _ f => f.resets? = none := fun t ht => by
      cases t with
      | fire i f => exact hP hc f (mem_firings ht)
      | lock _ | process _ _ | done => trivial
    refine hm.fires none (fun _ f hf p hp => ?_) ?_ ?_
    · rw [hf] at hp; cases hp
    · rintro _ _ _ ⟨⟩
    · rintro _ _ _ _ ⟨⟩

/-- `NavInv`, and only the path whose session is stored has a reset ahead of it. -/
structure OrderlyInv (s : State G W) : Prop where
  nav : NavInv s
  resets : ∀ t ∈ s.status, t.Fires fun _ => ResetsOk s.mem

theorem OrderlyInv.step [DecidableEq G] {s s' : State G W} {a : Action G W} (hP : Orderly s a)
    (h : navStep s a = some s') (hs : OrderlyInv s) : OrderlyInv s' :=
  ⟨hs.nav.step h, resetsOk_step hP h hs.nav hs.resets⟩

theorem OrderlyInv.reach [DecidableEq G] {s : State G W}
    (h : (navigation G W).Reach Orderly s) : OrderlyInv s :=
  h.invariant ⟨.start, by simp [navigation, navStart]⟩ fun _ _ _ hP hstep hs => hs.step hP hstep

/-! ### The session stays -/

/-- The steps that may take the session of path `B` out of `session_`: the reset of `B`'s own
closure, the reset of `stop`, and the swap of a later `follow_new_path`. -/
def Releases (B : SessionId) (s : State G W) : Action G W → Bool
  | .call c => c.follows
  | .exec =>
      match s.exec with
      | .stopReset _ => true
      | .fire _ _ (.reset t) => t.path == B
      | _ => false
  | .status k =>
      match s.status[k]? with
      | some (.fire _ (.reset t)) => t.path == B
      | _ => false
  | .update | .recvStatus _ | .recvFeedback _ | .feedback => false

theorem session_step [DecidableEq G] {s s' : State G W} {a : Action G W} {B : SessionId}
    (h : navStep s a = some s') (hs : OrderlyInv s) (hB : s.mem.session = some B)
    (ha : Releases B s a = false) : s'.mem.session = some B := by
  -- a reset that is due is `B`'s, and would release it
  have own {t : Tail} (ht : Holds s.mem t.path) : (t.path == B) = true := by
    rcases ht with e | e
    · rw [hB] at e; cases e
    · exact beq_iff_eq.mpr (Option.some.inj (e.symm.trans hB))
  cases navStep_moves h with
  | call c idle fresh =>
      rcases (callStep s.alive c s.mem).session with ⟨-, e⟩ | ⟨hc, -⟩
      · exact e.trans hB
      · exact absurd (hc.symm.trans ha) (by simp)
  | exec busy =>
      rcases (execStep s.alive busy s.mem).session with e | ⟨-, ⟨held, he⟩ | ⟨j, i, t, he⟩⟩
      · exact e.trans hB
      · simp [Releases, he] at ha
      · have hh := own (hs.nav.exec_holds (f := .reset t) (p := t.path) (by rw [he]; rfl) rfl)
        simp only [Releases, he, hh] at ha
        cases ha
  | update => exact (updateStep s.update s.mem).session.trans hB
  | recvStatus entries | recvFeedback msg idle => exact hB
  | status k u at_k =>
      rcases (statusStep s.alive u s.mem).session with e | ⟨-, i, t, rfl⟩
      · exact e.trans hB
      · have hok := hs.resets _ (List.mem_of_getElem? at_k)
        simp only [Releases, at_k, own (hok t.path rfl)] at ha
        cases ha
  | feedback => exact (FeedbackThread.session _ _ _).trans hB

/-- **The session stays installed.**  Once `follow_new_path(B)` has stored its session, every
orderly run that takes no releasing step leaves it there. -/
theorem session_kept [DecidableEq G] {s s₁ t : State G W} {c : Call G W}
    {as : List (Action G W)} (hs : (navigation G W).Reach Orderly s) (hc : c.follows = true)
    (hP : Orderly s (.call c)) (hstep : navStep s (.call c) = some s₁)
    (hr : (navigation G W).Run
      (fun u a => Orderly u a ∧ Releases s.mem.nextSession u a = false) s₁ as t) :
    t.mem.session = some s.mem.nextSession := by
  have hinv := OrderlyInv.reach hs
  have hB : s₁.mem.session = some s.mem.nextSession := by
    cases navStep_moves hstep with
    | call c idle fresh =>
        rcases (callStep s.alive c s.mem).session with ⟨hn, -⟩ | ⟨-, e⟩
        · exact absurd (hn.symm.trans hc) (by simp)
        · exact e
  have hrun := hr.preserves (I := fun u => OrderlyInv u ∧ u.mem.session = some s.mem.nextSession)
    (fun u a u' hPu hu hI => ⟨hI.1.step hPu.1 hu, session_step hu hI.1 hI.2 hPu.2⟩)
    ⟨hinv.step hP hstep, hB⟩
  exact hrun.2

theorem session_kept_over_replan :
    ∃ s s₁ t, (navigation ℕ ℕ).Reach Orderly s ∧ navStep s (.call secondPath) = some s₁ ∧
      (navigation ℕ ℕ).Run (fun u a => Orderly u a ∧ Releases 1 u a = false) s₁
        [.exec, .exec, .recvStatus [(7, .succeeded)], .status 0] t ∧
      t.mem.session = some 1 := by
  obtain ⟨s, hs, hq⟩ := Lts.exists_run (navigation ℕ ℕ) Orderly navStart
    following
    (fun s => s.mem.nextSession == 1 && decide (Orderly s (.call secondPath)) &&
      (navStep s (.call secondPath)).any fun s₁ => ((navigation ℕ ℕ).runs
        (fun u a => Orderly u a ∧ Releases 1 u a = false) s₁
        [.exec, .exec, .recvStatus [(7, .succeeded)], .status 0]).isSome) (by decide)
  simp only [Bool.and_eq_true, beq_iff_eq, decide_eq_true_eq, Option.any_eq_true,
    Option.isSome_iff_exists] at hq
  obtain ⟨⟨hn, hP⟩, s₁, hstep, t, ht⟩ := hq
  have hrun := Lts.run_of_runs ht
  have kept := session_kept ⟨_, hs⟩ rfl hP hstep (hn ▸ hrun)
  exact ⟨s, s₁, t, ⟨_, hs⟩, hstep, hrun, hn ▸ kept⟩

/-- The status callback that has taken the closure of path 0 is overtaken by `follow_new_path`,
and then clears the session of path 1. -/
theorem session_not_kept :
    ¬ ∀ (s s₁ t : State ℕ ℕ) (c : Call ℕ ℕ) (as : List (Action ℕ ℕ)),
      (navigation ℕ ℕ).Reach (fun _ _ => True) s → c.follows = true →
      navStep s (.call c) = some s₁ →
      (navigation ℕ ℕ).Run (fun u a => Releases s.mem.nextSession u a = false) s₁ as t →
      t.mem.session = some s.mem.nextSession := by
  intro h
  obtain ⟨s, hs, hq⟩ := Lts.exists_run (navigation ℕ ℕ) (fun _ _ => True) navStart
    (arrival.take 10)
    (fun s => s.mem.nextSession == 1 &&
      (navStep s (.call secondPath)).any fun s₁ => ((navigation ℕ ℕ).runs
        (fun u a => Releases 1 u a = false) s₁ [.status 0, .status 0]).any
        (·.mem.session.isNone)) (by decide)
  simp only [Bool.and_eq_true, beq_iff_eq, Option.any_eq_true, Option.isNone_iff_eq_none] at hq
  obtain ⟨hn, s₁, hstep, t, ht, hnone⟩ := hq
  have kept := h s s₁ t secondPath [.status 0, .status 0] ⟨_, hs⟩ rfl hstep
    (hn ▸ Lts.run_of_runs ht)
  rw [hnone] at kept
  cases kept

end EgbFleet
