import EgbFleet.Navigation.Arming
import EgbFleet.Navigation.Current
import EgbFleet.Navigation.Outcome

/-!
# Navigation — a replan is for the current path

`pending_failure_` does not say whose failure it is.  A path's failure closure sets it outside
every lock; `follow_new_path` and `stop` clear it, and an update takes it and then requests the
replan.

`replan_is_current_failure`: where the flag is set only by the closure of a path that is current,
or before the clear that is due, and no path begins or ends between an update's taking it and its
replan (`Timely`), each replan is for a failure of the current path's own goal, and each failure
causes one replan at most.  A failure closure that is late sets the flag after the clear, and the
next update replans the path that came after (`replan_stale`).
-/

namespace EgbFleet

variable {G W : Type}

/-! ### Each failure closure runs once -/

def Event.flags (p : SessionId) : Event G W → Bool
  | .flagged q => q == p
  | _ => false

def StatusThread.fails (p : SessionId) : StatusThread G → Bool
  | .fire _ f => f.tail? == some (.failed p)
  | _ => false

/-- How often path `p`'s failure closure has set `pending_failure_` or is about to. -/
def State.failures (s : State G W) (p : SessionId) : Nat :=
  s.mem.log.countP (·.flags p) + s.status.countP (·.fails p)

theorem flags_of_bland {e : Event G W} (he : e.bland = true) (p : SessionId) :
    e.flags p = false := by
  cases e with
  | flagged q => cases he
  | _ => rfl

theorem fails_of_ne {t : StatusThread G} (h : ∀ i f, t ≠ .fire i f) (p : SessionId) :
    t.fails p = false := by
  cases t with
  | fire i f => exact absurd rfl (h i f)
  | lock _ | process _ _ | done => rfl

theorem Tail.failed_beq (q p : SessionId) :
    (some (Tail.failed q) == some (.failed p)) = (q == p) := by
  by_cases e : q = p <;> simp [e]

theorem Firing.countP_flags (f : Firing) (p : SessionId) :
    (f.tells : List (Event G W)).countP (·.flags p) = (f.tail? == some (.failed p)).toNat := by
  have failed (q : SessionId) : ([.flagged q] : List (Event G W)).countP (·.flags p) =
      (some (Tail.failed q) == some (.failed p)).toNat := by
    rw [Tail.failed_beq, List.countP_singleton, Event.flags]
    cases q == p <;> rfl
  cases f with
  | enter k =>
      rw [Firing.tells, List.countP_append, List.countP_singleton]
      rcases k with ⟨_, ⟨q, _ | _⟩ | _ | _⟩ | q
      · rfl
      · rfl
      · rfl
      · rfl
      · exact failed q
  | reset t | report t =>
      rcases t with ⟨q, _ | _⟩ | q
      · rfl
      · rfl
      · exact failed q

theorem ClosureStep.failures {alive : SessionId → Bool} {f : Firing} {f' : Option Firing}
    {m m' : Mem G W} (h : ClosureStep alive f m m' f') (p : SessionId) :
    m'.log.countP (·.flags p) + (f'.any fun f => f.tail? == some (.failed p)).toNat =
      m.log.countP (·.flags p) + (f.tail? == some (.failed p)).toNat := by
  have hcount := h.countP (·.flags p)
  rw [f.countP_flags] at hcount
  cases f' with
  | none => exact hcount
  | some f' => rwa [Option.elim_some, f'.countP_flags] at hcount

theorem countP_flags_record {e : Event G W} {p : SessionId} (he : e.flags p = false)
    (h : List (Event G W)) : (e :: h).countP (·.flags p) = h.countP (·.flags p) :=
  List.countP_cons_of_neg (by simp [he])

/-- Only a status callback runs failure closures. -/
theorem Adds.countP_flags [DecidableEq G] {s : State G W} {a : Action G W} {h : List (Event G W)}
    (hadds : Adds s a h) (ha : ∀ k, a ≠ .status k) (p : SessionId) :
    h.countP (·.flags p) = s.mem.log.countP (·.flags p) := by
  cases hadds with
  | bland grows => exact grows.countP fun e he => flags_of_bland he p
  | followed _ grows | refused _ grows =>
      exact (grows.countP fun e he => flags_of_bland he p).trans (countP_flags_record rfl _)
  | followedEmpty _ grows =>
      exact (grows.countP fun e he => flags_of_bland he p).trans
        ((countP_flags_record rfl _).trans (countP_flags_record rfl _))
  | arrival | consumed | replan | feedback => exact countP_flags_record rfl _
  | status | finished | flagged => exact absurd rfl (ha _)

/-- A status callback's step flags a failure it was about to flag, or takes a failure closure. -/
theorem StatusStep.failures [DecidableEq G] {alive : SessionId → Bool} {t t' : StatusThread G}
    {m m' : Mem G W} (h : StatusStep alive t m m' t') :
    (∀ p, m'.log.countP (·.flags p) + (t'.fails p).toNat =
      m.log.countP (·.flags p) + (t.fails p).toNat) ∨
    ∃ i entries g st q, t = .process i entries ∧ (m.sessions i).goalId = some g ∧
      entries.find g = some st ∧ (m.sessions i).closureFor st = some (.failure q) ∧
      ∀ p, m'.log.countP (·.flags p) + (t'.fails p).toNat =
        m.log.countP (·.flags p) + (q == p).toNat := by
  cases h with
  | quiet ht ht' => exact .inl fun p => by rw [fails_of_ne ht, fails_of_ne ht']
  | silent =>
      refine .inl fun p => congrArg (· + _) ?_
      split <;> exact countP_flags_record rfl _
  | @take i entries g st c m hg hst hc =>
      have record (p : SessionId) : (Event.status i g st :: m.log).countP (·.flags p) =
          m.log.countP (·.flags p) := countP_flags_record rfl _
      cases c with
      | failure q =>
          refine .inr ⟨i, entries, g, st, q, rfl, hg, hst, hc, fun p => ?_⟩
          rw [Mem.modify_log, Mem.record_log, record, ← Tail.failed_beq]
          rfl
      | completion κ =>
          refine .inl fun p => ?_
          rw [Mem.modify_log, Mem.record_log, record]
          rcases κ with ⟨n, _ | _ | _⟩ <;> rfl
  | fire h => exact .inl h.failures
  | fired h => exact .inl h.failures

/-- Only taking a failure closure out of a session adds to the failures. -/
theorem Moves.failures [DecidableEq G] {s s' : State G W} {a : Action G W} (h : Moves s a s')
    (hs : NavInv s) :
    (∀ p, s'.failures p = s.failures p) ∨
      ∃ k x q, a = .status k ∧ s.finds k = some x ∧ s.taken x = some (.failure q) ∧
        ∀ p, s'.failures p = s.failures p + (q == p).toNat := by
  have hadds := h.adds hs
  cases h with
  | call | exec | update | recvFeedback | feedback =>
      exact .inl fun p => congrArg (· + _) (hadds.countP_flags nofun p)
  | recvStatus entries =>
      refine .inl fun p => ?_
      unfold State.failures
      rw [List.countP_append]
      rfl
  | status k t at_k =>
      -- the callback's place in the list of status callbacks
      have hset := fun p => Log.countP_set at_k (t.step s.alive s.mem).2 (·.fails p)
      rcases (statusStep s.alive t s.mem).failures with
        he | ⟨i, entries, g, st, q, rfl, hg, hst, hc, he⟩
      · refine .inl fun p => ?_
        have := he p
        have := hset p
        unfold State.failures
        dsimp only
        omega
      · refine .inr ⟨k, ⟨i, g, st⟩, q, rfl, State.finds_eq_some.mpr ⟨entries, at_k, hg, hst⟩, hc,
          fun p => ?_⟩
        have := he p
        have hlist := hset p
        rw [fails_of_ne (t := .process i entries) nofun, Bool.toNat_false] at hlist
        unfold State.failures
        dsimp only
        omega

/-- A failure closure can be taken only while it has not been. -/
structure FailOnce (s : State G W) : Prop where
  le : ∀ p, s.failures p ≤ 1
  armed : ∀ {i p}, (s.mem.sessions i).failureCallback = some p → s.failures p = 0
  seen : ∀ {p}, s.failures p ≠ 0 → ∃ g st, .status p g st ∈ s.mem.log

theorem FailOnce.step [DecidableEq G] {s s' : State G W} {a : Action G W}
    (h : navStep s a = some s') (hs : NavInv s) (hf : FailOnce s) : FailOnce s' := by
  have hm := navStep_moves h
  have hlog := hm.suffix hs
  have hnav := hs.step h
  have old {p} (hp : s.failures p ≠ 0) : ∃ g st, .status p g st ∈ s'.mem.log :=
    let ⟨g, st, hst⟩ := hf.seen hp
    ⟨g, st, hlog.subset hst⟩
  -- a session that was armed before the step, or is being armed for the first time
  have zero {i} (hi : (s'.mem.sessions i).failureCallback ≠ none) : s.failures i = 0 := by
    rcases hm.arms hi with hi | ⟨-, f, he, rfl⟩
    · obtain ⟨q, hq⟩ := Option.ne_none_iff_exists'.mp hi
      obtain rfl := (hs.nav.mem.sessions i).failure q hq
      exact hf.armed hq
    · have hsetup := hs.nav.exec
      rw [he] at hsetup
      by_contra hne
      obtain ⟨g, st, hst⟩ := hf.seen hne
      exact (Setup.unstarted hsetup).unseen g st hst
  rcases hm.failures hs with he | ⟨k, x, q, rfl, hx, hc, he⟩
  · refine ⟨fun p => he p ▸ hf.le p, fun {i p} hp => ?_, fun {p} hp => old (he p ▸ hp)⟩
    obtain rfl := (hnav.nav.mem.sessions i).failure p hp
    exact (he p).trans (zero (by rw [hp]; exact Option.some_ne_none p))
  · obtain ⟨hfail, hq⟩ := failure_of_closureFor hc
    obtain rfl := (hs.nav.mem.sessions _).failure q hq
    obtain ⟨hst, -⟩ := hm.finds hx
    refine ⟨fun p => ?_, fun {i p} hp => ?_, fun {p} hp => ?_⟩
    · rw [he]
      by_cases e : x.session = p
      · rw [← e, hf.armed hq, beq_self_eq_true]; exact le_rfl
      · rw [beq_eq_false_iff_ne.mpr e]; exact hf.le p
    · obtain rfl := (hnav.nav.mem.sessions i).failure p hp
      by_cases e : x.session = p
      · subst e
        have hu := (hnav.nav.mem.ended hst).2 (terminal_of_failed hfail)
        rw [hu.failure] at hp
        cases hp
      · rw [he, beq_eq_false_iff_ne.mpr e]
        exact zero (by rw [hp]; exact Option.some_ne_none p)
    · by_cases e : x.session = p
      · exact ⟨_, _, e ▸ hst⟩
      · rw [he, beq_eq_false_iff_ne.mpr e] at hp
        exact old hp

/-! ### Who set the flag -/

/-- The path whose failure an update has taken, and not yet requested a replan for. -/
def consumedPath : List (Event G W) → Option SessionId
  | [] => none
  | .consumed :: h => pendingPath h
  | .replan :: _ => none
  | _ :: h => consumedPath h

/-- The replans requested for failures of path `p`. -/
def replansFor (p : SessionId) : List (Event G W) → Nat
  | [] => 0
  | .replan :: h => replansFor p h + (consumedPath h == some p).toNat
  | _ :: h => replansFor p h

/-- A failure that was flagged is pending, taken or replanned for once at most. -/
theorem replansFor_le (p : SessionId) (h : List (Event G W)) :
    replansFor p h + (consumedPath h == some p).toNat + (pendingPath h == some p).toNat ≤
      h.countP (·.flags p) := by
  induction h with
  | nil => exact le_rfl
  | cons e h ih =>
      cases e with
      | flagged q =>
          rw [Log.countP_cons]
          change replansFor p h + (consumedPath h == some p).toNat + (q == p).toNat ≤
            h.countP (·.flags p) + (q == p).toNat
          omega
      | unflagged =>
          rw [countP_flags_record rfl]
          change replansFor p h + (consumedPath h == some p).toNat + 0 ≤ _
          omega
      | consumed =>
          rw [countP_flags_record rfl]
          change replansFor p h + (pendingPath h == some p).toNat + 0 ≤ _
          omega
      | replan =>
          rw [countP_flags_record rfl]
          change replansFor p h + (consumedPath h == some p).toNat + 0 +
            (pendingPath h == some p).toNat ≤ _
          omega
      | _ => rw [countP_flags_record rfl]; exact ih

/-- The executor has yet to clear the flag for the path it follows. -/
def Exec.clearing : Exec G W → Bool
  | .invalidateOld _ _ | .armSession _ => true
  | _ => false

theorem ExecStep.pending {alive : SessionId → Bool} {e e' : Exec G W} {m m' : Mem G W}
    (h : ExecStep alive e m m' e') (he : ExecOk m e) :
    pendingPath m'.log = none ∨
      pendingPath m'.log = pendingPath m.log ∧ currentPath m'.log = currentPath m.log ∧
        (e.clearing = true → e'.clearing = true) := by
  have hc := h.current
  have hf := h.flag he
  cases h with
  | armSession | stopClear => exact .inl rfl
  | invalidateOld => exact .inr ⟨rfl, rfl, fun _ => rfl⟩
  | _ =>
      refine hf.symm.imp (congrArg Prod.snd) fun hf => ⟨congrArg Prod.snd hf, ?_, nofun⟩
      exact hc.resolve_right (by rintro ⟨_, ⟨⟩⟩)

theorem CallStep.clearing {alive : SessionId → Bool} {c : Call G W} {e' : Exec G W}
    {m m' : Mem G W} (h : CallStep alive c m m' e') (hc : c.follows = true) :
    e'.clearing = true := by
  cases h with
  | follow | followOver => rfl
  | _ => cases hc

/-! ### The condition -/

/-- The path whose failure closure sets `pending_failure_` in the next step of callback `k`. -/
def State.flags? (s : State G W) (k : Nat) : Option SessionId :=
  match s.status[k]? with
  | some (.fire _ (.report (.failed p))) => some p
  | _ => none

/-- The goal in the session is its path's own, not a manoeuvre's. -/
def NavigationSession.onPath (σ : NavigationSession G) : Bool :=
  σ.completionCallback.any fun k => (Closure.completion k).path?.isSome

/-- The flag is set only by the closure of the current path, or before the clear that is due; an
empty path does not leave it set; a failure closure is taken only for its path's own goal; and an
update does not take the flag before a clear that is due, and requests its replan before another
path is followed and before a `stop` ends. -/
def Timely [DecidableEq G] (s : State G W) : Action G W → Prop
  | .call c => c.isFollow = true →
      s.update ≠ .replan ∧ (c.follows = false → s.mem.pendingFailure = false)
  | .exec => s.exec.clears = true → s.update ≠ .replan
  | .update => s.update = .takeFailure → s.mem.pendingFailure = true → s.exec.clearing = false
  | .status k =>
      (∀ p ∈ s.flags? k, currentPath s.mem.log = some p ∨ s.exec.clearing = true) ∧
        ∀ x ∈ s.finds k, ∀ c ∈ s.taken x, x.status.failed = true →
          (s.mem.sessions x.session).onPath = true
  | _ => True

instance [DecidableEq G] (s : State G W) : ∀ a, Decidable (Timely s a)
  | .call c => inferInstanceAs (Decidable
      (c.isFollow = true → s.update ≠ .replan ∧ (c.follows = false → s.mem.pendingFailure = false)))
  | .exec => inferInstanceAs (Decidable (s.exec.clears = true → s.update ≠ .replan))
  | .update => inferInstanceAs (Decidable
      (s.update = .takeFailure → s.mem.pendingFailure = true → s.exec.clearing = false))
  | .status k => inferInstanceAs (Decidable
      ((∀ p ∈ s.flags? k, currentPath s.mem.log = some p ∨ s.exec.clearing = true) ∧
        ∀ x ∈ s.finds k, ∀ c ∈ s.taken x, x.status.failed = true →
          (s.mem.sessions x.session).onPath = true))
  | .recvStatus _ | .recvFeedback _ | .feedback => inferInstanceAs (Decidable True)

/-! ### Every run -/

/-- Path `p`'s own goal was found failed. -/
def Failed (h : List (Event G W)) (p : SessionId) : Prop :=
  ∃ g st, PathGoal h p g ∧ .status p g st ∈ h ∧ st.failed = true

theorem Failed.mono {h h' : List (Event G W)} (hs : h <:+ h') {p : SessionId} (hp : Failed h p) :
    Failed h' p :=
  let ⟨g, st, hg, hst, hf⟩ := hp
  ⟨g, st, hg.mono hs, hs.subset hst, hf⟩

/-- A replan is for the failure of the current path's own goal, and the first for it. -/
def ReplanOk : Event G W → List (Event G W) → Prop
  | .replan, h => ∃ p, currentPath h = some p ∧ consumedPath h = some p ∧ Failed h p ∧
      replansFor p h = 0
  | _, _ => True

theorem replanOk_of_bland (e : Event G W) (h : List (Event G W)) (he : e.bland = true) :
    ReplanOk e h := by
  cases e with
  | replan => cases he
  | _ => trivial

/-- Two replans for one path would need its failure flagged twice. -/
theorem FailOnce.replansFor {s : State G W} (hf : FailOnce s) {p : SessionId}
    (hp : consumedPath s.mem.log = some p) : replansFor p s.mem.log = 0 := by
  have hle := replansFor_le p s.mem.log
  have hone := hf.le p
  unfold State.failures at hone
  rw [hp, beq_self_eq_true, Bool.toNat_true] at hle
  omega

/-- An update is about to request a replan for the current path, whose own goal has failed. -/
def Consumed (h : List (Event G W)) : Prop :=
  ∃ p, consumedPath h = some p ∧ currentPath h = some p ∧ Failed h p

/-- The flag, its path and what has become of its path's goal. -/
structure ReplanInv (s : State G W) : Prop where
  ends : EndsInv s
  once : FailOnce s
  current : ∀ {p}, pendingPath s.mem.log = some p →
    currentPath s.mem.log = some p ∨ s.exec.clearing = true
  pending : ∀ {p}, pendingPath s.mem.log = some p → Failed s.mem.log p
  consumed : s.update = .replan → Consumed s.mem.log
  failing : ∀ t ∈ s.status, t.Fires fun _ f =>
    ∀ p, f.tail? = some (.failed p) → Failed s.mem.log p
  log : Log.Justified ReplanOk s.mem.log

theorem State.flags?_eq_some {s : State G W} {k : Nat} {i p : SessionId}
    (h : s.status[k]? = some (.fire i (.report (.failed p)))) : s.flags? k = some p := by
  rw [State.flags?, h]

/-- Who has set the flag that is pending after a step. -/
theorem Moves.pending [DecidableEq G] {s s' : State G W} {a : Action G W} (h : Moves s a s')
    (hs : NavInv s) {p : SessionId} (hp : pendingPath s'.mem.log = some p) :
    (pendingPath s.mem.log = some p ∧
      ((currentPath s'.mem.log = currentPath s.mem.log ∧
        (s.exec.clearing = true → s'.exec.clearing = true)) ∨
      ∃ c, a = .call c ∧ c.isFollow = true ∧ (c.follows = true → s'.exec.clearing = true))) ∨
    ∃ k i, a = .status k ∧ s.status[k]? = some (.fire i (.report (.failed p))) ∧
      currentPath s'.mem.log = currentPath s.mem.log ∧ s'.exec = s.exec := by
  cases h with
  | call c idle fresh =>
      have hc := callStep s.alive c s.mem
      refine .inl ⟨(congrArg Prod.snd hc.flag).symm.trans hp, ?_⟩
      cases hf : c.isFollow with
      | true => exact .inr ⟨c, rfl, hf, hc.clearing⟩
      | false =>
          refine .inl ⟨hc.current.trans (by rw [hf]; rfl), fun hcl => ?_⟩
          rw [idle] at hcl
          cases hcl
  | exec busy =>
      rcases (execStep s.alive busy s.mem).pending hs.nav.exec with e | ⟨e, hcur, hcl⟩
      · cases e.symm.trans hp
      · exact .inl ⟨e.symm.trans hp, .inl ⟨hcur, hcl⟩⟩
  | update =>
      have hu := updateStep s.update s.mem
      rcases hu.flag with e | e
      · exact .inl ⟨(congrArg Prod.snd e).symm.trans hp, .inl ⟨hu.current, id⟩⟩
      · cases (congrArg Prod.snd e).symm.trans hp
  | recvStatus | recvFeedback => exact .inl ⟨hp, .inl ⟨rfl, id⟩⟩
  | status k t at_k =>
      have hk := statusStep s.alive t s.mem
      rcases hk.flag with e | ⟨i, q, rfl, e⟩
      · exact .inl ⟨(congrArg Prod.snd e).symm.trans hp, .inl ⟨hk.current, id⟩⟩
      · cases (congrArg Prod.snd e).symm.trans hp
        exact .inr ⟨k, i, rfl, at_k, hk.current, rfl⟩
  | feedback =>
      dsimp only at hp ⊢
      rw [FeedbackThread.log] at hp ⊢
      exact .inl ⟨hp, .inl ⟨rfl, id⟩⟩

/-- What an update has taken stays taken, and its path the current one, until it requests the
replan. -/
theorem ReplanInv.consumed_step [DecidableEq G] {s s' : State G W} {a : Action G W}
    (hP : Timely s a) (h : Moves s a s') (hs : ReplanInv s) (hu' : s'.update = .replan) :
    Consumed s'.mem.log := by
  have hnav := hs.ends.nav
  have hlog := h.suffix hnav
  by_cases ha : a = .update
  · subst ha
    cases h with
    | update =>
        have hu := updateStep s.update s.mem
        have hflag := hs.ends.flag
        dsimp only at hu' ⊢
        generalize (s.update.step s.mem).1 = m', (s.update.step s.mem).2 = u' at hu hu' hlog ⊢
        obtain ⟨m, e, u, st, fb⟩ := s
        cases hu with
        | read _ hr => exact absurd hu' hr.2
        | drainTake | drainForward | replan => cases hu'
        | takeFailure hset =>
            obtain ⟨p, hp⟩ := Option.isSome_iff_exists.mp (hflag.symm.trans hset)
            have hcl : e.clearing = false := hP rfl hset
            have hcur := (hs.current hp).resolve_right (by rw [hcl]; exact Bool.false_ne_true)
            exact ⟨p, hp, hcur, (hs.pending hp).mono hlog⟩
  · obtain ⟨hu, hcur⟩ : s.update = .replan ∧ currentPath s'.mem.log = currentPath s.mem.log := by
      have hu : s.update = .replan := by
        cases h with
        | update => exact absurd rfl ha
        | call | exec | recvStatus | status | recvFeedback | feedback => exact hu'
      refine ⟨hu, ?_⟩
      rcases h.current with e | ⟨c, rfl, hc⟩ | ⟨held, rfl, he⟩
      · exact e
      · exact absurd hu (hP hc).1
      · exact absurd hu (hP (by rw [he]; rfl))
    obtain ⟨p, hp, hcurrent, hfailed⟩ := hs.consumed hu
    have hconsumed : consumedPath s'.mem.log = consumedPath s.mem.log :=
      (h.grows hnav ha).eq fun e h he => by
        cases e with
        | arrival _ _ | consumed | replan => cases he
        | _ => rfl
    exact ⟨p, hconsumed.trans hp, hcur.trans hcurrent, hfailed.mono hlog⟩

theorem ReplanInv.step [DecidableEq G] {s s' : State G W} {a : Action G W} (hP : Timely s a)
    (h : navStep s a = some s') (hs : ReplanInv s) : ReplanInv s' := by
  have hm := navStep_moves h
  have hnav := hs.ends.nav
  have hlog := hm.suffix hnav
  refine ⟨hs.ends.step h, hs.once.step h hnav, fun {p} hp => ?_, fun {p} hp => ?_,
    hs.consumed_step hP hm, ?_, ?_⟩
  · rcases hm.pending hnav hp with
      ⟨hp, ⟨hcur, hcl⟩ | ⟨c, rfl, hc, hcl⟩⟩ | ⟨k, i, rfl, at_k, hcur, he⟩
    · exact (hs.current hp).imp hcur.trans hcl
    · cases hf : c.follows with
      | true => exact .inr (hcl hf)
      | false =>
          have hflag := hs.ends.flag
          rw [(hP hc).2 hf, hp] at hflag
          cases hflag
    · rw [hcur, he]
      exact hP.1 p (State.flags?_eq_some at_k)
  · rcases hm.pending hnav hp with ⟨hp, -⟩ | ⟨k, i, -, at_k, -⟩
    · exact (hs.pending hp).mono hlog
    · exact (hs.failing _ (List.mem_of_getElem? at_k) p rfl).mono hlog
  · refine hm.fires hs.failing (fun _ f hf p hp => (hf p hp).mono hlog) ?_ ?_
    · rintro k x c rfl hx hc hmem p hp
      obtain ⟨_, -, hg, -⟩ := State.finds_eq_some.mp hx
      obtain rfl : c = .failure p := by
        rcases c with ⟨_, _ | _ | _⟩ | q <;> cases hp
        rfl
      obtain ⟨hfail, hq⟩ := failure_of_closureFor hc
      obtain rfl := (hnav.nav.mem.sessions _).failure p hq
      -- the goal found was installed with its path's completion callback
      obtain ⟨κ, hκ, hpath⟩ := (Option.any_eq_true _ _).mp (hP.2 x hx _ hc hfail)
      obtain ⟨q, hq⟩ := Option.isSome_iff_exists.mp hpath
      obtain rfl := (hnav.nav.mem.sessions _).path κ hκ q hq
      have hgoal := hnav.nav.mem.goal_of_completion hg hκ
      rcases κ with ⟨n, _ | _ | _⟩ <;> cases hq
      exact ⟨x.goal, x.status, ⟨n, _, hlog.subset hgoal⟩, (hm.finds hx).1, hfail⟩
    · intro k _ f f' _ hf hok p hp
      exact (hok p (hf.tail?.symm.trans hp)).mono hlog
  · have hadds := hm.adds hnav
    generalize s'.mem.log = l at hadds
    cases hadds with
    | bland grows => exact grows.justified replanOk_of_bland hs.log
    | followed _ grows | refused _ grows =>
        exact grows.justified replanOk_of_bland ⟨trivial, hs.log⟩
    | followedEmpty _ grows =>
        exact grows.justified replanOk_of_bland ⟨trivial, trivial, hs.log⟩
    | replan hu =>
        obtain ⟨p, hp, hcur, hfailed⟩ := hs.consumed hu
        exact ⟨⟨p, hcur, hp, hfailed, hs.once.replansFor hp⟩, hs.log⟩
    | arrival | consumed | status | finished | flagged | feedback => exact ⟨trivial, hs.log⟩

theorem ReplanInv.start : ReplanInv (navStart : State G W) where
  ends := .start
  once := ⟨fun _ => Nat.zero_le _, nofun, fun h => absurd rfl h⟩
  current := nofun
  pending := nofun
  consumed := nofun
  failing := nofun
  log := trivial

/-- **A replan is for the current path.**  In timely runs each replan is for an `ABORTED` or
`CANCELED` status of the current path's own goal, and is the only one for it; and a failure of a
path surfaces: it stays pending until an update takes it and requests a replan, or a new path or a
`stop` clears it. -/
theorem replan_is_current_failure [DecidableEq G] {t : State G W}
    (h : (navigation G W).Reach Timely t) :
    Log.Justified ReplanOk t.mem.log ∧
      ∀ p g i st, PathGoal t.mem.log p g → .status i g st ∈ t.mem.log → st.failed = true →
        t.Surfaces (.status i g st) p := by
  have hinv : ReplanInv t := h.invariant .start fun _ _ _ hP hstep hs => hs.step hP hstep
  exact ⟨hinv.log, fun p g i st hp hst hfail => failure_surfaces h hst hp hfail⟩

/-- The robot aborts the goal of path 0, and its failure closure sets the flag. -/
def abortion : List (Action ℕ ℕ) :=
  following ++ [.recvStatus [(7, .aborted)], .status 0, .status 0, .status 0, .status 0,
    .status 0]

theorem replan_is_current_failure_abortion :
    ∃ t, (navigation ℕ ℕ).Run Timely navStart
        (abortion ++ [.update, .update, .update, .update]) t ∧
      t.mem.log.head? = some .replan ∧ Log.Justified ReplanOk t.mem.log := by
  obtain ⟨t, ht, hq⟩ := Lts.exists_run (navigation ℕ ℕ) Timely navStart
    (abortion ++ [.update, .update, .update, .update])
    (fun t => t.mem.log.head? == some .replan) (by decide)
  exact ⟨t, ht, beq_iff_eq.mp hq, (replan_is_current_failure ⟨_, ht⟩).1⟩

/-- The failure closure of path 0 is overtaken by `follow_new_path`, sets the flag after path 1
has cleared it, and the next update replans path 1. -/
theorem replan_stale :
    ¬ ∀ t : State ℕ ℕ, (navigation ℕ ℕ).Reach (fun _ _ => True) t →
      Log.Justified ReplanOk t.mem.log := by
  intro h
  obtain ⟨t, ht, hq⟩ := Lts.exists_run (navigation ℕ ℕ) (fun _ _ => True) navStart
    (abortion.take 10 ++ [.call secondPath, .exec, .exec, .exec, .exec, .exec, .exec, .exec,
      .status 0, .status 0, .status 0, .update, .update, .update, .update])
    (fun t => t.mem.log.head? == some .replan && currentPath t.mem.log.tail == some 1 &&
      consumedPath t.mem.log.tail == some 0) (by decide)
  simp only [Bool.and_eq_true, beq_iff_eq] at hq
  obtain ⟨⟨hhead, hcur⟩, hpend⟩ := hq
  obtain ⟨l, hl⟩ := List.head?_eq_some_iff.mp hhead
  have hr := h t ⟨_, ht⟩
  rw [hl] at hr hcur hpend
  obtain ⟨⟨p, hp, hp', -⟩, -⟩ := hr
  cases hcur.symm.trans hp
  cases hpend.symm.trans hp'

end EgbFleet
