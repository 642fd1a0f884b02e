import EgbFleet.Recovery.Deadlock
import EgbFleet.Support.Logs

/-!
# Recovery — interruptions are spaced

`recovery_is_spaced`: after every call `holding_`, `hold_until_` and `deadlock_interruption_` say
the same; interruptions and resumes alternate, a resume 10 s after its interruption at the least;
an interruption follows 8 s of calls that all saw the session blocked; and two interruptions are
33 s apart: 10 s of holding, 15 s of cooldown, 8 s of waiting.

The invariant (`Timed`) ties the three timers to the calls that set them: while the robot is held,
`hold_until_` to the last interruption; while it is not, `cooldown_until_` to the last resume and
`blocked_since_` to the first of a streak of calls that saw the session blocked.
-/

namespace EgbFleet.Recovery

variable {G Q : Type}

/-- The last call that interrupted or resumed. -/
def lastCommand (h : List (Call Q)) : Option (Call Q) := h.find? (·.command.isSome)

def lastInterrupt (h : List (Call Q)) : Option (Call Q) := h.find? Call.interrupts

/-- The last calls, back to one at `t`, all saw the session blocked. -/
def BlockedFrom (t : Int) (h : List (Call Q)) : Prop :=
  ∃ streak c older, h = streak ++ c :: older ∧ c.now = t ∧ ∀ x ∈ streak ++ [c], x.blocked = true

/-- `holding_`, `hold_until_` and `deadlock_interruption_` say the same. -/
structure RobotState.Consistent (r : RobotState Q) : Prop where
  holdUntil : r.holding = true ↔ r.holdUntil.isSome = true
  deadlockInterruption : r.holding = true ↔ r.deadlockInterruption.isSome = true

/-- What a call that interrupts or resumes follows. -/
structure Spaced (c : Call Q) (h : List (Call Q)) : Prop where
  /-- Before a resume, the interruption it resumes, 10 s earlier. -/
  resume : ∀ i labels, c.command = some (.resume i labels) →
    ∃ p, lastCommand h = some p ∧ p.command = some (.interrupt i) ∧ p.now + seconds 10 ≤ c.now
  /-- Before an interruption, no command or a resume. -/
  interrupt : c.interrupts = true → ∀ p, lastCommand h = some p → p.resumes = true
  /-- Before an interruption, 8 s of calls that saw the session blocked; it did too. -/
  blocked : c.interrupts = true → c.blocked = true ∧ ∃ t, t + seconds 8 ≤ c.now ∧ BlockedFrom t h
  /-- Between two interruptions, 33 s. -/
  apart : c.interrupts = true → ∀ p, lastInterrupt h = some p → p.now + seconds 33 ≤ c.now

/-! ### The invariant -/

/-- The fields of the robot and the calls that set them. -/
structure Timed (r : RobotState Q) (h : List (Call Q)) : Prop where
  held : r.holding = true → ∃ p i, lastCommand h = some p ∧ p.command = some (.interrupt i) ∧
    r.deadlockInterruption = some i ∧ r.holdUntil = some (p.now + seconds 10)
  freed : r.holding = false → r.deadlockInterruption = none ∧ r.holdUntil = none
  resumed : r.holding = false → ∀ p, lastCommand h = some p →
    p.resumes = true ∧ r.cooldownUntil = some (p.now + seconds 15) ∧
      ∀ q, lastInterrupt h = some q → q.now + seconds 10 ≤ p.now
  streak : r.holding = false → ∀ t, r.blockedSince = some t →
    BlockedFrom t h ∧ ∀ u, r.cooldownUntil = some u → u ≤ t
  spaced : Log.Justified Spaced h

theorem Timed.consistent {r : RobotState Q} {h : List (Call Q)} (hr : Timed r h) :
    r.Consistent := by
  cases e : r.holding with
  | true =>
      obtain ⟨p, i, -, -, hi, hu⟩ := hr.held e
      exact ⟨by simp [e, hu], by simp [e, hi]⟩
  | false =>
      obtain ⟨hi, hu⟩ := hr.freed e
      exact ⟨by simp [e, hu], by simp [e, hi]⟩

/-- The last interruption is one of the commands. -/
theorem lastCommand_ne_none {h : List (Call Q)} {q : Call Q} (hq : lastInterrupt h = some q) :
    lastCommand h ≠ none := by
  intro hnone
  have hmem := List.mem_of_find?_eq_some hq
  have hint : q.interrupts = true := by simpa using List.find?_some hq
  have := List.find?_eq_none.mp hnone q hmem
  simp only [Call.interrupts] at hint
  split at hint <;> simp_all

section Calls

variable {now : Int} {blocked : Bool} {h : List (Call Q)}

/-- A call that does nothing to RMF is not the last command. -/
@[simp] theorem lastCommand_quiet : lastCommand (⟨now, blocked, none⟩ :: h) = lastCommand h := by
  simp [lastCommand]

@[simp] theorem lastInterrupt_quiet :
    lastInterrupt (⟨now, blocked, none⟩ :: h) = lastInterrupt h := by
  simp [lastInterrupt, Call.interrupts]

@[simp] theorem lastCommand_command {k : Command Q} :
    lastCommand (⟨now, blocked, some k⟩ :: h) = some ⟨now, blocked, some k⟩ := by
  simp [lastCommand]

@[simp] theorem lastInterrupt_resume {i : Interruption Q} {labels : List String} :
    lastInterrupt (⟨now, blocked, some (.resume i labels)⟩ :: h) = lastInterrupt h := by
  simp [lastInterrupt, Call.interrupts]

theorem spaced_quiet : Spaced ⟨now, blocked, none⟩ h where
  resume := by simp
  interrupt := by simp [Call.interrupts]
  blocked := by simp [Call.interrupts]
  apart := by simp [Call.interrupts]

theorem BlockedFrom.cons {t : Int} (hb : BlockedFrom t h) (k : Option (Command Q)) :
    BlockedFrom t (⟨now, true, k⟩ :: h) := by
  obtain ⟨streak, c, older, rfl, ht, hs⟩ := hb
  exact ⟨_ :: streak, c, older, rfl, ht, by simpa using hs⟩

/-- A call that leaves the robot held, or free and out of a streak, keeps the invariant. -/
theorem Timed.quiet {r : RobotState Q} (hr : Timed r h)
    (hs : r.holding = false → ∀ t, r.blockedSince = some t → blocked = true) :
    Timed r (⟨now, blocked, none⟩ :: h) where
  held := by simpa using hr.held
  freed := hr.freed
  resumed := by simpa using hr.resumed
  streak := by
    intro free t ht
    obtain ⟨hb, hu⟩ := hr.streak free t ht
    rw [hs free t ht]
    exact ⟨hb.cons none, hu⟩
  spaced := ⟨spaced_quiet, hr.spaced⟩

end Calls

/-- A last command that interrupts is the last interruption. -/
theorem lastInterrupt_eq {h : List (Call Q)} {p : Call Q} (hp : lastCommand h = some p)
    (hint : p.interrupts = true) : lastInterrupt h = some p := by
  induction h with
  | nil => cases hp
  | cons c h ih =>
      obtain ⟨now, blocked, command⟩ := c
      cases command with
      | none =>
          rw [lastCommand_quiet] at hp
          rw [lastInterrupt_quiet]
          exact ih hp
      | some k =>
          rw [lastCommand_command] at hp
          cases hp
          simp [lastInterrupt, hint]

/-- **One call keeps the invariant.** -/
theorem Timed.tick {now : Int} {blocked : Bool} {i : Interruption Q} {r r' : RobotState Q}
    {command : Option (Command Q)} {h : List (Call Q)} (hr : Timed r h)
    (hc : Checks now blocked i r r' command) : Timed r' (⟨now, blocked, command⟩ :: h) := by
  cases hc with
  | hold holding => exact hr.quiet (by simp [holding])
  | cool _ blocks | wait _ blocks => exact hr.quiet fun _ _ _ => blocks
  | clear free _ =>
      exact Timed.quiet (r := { r with blockedSince := none })
        ⟨hr.held, hr.freed, hr.resumed, by simp, hr.spaced⟩ (by simp)
  | mark free blocks cooled _ =>
      subst blocks
      refine ⟨by simpa using hr.held, hr.freed, by simpa using hr.resumed, fun _ t ht => ?_,
        spaced_quiet, hr.spaced⟩
      cases ht
      exact ⟨⟨[], _, h, rfl, rfl, by simp⟩, cooled⟩
  | release holding ends due =>
      obtain ⟨p, j, hp, hj, hi, hu⟩ := hr.held holding
      have hdue : p.now + seconds 10 ≤ now := by
        rw [ends] at hu
        cases hu
        exact due
      rw [hi]
      refine ⟨by simp, by simp, fun _ q hq => ?_, by simp, ?_, hr.spaced⟩
      · rw [Option.map_some, lastCommand_command] at hq
        cases hq
        refine ⟨rfl, rfl, fun q hq => ?_⟩
        rw [Option.map_some, lastInterrupt_resume,
          lastInterrupt_eq hp (by simp [Call.interrupts, hj])] at hq
        cases hq
        exact hdue
      · refine ⟨fun k labels hk => ?_, by simp [Call.interrupts], by simp [Call.interrupts],
          by simp [Call.interrupts]⟩
        cases hk
        exact ⟨p, hp, hj, hdue⟩
  | interrupt free blocks marked late =>
      obtain ⟨hb, hcool⟩ := hr.streak free _ marked
      refine ⟨fun _ => ⟨_, _, lastCommand_command, rfl, rfl, rfl⟩, by simp, by simp, by simp, ?_,
        hr.spaced⟩
      refine ⟨by simp, fun _ p hp => (hr.resumed free p hp).1, fun _ => ⟨blocks, _, late, hb⟩,
        fun _ q hq => ?_⟩
      obtain ⟨p, hp⟩ := Option.ne_none_iff_exists'.mp (lastCommand_ne_none hq)
      obtain ⟨-, hu, hq'⟩ := hr.resumed free p hp
      have := hcool _ hu
      have := hq' q hq
      simp only [seconds] at *
      omega

/-- The invariant, in every state a sequence of calls reaches. -/
theorem timed {s : State Q} (hs : (recovery G Q).Reach (fun _ _ => True) s) :
    Timed s.robot s.log := by
  refine hs.invariant (I := fun s => Timed s.robot s.log) ?_ ?_
  · exact ⟨by simp [recovery], by simp [recovery], by simp [recovery, lastCommand],
      by simp [recovery], by simp [recovery]⟩
  · intro s t s' _ hstep hr
    cases hstep
    exact hr.tick (s.robot.checks t.now t.session t.mapName t.rmfPose)

/-- **Interruptions are spaced.**  After every call, whatever the clock and the session were at
each, the fields agree, and every command so far came when it may. -/
theorem recovery_is_spaced {s : State Q} (hs : (recovery G Q).Reach (fun _ _ => True) s) :
    s.robot.Consistent ∧ Log.Justified Spaced s.log :=
  ⟨(timed hs).consistent, (timed hs).spaced⟩

/-- A call at second `n` of a robot stuck on an obstacle throughout. -/
def stuckAt (n : Int) : Tick ℕ ℕ :=
  ⟨seconds n, some { goalId := some 7, failureReason := .goalOnObstacle }, "L1", 0⟩

/-- The bounds are met: held at 8 s, freed at 18 s, waiting again from 33 s, held again at 41 s. -/
theorem recovery_is_spaced_stuck :
    ∃ s, (recovery ℕ ℕ).Run (fun _ _ => True) (recovery ℕ ℕ).init
        ([0, 8, 18, 33, 41].map stuckAt) s ∧
      s.log.map (fun c => (c.now, c.interrupts, c.resumes)) =
        [(seconds 41, true, false), (seconds 33, false, false), (seconds 18, false, true),
          (seconds 8, true, false), (seconds 0, false, false)] ∧
      s.robot.Consistent ∧ Log.Justified Spaced s.log := by
  obtain ⟨s, hs, hq⟩ := Lts.exists_run (recovery ℕ ℕ) (fun _ _ => True) (recovery ℕ ℕ).init
    ([0, 8, 18, 33, 41].map stuckAt)
    (fun s => s.log.map (fun c => (c.now, c.interrupts, c.resumes)) ==
      [(seconds 41, true, false), (seconds 33, false, false), (seconds 18, false, true),
        (seconds 8, true, false), (seconds 0, false, false)]) (by decide)
  exact ⟨s, hs, beq_iff_eq.mp hq, recovery_is_spaced ⟨_, hs⟩⟩

end EgbFleet.Recovery
