import EgbFleet.Spawner.Machine
import EgbFleet.Support.Simulation

/-!
# Spawner — `launch_all`

`launch_all.py` brings up the spawner and two bridges, and goes down when one of them exits, or
with a signal: `cleanup` sends `SIGTERM` to those that are alive, and deletes the configuration
file made for the bridge of the clock.  A handler runs between any two steps of `main` and ends by
raising `SystemExit`, so that what it interrupts never resumes; the `finally` clause then runs
`cleanup` once more, if the `try` block has been entered and the clause has not.

`Ok.reach`: in a run in which nothing is raised and no signal arrives at the wrong time (`Orderly`),
`main` exits with its file gone, and leaves no child alive that has not been sent `SIGTERM`.
`signalled_stops`: a signal ends `main` within two sweeps over its children, with the signal's
status.
-/

namespace EgbFleet.Spawner

/-! ### The processes -/

/-- The signals that are handled. -/
inductive Signal where
  | int
  | term
  deriving DecidableEq

/-- What the handler passes `sys.exit`. -/
def Signal.exitCode : Signal → ℕ
  | .int => 130
  | .term => 143

/-- How a process has ended: with a status, or by a signal. -/
inductive Exit where
  | code (status : ℕ)
  | killed
  deriving DecidableEq

/-- What `main` makes of the status `os.wait` returns. -/
def Exit.status : Exit → ℕ
  | .code status => status
  | .killed => 1

/-- What `launch_all` starts. -/
inductive Command where
  | spawner
  | serviceBridge
  | domainBridgeNode
  deriving DecidableEq

/-- The commands, in the order they are started in. -/
def commands : List Command := [.spawner, .serviceBridge, .domainBridgeNode]

/-- A process `subprocess.Popen` has made. -/
structure Child where
  exit : Option Exit := none
  /-- Whether its group has been sent `SIGTERM`. -/
  signalled : Bool := false
  deriving DecidableEq

namespace Child

def alive (p : Child) : Bool := p.exit.isNone

/-- It is alive, and has not been sent `SIGTERM`. -/
def loose (p : Child) : Bool := p.alive && !p.signalled

/-- What `cleanup` does with it. -/
def terminate (p : Child) : Child := if p.alive then { p with signalled := true } else p

def die (e : Exit) (p : Child) : Child := if p.alive then { p with exit := some e } else p

@[simp] theorem loose_terminate (p : Child) : p.terminate.loose = false := by
  unfold terminate
  split
  · simp [loose]
  · simp_all [loose]

@[simp] theorem loose_die (e : Exit) (p : Child) : (p.die e).loose = false := by
  unfold die
  split
  · simp [loose, alive]
  · simp_all [loose]

@[simp] theorem alive_terminate (p : Child) : p.terminate.alive = p.alive := by
  unfold terminate
  split <;> rfl

end Child

/-! ### `main` -/

/-- Where `main` is. -/
inductive LaunchStage where
  /-- Before it has made the file. -/
  | preparing
  /-- It writes the file; these signals have no handler yet. -/
  | installing (left : List Signal)
  /-- In the `try` block, with these commands left. -/
  | spawning (left : List Command)
  /-- A process has been made, and is not in `children` yet. -/
  | spawned (child : Command) (left : List Command)
  | waiting
  /-- In `cleanup`, with these children left: `finallyLeft` is whether the `finally` clause is still
  to come, and `exit` what `main` ends with otherwise. -/
  | cleaning (finallyLeft : Bool) (exit : Exit) (left : List Command)
  | exited (exit : Exit)
  deriving DecidableEq

namespace LaunchStage

/-- Whether an exception is caught by the `finally` clause. -/
def finallyLeft : LaunchStage → Bool
  | .spawning _ | .spawned _ _ | .waiting => true
  | .cleaning finallyLeft _ _ => finallyLeft
  | .preparing | .installing _ | .exited _ => false

/-- Whether the signal has its handler. -/
def handles (signal : Signal) : LaunchStage → Bool
  | .preparing | .exited _ => false
  | .installing left => !left.contains signal
  | .spawning _ | .spawned _ _ | .waiting | .cleaning _ _ _ => true

/-- The process that is not in `children` yet. -/
def pending? : LaunchStage → Option Command
  | .spawned child _ => some child
  | _ => none

end LaunchStage

structure LaunchAll where
  stage : LaunchStage
  /-- Whether the file exists. -/
  clockCfg : Bool
  processes : Command → Option Child
  /-- `children`. -/
  children : List Command

namespace LaunchAll

variable (s : LaunchAll)

def modify (child : Command) (f : Child → Child) : LaunchAll :=
  { s with processes := Function.update s.processes child ((s.processes child).map f) }

def spawn (child : Command) : LaunchAll :=
  { s with processes := Function.update s.processes child (some {}) }

variable {s} in
theorem processes_modify_self {child : Command} {f : Child → Child} :
    (s.modify child f).processes child = (s.processes child).map f :=
  Function.update_self _ _ _

variable {s} in
theorem processes_modify_of_ne {child other : Command} {f : Child → Child} (h : other ≠ child) :
    (s.modify child f).processes other = s.processes other :=
  Function.update_of_ne h _ _

variable {s} in
theorem processes_spawn_self {child : Command} : (s.spawn child).processes child = some {} :=
  Function.update_self _ _ _

variable {s} in
theorem processes_spawn_of_ne {child other : Command} (h : other ≠ child) :
    (s.spawn child).processes other = s.processes other :=
  Function.update_of_ne h _ _

/-- `cleanup` begins. -/
def clean (finallyLeft : Bool) (exit : Exit) : LaunchAll :=
  { s with stage := .cleaning finallyLeft exit s.children }

/-- An exception leaves the block `main` is in. -/
def leave (exit : Exit) : LaunchAll :=
  if s.stage.finallyLeft then s.clean false exit else { s with stage := .exited exit }

/-- The handler runs, or the signal has its default effect. -/
def signal (signal : Signal) : LaunchAll :=
  if s.stage.handles signal then s.clean s.stage.finallyLeft (.code signal.exitCode)
  else { s with stage := .exited .killed }

/-- The next step of `main`, where nothing is raised. -/
def proceed : Option LaunchAll :=
  match s.stage with
  | .preparing => some { s with clockCfg := true, stage := .installing [.int, .term] }
  | .installing (_ :: left) => some { s with stage := .installing left }
  | .installing [] => some { s with stage := .spawning commands }
  | .spawning (child :: left) => some { s.spawn child with stage := .spawned child left }
  | .spawned child left =>
      some { s with children := s.children ++ [child], stage := .spawning left }
  | .spawning [] => some { s with stage := .waiting }
  | .cleaning finallyLeft exit (child :: left) =>
      some { s.modify child Child.terminate with stage := .cleaning finallyLeft exit left }
  | .cleaning _ exit [] => some ({ s with clockCfg := false }.leave exit)
  | .waiting | .exited _ => none

/-- What a step has done that raises late: `mkstemp` has made the file, `Popen` the process. -/
def late : LaunchAll :=
  match s.stage with
  | .preparing => { s with clockCfg := true }
  | .spawning (child :: _) => s.spawn child
  | _ => s

/-- The next step of `main`.  That a process or the file is gone is no exception to `cleanup`. -/
def advance : Outcome → Option LaunchAll
  | .ok => s.proceed
  | .raises _ => if s.stage matches .exited _ then none else some (s.leave (.code 1))
  | .raisesLate _ => if s.stage matches .exited _ then none else some (s.late.leave (.code 1))

end LaunchAll

inductive LaunchAction where
  | advance (o : Outcome)
  /-- `os.wait` returns the process of a child. -/
  | reap (child : Command)
  | die (child : Command) (exit : Exit)
  | signal (signal : Signal)

/-- A step of `main`. -/
def LaunchAction.own : LaunchAction → Bool
  | .advance _ => true
  | .reap _ | .die _ _ | .signal _ => false

/-- A step in which something is raised. -/
def LaunchAction.Raises (a : LaunchAction) : Prop := ∃ o, a = .advance o ∧ o ≠ .ok

def LaunchAll.step (s : LaunchAll) : LaunchAction → Option LaunchAll
  | .advance o => s.advance o
  | .reap child =>
      if s.stage = .waiting then
        ((s.processes child).bind Child.exit).map fun e => s.leave (.code e.status)
      else none
  | .die child e => some (s.modify child (Child.die e))
  | .signal signal => if s.stage matches .exited _ then none else some (s.signal signal)

def launchAll : Lts LaunchAll LaunchAction where
  init := ⟨.preparing, false, fun _ => none, []⟩
  step := LaunchAll.step

/-- The steps. -/
inductive LaunchAll.Moves (s : LaunchAll) : LaunchAction → LaunchAll → Prop where
  | makes (at_preparing : s.stage = .preparing) :
      Moves s (.advance .ok) { s with clockCfg := true, stage := .installing [.int, .term] }
  | installs {signal : Signal} {left : List Signal}
      (at_installing : s.stage = .installing (signal :: left)) :
      Moves s (.advance .ok) { s with stage := .installing left }
  | enters (at_installing : s.stage = .installing []) :
      Moves s (.advance .ok) { s with stage := .spawning commands }
  | spawns {child : Command} {left : List Command}
      (at_spawning : s.stage = .spawning (child :: left)) :
      Moves s (.advance .ok) { s.spawn child with stage := .spawned child left }
  | appends {child : Command} {left : List Command} (at_spawned : s.stage = .spawned child left) :
      Moves s (.advance .ok) { s with children := s.children ++ [child], stage := .spawning left }
  | waits (at_spawning : s.stage = .spawning []) :
      Moves s (.advance .ok) { s with stage := .waiting }
  | terminates {finallyLeft : Bool} {exit : Exit} {child : Command} {left : List Command}
      (at_cleaning : s.stage = .cleaning finallyLeft exit (child :: left)) :
      Moves s (.advance .ok)
        { s.modify child Child.terminate with stage := .cleaning finallyLeft exit left }
  | unlinks {finallyLeft : Bool} {exit : Exit}
      (at_cleaning : s.stage = .cleaning finallyLeft exit []) :
      Moves s (.advance .ok) ({ s with clockCfg := false }.leave exit)
  | raises (message : String) (running : ∀ e, s.stage ≠ .exited e) :
      Moves s (.advance (.raises message)) (s.leave (.code 1))
  | raisesLate (message : String) (running : ∀ e, s.stage ≠ .exited e) :
      Moves s (.advance (.raisesLate message)) (s.late.leave (.code 1))
  | reaps {child : Command} {p : Child} {e : Exit} (waiting : s.stage = .waiting)
      (made : s.processes child = some p) (ended : p.exit = some e) :
      Moves s (.reap child) (s.leave (.code e.status))
  | dies (child : Command) (e : Exit) : Moves s (.die child e) (s.modify child (Child.die e))
  | signals (signal : Signal) (running : ∀ e, s.stage ≠ .exited e) :
      Moves s (.signal signal) (s.signal signal)

theorem LaunchAll.proceed_moves {s s' : LaunchAll} (h : s.proceed = some s') :
    s.Moves (.advance .ok) s' := by
  unfold proceed at h
  split at h
  case h_1 at_preparing => cases h; exact .makes at_preparing
  case h_2 at_installing => cases h; exact .installs at_installing
  case h_3 at_installing => cases h; exact .enters at_installing
  case h_4 at_spawning => cases h; exact .spawns at_spawning
  case h_5 at_spawned => cases h; exact .appends at_spawned
  case h_6 at_spawning => cases h; exact .waits at_spawning
  case h_7 at_cleaning => cases h; exact .terminates at_cleaning
  case h_8 at_cleaning => cases h; exact .unlinks at_cleaning
  case h_9 | h_10 => cases h

theorem LaunchAll.step_moves {s s' : LaunchAll} {a : LaunchAction} (h : s.step a = some s') :
    s.Moves a s' := by
  have running {r : LaunchAll}
      (h : (if s.stage matches .exited _ then none else some r) = some s') :
      (∀ e, s.stage ≠ .exited e) ∧ r = s' := by
    split at h
    · cases h
    · rename_i hexited
      exact ⟨fun e he => hexited e he, Option.some.inj h⟩
  cases a with
  | advance o =>
      cases o with
      | ok => exact proceed_moves h
      | raises message =>
          obtain ⟨hrunning, rfl⟩ := running h
          exact .raises message hrunning
      | raisesLate message =>
          obtain ⟨hrunning, rfl⟩ := running h
          exact .raisesLate message hrunning
  | reap child =>
      simp only [step] at h
      split at h
      · rename_i waiting
        obtain ⟨e, he, rfl⟩ := Option.map_eq_some_iff.mp h
        obtain ⟨p, made, ended⟩ := Option.bind_eq_some_iff.mp he
        exact .reaps waiting made ended
      · cases h
  | die child e =>
      cases h
      exact .dies child e
  | signal signal =>
      obtain ⟨hrunning, rfl⟩ := running h
      exact .signals signal hrunning

/-! ### `launch_all` alone -/

namespace LaunchAll

section

variable (s : LaunchAll)

/-- No process of this child is alive that has not been sent `SIGTERM`. -/
def Quiet (child : Command) : Prop := ∀ p, s.processes child = some p → p.loose = false

/-- Every other child is in `children`. -/
def Kept : Prop := ∀ child, ¬ s.Quiet child → child ∈ s.children

/-- No process is alive and not in `children` yet. -/
def Settled : Prop := ∀ child, s.stage.pending? = some child → s.Quiet child

/-- No exception is raised while the file is written, or once the `finally` clause has begun; none
is raised, and no signal arrives, between making a process that lives on and its being in
`children`; and no signal arrives while the file is there and the signal has no handler. -/
def Orderly : LaunchAction → Prop
  | .advance .ok => True
  | .advance (.raises _) => s.Settled ∧ (s.stage = .preparing ∨ s.stage.finallyLeft = true)
  | .advance (.raisesLate _) =>
      s.Settled ∧ s.stage.finallyLeft = true ∧ ∀ left, s.stage ≠ .spawning left
  | .signal signal => s.Settled ∧ (s.stage = .preparing ∨ s.stage.handles signal = true)
  | .reap _ | .die _ _ => True

def StageOk : LaunchStage → Prop
  | .preparing => s.clockCfg = false ∧ s.children = []
  | .installing _ => s.children = []
  | .spawning _ | .spawned _ _ | .waiting => True
  | .cleaning _ _ left => ∀ child ∈ s.children, child ∉ left → s.Quiet child
  | .exited _ => s.clockCfg = false ∧ ∀ child, s.Quiet child

/-- What holds between the steps. -/
structure Ok : Prop where
  recorded : ∀ child, ¬ s.Quiet child → child ∈ s.children ∨ s.stage.pending? = some child
  stage : s.StageOk s.stage

end

variable {s : LaunchAll}

theorem Ok.kept (hs : s.Ok) (h : s.Settled) : s.Kept := fun child hchild =>
  (hs.recorded child hchild).resolve_right fun hp => hchild (h child hp)

theorem Kept.quiet (h : s.Kept) (hnone : ∀ child ∈ s.children, s.Quiet child) (child : Command) :
    s.Quiet child := by
  by_contra hchild
  exact hchild (hnone child (h child hchild))

theorem Kept.clean (h : s.Kept) (finallyLeft : Bool) (exit : Exit) :
    (s.clean finallyLeft exit).Ok where
  recorded child hchild := .inl (h child hchild)
  stage _ hmem hnot := absurd hmem hnot

/-- An exception is caught by the `finally` clause; or there is nothing to clean up. -/
theorem Kept.leave (h : s.Kept) (exit : Exit)
    (hdone : s.stage.finallyLeft = false → s.clockCfg = false ∧ ∀ child, s.Quiet child) :
    (s.leave exit).Ok := by
  unfold LaunchAll.leave
  split
  · exact h.clean false exit
  · rename_i hleft
    obtain ⟨hclock, hquiet⟩ := hdone (Bool.eq_false_iff.mpr hleft)
    exact ⟨fun child hchild => absurd (hquiet child) hchild, hclock, hquiet⟩

/-- Whatever happens to a child, if it makes it no louder. -/
theorem quiet_modify {f : Child → Child} (hf : ∀ p, p.loose = false → (f p).loose = false)
    {child other : Command} (h : s.Quiet other) : (s.modify child f).Quiet other := by
  intro p hp
  by_cases e : other = child
  · subst e
    rw [processes_modify_self] at hp
    obtain ⟨q, hq, rfl⟩ := Option.map_eq_some_iff.mp hp
    exact hf q (h q hq)
  · rw [processes_modify_of_ne e] at hp
    exact h p hp

theorem quiet_modify_self {f : Child → Child} (hf : ∀ p, (f p).loose = false) (child : Command) :
    (s.modify child f).Quiet child := by
  intro p hp
  rw [processes_modify_self] at hp
  obtain ⟨q, -, rfl⟩ := Option.map_eq_some_iff.mp hp
  exact hf q

theorem Ok.modify (hs : s.Ok) {f : Child → Child} (hf : ∀ p, (f p).loose = false)
    (child : Command) : (s.modify child f).Ok where
  recorded other hother :=
    hs.recorded other (mt (quiet_modify fun p _ => hf p) hother)
  stage := by
    have hstage := hs.stage
    have hquiet {other : Command} (h : s.Quiet other) : (s.modify child f).Quiet other :=
      quiet_modify (fun p _ => hf p) h
    change (s.modify child f).StageOk s.stage
    cases h : s.stage with
    | preparing | installing left => rwa [h] at hstage
    | spawning left | spawned child left | waiting => trivial
    | cleaning finallyLeft exit left =>
        rw [h] at hstage
        exact fun other hmem hnot => hquiet (hstage other hmem hnot)
    | exited exit =>
        rw [h] at hstage
        exact ⟨hstage.1, fun other => hquiet (hstage.2 other)⟩

theorem quiet_spawn {child other : Command} (hne : other ≠ child) (h : s.Quiet other) :
    (s.spawn child).Quiet other := by
  intro p hp
  rw [processes_spawn_of_ne hne] at hp
  exact h p hp

theorem Ok.step {s' : LaunchAll} {a : LaunchAction} (hs : s.Ok) (ha : s.Orderly a)
    (h : s.step a = some s') : s'.Ok := by
  -- no process is pending at these stages
  have settled (hnone : s.stage.pending? = none) : s.Settled := by
    intro child hchild
    rw [hnone] at hchild
    cases hchild
  have prepared (at_preparing : s.stage = .preparing) :
      s.clockCfg = false ∧ ∀ child, s.Quiet child := by
    have hstage := hs.stage
    rw [at_preparing] at hstage
    refine ⟨hstage.1, (hs.kept (settled (by rw [at_preparing]; rfl))).quiet ?_⟩
    rw [hstage.2]
    exact nofun
  cases step_moves h with
  | makes at_preparing =>
      have hstage := hs.stage
      rw [at_preparing] at hstage
      exact ⟨fun child hchild => absurd ((prepared at_preparing).2 child) hchild, hstage.2⟩
  | installs at_installing =>
      have hstage := hs.stage
      rw [at_installing] at hstage
      exact ⟨fun child hchild =>
        .inl (hs.kept (settled (by rw [at_installing]; rfl)) child hchild), hstage⟩
  | enters at_installing =>
      exact ⟨fun child hchild =>
        .inl (hs.kept (settled (by rw [at_installing]; rfl)) child hchild), trivial⟩
  | @spawns child left at_spawning =>
      refine ⟨fun other hother => ?_, trivial⟩
      by_cases e : other = child
      · exact .inr (by rw [e]; rfl)
      · exact .inl (hs.kept (settled (by rw [at_spawning]; rfl)) other (mt (quiet_spawn e) hother))
  | @appends child left at_spawned =>
      refine ⟨fun other hother => .inl ?_, trivial⟩
      rcases hs.recorded other hother with hmem | hpending
      · exact List.mem_append_left _ hmem
      · rw [at_spawned] at hpending
        cases hpending
        exact List.mem_append_right _ List.mem_cons_self
  | waits at_spawning =>
      exact ⟨fun child hchild =>
        .inl (hs.kept (settled (by rw [at_spawning]; rfl)) child hchild), trivial⟩
  | @terminates finallyLeft exit child left at_cleaning =>
      have hkept := hs.kept (settled (by rw [at_cleaning]; rfl))
      have hstage := hs.stage
      rw [at_cleaning] at hstage
      have hf (p : Child) : p.terminate.loose = false := Child.loose_terminate p
      refine ⟨fun other hother => .inl (hkept other (mt (quiet_modify fun p _ => hf p) hother)),
        fun other hmem hnot => ?_⟩
      by_cases e : other = child
      · rw [e]
        exact quiet_modify_self hf child
      · exact quiet_modify (fun p _ => hf p)
          (hstage other hmem (List.not_mem_cons_of_ne_of_not_mem e hnot))
  | @unlinks finallyLeft exit at_cleaning =>
      have hkept : Kept { s with clockCfg := false } :=
        hs.kept (settled (by rw [at_cleaning]; rfl))
      have hstage := hs.stage
      rw [at_cleaning] at hstage
      exact hkept.leave exit fun _ =>
        ⟨rfl, hkept.quiet fun child hmem => hstage child hmem List.not_mem_nil⟩
  | raises message running =>
      refine (hs.kept ha.1).leave _ fun hleft => ?_
      rcases ha.2 with at_preparing | hfinally
      · exact prepared at_preparing
      · rw [hleft] at hfinally
        cases hfinally
  | raisesLate message running =>
      obtain ⟨hsettled, hfinally, hspawning⟩ := ha
      have hlate : s.late = s := by
        unfold late
        split
        · rename_i at_preparing
          rw [at_preparing] at hfinally
          cases hfinally
        · rename_i at_spawning
          exact absurd at_spawning (hspawning _)
        · rfl
      rw [hlate]
      refine (hs.kept hsettled).leave _ fun hleft => ?_
      rw [hleft] at hfinally
      cases hfinally
  | reaps waiting =>
      refine (hs.kept (settled (by rw [waiting]; rfl))).leave _ fun hleft => ?_
      rw [waiting] at hleft
      cases hleft
  | dies child e => exact hs.modify (Child.loose_die e) child
  | signals signal running =>
      unfold LaunchAll.signal
      split
      · exact (hs.kept ha.1).clean _ _
      · rename_i hhandles
        obtain ⟨hclock, hquiet⟩ := prepared (ha.2.resolve_right hhandles)
        exact ⟨fun child hchild => absurd (hquiet child) hchild, hclock, hquiet⟩

theorem Ok.reach (h : launchAll.Reach Orderly s) : s.Ok := by
  refine h.invariant ⟨fun child hchild => absurd ?_ hchild, rfl, rfl⟩
    fun _ _ _ ha hstep hs => hs.step ha hstep
  exact nofun

/-! ### The end -/

/-- `main` is in `cleanup` or has exited, with this status; or with 1, if something was raised. -/
inductive Ends (exit : Exit) (raised : Prop) (s : LaunchAll) : Prop where
  | cleaning (finallyLeft : Bool) {e : Exit} (left : List Command)
      (status : e = exit ∨ raised ∧ e = .code 1)
      (at_cleaning : s.stage = .cleaning finallyLeft e left)
  | exited {e : Exit} (status : e = exit ∨ raised ∧ e = .code 1) (exited : s.stage = .exited e)

/-- How many steps `main` has left. -/
def remaining (s : LaunchAll) : ℕ :=
  match s.stage with
  | .cleaning finallyLeft _ left =>
      left.length + 1 + if finallyLeft then s.children.length + 1 else 0
  | _ => 0

variable {exit e : Exit} {raised raised' : Prop}

theorem Ends.imp (hs : s.Ends exit raised) (h : raised → raised') : s.Ends exit raised' := by
  cases hs with
  | cleaning finallyLeft left status at_cleaning =>
      exact .cleaning finallyLeft left (status.imp_right (And.imp_left h)) at_cleaning
  | exited status exited => exact .exited (status.imp_right (And.imp_left h)) exited

theorem Ends.leave (status : e = exit ∨ raised ∧ e = .code 1) {finallyLeft : Bool} {other : Exit}
    {left : List Command} (at_cleaning : s.stage = .cleaning finallyLeft other left) :
    (s.leave e).Ends exit raised ∧ (s.leave e).remaining + 1 ≤ s.remaining := by
  simp only [LaunchAll.leave, remaining, at_cleaning, LaunchStage.finallyLeft]
  cases finallyLeft with
  | false => exact ⟨.exited status rfl, by simp⟩
  | true =>
      refine ⟨.cleaning false s.children status rfl, ?_⟩
      simp only [clean, if_true, Bool.false_eq_true, if_false]
      omega

/-- A step of `main` is one less to take. -/
theorem Ends.step {s' : LaunchAll} {a : LaunchAction} (hs : s.Ends exit raised)
    (ha : ∀ signal, a ≠ .signal signal) (h : s.step a = some s') :
    s'.Ends exit (raised ∨ a.Raises) ∧ s'.remaining + (if a.own then 1 else 0) ≤ s.remaining := by
  have hmoves := step_moves h
  have hends : s.Ends exit (raised ∨ a.Raises) := hs.imp .inl
  cases hends with
  | exited status exited =>
      cases hmoves with
      | makes hstage | installs hstage | enters hstage | spawns hstage | appends hstage
        | waits hstage | terminates hstage | unlinks hstage | reaps hstage =>
          cases exited.symm.trans hstage
      | raises message running | raisesLate message running => exact absurd exited (running _)
      | signals signal => exact absurd rfl (ha signal)
      | dies child e => exact ⟨.exited status exited, Nat.le_refl _⟩
  | @cleaning finallyLeft e left status at_cleaning =>
      cases hmoves with
      | makes hstage | installs hstage | enters hstage | spawns hstage | appends hstage
        | waits hstage | reaps hstage => cases at_cleaning.symm.trans hstage
      | @terminates _ _ child left hstage =>
          cases at_cleaning.symm.trans hstage
          refine ⟨.cleaning finallyLeft left status rfl, ?_⟩
          simp only [remaining, at_cleaning, modify, LaunchAction.own, if_true, List.length_cons]
          omega
      | unlinks hstage =>
          cases at_cleaning.symm.trans hstage
          exact Ends.leave (s := { s with clockCfg := false }) status at_cleaning
      | raises message =>
          exact Ends.leave (.inr ⟨.inr ⟨_, rfl, nofun⟩, rfl⟩) at_cleaning
      | raisesLate message =>
          have hlate : s.late = s := by simp [late, at_cleaning]
          rw [hlate]
          exact Ends.leave (.inr ⟨.inr ⟨_, rfl, nofun⟩, rfl⟩) at_cleaning
      | signals signal => exact absurd rfl (ha signal)
      | dies child e => exact ⟨.cleaning finallyLeft left status at_cleaning, Nat.le_refl _⟩

theorem Ends.run {t : LaunchAll} {as : List LaunchAction}
    (h : launchAll.Run (fun _ a => ∀ signal, a ≠ .signal signal) s as t)
    (hs : s.Ends exit raised) :
    t.Ends exit (raised ∨ ∃ a ∈ as, a.Raises) ∧
      t.remaining + as.countP LaunchAction.own ≤ s.remaining := by
  induction h generalizing raised with
  | nil => exact ⟨hs.imp .inl, Nat.le_refl _⟩
  | cons ha hstep _ ih =>
      obtain ⟨hends, hremaining⟩ := hs.step ha hstep
      obtain ⟨hends, hrun⟩ := ih hends
      refine ⟨hends.imp ?_, ?_⟩
      · rintro ((h | h) | ⟨a, hmem, h⟩)
        · exact .inl h
        · exact .inr ⟨_, List.mem_cons_self, h⟩
        · exact .inr ⟨a, List.mem_cons_of_mem _ hmem, h⟩
      · rw [List.countP_cons]
        omega

/-- **A signal ends `launch_all`.**  As long as no further signal arrives, `main` takes no more
steps than two sweeps over its children have; and it has one to take, or has exited, with the
signal's status or, if something was raised, with 1. -/
theorem signalled_stops {signal : Signal} (hhandles : s.stage.handles signal = true)
    {t : LaunchAll} {as : List LaunchAction}
    (h : launchAll.Run (fun _ a => ∀ signal, a ≠ .signal signal) (s.signal signal) as t) :
    as.countP LaunchAction.own ≤ 2 * (s.children.length + 1) ∧
      ((∀ o, ∃ u, launchAll.step t (.advance o) = some u) ∨
        t.stage = .exited (.code signal.exitCode) ∨
        (∃ a ∈ as, a.Raises) ∧ t.stage = .exited (.code 1)) := by
  have hsignal : s.signal signal = s.clean s.stage.finallyLeft (.code signal.exitCode) :=
    if_pos hhandles
  have hstart : (s.signal signal).Ends (.code signal.exitCode) False := by
    rw [hsignal]
    exact .cleaning _ _ (.inl rfl) rfl
  obtain ⟨hends, hremaining⟩ := hstart.run h
  refine ⟨?_, ?_⟩
  · have hle : (s.signal signal).remaining ≤ 2 * (s.children.length + 1) := by
      rw [hsignal]
      simp only [remaining, clean]
      split <;> omega
    omega
  · cases hends with
    | exited status exited =>
        rcases status with rfl | ⟨hraised, rfl⟩
        · exact .inr (.inl exited)
        · exact .inr (.inr ⟨hraised.resolve_left id, exited⟩)
    | cleaning finallyLeft left status at_cleaning =>
        refine .inl fun o => ?_
        change ∃ u, t.advance o = some u
        cases o with
        | ok => cases left <;> simp [advance, proceed, at_cleaning]
        | raises | raisesLate => simp [advance, at_cleaning]

/-- `launch_all` is interrupted while it waits. -/
theorem signalled_stops_waiting :
    ∃ t : LaunchAll, t.stage = .exited (.code 130) ∧
      ((∀ o, ∃ u, launchAll.step t (.advance o) = some u) ∨
        t.stage = .exited (.code Signal.int.exitCode) ∨
        (∃ a ∈ List.replicate 8 (LaunchAction.advance .ok), a.Raises) ∧
          t.stage = .exited (.code 1)) := by
  have hruns : launchAll.runs (fun _ _ => True)
      (LaunchAll.signal ⟨.waiting, true, fun _ => some {}, commands⟩ .int)
      (List.replicate 8 (.advance .ok)) = some _ := rfl
  have hrun := Lts.run_of_runs hruns
  exact ⟨_, rfl, (signalled_stops (by decide) (hrun.of_mem (by simp))).2⟩

end LaunchAll

end EgbFleet.Spawner
