import EgbFleet.Spawner.Machine

/-!
# Spawner — the status

Once a second `publish_status` finds out which adapters' processes are running, drops those that are
not, and publishes what it has found.  Nothing but a signal comes between.

`dead_reported_once`: after a tick that runs to its end, the adapters left are those it has reported
as running; each of the others is gone from `active_adapters`, so that its fleet can be started
again, and its manager is in no later status.
-/

namespace EgbFleet.Spawner

open FleetAdapterProcessManager

namespace FleetSpawner

/-- The adapters, and whether the status says `running` of them, or `dead`. -/
def status (s : FleetSpawner) : List (String × Bool) :=
  s.activeAdapters.entries.map fun e => (e.1, (s.managers e.2).isRunning)

variable {s s' t : FleetSpawner}

theorem mem_status {e : String × ManagerId} (he : e ∈ s.activeAdapters.entries) {running : Bool} :
    (e.1, running) ∈ s.status ↔ (s.managers e.2).isRunning = running := by
  refine ⟨fun h => ?_, fun h => List.mem_map.mpr ⟨e, he, by rw [h]⟩⟩
  obtain ⟨e', he', heq⟩ := List.mem_map.mp h
  obtain ⟨hname, hrunning⟩ := Prod.mk.inj heq
  rw [← Dict.eq_of_mem he' he hname, hrunning]

/-! ### A tick -/

/-- A step of the callback in which nothing is raised, or the end of a process. -/
def Undisturbed : SpawnerAction → Prop
  | .advance o => o = .ok
  | .die _ => True
  | .startFleetAdapters _ | .stopFleetAdapters _ | .publishStatus | .signal | .spinReturns => False

/-- The tick leaves these adapters: it has yet to drop others, or it is done. -/
inductive Leaves (adapters : List (String × ManagerId)) (s : FleetSpawner) : Prop where
  | ticking {dead : List String} (at_ticking : s.control = .ticking dead)
      (left : s.activeAdapters.entries.filter (fun e => e.1 ∉ dead) = adapters)
  | spinning (at_spinning : s.control = .spinning) (left : s.activeAdapters.entries = adapters)

theorem Leaves.step {adapters : List (String × ManagerId)} {a : SpawnerAction}
    (hs : s.Leaves adapters) (ha : Undisturbed a) (h : s.step a = some s') :
    s'.Leaves adapters := by
  cases hs with
  | spinning at_spinning left =>
      cases step_moves h with
      | die i => exact .spinning at_spinning left
      | start _ busy | stop _ busy | tick _ busy | cleanup _ busy =>
          cases at_spinning.symm.trans busy
      | startRequest | stopRequest | publishStatus | signal | spinReturns => exact ha.elim
  | @ticking dead at_ticking left =>
      cases step_moves h with
      | die i => exact .ticking at_ticking left
      | start _ busy | stop _ busy | cleanup _ busy => cases at_ticking.symm.trans busy
      | @tick dead o busy =>
          cases at_ticking.symm.trans busy
          obtain rfl : o = .ok := ha
          cases dead with
          | nil =>
              refine .spinning rfl ?_
              rw [← left]
              exact (List.filter_eq_self.mpr fun e _ => by simp).symm
          | cons fleetName dead =>
              refine .ticking rfl ?_
              rw [← left]
              change (List.filter _ s.activeAdapters.entries).filter _ = _
              rw [List.filter_filter]
              refine List.filter_congr fun e _ => ?_
              simp [Bool.and_comm]
      | startRequest | stopRequest | publishStatus | signal | spinReturns => exact ha.elim

theorem leaves_publishStatus (h : s.step .publishStatus = some s') :
    s'.Leaves (s.activeAdapters.entries.filter fun e => (e.1, true) ∈ s.status) := by
  cases step_moves h with
  | publishStatus =>
      refine .ticking rfl (List.filter_congr fun e he => ?_)
      rw [decide_eq_decide, mem_status (s := s) he, List.mem_map]
      refine ⟨fun hnot => ?_, ?_⟩
      · by_contra hrunning
        refine hnot ⟨e, List.mem_filter.mpr ⟨he, ?_⟩, rfl⟩
        simpa using hrunning
      · rintro hrunning ⟨e', he', hname⟩
        obtain ⟨hmem, hdead⟩ := List.mem_filter.mp he'
        rw [Dict.eq_of_mem hmem he hname, hrunning] at hdead
        cases hdead

end FleetSpawner

/-! ### Managers that are gone -/

/-- The manager that is being started. -/
def StartStage.starting? : StartStage → Option ManagerId
  | .made i | .spawned i | .started i => some i
  | .next => none

def Control.starting? : Control → Option ManagerId
  | .starting _ _ stage _ => stage.starting?
  | _ => none

namespace FleetSpawner

variable {s s' t : FleetSpawner}

/-- How a step changes which managers are recorded, and which is being started. -/
structure Renumbers (s s' : FleetSpawner) : Prop where
  next : s.nextManager ≤ s'.nextManager
  active : ∀ e ∈ s'.activeAdapters.entries,
    e ∈ s.activeAdapters.entries ∨ s.control.starting? = some e.2 ∧ s'.control.starting? = none
  single : ∀ e ∈ s'.activeAdapters.entries, e ∉ s.activeAdapters.entries →
    ∀ e' ∈ s'.activeAdapters.entries, e' ∉ s.activeAdapters.entries → e = e'
  starting : ∀ i, s'.control.starting? = some i →
    s.control.starting? = some i ∨ i = s.nextManager ∧ s.nextManager < s'.nextManager

/-- No manager is stored. -/
theorem Renumbers.of_subset (hnext : s.nextManager ≤ s'.nextManager)
    (hactive : s'.activeAdapters.entries ⊆ s.activeAdapters.entries)
    (hstarting : ∀ i, s'.control.starting? = some i →
      s.control.starting? = some i ∨ i = s.nextManager ∧ s.nextManager < s'.nextManager) :
    Renumbers s s' where
  next := hnext
  active _ he := .inl (hactive he)
  single _ he hnew := absurd (hactive he) hnew
  starting := hstarting

theorem entries_delete (fleetName : String) :
    (s.delete fleetName).activeAdapters.entries ⊆ s.activeAdapters.entries :=
  fun _ he => (Dict.mem_erase.mp he).1

theorem renumbers_start {o : Outcome} {requested : Nat} {entries : List String} {stage : StartStage}
    {response : Response} (busy : s.control = .starting requested entries stage response) :
    Renumbers s (s.start o requested response entries stage) := by
  have hstage : s.control.starting? = stage.starting? := by rw [busy]; rfl
  cases entries with
  | nil => exact .of_subset (Nat.le_refl _) (List.Subset.refl _) nofun
  | cons fleetName entries =>
      cases stage with
      | next =>
          simp only [start]
          split
          · exact .of_subset (Nat.le_refl _) (List.Subset.refl _) nofun
          · refine .of_subset (Nat.le_succ _) (List.Subset.refl _) ?_
            rintro _ ⟨⟩
            exact .inr ⟨rfl, Nat.lt_succ_self _⟩
          · exact .of_subset (Nat.le_refl _) (List.Subset.refl _) nofun
          · exact .of_subset (Nat.le_succ _) (List.Subset.refl _) nofun
      | made i =>
          simp only [start]
          split
          · exact .of_subset (Nat.le_refl _) (List.Subset.refl _) fun j hj => .inl (hstage.trans hj)
          · exact .of_subset (Nat.le_refl _) (List.Subset.refl _) nofun
      | spawned i =>
          simp only [start]
          split
          · exact .of_subset (Nat.le_refl _) (List.Subset.refl _) fun j hj => .inl (hstage.trans hj)
          · exact .of_subset (Nat.le_refl _) (List.Subset.refl _) nofun
      | started i =>
          have hput {e : String × ManagerId}
              (he : e ∈ (s.activeAdapters.put fleetName i).entries) :
              e ∈ s.activeAdapters.entries ∨ e = (fleetName, i) :=
            (Dict.mem_put.mp he).imp_left And.left
          refine ⟨Nat.le_refl _, fun e he => ?_, fun e he hnew e' he' hnew' => ?_, nofun⟩
          · rcases hput he with hmem | rfl
            · exact .inl hmem
            · exact .inr ⟨hstage, rfl⟩
          · exact ((hput he).resolve_left hnew).trans ((hput he').resolve_left hnew').symm

theorem renumbers_stop {o : Outcome} {requested : Nat} {names : List String}
    {stage : Option (ManagerId × StopStage)} {response : Response} :
    Renumbers s (s.stop o requested response names stage) := by
  cases names with
  | nil => exact .of_subset (Nat.le_refl _) (List.Subset.refl _) nofun
  | cons fleetName names =>
      cases stage with
      | none =>
          simp only [stop]
          split <;> exact .of_subset (Nat.le_refl _) (List.Subset.refl _) nofun
      | some p =>
          simp only [stop]
          rcases FleetAdapterProcessManager.stop o p.2 (s.managers p.1) with ⟨m, _ | _ | _⟩
          · exact .of_subset (Nat.le_refl _) (List.Subset.refl _) nofun
          · exact .of_subset (Nat.le_refl _) (List.Subset.refl _) nofun
          · exact .of_subset (Nat.le_refl _) (entries_delete fleetName) nofun

theorem renumbers_cleanup {o : Outcome} {final : Bool} {adapters : List (String × ManagerId)}
    {stage : Option StopStage} : Renumbers s (s.cleanup o final adapters stage) := by
  cases adapters with
  | nil =>
      simp only [cleanup]
      split <;> exact .of_subset (Nat.le_refl _) (List.Subset.refl _) nofun
  | cons e adapters =>
      cases stage with
      | none => exact .of_subset (Nat.le_refl _) (List.Subset.refl _) nofun
      | some stage =>
          simp only [cleanup]
          rcases FleetAdapterProcessManager.stop o stage (s.managers e.2) with ⟨m, _ | _⟩
          · exact .of_subset (Nat.le_refl _) (List.Subset.refl _) nofun
          · exact .of_subset (Nat.le_refl _) (entries_delete e.1) nofun

theorem step_renumbers {a : SpawnerAction} (h : s.step a = some s') : Renumbers s s' := by
  cases step_moves h with
  | startRequest fleetNames idle =>
      exact .of_subset (Nat.le_refl _) (List.Subset.refl _) nofun
  | stopRequest | publishStatus | signal | spinReturns =>
      exact .of_subset (Nat.le_refl _) (List.Subset.refl _) nofun
  | start o busy => exact renumbers_start busy
  | stop => exact renumbers_stop
  | @tick dead o busy =>
      cases dead with
      | nil => exact .of_subset (Nat.le_refl _) (List.Subset.refl _) nofun
      | cons fleetName dead =>
          simp only [tick]
          split
          · exact .of_subset (Nat.le_refl _) (entries_delete fleetName) nofun
          · exact .of_subset (Nat.le_refl _) (List.Subset.refl _) nofun
  | cleanup => exact renumbers_cleanup
  | die i => exact .of_subset (Nat.le_refl _) (List.Subset.refl _) fun j hj => .inl hj

/-- Managers that are recorded, or being started, have been made; and they are different ones. -/
structure Numbered (s : FleetSpawner) : Prop where
  active : ∀ e ∈ s.activeAdapters.entries, e.2 < s.nextManager
  starting : ∀ i, s.control.starting? = some i → i < s.nextManager
  new : ∀ i, s.control.starting? = some i → ∀ e ∈ s.activeAdapters.entries, e.2 ≠ i
  distinct : ∀ e ∈ s.activeAdapters.entries, ∀ e' ∈ s.activeAdapters.entries, e.2 = e'.2 → e = e'

theorem Renumbers.numbered (h : Renumbers s s') (hs : s.Numbered) : s'.Numbered where
  active e he := by
    rcases h.active e he with hmem | ⟨hstarting, -⟩
    · exact Nat.lt_of_lt_of_le (hs.active e hmem) h.next
    · exact Nat.lt_of_lt_of_le (hs.starting _ hstarting) h.next
  starting i hi := by
    rcases h.starting i hi with hstarting | ⟨rfl, hlt⟩
    · exact Nat.lt_of_lt_of_le (hs.starting i hstarting) h.next
    · exact hlt
  new i hi e he := by
    rcases h.active e he with hmem | ⟨-, hnone⟩
    · rcases h.starting i hi with hstarting | ⟨rfl, -⟩
      · exact hs.new i hstarting e hmem
      · exact Nat.ne_of_lt (hs.active e hmem)
    · rw [hi] at hnone
      cases hnone
  distinct e he e' he' heq := by
    by_cases hmem : e ∈ s.activeAdapters.entries <;> by_cases hmem' : e' ∈ s.activeAdapters.entries
    · exact hs.distinct e hmem e' hmem' heq
    · obtain ⟨hstarting, -⟩ := (h.active e' he').resolve_left hmem'
      exact absurd heq (hs.new _ hstarting e hmem)
    · obtain ⟨hstarting, -⟩ := (h.active e he).resolve_left hmem
      exact absurd heq.symm (hs.new _ hstarting e' hmem')
    · exact h.single e he hmem e' he' hmem'

theorem Numbered.reach {P : FleetSpawner → SpawnerAction → Prop} (h : fleetSpawner.Reach P s) :
    s.Numbered := by
  have init : fleetSpawner.init.Numbered := by
    refine ⟨?_, nofun, nofun, ?_⟩
    · intro e he
      cases he
    · intro e he
      cases he
  exact h.invariant init fun s a s' _ (hstep : s.step a = some s') hs =>
    (step_renumbers hstep).numbered hs

/-- The manager is neither recorded nor being started, nor will it be. -/
structure Gone (i : ManagerId) (s : FleetSpawner) : Prop where
  made : i < s.nextManager
  active : ∀ e ∈ s.activeAdapters.entries, e.2 ≠ i
  starting : s.control.starting? ≠ some i

theorem Renumbers.gone (h : Renumbers s s') {i : ManagerId} (hs : s.Gone i) : s'.Gone i where
  made := Nat.lt_of_lt_of_le hs.made h.next
  active e he := by
    rcases h.active e he with hmem | ⟨hstarting, -⟩
    · exact hs.active e hmem
    · rintro rfl
      exact hs.starting hstarting
  starting hi := by
    rcases h.starting i hi with hstarting | ⟨rfl, -⟩
    · exact hs.starting hstarting
    · exact absurd hs.made (Nat.lt_irrefl _)

/-- **The dead are reported once.**  A tick in which nothing is raised and no signal arrives leaves
the adapters it reports as running.  The others are gone, so that their fleets can be started again,
and no later status is about their managers. -/
theorem dead_reported_once {P Q : FleetSpawner → SpawnerAction → Prop} {s s₁ t : FleetSpawner}
    (hreach : fleetSpawner.Reach P s) (htick : s.step .publishStatus = some s₁)
    {as : List SpawnerAction} (hrun : fleetSpawner.Run (fun _ => Undisturbed) s₁ as t)
    (hdone : t.control = .spinning) :
    t.activeAdapters.entries = s.activeAdapters.entries.filter (fun e => (e.1, true) ∈ s.status) ∧
    ∀ e ∈ s.activeAdapters.entries, (e.1, false) ∈ s.status →
      t.activeAdapters.get? e.1 = none ∧
        ∀ bs u, fleetSpawner.Run Q t bs u → ∀ e' ∈ u.activeAdapters.entries, e'.2 ≠ e.2 := by
  have hleft : t.activeAdapters.entries =
      s.activeAdapters.entries.filter (fun e => (e.1, true) ∈ s.status) := by
    have hleaves := hrun.preserves (fun _ _ _ ha hstep hs => hs.step ha hstep)
      (leaves_publishStatus htick)
    cases hleaves with
    | ticking at_ticking => cases hdone.symm.trans at_ticking
    | spinning _ left => exact left
  refine ⟨hleft, fun e he hdead => ?_⟩
  have hdead := (mem_status he).mp hdead
  have hnumbered : s.Numbered := .reach hreach
  have hother : ∀ e' ∈ t.activeAdapters.entries, e' ∈ s.activeAdapters.entries ∧ e' ≠ e := by
    intro e' he'
    rw [hleft, List.mem_filter, decide_eq_true_eq] at he'
    obtain ⟨hmem, hrunning⟩ := he'
    rw [mem_status hmem] at hrunning
    refine ⟨hmem, ?_⟩
    rintro rfl
    rw [hdead] at hrunning
    cases hrunning
  have hnext : s.nextManager ≤ t.nextManager := by
    refine hrun.preserves (I := fun u => s.nextManager ≤ u.nextManager)
      (fun u a u' _ (hstep : u.step a = some u') hu =>
        Nat.le_trans hu (step_renumbers hstep).next) ?_
    exact (step_renumbers htick).next
  have hgone : t.Gone e.2 := by
    refine ⟨Nat.lt_of_lt_of_le (hnumbered.active e he) hnext, fun e' he' heq => ?_, ?_⟩
    · obtain ⟨hmem, hne⟩ := hother e' he'
      exact hne (hnumbered.distinct e' hmem e he heq)
    · rw [hdone]
      exact nofun
  refine ⟨Dict.get?_eq_none.mpr fun e' he' heq => ?_, fun bs u hlater => ?_⟩
  · obtain ⟨hmem, hne⟩ := hother e' he'
    exact hne (Dict.eq_of_mem hmem he heq)
  · have hu : u.Gone e.2 := hlater.preserves (I := Gone e.2)
      (fun v a v' _ (hstep : v.step a = some v') hv => (step_renumbers hstep).gone hv) hgone
    exact hu.active

/-- Two adapters are started, and the first dies. -/
def died : List SpawnerAction :=
  .startFleetAdapters ["fleet_a", "fleet_b"] :: List.replicate 9 (.advance .ok) ++ [.die 0]

/-- Its fleet is started again. -/
def startedAgain : List SpawnerAction :=
  .startFleetAdapters ["fleet_a"] :: List.replicate 5 (.advance .ok)

theorem dead_reported_once_died : ∃ s t u : FleetSpawner,
    s.status = [("fleet_a", false), ("fleet_b", true)] ∧
      t.activeAdapters.entries =
        s.activeAdapters.entries.filter (fun e => (e.1, true) ∈ s.status) ∧
      t.activeAdapters.get? "fleet_a" = none ∧ u.activeAdapters.get? "fleet_a" = some 2 ∧
      ∀ e ∈ u.activeAdapters.entries, e.2 ≠ 0 := by
  have hruns : fleetSpawner.runs (fun _ _ => True) fleetSpawner.init died = some _ := rfl
  have hreach := Lts.run_of_runs hruns
  have hstep : Undisturbed (.advance .ok) := rfl
  obtain ⟨hleft, hgone⟩ := dead_reported_once (Q := fun _ _ => True) ⟨_, hreach⟩ rfl
    (.cons hstep rfl <| .cons hstep rfl <| .nil _) rfl
  obtain ⟨hnone, hlater⟩ := hgone ("fleet_a", 0) List.mem_cons_self List.mem_cons_self
  have hagain := hlater startedAgain _ (Lts.run_of_runs rfl)
  exact ⟨_, _, _, rfl, hleft, hnone, rfl, hagain⟩

end FleetSpawner

end EgbFleet.Spawner
