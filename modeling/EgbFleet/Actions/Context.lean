import EgbFleet.Actions.Execution
import EgbFleet.Support.Runs

/-!
# Actions — the context of an action

A robot's actions see it through its `RobotActionContext`.  It is made once, when
`get_or_create_action_context` is first called or a plugin is first loaded, and each factory is
initialised with it; the actions of a factory have the factory's context.

Its callbacks run on the robot.  But the graph and the transforms are copied when it is made, and
the update handle is left null: "update_handle will be set by set_update_handle if robot is added",
and `set_update_handle` does not.  `action_context_fresh_iff` says when an action sees what is set.
-/

namespace EgbFleet.Actions

variable {F D A H G T N : Type}

/-- The fields of `RobotActionContext` that are values of the robot's: update handles are `H`,
graphs `G`, transforms `T`. -/
@[ext]
structure RobotActionContext (H G T : Type) where
  updateHandle : Option H
  trafficGraph : Option G
  coordinateTransforms : T
  deriving DecidableEq

/-- An instance of a plugin, initialised with a context. -/
structure RobotActionFactory (F H G T : Type) where
  plugin : F
  context : RobotActionContext H G T

structure RobotAction (A H G T : Type) where
  context : RobotActionContext H G T
  actionTaskId : String
  action : A

/-- The constructor of `RobotAction`; `currentTaskId` is what the handles' `current_task_id`
returns. -/
def RobotAction.create (currentTaskId : H → String) (context : RobotActionContext H G T)
    (action : A) : RobotAction A H G T where
  context := context
  actionTaskId := (context.updateHandle.map currentTaskId).getD ""
  action := action

/-- What the plugins do, where instances that are created are initialised with `context`, and pass
theirs to their actions. -/
def Plugins.withContext (plugins : Plugins F D A) (currentTaskId : H → String)
    (context : RobotActionContext H G T) :
    Plugins (RobotActionFactory F H G T) D (RobotAction A H G T) where
  classLoader := plugins.classLoader
  createSharedInstance name := (plugins.createSharedInstance name).map (·.map (⟨·, context⟩))
  initializeFactory factory := plugins.initializeFactory factory.plugin
  supportsAction factory := plugins.supportsAction factory.plugin
  performAction factory category description e :=
    (plugins.performAction factory.plugin category description e).map
      (·.map (RobotAction.create currentTaskId factory.context))

/-- A `RobotState`, with what its context is made of.  Navigation interfaces are `N`. -/
structure Robot (F A H G T N : Type) where
  state : RobotState (RobotActionFactory F H G T) (RobotAction A H G T)
  updateHandle : Option H
  graph : Option G
  coordinateTransforms : T
  navigationInterface : Option N
  actionContext : Option (RobotActionContext H G T)
  made : state.actionContext = actionContext.isSome

namespace Robot

/-- The context `get_or_create_action_context` makes. -/
def newContext (s : Robot F A H G T N) : RobotActionContext H G T where
  updateHandle := none
  trafficGraph := s.graph
  coordinateTransforms := s.coordinateTransforms

/-- What `get_or_create_action_context` returns. -/
def context (s : Robot F A H G T N) : RobotActionContext H G T := s.actionContext.getD s.newContext

/-- `get_or_create_action_context`. -/
def getOrCreateActionContext (s : Robot F A H G T N) : Robot F A H G T N :=
  { s with
    state := { s.state with actionContext := true }
    actionContext := some s.context
    made := rfl }

theorem made_ite {C : Type} (b : Bool) (c : C) : b = (if b then some c else none).isSome := by
  cases b <;> rfl

/-- `execute_action`.  The context is made, if there is none, where a plugin is loaded. -/
def executeAction (plugins : Plugins F D A) (currentTaskId : H → String) (category : String)
    (description : D) (e : ActivityId) (s : Robot F A H G T N) :
    Returned (RobotActionFactory F H G T) (RobotAction A H G T) :=
  s.state.executeAction (plugins.withContext currentTaskId s.context) category description e

/-- What a call of `execute_action` leaves. -/
def after (s : Robot F A H G T N)
    (r : Returned (RobotActionFactory F H G T) (RobotAction A H G T)) : Robot F A H G T N :=
  { s with
    state := r.robot
    actionContext := if r.robot.actionContext then some s.context else none
    made := made_ite _ _ }

/-- The constructor, of a robot with these actions. -/
def start (name : String) (actionToPluginName : String → Option String) (noTransforms : T) :
    Robot F A H G T N where
  state := ⟨name, actionToPluginName, false, false, fun _ => none, none, none⟩
  updateHandle := none
  graph := none
  coordinateTransforms := noTransforms
  navigationInterface := none
  actionContext := none
  made := rfl

end Robot

/-- A call of a `RobotState`. -/
inductive RobotCall (F D A H G T N : Type) where
  | setUpdateHandle (handle : Option H)
  | setGraphAndTransforms (graph : Option G) (transforms : T)
  | setNavigationInterface (navigationInterface : Option N)
  | getOrCreateActionContext
  | executeAction (plugins : Plugins F D A) (currentTaskId : H → String) (category : String)
    (description : D) (e : ActivityId)

def Robot.call (s : Robot F A H G T N) : RobotCall F D A H G T N → Robot F A H G T N
  | .setUpdateHandle handle => { s with updateHandle := handle }
  | .setGraphAndTransforms graph transforms =>
      { s with graph := graph, coordinateTransforms := transforms }
  | .setNavigationInterface n => { s with navigationInterface := n }
  | .getOrCreateActionContext => s.getOrCreateActionContext
  | .executeAction plugins currentTaskId category description e =>
      s.after (s.executeAction plugins currentTaskId category description e)

/-- The calls of a robot, in any order. -/
def robotCalls (s : Robot F A H G T N) : Lts (Robot F A H G T N) (RobotCall F D A H G T N) where
  init := s
  step s a := some (s.call a)

/-! ### One context -/

section

/-- What is under an error and a null pointer. -/
theorem exists_of_map_map {α β ε : Type} {f : α → β} {r : Except ε (Option α)} {y : β}
    (h : r.map (·.map f) = .ok (some y)) : ∃ x, r = .ok (some x) ∧ f x = y := by
  cases r with
  | error e => cases h
  | ok o =>
      cases o with
      | none => cases h
      | some x =>
          cases h
          exact ⟨x, rfl, rfl⟩

variable {plugins : Plugins F D A} {currentTaskId : H → String} {c : RobotActionContext H G T}

/-- An instance that is created has the context. -/
theorem Plugins.context_of_created {name : String} {factory : RobotActionFactory F H G T}
    (h : (plugins.withContext currentTaskId c).createSharedInstance name = .ok (some factory)) :
    factory.context = c := by
  obtain ⟨plugin, -, rfl⟩ := exists_of_map_map h
  rfl

/-- An action has the context of its factory, and the task id that context's handle tells. -/
theorem Plugins.create_of_performed {factory : RobotActionFactory F H G T} {category : String}
    {description : D} {e : ActivityId} {action : RobotAction A H G T}
    (h : (plugins.withContext currentTaskId c).performAction factory category description e =
      .ok (some action)) :
    action = RobotAction.create currentTaskId factory.context action.action := by
  obtain ⟨made, -, rfl⟩ := exists_of_map_map h
  rfl

end

namespace Robot

variable {s : Robot F A H G T N}

theorem context_eq {c : RobotActionContext H G T} (h : s.actionContext = some c) :
    s.context = c := by
  rw [context, h, Option.getD_some]

/-- A call leaves the context as it is, or makes it. -/
theorem actionContext_call (s : Robot F A H G T N) (a : RobotCall F D A H G T N) :
    (s.call a).actionContext = s.actionContext ∨
      s.actionContext = none ∧ (s.call a).actionContext = some s.newContext := by
  cases hc : s.actionContext with
  | none =>
      have hnew : s.context = s.newContext := by rw [context, hc, Option.getD_none]
      cases a with
      | setUpdateHandle | setGraphAndTransforms | setNavigationInterface => exact .inl hc
      | getOrCreateActionContext => exact .inr ⟨rfl, congrArg some hnew⟩
      | executeAction plugins currentTaskId category description e =>
          by_cases hmade : (s.executeAction plugins currentTaskId category description
              e).robot.actionContext = true
          · exact .inr ⟨rfl, (if_pos hmade).trans (congrArg some hnew)⟩
          · exact .inl (if_neg hmade)
  | some c =>
      left
      cases a with
      | setUpdateHandle | setGraphAndTransforms | setNavigationInterface => exact hc
      | getOrCreateActionContext => exact congrArg some (context_eq hc)
      | executeAction plugins currentTaskId category description e =>
          have hmade : s.state.actionContext = true := by rw [s.made, hc, Option.isSome_some]
          have hkept := (RobotState.caches_executeAction
            (plugins.withContext currentTaskId s.context) s.state category description e).context
          exact (if_pos (hkept hmade)).trans (congrArg some (context_eq hc))

/-- Each factory that is cached has the context. -/
def Shared (s : Robot F A H G T N) : Prop :=
  ∀ plugin factory, s.state.loadedFactories plugin = some factory →
    s.actionContext = some factory.context

theorem Shared.call (h : s.Shared) (a : RobotCall F D A H G T N) : (s.call a).Shared := by
  intro plugin factory hcached
  have hkept (c : RobotActionContext H G T) (hc : s.actionContext = some c) :
      (s.call a).actionContext = some c := by
    rcases actionContext_call s a with heq | ⟨hnone, -⟩
    · exact heq.trans hc
    · cases hnone.symm.trans hc
  cases a with
  | setUpdateHandle | setGraphAndTransforms | setNavigationInterface | getOrCreateActionContext =>
      exact hkept _ (h plugin factory hcached)
  | executeAction plugins currentTaskId category description e =>
      rcases (RobotState.caches_executeAction (plugins.withContext currentTaskId s.context) s.state
        category description e).factories plugin factory hcached with hbefore | ⟨hmade, hcreated⟩
      · exact hkept _ (h plugin factory hbefore)
      · rw [Plugins.context_of_created hcreated]
        exact if_pos hmade

/-- An action that is stored has the context `get_or_create_action_context` returns. -/
theorem Shared.exists_stored (h : s.Shared) {plugins : Plugins F D A} {currentTaskId : H → String}
    {category : String} {description : D} {e : ActivityId}
    (hstored : (s.executeAction plugins currentTaskId category description e).execution = none) :
    ∃ action,
      (s.executeAction plugins currentTaskId category description e).robot.currentAction =
        some (RobotAction.create currentTaskId s.context action) := by
  obtain ⟨plugin, factory, action, hsupplies, hperformed, haction⟩ :=
    RobotState.exists_of_executeAction hstored
  have hcontext : factory.context = s.context := by
    rcases hsupplies with hcached | ⟨-, hcreated, -⟩
    · exact (context_eq (h plugin factory hcached)).symm
    · exact Plugins.context_of_created hcreated
  refine ⟨action.action, ?_⟩
  rw [← hcontext, ← Plugins.create_of_performed hperformed]
  exact haction

end Robot

/-! ### Runs -/

section

variable {s₀ s : Robot F A H G T N} {as : List (RobotCall F D A H G T N)}

/-- The context is what some call made of the robot then. -/
theorem takes_makes_iff (hrun : (robotCalls s₀).Run (fun _ _ => True) s₀ as s)
    (h₀ : s₀.actionContext = none) (Q : RobotActionContext H G T → Prop) :
    (robotCalls s₀).Takes
        (fun u _ u' => u.actionContext = none ∧ u'.actionContext ≠ none ∧ Q u.newContext) s₀ as ↔
      ∃ c, s.actionContext = some c ∧ Q c := by
  refine hrun.trace (I := fun as s => (robotCalls s₀).Takes _ s₀ as ↔
    ∃ c, s.actionContext = some c ∧ Q c) ?_ fun as u a u' hu _ hstep ih => ?_
  · simp [h₀, Lts.not_takes_nil]
  · rw [hu.takes_snoc hstep, ih]
    cases hstep
    rcases Robot.actionContext_call u a with heq | ⟨hnone, hnew⟩
    · rw [heq, or_iff_left]
      rintro ⟨hnone, hsome, -⟩
      exact hsome hnone
    · simp [hnone, hnew]

/-- No context has an update handle. -/
theorem updateHandle_eq_none (hrun : (robotCalls s₀).Run (fun _ _ => True) s₀ as s)
    (h₀ : s₀.actionContext = none) : s.context.updateHandle = none := by
  have hall : ∀ c, s.actionContext = some c → c.updateHandle = none := by
    refine hrun.preserves (I := fun u => ∀ c, u.actionContext = some c → c.updateHandle = none)
      (fun u a u' _ hstep hu c hc => ?_) fun c hc => ?_
    · cases hstep
      rcases Robot.actionContext_call u a with heq | ⟨-, hnew⟩
      · exact hu c (heq.symm.trans hc)
      · cases hnew.symm.trans hc
        rfl
    · cases h₀.symm.trans hc
  cases hc : s.actionContext with
  | none => rw [Robot.context, hc]; rfl
  | some c => rw [Robot.context_eq hc, hall c hc]

theorem shared_of_run (hrun : (robotCalls s₀).Run (fun _ _ => True) s₀ as s) (h₀ : s₀.Shared) :
    s.Shared := by
  refine hrun.preserves (I := Robot.Shared) (fun u a u' _ hstep hu => ?_) h₀
  cases hstep
  exact hu.call a

/-- The graph and the transforms of the context are those set, just if no call made it of others. -/
theorem copied_iff (hrun : (robotCalls s₀).Run (fun _ _ => True) s₀ as s)
    (h₀ : s₀.actionContext = none) :
    s.context.trafficGraph = s.graph ∧ s.context.coordinateTransforms = s.coordinateTransforms ↔
      ¬ (robotCalls s₀).Takes
        (fun u _ u' => u.actionContext = none ∧ u'.actionContext ≠ none ∧
          (u.graph ≠ s.graph ∨ u.coordinateTransforms ≠ s.coordinateTransforms)) s₀ as := by
  have hmakes := takes_makes_iff hrun h₀ fun c =>
    c.trafficGraph ≠ s.graph ∨ c.coordinateTransforms ≠ s.coordinateTransforms
  refine Iff.trans ?_ (not_congr hmakes).symm
  cases hc : s.actionContext with
  | none => simp [Robot.context, hc, Robot.newContext]
  | some c => simp [Robot.context_eq hc, not_or]

end

/-- What is set at the time. -/
def Robot.current (s : Robot F A H G T N) : RobotActionContext H G T where
  updateHandle := s.updateHandle
  trafficGraph := s.graph
  coordinateTransforms := s.coordinateTransforms

section

variable {name : String} {actionToPluginName : String → Option String} {noTransforms : T}
  {s : Robot F A H G T N} {as : List (RobotCall F D A H G T N)}

/-- An action that is stored after any calls has the context the robot has. -/
theorem exists_stored_of_run
    (hrun : (robotCalls (.start name actionToPluginName noTransforms)).Run (fun _ _ => True)
      (.start name actionToPluginName noTransforms) as s) {plugins : Plugins F D A}
    {currentTaskId : H → String} {category : String} {description : D} {e : ActivityId}
    (hstored : (s.executeAction plugins currentTaskId category description e).execution = none) :
    ∃ action,
      (s.executeAction plugins currentTaskId category description e).robot.currentAction =
        some (RobotAction.create currentTaskId s.context action) := by
  refine (shared_of_run hrun fun plugin factory hcached => ?_).exists_stored hstored
  cases hcached

/-- No action knows its task. -/
theorem actionTaskId_eq_empty
    (hrun : (robotCalls (.start name actionToPluginName noTransforms)).Run (fun _ _ => True)
      (.start name actionToPluginName noTransforms) as s) {plugins : Plugins F D A}
    {currentTaskId : H → String} {category : String} {description : D} {e : ActivityId}
    (hstored : (s.executeAction plugins currentTaskId category description e).execution = none) :
    ∃ action,
      (s.executeAction plugins currentTaskId category description e).robot.currentAction =
        some action ∧ action.actionTaskId = "" := by
  obtain ⟨action, haction⟩ := exists_stored_of_run hrun hstored
  refine ⟨_, haction, ?_⟩
  rw [RobotAction.create, updateHandle_eq_none hrun rfl]
  rfl

/-- **The context of an action.**  An action that is stored after any calls sees what is set then,
just if no update handle is set, and no call made the context when another graph or other transforms
were. -/
theorem action_context_fresh_iff
    (hrun : (robotCalls (.start name actionToPluginName noTransforms)).Run (fun _ _ => True)
      (.start name actionToPluginName noTransforms) as s) {plugins : Plugins F D A}
    {currentTaskId : H → String} {category : String} {description : D} {e : ActivityId}
    (hstored : (s.executeAction plugins currentTaskId category description e).execution = none) :
    ∃ action,
      (s.executeAction plugins currentTaskId category description e).robot.currentAction =
        some action ∧
      (action.context = s.current ↔
        s.updateHandle = none ∧
          ¬ (robotCalls (D := D) (.start name actionToPluginName noTransforms)).Takes
            (fun u _ u' => u.actionContext = none ∧ u'.actionContext ≠ none ∧
              (u.graph ≠ s.graph ∨ u.coordinateTransforms ≠ s.coordinateTransforms))
            (.start name actionToPluginName noTransforms) as) := by
  obtain ⟨action, haction⟩ := exists_stored_of_run hrun hstored
  refine ⟨_, haction, ?_⟩
  change s.context = s.current ↔ _
  rw [← copied_iff hrun rfl, RobotActionContext.ext_iff, updateHandle_eq_none hrun rfl, eq_comm]
  rfl

/-- A plugin that serves every call. -/
def servingPlugins : Plugins Unit Unit Unit where
  classLoader := .ok ()
  createSharedInstance _ := .ok (some ())
  initializeFactory _ := .ok ()
  supportsAction _ _ := .ok true
  performAction _ _ _ _ := .ok (some ())

/-- A robot all of whose actions are of one plugin. -/
def undockRobot : Robot Unit Unit Unit Unit Unit Unit :=
  .start "robot_ab12" (fun _ => some "egb_fleet::plugins::UndockActionFactory") ()

/-- The robot has got its graph, and is not added yet. -/
theorem action_context_fresh_iff_undock :
    ∃ action,
      ((undockRobot.call (D := Unit) (.setGraphAndTransforms (some ()) ())).executeAction
        servingPlugins (fun _ => "task_1") "undock" () 0).robot.currentAction = some action ∧
      action.context = ⟨none, some (), ()⟩ := by
  have hrun : (robotCalls (D := Unit) undockRobot).Run (fun _ _ => True) undockRobot
      [.setGraphAndTransforms (some ()) ()]
      (undockRobot.call (D := Unit) (.setGraphAndTransforms (some ()) ())) :=
    .cons trivial rfl (.nil _)
  have hstored : ((undockRobot.call (D := Unit) (.setGraphAndTransforms (some ())
      ())).executeAction servingPlugins (fun _ => "task_1") "undock" () 0).execution = none := rfl
  obtain ⟨action, haction, hiff⟩ := action_context_fresh_iff hrun hstored
  refine ⟨action, haction, hiff.mpr ⟨rfl, ?_⟩⟩
  rw [Lts.takes_cons rfl]
  rintro (⟨-, hmade, -⟩ | htakes)
  · exact hmade rfl
  · exact Lts.not_takes_nil _ htakes

/-- The robot has been added, and its action does not see its update handle. -/
theorem update_handle_not_seen :
    ¬ ∀ (as : List (RobotCall Unit Unit Unit Unit Unit Unit Unit))
      (s : Robot Unit Unit Unit Unit Unit Unit),
      (robotCalls undockRobot).Run (fun _ _ => True) undockRobot as s →
      ∀ (plugins : Plugins Unit Unit Unit) (currentTaskId : Unit → String) (category : String)
        (e : ActivityId),
        (s.executeAction plugins currentTaskId category () e).execution = none →
        ∃ action, (s.executeAction plugins currentTaskId category () e).robot.currentAction =
          some action ∧ action.context = s.current := by
  intro h
  obtain ⟨action, haction, hcontext⟩ := h [.setUpdateHandle (some ())] _
    (.cons trivial rfl (.nil _)) servingPlugins (fun _ => "task_1") "undock" 0 rfl
  cases haction
  cases congrArg RobotActionContext.updateHandle hcontext

end

end EgbFleet.Actions
