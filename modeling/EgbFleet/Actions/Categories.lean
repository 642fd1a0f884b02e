import EgbFleet.Support.Tables

/-!
# Actions — the categories RMF may dispatch

Two components read the `plugins:` block of the configuration.  `FleetAdapter::initialize_fleet`
registers its categories with RMF, as performable actions; `RobotState`'s constructor makes the map
from which `execute_action` resolves a category to a plugin.

The two agree on the block (`mem_performablePluginActions`).  But `initialize_fleet` registers
`go_to_place` before it, whether or not a plugin claims it: RMF is told of a category no robot
resolves, or of one category twice (`registration_never_agrees`).
-/

namespace EgbFleet.Actions

/-- The `plugins:` block, if there is one: the plugins, and the `actions` each lists, if it does. -/
abbrev PluginsConfig := Option (List (String × Option (List String)))

namespace PluginsConfig

/-- The categories the plugins claim, each with the plugin that claims it. -/
def claims (plugins : PluginsConfig) : List (String × String) :=
  (plugins.getD []).flatMap fun p => (p.2.getD []).map (·, p.1)

/-- `FleetAdapter::performable_plugin_actions`. -/
def performablePluginActions (plugins : PluginsConfig) : List String :=
  match plugins with
  | none => []
  | some plugins =>
      plugins.foldl (fun categories plugin =>
        match plugin.2 with
        | none => categories
        | some actions => actions.foldl Table.insertNew categories) []

/-- The categories `initialize_fleet` passes to `add_performable_action`, in order. -/
def registered (plugins : PluginsConfig) : List String :=
  "go_to_place" :: plugins.performablePluginActions

/-- `action_to_plugin_name_`, as the constructor of `RobotState` fills it. -/
def actionToPluginName (plugins : PluginsConfig) : String → Option String :=
  match plugins with
  | none => fun _ => none
  | some plugins =>
      plugins.foldl (fun m plugin =>
        match plugin.2 with
        | none => m
        | some actions =>
            actions.foldl (fun m action => Function.update m action (some plugin.1)) m)
        fun _ => none

/-! ### Both read the same claims -/

theorem performablePluginActions_eq (plugins : PluginsConfig) :
    plugins.performablePluginActions = Table.collect [] (plugins.claims.map Prod.fst) := by
  cases plugins with
  | none => rfl
  | some plugins =>
      simp only [performablePluginActions, claims, Table.collect, Option.getD_some,
        List.map_flatMap, List.map_map, List.foldl_flatMap]
      congr 1
      funext categories plugin
      cases plugin.2 <;> simp [Function.comp_def]

theorem actionToPluginName_eq (plugins : PluginsConfig) :
    plugins.actionToPluginName = Table.assign (fun _ => none) plugins.claims := by
  cases plugins with
  | none => rfl
  | some plugins =>
      simp only [actionToPluginName, claims, Table.assign, Option.getD_some, List.foldl_flatMap]
      congr 1
      funext m plugin
      cases plugin.2 <;> simp [List.foldl_map]

theorem nodup_performablePluginActions (plugins : PluginsConfig) :
    plugins.performablePluginActions.Nodup := by
  rw [performablePluginActions_eq]
  exact Table.nodup_collect List.nodup_nil _

theorem mem_performablePluginActions {plugins : PluginsConfig} {category : String} :
    category ∈ plugins.performablePluginActions ↔
      (plugins.actionToPluginName category).isSome = true := by
  rw [performablePluginActions_eq, actionToPluginName_eq, Table.mem_collect, Table.assign_isSome]
  simp

/-! ### What is registered -/

/-- No category is registered twice, and the registered ones are those the robots resolve. -/
structure Agrees (plugins : PluginsConfig) : Prop where
  once : plugins.registered.Nodup
  resolves : ∀ category, category ∈ plugins.registered ↔
    (plugins.actionToPluginName category).isSome = true

/-- No category is registered twice just if no plugin claims `go_to_place`. -/
theorem nodup_registered_iff {plugins : PluginsConfig} :
    plugins.registered.Nodup ↔ plugins.actionToPluginName "go_to_place" = none := by
  rw [registered, List.nodup_cons, mem_performablePluginActions, Option.not_isSome_iff_eq_none]
  exact and_iff_left plugins.nodup_performablePluginActions

/-- Every registered category resolves just if a plugin claims `go_to_place`. -/
theorem registered_resolves_iff {plugins : PluginsConfig} :
    (∀ category, category ∈ plugins.registered ↔
      (plugins.actionToPluginName category).isSome = true) ↔
      (plugins.actionToPluginName "go_to_place").isSome = true := by
  constructor
  · intro h
    exact (h "go_to_place").mp List.mem_cons_self
  · intro h category
    rw [registered, List.mem_cons, mem_performablePluginActions, or_iff_right_iff_imp]
    rintro rfl
    exact h

/-- **The two never agree.**  Whatever the plugins, `go_to_place` is registered and resolved by no
robot, or is registered twice. -/
theorem registration_never_agrees (plugins : PluginsConfig) : ¬ plugins.Agrees := by
  intro h
  have hnone := nodup_registered_iff.mp h.once
  have hsome := registered_resolves_iff.mp h.resolves
  rw [hnone] at hsome
  cases hsome

/-- The shipped `plugins:` block: `go_to_place` is registered, and no robot resolves it. -/
theorem registration_disagrees :
    ¬ ∀ plugins : PluginsConfig, plugins.registered.Nodup ∧ ∀ category,
      category ∈ plugins.registered ↔ (plugins.actionToPluginName category).isSome = true := by
  intro h
  have := (h (some [("egb_fleet::plugins::UndockActionFactory", some ["undock"])])).2 "go_to_place"
  revert this
  decide

end PluginsConfig

end EgbFleet.Actions
