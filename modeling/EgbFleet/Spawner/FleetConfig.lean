import EgbFleet.Support.Documents
import Mathlib.Data.List.Infix
import Mathlib.Data.List.Pairwise

/-!
# Spawner — the fleet's configuration

`_create_fleet_config_file` fills a template in with what a request asks for, and writes it to the
file that the fleet's adapter is started with.  The template is whatever `yaml.safe_load` makes of a
file: a part it lacks is not filled in, and Python raises where it is not made as expected.
A document is taken to have no aliases.

`createFleetConfigFile_fills`: when nothing is raised, and that then what is filled in is there, and
everything else is as it was.
-/

namespace EgbFleet.Spawner

open Document (Shape)

/-- A message `FleetAdapterParams`. -/
structure FleetAdapterParams where
  fleetName : String
  chargers : List String
  robotNamePattern : String
  initialMap : String

/-- Of the scalars, only strings are containers. -/
inductive Scalar where
  | none
  | atom (text : String)
  | str (text : String)
  deriving DecidableEq

abbrev Yaml := Document Scalar Scalar

namespace Yaml

def isStr (text : String) : Yaml → Bool
  | .leaf (.str text') => text' == text
  | _ => false

/-- `key in value`; an error is a `TypeError`, here and below. -/
def contains (key : String) : Yaml → Except Unit Bool
  | .leaf (.str text) => .ok (decide (key.toList <:+: text.toList))
  | .leaf .none | .leaf (.atom _) => .error ()
  | .list items => .ok (items.any (isStr key))
  | .table entries => .ok (entries.lookup (.str key)).isSome

/-- `value[key]`. -/
def getItem (key : String) : Yaml → Except Unit Yaml
  | .table entries => (entries.lookup (.str key)).elim (.error ()) .ok
  | .leaf _ | .list _ => .error ()

/-- `value[key] = item`. -/
def setItem (value : Yaml) (key : String) (item : Yaml) : Except Unit Yaml :=
  match value with
  | .table entries => .ok (.table (Document.insert (.str key) item entries))
  | .leaf _ | .list _ => .error ()

/-- `value[key][…][…] = item`, with as many more keys as the path has. -/
def assign (value : Yaml) (key : String) (path : List String) (item : Yaml) : Except Unit Yaml :=
  match path with
  | [] => value.setItem key item
  | key' :: path => do value.setItem key (← (← value.getItem key).assign key' path item)

/-- `"rmf_fleet" in config and key in config["rmf_fleet"]`. -/
def hasKey (key : String) (config : Yaml) : Except Unit Bool := do
  if ← config.contains "rmf_fleet" then (← config.getItem "rmf_fleet").contains key
  else return false

end Yaml

/-- What is filled in under `key`, where the template has it. -/
structure Replacement where
  /-- Whether the request asks for it. -/
  given : Bool
  key : String
  path : List String
  value : String

def Replacement.apply (r : Replacement) (config : Yaml) : Except Unit Yaml := do
  if r.given then
    if ← config.hasKey r.key then
      return ← config.assign "rmf_fleet" (r.key :: r.path) (.leaf (.str r.value))
  return config

namespace FleetAdapterParams

variable (p : FleetAdapterParams)

/-- The fleet's name, the pattern of its robots' names, the first charger, and the map. -/
def replacements : List Replacement :=
  [⟨true, "name", [], p.fleetName⟩,
    ⟨p.robotNamePattern != "", "dynamic_discovery", ["robot_name_pattern"], p.robotNamePattern⟩,
    ⟨!p.chargers.isEmpty, "robot_template", ["charger"], p.chargers.headD ""⟩,
    ⟨p.initialMap != "", "robot_template", ["initial_map"], p.initialMap⟩]

/-- The document `_create_fleet_config_file` makes of the template. -/
def createFleetConfig (template : Yaml) : Except Unit Yaml :=
  p.replacements.foldlM (fun config r => r.apply config) template

end FleetAdapterParams

/-- How the calls turn out that touch files. -/
structure Files where
  /-- What `yaml.safe_load` makes of the template, if it can be opened. -/
  template : Except Unit Yaml
  /-- Whether `NamedTemporaryFile` makes a file of a name that begins so; it does not for one that
  leads to a directory which is not there. -/
  named : String → Bool
  /-- Whether `yaml.dump` and `close` write the document. -/
  dumped : Yaml → Bool

/-- The beginning of the file's name. -/
def FleetAdapterParams.filePrefix (p : FleetAdapterParams) : String :=
  "fleet_config_" ++ p.fleetName ++ "_"

/-- `_create_fleet_config_file`, and what is in the file it returns the name of. -/
def FleetAdapterParams.createFleetConfigFile (p : FleetAdapterParams) (files : Files) :
    Except Unit Yaml := do
  let config ← p.createFleetConfig (← files.template)
  if files.named p.filePrefix then
    if files.dumped config then return config
    else .error ()
  else .error ()

/-! ### What is to hold -/

namespace Replacement

variable (r : Replacement) (config : Yaml)

/-- Where the value goes. -/
def target : List Scalar := .str "rmf_fleet" :: .str r.key :: r.path.map .str

/-- It is asked for, and the configuration has its key. -/
def Applies : Prop := r.given = true ∧ config.hasKey r.key = .ok true

/-- If it is asked for, it can be looked for; and if it is found, put. -/
def Accepts : Prop :=
  r.given = true → config.hasKey r.key = .ok false ∨
    config.hasKey r.key = .ok true ∧ config.shape? r.target.dropLast = some .table

instance : Decidable (r.Applies config) := inferInstanceAs (Decidable (_ ∧ _))

end Replacement

/-- What the replacements make of what is at the path. -/
def filled (replacements : List Replacement) (template : Yaml) (path : List Scalar) :
    Option (Shape Scalar Scalar) :=
  match replacements.find? fun r => r.Applies template ∧ r.target <+: path with
  | some r => if path = r.target then some (.leaf (.str r.value)) else none
  | none => template.shape? path

/-- What filling the template in comes to. -/
def Fills (replacements : List Replacement) (template : Yaml) : Except Unit Yaml → Prop
  | .ok config =>
      (∀ r ∈ replacements, r.Accepts template) ∧
        ∀ path, config.shape? path = filled replacements template path
  | .error _ => ∃ r ∈ replacements, ¬ r.Accepts template

theorem Fills.imp {replacements replacements' : List Replacement} {template template' : Yaml}
    {result : Except Unit Yaml} (h : Fills replacements template result)
    (hok : ∀ c, Fills replacements template (.ok c) → Fills replacements' template' (.ok c))
    (herror : Fills replacements template (.error ()) → Fills replacements' template' (.error ())) :
    Fills replacements' template' result := by
  cases result with
  | ok c => exact hok c h
  | error => exact herror h

/-! ### One replacement -/

section

variable {config c : Yaml} {key : String}

theorem Yaml.assign_eq (value : Yaml) (key : String) (path : List String) (item : Yaml) :
    value.assign key path item =
      (value.put (.str key) (path.map .str) item).elim (.error ()) .ok := by
  induction path generalizing value key with
  | nil => cases value <;> rfl
  | cons key' path ih =>
      cases value with
      | leaf | list => rfl
      | table entries =>
          simp only [assign, getItem, Document.put, List.map_cons]
          cases hy : entries.lookup (.str key) with
          | none => rfl
          | some y =>
              simp only [Option.elim_some, Option.bind_eq_bind, Option.bind_some]
              change (Yaml.assign y key' path item >>= fun z => _) = _
              rw [ih]
              cases y.put (.str key') (path.map .str) item <;> rfl

theorem Yaml.hasKey_table {entries fleet : List (Scalar × Yaml)}
    (h : entries.lookup (.str "rmf_fleet") = some (.table fleet)) :
    hasKey key (.table entries) = .ok (fleet.lookup (.str key)).isSome := by
  simp only [hasKey, contains, getItem, h]
  rfl

/-- What is put where there was something leaves the keys what they were. -/
theorem Yaml.hasKey_put {present : String} {path : List Scalar} {x : Yaml}
    (h : config.put (.str "rmf_fleet") (.str present :: path) x = some c)
    (hpresent : config.hasKey present = .ok true) (key : String) :
    c.hasKey key = config.hasKey key := by
  obtain ⟨entries, y, z, rfl, hy, hz, rfl⟩ := Document.put_cons_eq_some h
  obtain ⟨fleet, w, rfl, rfl⟩ := Document.put_eq_some hz
  rw [hasKey_table hy] at hpresent
  rw [hasKey_table hy, hasKey_table (Document.lookup_insert_self _ _ _)]
  by_cases hk : key = present
  · subst hk
    rw [Document.lookup_insert_self, hpresent]
    rfl
  · rw [Document.lookup_insert_of_ne (mt Scalar.str.inj hk)]

namespace Replacement

variable {r r' : Replacement}

/-- A replacement is refused, or not made, or puts its value. -/
theorem apply_cases (r : Replacement) (config : Yaml) :
    (¬ r.Accepts config ∧ r.apply config = .error ()) ∨
    (r.Accepts config ∧ ¬ r.Applies config ∧ r.apply config = .ok config) ∨
    (r.Accepts config ∧ r.Applies config ∧ ∃ c, r.apply config = .ok c ∧
      config.put (.str "rmf_fleet") (.str r.key :: r.path.map .str) (.leaf (.str r.value)) =
        some c) := by
  unfold apply Accepts Applies
  cases hgiven : r.given with
  | false => exact .inr (.inl ⟨nofun, by simp, rfl⟩)
  | true =>
      cases hkey : config.hasKey r.key with
      | error => exact .inl ⟨by simp, rfl⟩
      | ok found =>
          cases found with
          | false => exact .inr (.inl ⟨by simp, by simp, rfl⟩)
          | true =>
              have happly := Yaml.assign_eq config "rmf_fleet" (r.key :: r.path)
                (.leaf (.str r.value))
              rw [List.map_cons] at happly
              cases hput : config.put (.str "rmf_fleet") (.str r.key :: r.path.map .str)
                  (.leaf (.str r.value)) with
              | none =>
                  rw [hput] at happly
                  refine .inl ⟨fun h => ?_, ?_⟩
                  · rcases h rfl with h | ⟨-, h⟩
                    · cases h
                    · exact Document.put_eq_none_iff.mp hput h
                  · exact happly
              | some c =>
                  rw [hput] at happly
                  refine .inr (.inr ⟨fun _ => .inr ⟨rfl, ?_⟩, ⟨rfl, rfl⟩, c, ?_, rfl⟩)
                  · by_contra h
                    rw [Document.put_eq_none_iff.mpr h] at hput
                    cases hput
                  · exact happly

/-- Neither puts anything where, or above where, the other does. -/
def Apart (r r' : Replacement) : Prop := ¬ r.target <+: r'.target ∧ ¬ r'.target <+: r.target

instance : Std.Symm Apart := ⟨fun _ _ h => ⟨h.2, h.1⟩⟩

section

variable (hput : config.put (.str "rmf_fleet") (.str r.key :: r.path.map .str)
  (.leaf (.str r.value)) = some c) (happlies : r.Applies config)

include hput

theorem shape?_put (path : List Scalar) :
    c.shape? path = if path = r.target then some (.leaf (.str r.value))
      else if r.target <+: path then none else config.shape? path :=
  Document.shape?_put hput path

include happlies

theorem applies_put (r' : Replacement) : r'.Applies c ↔ r'.Applies config := by
  unfold Applies
  rw [Yaml.hasKey_put hput happlies.2]

theorem accepts_put (hapart : Apart r r') : r'.Accepts c ↔ r'.Accepts config := by
  have habove : ¬ r.target <+: r'.target.dropLast := fun h =>
    hapart.1 (h.trans (List.dropLast_prefix _))
  unfold Accepts
  rw [Yaml.hasKey_put hput happlies.2, shape?_put hput, if_neg habove,
    if_neg fun h : r'.target.dropLast = r.target => habove (h ▸ List.prefix_rfl)]

end

end Replacement

/-! ### All of them -/

/-- Once a replacement has been made, what is left to fill in. -/
theorem filled_put {r : Replacement} {replacements : List Replacement}
    (hapart : ∀ r' ∈ replacements, r.Apart r') (happlies : r.Applies config)
    (hput : config.put (.str "rmf_fleet") (.str r.key :: r.path.map .str)
      (.leaf (.str r.value)) = some c) (path : List Scalar) :
    filled replacements c path = filled (r :: replacements) config path := by
  have hfind : replacements.find? (fun r => r.Applies c ∧ r.target <+: path) =
      replacements.find? fun r => r.Applies config ∧ r.target <+: path := by
    simp only [Replacement.applies_put hput happlies]
  unfold filled
  rw [hfind]
  by_cases hunder : r.target <+: path
  · have hnone : replacements.find? (fun r => r.Applies config ∧ r.target <+: path) = none := by
      simp only [List.find?_eq_none, decide_eq_true_eq, not_and]
      intro r' hr' _ hunder'
      rcases List.prefix_or_prefix_of_prefix hunder hunder' with h | h
      · exact (hapart r' hr').1 h
      · exact (hapart r' hr').2 h
    rw [hnone, List.find?_cons_of_pos (by simpa using ⟨happlies, hunder⟩),
      Replacement.shape?_put hput]
    simp [hunder]
  · rw [List.find?_cons_of_neg (by simp [hunder]), Replacement.shape?_put hput,
      if_neg fun h : path = r.target => hunder (h ▸ List.prefix_rfl), if_neg hunder]

theorem filled_cons_of_not_applies {r : Replacement} (happlies : ¬ r.Applies config)
    (replacements : List Replacement) (path : List Scalar) :
    filled (r :: replacements) config path = filled replacements config path := by
  unfold filled
  rw [List.find?_cons_of_neg (by simp [happlies])]

/-- What is away from all that is filled in is as it was. -/
theorem filled_of_forall {replacements : List Replacement} {path : List Scalar}
    (h : ∀ r ∈ replacements, ¬ r.target <+: path) (template : Yaml) :
    filled replacements template path = template.shape? path := by
  have hnone : replacements.find? (fun r => r.Applies template ∧ r.target <+: path) = none := by
    simp only [List.find?_eq_none, decide_eq_true_eq, not_and]
    exact fun r hr _ => h r hr
  rw [filled, hnone]

/-- What is filled in is at its place. -/
theorem filled_target {replacements : List Replacement}
    (hapart : replacements.Pairwise Replacement.Apart) {r : Replacement} (hr : r ∈ replacements)
    {template : Yaml} (happlies : r.Applies template) :
    filled replacements template r.target = some (.leaf (.str r.value)) := by
  unfold filled
  cases hfind : replacements.find? fun r' => r'.Applies template ∧ r'.target <+: r.target with
  | none => simpa [happlies] using List.find?_eq_none.mp hfind r hr
  | some r' =>
      have hfound := List.find?_some hfind
      obtain ⟨-, hunder⟩ := of_decide_eq_true hfound
      obtain rfl : r' = r := by
        by_contra hne
        have hr' := List.mem_of_find?_eq_some hfind
        exact (hapart.forall hr' hr hne).1 hunder
      exact if_pos rfl

/-- Replacements that are apart are made as if at once. -/
theorem fills_foldlM {replacements : List Replacement}
    (hapart : replacements.Pairwise Replacement.Apart) (config : Yaml) :
    Fills replacements config (replacements.foldlM (fun config r => r.apply config) config) := by
  induction replacements generalizing config with
  | nil => exact ⟨nofun, fun _ => rfl⟩
  | cons r replacements ih =>
      obtain ⟨hr, hapart⟩ := List.pairwise_cons.mp hapart
      rw [List.foldlM_cons]
      rcases r.apply_cases config with ⟨hrefused, e⟩ | ⟨haccepts, hnot, e⟩ |
        ⟨haccepts, happlies, c, e, hput⟩
      · rw [e]
        exact ⟨r, List.mem_cons_self, hrefused⟩
      · rw [e]
        refine (ih hapart config).imp ?_ ?_
        · rintro c ⟨hall, hfilled⟩
          refine ⟨List.forall_mem_cons.mpr ⟨haccepts, hall⟩, fun path => ?_⟩
          rw [hfilled, filled_cons_of_not_applies hnot]
        · rintro ⟨r', hr', hrefused⟩
          exact ⟨r', List.mem_cons_of_mem _ hr', hrefused⟩
      · rw [e]
        have haccepts' {r' : Replacement} (hr' : r' ∈ replacements) :
            r'.Accepts c ↔ r'.Accepts config := Replacement.accepts_put hput happlies (hr r' hr')
        refine (ih hapart c).imp ?_ ?_
        · rintro c' ⟨hall, hfilled⟩
          refine ⟨List.forall_mem_cons.mpr ⟨haccepts, fun r' hr' => ?_⟩, fun path => ?_⟩
          · exact (haccepts' hr').mp (hall r' hr')
          · rw [hfilled, filled_put hr happlies hput]
        · rintro ⟨r', hr', hrefused⟩
          exact ⟨r', List.mem_cons_of_mem _ hr', mt (haccepts' hr').mpr hrefused⟩

end

theorem FleetAdapterParams.apart_replacements (p : FleetAdapterParams) :
    p.replacements.Pairwise Replacement.Apart := by
  simp [replacements, Replacement.Apart, Replacement.target]

theorem FleetAdapterParams.createFleetConfig_fills (p : FleetAdapterParams) (template : Yaml) :
    Fills p.replacements template (p.createFleetConfig template) :=
  fills_foldlM p.apart_replacements template

/-- What writing the file comes to. -/
def FillsFile (p : FleetAdapterParams) (files : Files) : Except Unit Yaml → Prop
  | .ok config =>
      ∃ template, files.template = .ok template ∧ Fills p.replacements template (.ok config) ∧
        files.named p.filePrefix = true ∧ files.dumped config = true
  | .error _ =>
      files.template = .error () ∨ ∃ template, files.template = .ok template ∧
        (Fills p.replacements template (.error ()) ∨ files.named p.filePrefix = false ∨
          ∃ config, p.createFleetConfig template = .ok config ∧ files.dumped config = false)

/-- **The configuration is the template, filled in.**  Nothing is raised just where the template can
be read, each part asked for can be looked for and, if the template has it, put, and the file can be
made and written; and then what is asked for is at its place, where the template has that, and
everything else is as it was. -/
theorem createFleetConfigFile_fills (p : FleetAdapterParams) (files : Files) :
    FillsFile p files (p.createFleetConfigFile files) := by
  unfold FleetAdapterParams.createFleetConfigFile
  cases htemplate : files.template with
  | error => exact .inl htemplate
  | ok template =>
      have hfills := p.createFleetConfig_fills template
      simp only [bind, Except.bind]
      cases hconfig : p.createFleetConfig template with
      | error =>
          rw [hconfig] at hfills
          exact .inr ⟨template, htemplate, .inl hfills⟩
      | ok config =>
          rw [hconfig] at hfills
          dsimp only
          split
          · rename_i hnamed
            split
            · rename_i hdumped
              exact ⟨template, htemplate, hfills, hnamed, hdumped⟩
            · rename_i hdumped
              exact .inr ⟨template, htemplate,
                .inr (.inr ⟨config, hconfig, Bool.eq_false_iff.mpr hdumped⟩)⟩
          · rename_i hnamed
            exact .inr ⟨template, htemplate, .inr (.inl (Bool.eq_false_iff.mpr hnamed))⟩

-- an entry without a value is found, and takes none
example :
    FleetAdapterParams.createFleetConfig ⟨"fleet_a", ["charger_1"], "", "Floor1"⟩
      (.table [(.str "rmf_fleet", .table [(.str "robot_template", .leaf .none)])]) =
        .error () := rfl

end EgbFleet.Spawner
