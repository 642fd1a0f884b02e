import EgbFleet.Frames.Conversion
import EgbFleet.Wire.ActionClient
import Mathlib.Data.String.Basic

/-!
# Frames — the buffer the robots share

The robots of the configuration have one `tf2_ros::Buffer` between them.  Each `TfHandler` offers it
the transforms its own robot sends, with the robot's name before the names of their frames, and
looks up the robot's pose between two frames so named.  The callbacks of several robots run at once;
what the buffer is offered is any interleaving of their transforms.

`getTransform_congr`: where no robot's name extends another's by a slash, a robot's pose depends on
its own transforms alone.  Only then are the names of their frames, and of their keys, different
(`namespacify_ne_iff`).
-/

noncomputable section

namespace EgbFleet.Frames

open Wire

/-! ### Names -/

/-- `name` and a slash are at the start of `frame`. -/
def Owns (name frame : String) : Prop := (name ++ "/").toList <+: frame.toList

instance (name frame : String) : Decidable (Owns name frame) :=
  inferInstanceAs (Decidable (_ <+: _))

/-- Both are names, and neither is the other with a slash and more after it. -/
structure Apart (a b : String) : Prop where
  left : a ≠ ""
  right : b ≠ ""
  not_owns : ¬ Owns a (b ++ "/")
  not_owns' : ¬ Owns b (a ++ "/")

theorem owns_namespacify {name topic : String} (hn : name ≠ "") (ht : topic ≠ "") :
    Owns name (namespacify name topic) := by
  rw [namespacify, if_pos ⟨hn, ht⟩, Owns, String.toList_append (s := name ++ "/")]
  exact List.prefix_append _ _

/-- What two names own, only one does if they are apart. -/
theorem Apart.not_owns_of_owns {a b frame : String} (h : Apart a b) (ha : Owns a frame) :
    ¬ Owns b frame := by
  intro hb
  rcases Nat.le_total (a ++ "/").toList.length (b ++ "/").toList.length with hle | hle
  · exact h.not_owns (List.prefix_of_prefix_length_le ha hb hle)
  · exact h.not_owns' (List.prefix_of_prefix_length_le hb ha hle)

/-- A name that another owns with its slash makes the same key. -/
theorem exists_namespacify_eq {a b : String} (ha : a ≠ "") (hb : b ≠ "") (h : Owns a (b ++ "/")) :
    ∃ x y, x ≠ "" ∧ y ≠ "" ∧ namespacify a x = namespacify b y := by
  obtain ⟨rest, hrest⟩ := h
  have hne : String.ofList rest ++ "y" ≠ "" := fun he => by
    simpa using congrArg String.toList he
  refine ⟨String.ofList rest ++ "y", "y", hne, by decide, ?_⟩
  rw [namespacify, if_pos ⟨ha, hne⟩, namespacify, if_pos ⟨hb, by decide⟩, ← String.append_assoc]
  congr 1
  apply String.toList_inj.mp
  rw [String.toList_append, String.toList_ofList, hrest]

/-- Names make different keys just if they are apart. -/
theorem namespacify_ne_iff {a b : String} (ha : a ≠ "") (hb : b ≠ "") :
    (∀ x y, x ≠ "" → y ≠ "" → namespacify a x ≠ namespacify b y) ↔ Apart a b := by
  constructor
  · intro h
    refine ⟨ha, hb, fun hab => ?_, fun hba => ?_⟩
    · obtain ⟨x, y, hx, hy, heq⟩ := exists_namespacify_eq ha hb hab
      exact h x y hx hy heq
    · obtain ⟨y, x, hy, hx, heq⟩ := exists_namespacify_eq hb ha hba
      exact h x y hx hy heq.symm
  · intro h x y hx hy heq
    exact h.not_owns_of_owns (owns_namespacify ha hx) (heq ▸ owns_namespacify hb hy)

/-- Different names without a slash are apart. -/
theorem apart_of_slash_free {a b : String} (ha : a ≠ "") (hb : b ≠ "") (hne : a ≠ b)
    (ha' : '/' ∉ a.toList) (hb' : '/' ∉ b.toList) : Apart a b := by
  have not_owns {a b : String} (hne : a ≠ b) (hb : '/' ∉ b.toList) : ¬ Owns a (b ++ "/") := by
    intro h
    simp only [Owns, String.toList_append] at h
    rcases List.prefix_concat_iff.mp h with heq | hle
    · exact hne (String.toList_inj.mp (List.append_cancel_right heq))
    · exact hb (hle.subset (List.mem_append_right _ (List.mem_singleton_self '/')))
  exact ⟨ha, hb, not_owns hne hb', not_owns hne.symm ha'⟩

/-! ### The handler -/

/-- `geometry_msgs/TransformStamped`. -/
structure TransformStamped where
  frameId : String
  childFrameId : String
  stamp : ℤ
  transform : RosPose

structure TfHandler where
  robotName : String
  robotFrame : String
  mapFrame : String

/-- A transform as `tf_callback` offers it to the buffer. -/
def TfHandler.namespaced (t : TfHandler) (transform : TransformStamped) : TransformStamped :=
  { transform with
    frameId := namespacify t.robotName transform.frameId
    childFrameId := namespacify t.robotName transform.childFrameId }

/-- `tf_callback`, of a payload: what it offers, in turn.  A payload that does not deserialise is
dropped, and a transform the buffer does not take is passed over. -/
def TfHandler.tfCallback (t : TfHandler) (payload : Option (List TransformStamped)) :
    List TransformStamped :=
  match payload with
  | none => []
  | some transforms => transforms.map t.namespaced

/-- `tf2_ros::Buffer::lookupTransform`, of the buffer that has been offered these transforms;
`none` where it raises. -/
abbrev Lookup := List TransformStamped → String → String → Option RosPose

/-- `get_transform`. -/
def TfHandler.getTransform (lookup : Lookup) (offered : List TransformStamped) (t : TfHandler) :
    Option RosPose :=
  lookup offered (namespacify t.robotName t.mapFrame) (namespacify t.robotName t.robotFrame)

def TransformStamped.named (o : TransformStamped) : Bool := o.frameId != "" && o.childFrameId != ""

/-- The buffer does not take a transform without the name of a frame, and a transform between two
frames is made of those that connect them. -/
structure Lookup.Documented (lookup : Lookup) : Prop where
  named : ∀ offered target source,
    lookup (offered.filter (·.named)) target source = lookup offered target source
  connected : ∀ (S : String → Bool) offered target source,
    (∀ o ∈ offered, S o.frameId = S o.childFrameId) → S target = true → S source = true →
      lookup (offered.filter fun o => S o.frameId) target source = lookup offered target source

/-! ### Several robots -/

/-- Each transform offered is between frames of the robot or between others. -/
def Split (name : String) (offered : List TransformStamped) : Prop :=
  ∀ o ∈ offered, o.named = true → (Owns name o.frameId ↔ Owns name o.childFrameId)

/-- The transforms offered that are between frames of the robot. -/
def ownOf (name : String) (offered : List TransformStamped) : List TransformStamped :=
  offered.filter fun o => o.named && decide (Owns name o.frameId)

variable {lookup : Lookup} {name : String} {t : TfHandler} {o : TransformStamped}

theorem Lookup.Documented.eq_ownOf (hl : lookup.Documented) {offered : List TransformStamped}
    (h : Split name offered) {target source : String} (ht : Owns name target)
    (hs : Owns name source) :
    lookup offered target source = lookup (ownOf name offered) target source := by
  rw [← hl.named offered, ← hl.connected (fun frame => decide (Owns name frame))
    (offered.filter (·.named)) target source ?_ (decide_eq_true ht) (decide_eq_true hs),
    List.filter_filter, ownOf]
  · simp only [Bool.and_comm]
  · intro o ho
    obtain ⟨ho, hnamed⟩ := List.mem_filter.mp ho
    exact decide_eq_decide.mpr (h o ho hnamed)

/-- **A robot's pose is of its own transforms.**  What else the buffer has been offered makes no
difference. -/
theorem getTransform_congr (hl : lookup.Documented) (hname : t.robotName ≠ "")
    (hmap : t.mapFrame ≠ "") (hrobot : t.robotFrame ≠ "") {offered offered' : List TransformStamped}
    (h : Split t.robotName offered) (h' : Split t.robotName offered')
    (heq : ownOf t.robotName offered = ownOf t.robotName offered') :
    t.getTransform lookup offered = t.getTransform lookup offered' := by
  have ht : Owns t.robotName (namespacify t.robotName t.mapFrame) := owns_namespacify hname hmap
  have hs : Owns t.robotName (namespacify t.robotName t.robotFrame) :=
    owns_namespacify hname hrobot
  rw [TfHandler.getTransform, TfHandler.getTransform, hl.eq_ownOf h ht hs, heq,
    hl.eq_ownOf h' ht hs]

theorem namespaced_named : (t.namespaced o).named = true ↔ o.named = true := by
  have key (topic : String) : namespacify t.robotName topic = "" ↔ topic = "" := by
    rw [namespacify]
    split
    · rename_i h
      refine iff_of_false (fun he => ?_) h.2
      simpa using congrArg String.toList he
    · exact Iff.rfl
  simp [TransformStamped.named, TfHandler.namespaced, key]

/-- The frames a robot names are its own. -/
theorem owns_namespaced (hname : t.robotName ≠ "") (ho : (t.namespaced o).named = true) :
    Owns t.robotName (t.namespaced o).frameId ∧ Owns t.robotName (t.namespaced o).childFrameId := by
  have ho := namespaced_named.mp ho
  simp only [TransformStamped.named, Bool.and_eq_true, bne_iff_ne] at ho
  exact ⟨owns_namespacify hname ho.1, owns_namespacify hname ho.2⟩

/-- Those another names are not. -/
theorem not_owns_namespaced (h : Apart name t.robotName) (ho : (t.namespaced o).named = true) :
    ¬ Owns name (t.namespaced o).frameId ∧ ¬ Owns name (t.namespaced o).childFrameId := by
  obtain ⟨hframe, hchild⟩ := owns_namespaced h.right ho
  exact ⟨fun hname => h.not_owns_of_owns hname hframe,
    fun hname => h.not_owns_of_owns hname hchild⟩

theorem ownOf_concat (name : String) (offered : List TransformStamped) (o : TransformStamped) :
    ownOf name (offered ++ [o]) = ownOf name offered ++ ownOf name [o] :=
  List.filter_append offered [o]

/-- The buffer is offered one more transform, by the robot or by another. -/
theorem Split.concat {offered : List TransformStamped} (h : Split name offered)
    (ht : t.robotName = name ∧ name ≠ "" ∨ Apart name t.robotName) :
    Split name (offered ++ [t.namespaced o]) := by
  intro o' ho' hnamed
  rcases List.mem_append.mp ho' with ho' | ho'
  · exact h o' ho' hnamed
  · rw [List.mem_singleton.mp ho'] at hnamed ⊢
    rcases ht with ⟨rfl, hname⟩ | hapart
    · obtain ⟨hframe, hchild⟩ := owns_namespaced hname hnamed
      exact iff_of_true hframe hchild
    · obtain ⟨hframe, hchild⟩ := not_owns_namespaced hapart hnamed
      exact iff_of_false hframe hchild

/-- One that another robot offers is not the robot's own. -/
theorem ownOf_namespaced (h : Apart name t.robotName) : ownOf name [t.namespaced o] = [] := by
  rw [ownOf, List.filter_eq_nil_iff]
  intro o' ho'
  rw [List.mem_singleton.mp ho', Bool.and_eq_true, decide_eq_true_iff]
  exact fun ⟨hnamed, hframe⟩ => (not_owns_namespaced h hnamed).1 hframe

/-- A lookup that finds the newest transform between the two frames, if there is one: so does the
buffer, where each tree has one transform. -/
def newestBetween : Lookup := fun offered target source =>
  (offered.reverse.find? fun o => o.named && o.frameId == target && o.childFrameId == source).map
    TransformStamped.transform

theorem newestBetween_documented : newestBetween.Documented where
  named := fun offered target source => by
    simp only [newestBetween, ← List.filter_reverse, List.find?_filter]
    congr 2
    funext o
    rw [Bool.eq_iff_iff]
    simp +contextual
  connected := fun S offered target source _ htarget _ => by
    simp only [newestBetween, ← List.filter_reverse, List.find?_filter]
    congr 2
    funext o
    rw [Bool.eq_iff_iff]
    simp only [decide_eq_true_eq, Bool.and_eq_true, beq_iff_eq, and_iff_right_iff_imp]
    rintro ⟨⟨-, rfl⟩, -⟩
    exact htarget

end EgbFleet.Frames

end
