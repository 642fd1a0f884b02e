import Mathlib.Data.Finset.Insert
import Mathlib.Data.List.Perm.Basic

/-!
# Support — collecting until an error

A loop over a list that collects what its body yields, and that an error of the body ends: what has
been collected is kept (`collect`).  It is complete exactly if nothing after the first error is
missing, `collect_complete_iff`.  The order of the list is of no matter exactly if the body raises
at no element, or yields at none, `collect_perm_iff`.
-/

universe u v w

namespace Collect

variable {α : Type u} {β : Type v} {ε : Type w}

/-- The body raises at `x`. -/
def Raises (f : α → Except ε (Option β)) (x : α) : Prop := ∃ e, f x = .error e

/-- The body yields `b` at `x`. -/
def Yields (f : α → Except ε (Option β)) (x : α) (b : β) : Prop := f x = .ok (some b)

variable {f : α → Except ε (Option β)} {xs : List α} {x : α} {b : β}

theorem Yields.not_raises (h : Yields f x b) : ¬ Raises f x := by
  rintro ⟨e, he⟩
  cases he.symm.trans h

/-- No element raises, or there is a first that does. -/
theorem raises_cases (f : α → Except ε (Option β)) (xs : List α) :
    (∀ x ∈ xs, ¬ Raises f x) ∨
      ∃ before x after, xs = before ++ x :: after ∧ (∀ y ∈ before, ¬ Raises f y) ∧ Raises f x := by
  induction xs with
  | nil => exact .inl fun x hx => absurd hx List.not_mem_nil
  | cons y xs ih =>
      by_cases hy : Raises f y
      · exact .inr ⟨[], y, xs, rfl, fun z hz => absurd hz List.not_mem_nil, hy⟩
      · rcases ih with hnone | ⟨before, x, after, rfl, hbefore, hx⟩
        · exact .inl (List.forall_mem_cons.mpr ⟨hy, hnone⟩)
        · exact .inr ⟨y :: before, x, after, rfl, List.forall_mem_cons.mpr ⟨hy, hbefore⟩, hx⟩

variable [DecidableEq β] {found : Finset β}

/-- The loop, and what it has collected at its end. -/
def collect (f : α → Except ε (Option β)) (found : Finset β) : List α → Finset β
  | [] => found
  | x :: xs =>
      match f x with
      | .error _ => found
      | .ok none => collect f found xs
      | .ok (some b) => collect f (insert b found) xs

theorem collect_cons_raises (h : Raises f x) : collect f found (x :: xs) = found := by
  obtain ⟨e, he⟩ := h
  simp [collect, he]

theorem collect_cons_yields (h : Yields f x b) :
    collect f found (x :: xs) = collect f (insert b found) xs := by
  rw [Yields] at h
  simp [collect, h]

/-- What has been collected is kept. -/
theorem mem_collect_of_mem (h : b ∈ found) : b ∈ collect f found xs := by
  induction xs generalizing found with
  | nil => exact h
  | cons x xs ih =>
      rw [collect]
      split
      · exact h
      · exact ih h
      · exact ih (Finset.mem_insert_of_mem h)

/-- Where nothing raises, it collects all that is yielded. -/
theorem mem_collect (h : ∀ x ∈ xs, ¬ Raises f x) :
    b ∈ collect f found xs ↔ b ∈ found ∨ ∃ x ∈ xs, Yields f x b := by
  induction xs generalizing found with
  | nil => simp [collect]
  | cons x xs ih =>
      obtain ⟨hx, hxs⟩ := List.forall_mem_cons.mp h
      rw [collect, List.exists_mem_cons_iff]
      split
      · rename_i e he
        exact absurd ⟨e, he⟩ hx
      · rename_i he
        have hnot : ¬ Yields f x b := by simp [Yields, he]
        rw [ih hxs, or_iff_right hnot]
      · rename_i c he
        have hiff : Yields f x b ↔ b = c := by simp [Yields, he, eq_comm]
        rw [ih hxs, hiff, Finset.mem_insert, or_assoc, or_left_comm]

/-- The first error ends the loop. -/
theorem collect_append_raises {before after : List α} (h : ∀ y ∈ before, ¬ Raises f y)
    (hx : Raises f x) : collect f found (before ++ x :: after) = collect f found before := by
  induction before generalizing found with
  | nil => exact collect_cons_raises hx
  | cons y before ih =>
      obtain ⟨hy, hbefore⟩ := List.forall_mem_cons.mp h
      rw [List.cons_append, collect, collect]
      split
      · rfl
      · exact ih hbefore
      · exact ih hbefore

/-- What is collected was there, or is yielded. -/
theorem yields_of_mem_collect (h : b ∈ collect f ∅ xs) : ∃ x ∈ xs, Yields f x b := by
  rcases raises_cases f xs with hnone | ⟨before, x, after, rfl, hbefore, hx⟩
  · exact ((mem_collect hnone).mp h).resolve_left (Finset.notMem_empty b)
  · rw [collect_append_raises hbefore hx, mem_collect hbefore] at h
    obtain ⟨y, hy, hyields⟩ := h.resolve_left (Finset.notMem_empty b)
    exact ⟨y, List.mem_append_left _ hy, hyields⟩

/-- **Completeness.**  All that is yielded is collected, just if what is yielded after the first
error is also yielded before it. -/
theorem collect_complete_iff :
    (∀ b, b ∈ collect f ∅ xs ↔ ∃ x ∈ xs, Yields f x b) ↔
      ∀ before x after, xs = before ++ x :: after → (∀ y ∈ before, ¬ Raises f y) → Raises f x →
        ∀ b, (∃ y ∈ after, Yields f y b) → ∃ y ∈ before, Yields f y b := by
  constructor
  · rintro h before x after rfl hbefore hx b ⟨y, hy, hyields⟩
    have hmem := (h b).mpr ⟨y, List.mem_append_right _ (List.mem_cons_of_mem x hy), hyields⟩
    rw [collect_append_raises hbefore hx, mem_collect hbefore] at hmem
    exact hmem.resolve_left (Finset.notMem_empty b)
  · intro h b
    refine ⟨yields_of_mem_collect, ?_⟩
    rcases raises_cases f xs with hnone | ⟨before, x, after, rfl, hbefore, hx⟩
    · exact fun hb => (mem_collect hnone).mpr (.inr hb)
    · rintro ⟨y, hy, hyields⟩
      rw [collect_append_raises hbefore hx, mem_collect hbefore]
      right
      rcases List.mem_append.mp hy with hy | hy
      · exact ⟨y, hy, hyields⟩
      · -- not the element that raises, so one after it
        rcases List.mem_cons.mp hy with rfl | hy
        · exact absurd hx hyields.not_raises
        · exact h before x after rfl hbefore hx b ⟨y, hy, hyields⟩

/-- **Order.**  The loop collects the same in any order, just if nothing raises or nothing is
yielded. -/
theorem collect_perm_iff :
    (∀ ys : List α, ys.Perm xs → collect f ∅ ys = collect f ∅ xs) ↔
      (∀ x ∈ xs, ¬ Raises f x) ∨ ∀ x ∈ xs, ∀ b, ¬ Yields f x b := by
  constructor
  · intro h
    by_contra! hboth
    obtain ⟨⟨x, hx, hraises⟩, ⟨y, hy, b, hyields⟩⟩ := hboth
    -- with `x` at the front nothing is collected; with `y` there, `b` is
    obtain ⟨before, after, hxs⟩ := List.append_of_mem hx
    have hempty := h (x :: (before ++ after)) (hxs ▸ List.perm_middle.symm)
    obtain ⟨before', after', hxs'⟩ := List.append_of_mem hy
    have hfull := h (y :: (before' ++ after')) (hxs' ▸ List.perm_middle.symm)
    rw [collect_cons_raises hraises] at hempty
    rw [collect_cons_yields hyields, ← hempty] at hfull
    exact Finset.notMem_empty b (hfull ▸ mem_collect_of_mem (Finset.mem_insert_self b ∅))
  · rintro (hnone | hnone) ys hperm
    · ext b
      rw [mem_collect hnone, mem_collect fun y hy => hnone y (hperm.mem_iff.mp hy)]
      simp only [hperm.mem_iff]
    · have hempty (zs : List α) (hzs : ∀ z ∈ zs, z ∈ xs) : collect f ∅ zs = ∅ := by
        refine Finset.eq_empty_of_forall_notMem fun b hb => ?_
        obtain ⟨z, hz, hyields⟩ := yields_of_mem_collect hb
        exact hnone z (hzs z hz) b hyields
      rw [hempty ys fun z hz => hperm.mem_iff.mp hz, hempty xs fun z hz => hz]

end Collect
