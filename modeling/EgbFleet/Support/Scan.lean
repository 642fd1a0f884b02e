import Mathlib.Order.Lattice
import Mathlib.Data.List.Basic
import Mathlib.Data.List.DropRight
import Mathlib.Algebra.Notation.Defs
import Mathlib.Order.MinMax

/-!
# Support — scanning for the least

A loop over a list that keeps the first eligible element whose score is below all before it, and
below a bound it starts from (`least`).  What it keeps is the first of the eligible elements that
score least, `firstLeast_of_least`; it keeps one if some eligible element is below the bound,
`least_ne_none`.

`FirstLeast` depends on the order of the scores alone, `FirstLeast.of_strictMonoOn`.  Among some of
the elements it is the same element, if that is one of them, and `FirstLeast.holds_iff` says when it
is.

A loop that takes 0 for nothing seen yet (`refine`) keeps the least positive element after the last
0 (`leastPos_foldl`).
-/

universe u v

namespace Scan

variable {α : Type u} {ρ : Type v} [LinearOrder ρ] {eligible : α → Bool} {score : α → ρ}

/-- The least score so far, and the element it is the score of. -/
def least (eligible : α → Bool) (score : α → ρ) (best : ρ × Option α) (xs : List α) :
    ρ × Option α :=
  xs.foldl (fun best x =>
    if eligible x then if score x < best.1 then (score x, some x) else best else best) best

/-- One turn of the loop. -/
theorem least_cons (best : ρ × Option α) (x : α) (xs : List α) :
    least eligible score best (x :: xs) =
      if eligible x = true ∧ score x < best.1 then
        least eligible score (score x, some x) xs
      else least eligible score best xs := by
  by_cases he : eligible x = true
  · by_cases hs : score x < best.1
    · simp [least, he, hs]
    · simp [least, he, hs]
  · simp [least, he]

/-- What has been kept is only replaced. -/
theorem least_ne_none_of {best : ρ × Option α} (h : best.2 ≠ none) (xs : List α) :
    (least eligible score best xs).2 ≠ none := by
  induction xs generalizing best with
  | nil => exact h
  | cons x xs ih =>
      rw [least_cons]
      split
      · exact ih (Option.some_ne_none x)
      · exact ih h

/-- An eligible element below the bound is kept, or another one is. -/
theorem least_ne_none {best : ρ × Option α} {xs : List α} {x : α} (hx : x ∈ xs)
    (he : eligible x = true) (hs : score x < best.1) :
    (least eligible score best xs).2 ≠ none := by
  induction xs generalizing best with
  | nil => cases hx
  | cons y xs ih =>
      rw [least_cons]
      by_cases hy : eligible y = true ∧ score y < best.1
      · rw [if_pos hy]
        exact least_ne_none_of (Option.some_ne_none y) xs
      · rw [if_neg hy]
        refine ih ((List.mem_cons.mp hx).resolve_left ?_) hs
        rintro rfl
        exact hy ⟨he, hs⟩

/-! ### The first of the least -/

/-- `x`, at position `i`, is the first of the elements with `P` that score least. -/
structure FirstLeast (P : α → Prop) (score : α → ρ) (xs : List α) (i : ℕ) (x : α) : Prop where
  get : xs[i]? = some x
  holds : P x
  least : ∀ y ∈ xs, P y → score x ≤ score y
  first : ∀ k < i, ∀ y, xs[k]? = some y → P y → score x < score y

variable {P Q : α → Prop} {xs : List α} {i : ℕ} {x : α}

theorem FirstLeast.mem (h : FirstLeast P score xs i x) : x ∈ xs := List.mem_of_getElem? h.get

theorem FirstLeast.head {y : α} (hy : P y) (hle : ∀ z ∈ xs, P z → score y ≤ score z) :
    FirstLeast P score (y :: xs) 0 y where
  get := rfl
  holds := hy
  least := List.forall_mem_cons.mpr ⟨fun _ => le_rfl, hle⟩
  first k hk := absurd hk k.not_lt_zero

theorem FirstLeast.cons {y : α} (h : FirstLeast P score xs i x)
    (hlt : P y → score x < score y) : FirstLeast P score (y :: xs) (i + 1) x where
  get := by simpa using h.get
  holds := h.holds
  least := List.forall_mem_cons.mpr ⟨fun hP => (hlt hP).le, h.least⟩
  first := by
    rintro (_ | k) hk z hz hP
    · cases hz
      exact hlt hP
    · exact h.first k (Nat.lt_of_succ_lt_succ hk) z hz hP

/-- What is kept was kept before, and no eligible element scores below the bound; or it is below the
bound, and the first of the eligible elements that score least. -/
theorem firstLeast_of_least {best : ρ × Option α}
    (h : (least eligible score best xs).2 = some x) :
    (best.2 = some x ∧ ∀ y ∈ xs, eligible y = true → best.1 ≤ score y) ∨
      score x < best.1 ∧ ∃ i, FirstLeast (eligible · = true) score xs i x := by
  induction xs generalizing best with
  | nil => exact .inl ⟨h, fun y hy => absurd hy List.not_mem_nil⟩
  | cons y xs ih =>
      rw [least_cons] at h
      by_cases hy : eligible y = true ∧ score y < best.1
      · rw [if_pos hy] at h
        right
        rcases ih h with ⟨heq, hle⟩ | ⟨hlt, i, hi⟩
        · cases heq
          exact ⟨hy.2, 0, .head hy.1 hle⟩
        · exact ⟨hlt.trans hy.2, i + 1, hi.cons fun _ => hlt⟩
      · rw [if_neg hy] at h
        have hhead : eligible y = true → best.1 ≤ score y :=
          fun he => not_lt.mp fun hlt => hy ⟨he, hlt⟩
        rcases ih h with ⟨heq, hle⟩ | ⟨hlt, i, hi⟩
        · exact .inl ⟨heq, List.forall_mem_cons.mpr ⟨hhead, hle⟩⟩
        · exact .inr ⟨hlt, i + 1, hi.cons fun he => hlt.trans_le (hhead he)⟩

/-- The loop from nothing kept, where it keeps an element. -/
theorem firstLeast_of_least_none {bound : ρ}
    (h : (least eligible score (bound, none) xs).2 = some x) :
    score x < bound ∧ ∃ i, FirstLeast (eligible · = true) score xs i x :=
  (firstLeast_of_least h).resolve_left fun hnone => Option.some_ne_none x hnone.1.symm

/-- It keeps none exactly if no eligible element is below the bound. -/
theorem least_eq_none_iff {bound : ρ} :
    (least eligible score (bound, none) xs).2 = none ↔
      ∀ x ∈ xs, eligible x = true → bound ≤ score x := by
  constructor
  · intro h x hx he
    exact not_lt.mp fun hlt => least_ne_none hx he hlt h
  · intro h
    by_contra hne
    obtain ⟨x, hx⟩ := Option.ne_none_iff_exists'.mp hne
    obtain ⟨hlt, i, hi⟩ := firstLeast_of_least_none hx
    exact (h x hi.mem hi.holds).not_gt hlt

/-- The elements' positions, where the list is scanned together with them. -/
theorem FirstLeast.of_zipIdx {y : α × ℕ}
    (h : FirstLeast (fun y => P y.1) (fun y => score y.1) xs.zipIdx i y) :
    FirstLeast P score xs y.2 y.1 := by
  obtain ⟨x, j⟩ := y
  have hget (k : ℕ) (z : α) (hz : xs[k]? = some z) : xs.zipIdx[k]? = some (z, k) := by
    simp [hz]
  have hij : xs[j]? = some x := List.mk_mem_zipIdx_iff_getElem?.mp h.mem
  obtain rfl : j = i := by
    have := h.get
    simp at this
    exact this.2.symm
  refine ⟨hij, h.holds, fun z hz => ?_, fun k hk z hz => h.first k hk (z, k) (hget k z hz)⟩
  obtain ⟨k, hk⟩ := List.mem_iff_getElem?.mp hz
  exact h.least (z, k) (List.mem_of_getElem? (hget k z hk))

theorem FirstLeast.congr {score' : α → ρ} (h : FirstLeast P score xs i x) (hPQ : ∀ y, P y ↔ Q y)
    (hs : ∀ y, Q y → score y = score' y) : FirstLeast Q score' xs i x := by
  have hx := (hPQ x).mp h.holds
  refine ⟨h.get, hx, fun y hy hQ => ?_, fun k hk y hy hQ => ?_⟩
  · rw [← hs x hx, ← hs y hQ]
    exact h.least y hy ((hPQ y).mpr hQ)
  · rw [← hs x hx, ← hs y hQ]
    exact h.first k hk y hy ((hPQ y).mpr hQ)

/-- Only the order of the scores counts. -/
theorem FirstLeast.of_strictMonoOn {σ : Type*} [LinearOrder σ] {f : ρ → σ} {s : Set ρ}
    (hf : StrictMonoOn f s) (hs : ∀ x, P x → score x ∈ s) :
    FirstLeast P (fun x => f (score x)) xs i x ↔ FirstLeast P score xs i x := by
  constructor
  · intro h
    refine ⟨h.get, h.holds, fun y hy hP => ?_, fun k hk y hy hP => ?_⟩
    · exact (hf.le_iff_le (hs x h.holds) (hs y hP)).mp (h.least y hy hP)
    · exact (hf.lt_iff_lt (hs x h.holds) (hs y hP)).mp (h.first k hk y hy hP)
  · intro h
    refine ⟨h.get, h.holds, fun y hy hP => ?_, fun k hk y hy hP => ?_⟩
    · exact (hf.le_iff_le (hs x h.holds) (hs y hP)).mpr (h.least y hy hP)
    · exact (hf.lt_iff_lt (hs x h.holds) (hs y hP)).mpr (h.first k hk y hy hP)

/-- The first of the least stays the first of the least among fewer elements, if it is one of
them. -/
theorem FirstLeast.restrict (h : FirstLeast Q score xs i x) (hPQ : ∀ y, P y → Q y) (hP : P x) :
    FirstLeast P score xs i x :=
  ⟨h.get, hP, fun y hy hPy => h.least y hy (hPQ y hPy),
    fun k hk y hy hPy => h.first k hk y hy (hPQ y hPy)⟩

/-- It is one of them exactly if each of the others is beaten by one of them. -/
theorem FirstLeast.holds_iff (h : FirstLeast Q score xs i x) (hPQ : ∀ y, P y → Q y) :
    P x ↔ ∀ (k : ℕ) (y : α), xs[k]? = some y → Q y → ¬ P y →
      ∃ (l : ℕ) (z : α), xs[l]? = some z ∧ P z ∧
        (score z < score y ∨ score z = score y ∧ l < k) := by
  constructor
  · intro hP k y hy hQ hnot
    have hle := h.least y (List.mem_of_getElem? hy) hQ
    refine ⟨i, x, h.get, hP, hle.lt_or_eq.imp_right fun heq => ⟨heq, ?_⟩⟩
    rcases lt_trichotomy i k with hlt | rfl | hgt
    · exact hlt
    · -- not `x` itself, of which `P` holds
      cases h.get.symm.trans hy
      exact absurd hP hnot
    · exact absurd heq (h.first k hgt y hy hQ).ne
  · intro hbeaten
    by_contra hnot
    obtain ⟨l, z, hz, hPz, hlt | ⟨heq, hl⟩⟩ := hbeaten i x h.get h.holds hnot
    · exact (h.least z (List.mem_of_getElem? hz) (hPQ z hPz)).not_gt hlt
    · exact (h.first l hl z hz (hPQ z hPz)).ne heq.symm

/-! ### Zero for nothing seen yet -/

section

variable [Zero ρ]

/-- The lesser of what is kept and `x`, where 0 is nothing kept. -/
def refine (kept x : ρ) : ρ := if 0 < kept then min kept x else x

/-- `v` is the least positive element, or 0 if there is none. -/
def LeastPos (xs : List ρ) (v : ρ) : Prop :=
  (v ∈ xs ∧ 0 < v ∧ ∀ x ∈ xs, 0 < x → v ≤ x) ∨ (v = 0 ∧ ∀ x ∈ xs, ¬ 0 < x)

theorem LeastPos.concat {xs : List ρ} {v x : ρ} (h : LeastPos xs v) (hx : 0 < x) :
    LeastPos (xs ++ [x]) (refine v x) := by
  left
  rcases h with ⟨hmem, hpos, hle⟩ | ⟨rfl, hnone⟩
  · rw [refine, if_pos hpos]
    refine ⟨?_, lt_min hpos hx, fun y hy hypos => ?_⟩
    · rcases min_choice v x with e | e
      · simp [e, hmem]
      · simp [e]
    · rcases List.mem_append.mp hy with hy | hy
      · exact (min_le_left v x).trans (hle y hy hypos)
      · rw [List.mem_singleton.mp hy]
        exact min_le_right v x
  · rw [refine, if_neg (lt_irrefl _)]
    refine ⟨by simp, hx, fun y hy hypos => ?_⟩
    rcases List.mem_append.mp hy with hy | hy
    · exact absurd hypos (hnone y hy)
    · rw [List.mem_singleton.mp hy]

/-- The loop forgets what stands before the last 0. -/
theorem leastPos_foldl {xs : List ρ} (h : ∀ x ∈ xs, 0 ≤ x) :
    LeastPos (xs.rtakeWhile fun x => 0 < x) (xs.foldl refine 0) := by
  induction xs using List.reverseRecOn with
  | nil => exact .inr ⟨rfl, by simp⟩
  | append_singleton xs x ih =>
      have hxs := ih fun y hy => h y (List.mem_append_left _ hy)
      rw [List.foldl_append, List.foldl_cons, List.foldl_nil, List.rtakeWhile_concat]
      rcases (h x (by simp)).eq_or_lt with rfl | hx
      · -- 0 is kept, whatever was
        rw [if_neg (by simp), refine]
        refine .inr ⟨?_, by simp⟩
        split
        · rename_i hpos
          exact min_eq_right hpos.le
        · rfl
      · rw [if_pos (by simpa using hx)]
        exact hxs.concat hx

/-- So it keeps the least positive element exactly if none before the last 0 is less than all after
it. -/
theorem leastPos_foldl_iff {xs : List ρ} (h : ∀ x ∈ xs, 0 ≤ x) :
    LeastPos xs (xs.foldl refine 0) ↔
      ∀ x ∈ xs, 0 < x → ∃ y ∈ xs.rtakeWhile fun x => 0 < x, y ≤ x := by
  have hpos : ∀ y ∈ xs.rtakeWhile fun x => 0 < x, 0 < y := fun y hy => by
    simpa using List.mem_rtakeWhile_imp hy
  have hlast := leastPos_foldl h
  generalize xs.foldl refine 0 = v at hlast
  constructor
  · rintro (⟨-, hv, hle⟩ | ⟨-, hnone⟩) x hx hxpos
    · rcases hlast with ⟨hmem, -, -⟩ | ⟨rfl, -⟩
      · exact ⟨v, hmem, hle x hx hxpos⟩
      · exact absurd hv (lt_irrefl _)
    · exact absurd hxpos (hnone x hx)
  · intro hafter
    rcases hlast with ⟨hmem, hv, hle⟩ | ⟨rfl, hnone⟩
    · refine .inl ⟨(List.rtakeWhile_suffix _ _).subset hmem, hv, fun x hx hxpos => ?_⟩
      obtain ⟨y, hy, hyx⟩ := hafter x hx hxpos
      exact (hle y hy (hpos y hy)).trans hyx
    · refine .inr ⟨rfl, fun x hx hxpos => ?_⟩
      obtain ⟨y, hy, -⟩ := hafter x hx hxpos
      exact hnone y hy (hpos y hy)

end

end Scan
