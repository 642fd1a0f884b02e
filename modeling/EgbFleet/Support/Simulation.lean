import EgbFleet.Support.Runs

/-!
# Support — simulation of step systems

`L` is simulated by `M` through a map `f` of its states if each step of `L` becomes a run of `M`,
of any number of steps.  `Run.simulates`: then each run of `L` becomes a run of `M`; and so what is
known of the states `M` reaches is known of those of `L` (`Reach.simulates`).  An invariant of `L`
may be used, and kept, on the way.

`Run.filter`: the steps that change nothing a relation tells apart may be left out of a run.
-/

universe u v

namespace Lts

variable {σ τ : Type u} {α β : Type v} {L : Lts σ α} {M : Lts τ β} {P : σ → α → Prop}
  {Q : τ → β → Prop} {f : σ → τ} {I : σ → Prop}

theorem Run.imp {P' : σ → α → Prop} (hP : ∀ s a, P s a → P' s a) {s t : σ} {as : List α}
    (h : L.Run P s as t) : L.Run P' s as t := by
  induction h with
  | nil => exact .nil _
  | cons h hstep _ ih => exact .cons (hP _ _ h) hstep ih

theorem Run.append {s t u : τ} {as bs : List β} (h : M.Run Q s as t) (h' : M.Run Q t bs u) :
    M.Run Q s (as ++ bs) u := by
  induction h with
  | nil => exact h'
  | cons hQ hstep _ ih => exact .cons hQ hstep (ih h')

theorem Run.one {s t : τ} {b : β} (hQ : Q s b) (h : M.step s b = some t) : M.Run Q s [b] t :=
  .cons hQ h (.nil t)

/-- Each step of `L` keeps `I`, and becomes a run of `M`. -/
def Simulates (L : Lts σ α) (P : σ → α → Prop) (M : Lts τ β) (Q : τ → β → Prop) (f : σ → τ)
    (I : σ → Prop) : Prop :=
  ∀ s a s', P s a → L.step s a = some s' → I s → I s' ∧ ∃ bs, M.Run Q (f s) bs (f s')

theorem Run.simulates (hsim : Simulates L P M Q f I) {s t : σ} {as : List α} (h : L.Run P s as t)
    (hs : I s) : I t ∧ ∃ bs, M.Run Q (f s) bs (f t) := by
  induction h with
  | nil s => exact ⟨hs, [], .nil _⟩
  | cons hP hstep _ ih =>
      obtain ⟨hs', bs, hbs⟩ := hsim _ _ _ hP hstep hs
      obtain ⟨ht, cs, hcs⟩ := ih hs'
      exact ⟨ht, bs ++ cs, hbs.append hcs⟩

/-- **Simulation.**  The states `L` reaches become states `M` reaches. -/
theorem Reach.simulates (hsim : Simulates L P M Q f I) (hinit : f L.init = M.init)
    (h₀ : I L.init) {t : σ} (h : L.Reach P t) : I t ∧ M.Reach Q (f t) := by
  obtain ⟨as, hrun⟩ := h
  obtain ⟨ht, bs, hbs⟩ := hrun.simulates hsim h₀
  exact ⟨ht, bs, hinit ▸ hbs⟩

/-- **Leaving steps out.**  Where the steps that are left out are not seen by `R`, and the others
can be taken from related states, what is left is a run. -/
theorem Run.filter {keep : α → Bool} {R : σ → σ → Prop}
    (hother : ∀ s a s' t, keep a = false → L.step s a = some s' → R s t → R s' t)
    (hown : ∀ s a s' t, keep a = true → L.step s a = some s' → R s t →
      ∃ t', L.step t a = some t' ∧ R s' t')
    {s s' t : σ} {as : List α} (h : L.Run P s as s') (hR : R s t) :
    ∃ t', L.Run (fun _ _ => True) t (as.filter keep) t' ∧ R s' t' := by
  induction h generalizing t with
  | nil => exact ⟨t, .nil t, hR⟩
  | @cons s u s' a as _ hstep _ ih =>
      cases hkeep : keep a with
      | false =>
          rw [List.filter_cons_of_neg (by simp [hkeep])]
          exact ih (hother _ _ _ _ hkeep hstep hR)
      | true =>
          obtain ⟨u', hstep', hR'⟩ := hown _ _ _ _ hkeep hstep hR
          obtain ⟨t', hrun, hR''⟩ := ih hR'
          rw [List.filter_cons_of_pos hkeep]
          exact ⟨t', .cons trivial hstep' hrun, hR''⟩

end Lts
