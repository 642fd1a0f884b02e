import Mathlib.Data.List.Basic

/-!
# Support — runs of a step system

A step system (`Lts`) has a start state and a partial step function.  `Run L P s as t` is a run
from `s` through the actions `as` to `t`, each of whose steps meets the condition `P` in the
state it is taken from.  `Reach L P` is the set of states such runs reach from the start.

* `Run.preserves`: what every `P`-step preserves, every `P`-run preserves.
* `Reach.invariant`: what holds at the start and is preserved holds of every reachable state;
  `Reach.invariant_of` is the same, where more is known of the reachable states already.
* `Takes Q s as`: some step of the run through `as` from `s` is one of `Q`; `Run.trace` is the
  invariance of what is said of such steps and of the state reached.
* `run_of_runs`: the evaluator `runs` only computes runs.
-/

universe u v

/-- A start state, and what an action does to a state; `none` where it is not enabled. -/
structure Lts (σ : Type u) (α : Type v) where
  init : σ
  step : σ → α → Option σ

namespace Lts

variable {σ : Type u} {α : Type v} {L : Lts σ α} {P : σ → α → Prop}

/-- A run from `s` through `as` to `t`, every step of which meets `P`. -/
inductive Run (L : Lts σ α) (P : σ → α → Prop) : σ → List α → σ → Prop where
  | nil (s : σ) : Run L P s [] s
  | cons {s s' t : σ} {a : α} {as : List α}
      (hP : P s a) (h : L.step s a = some s') (r : Run L P s' as t) : Run L P s (a :: as) t

/-- The states `P`-runs reach from the start. -/
def Reach (L : Lts σ α) (P : σ → α → Prop) (t : σ) : Prop := ∃ as, L.Run P L.init as t

theorem Run.snoc {s t t' : σ} {a : α} {as : List α} (r : L.Run P s as t) (hP : P t a)
    (h : L.step t a = some t') : L.Run P s (as ++ [a]) t' := by
  induction r with
  | nil => exact .cons hP h (.nil _)
  | cons hP' h' _ ih => exact .cons hP' h' (ih hP h)

theorem Reach.init : L.Reach P L.init := ⟨[], .nil _⟩

theorem Reach.step {s s' : σ} {a : α} (hs : L.Reach P s) (hP : P s a)
    (h : L.step s a = some s') : L.Reach P s' :=
  let ⟨as, r⟩ := hs
  ⟨as ++ [a], r.snoc hP h⟩

/-- A run whose actions meet a condition, whatever the states they are taken in. -/
theorem Run.of_mem {s t : σ} {as : List α} (h : L.Run (fun _ _ => True) s as t)
    (hP : ∀ a ∈ as, ∀ s, P s a) : L.Run P s as t := by
  induction h with
  | nil => exact .nil _
  | cons _ hstep _ ih =>
      refine .cons (hP _ List.mem_cons_self _) hstep (ih fun a ha => ?_)
      exact hP a (List.mem_cons_of_mem _ ha)

/-- What every `P`-step preserves, every `P`-run preserves. -/
theorem Run.preserves {I : σ → Prop}
    (hI : ∀ s a s', P s a → L.step s a = some s' → I s → I s') {s t : σ} {as : List α}
    (h : L.Run P s as t) (hs : I s) : I t := by
  induction h with
  | nil => exact hs
  | cons hP h _ ih => exact ih (hI _ _ _ hP h hs)

/-- **Invariance.**  What holds at the start and every `P`-step preserves holds of every state
`P`-runs reach. -/
theorem Reach.invariant {I : σ → Prop} (h₀ : I L.init)
    (hI : ∀ s a s', P s a → L.step s a = some s' → I s → I s') {t : σ} (h : L.Reach P t) : I t :=
  let ⟨_, ha⟩ := h
  ha.preserves hI h₀

/-- Invariance, where `J` is known of every state `P`-runs reach. -/
theorem Reach.invariant_of {I J : σ → Prop} (hJ : ∀ s, L.Reach P s → J s) (h₀ : I L.init)
    (hI : ∀ s a s', P s a → L.step s a = some s' → J s → I s → I s') {t : σ}
    (h : L.Reach P t) : I t := by
  suffices L.Reach P t ∧ I t from this.2
  refine h.invariant (I := fun s => L.Reach P s ∧ I s) ⟨.init, h₀⟩ ?_
  rintro s a s' hP hstep ⟨hr, hi⟩
  exact ⟨hr.step hP hstep, hI s a s' hP hstep (hJ s hr) hi⟩

/-! ### Steps of a run -/

/-- Some step of the run through these actions is one of `Q`. -/
inductive Takes (L : Lts σ α) (Q : σ → α → σ → Prop) : σ → List α → Prop where
  | here {s s' : σ} {a : α} {as : List α} (h : L.step s a = some s') (hQ : Q s a s') :
      Takes L Q s (a :: as)
  | later {s s' : σ} {a : α} {as : List α} (h : L.step s a = some s') (ht : Takes L Q s' as) :
      Takes L Q s (a :: as)

variable {Q : σ → α → σ → Prop}

theorem not_takes_nil (s : σ) : ¬ L.Takes Q s [] := nofun

theorem takes_cons {s s' : σ} {a : α} {as : List α} (h : L.step s a = some s') :
    L.Takes Q s (a :: as) ↔ Q s a s' ∨ L.Takes Q s' as := by
  constructor
  · rintro (⟨h', hQ⟩ | ⟨h', ht⟩)
    · cases h.symm.trans h'; exact .inl hQ
    · cases h.symm.trans h'; exact .inr ht
  · rintro (hQ | ht)
    · exact .here h hQ
    · exact .later h ht

theorem Run.takes_snoc {s t t' : σ} {a : α} {as : List α} (r : L.Run P s as t)
    (h : L.step t a = some t') : L.Takes Q s (as ++ [a]) ↔ L.Takes Q s as ∨ Q t a t' := by
  induction r with
  | nil s =>
      rw [List.nil_append, takes_cons h, or_comm]
      exact or_congr_left (iff_of_false (not_takes_nil _) (not_takes_nil _))
  | cons _ h' _ ih => rw [List.cons_append, takes_cons h', takes_cons h', ih h, or_assoc]

/-- What holds of no steps, and of one step more if it held before, holds of a run. -/
theorem Run.trace {I : List α → σ → Prop} {s t : σ} {as : List α} (h : L.Run P s as t)
    (h₀ : I [] s) (hI : ∀ as u a u', L.Run P s as u → P u a → L.step u a = some u' → I as u →
      I (as ++ [a]) u') : I as t := by
  suffices ∀ done u rest, L.Run P s done u → I done u → L.Run P u rest t → I (done ++ rest) t from
    this [] s as (.nil s) h₀ h
  intro done u rest hdone hu hrest
  induction hrest generalizing done with
  | nil => rwa [List.append_nil]
  | @cons u u' t a rest hP hstep _ ih =>
      rw [List.append_cons]
      exact ih h (done ++ [a]) (hdone.snoc hP hstep) (hI done u a u' hdone hP hstep hu)

/-! ### Evaluating runs -/

/-- Take the steps `as` from `s`, checking `P` before each. -/
def runs (L : Lts σ α) (P : σ → α → Prop) [∀ s a, Decidable (P s a)] : σ → List α → Option σ
  | s, [] => some s
  | s, a :: as => if P s a then (L.step s a).bind (runs L P · as) else none

theorem run_of_runs [∀ s a, Decidable (P s a)] :
    ∀ {as : List α} {s t : σ}, L.runs P s as = some t → L.Run P s as t
  | [], s, t, h => by cases h; exact .nil _
  | a :: as, s, t, h => by
      simp only [runs] at h
      split at h
      · rename_i hP
        obtain ⟨s', hs, ht⟩ := Option.bind_eq_some_iff.mp h
        exact .cons hP hs (run_of_runs ht)
      · cases h

/-- The run `runs` computes, and what it shows of the state it ends in. -/
theorem exists_run (L : Lts σ α) (P : σ → α → Prop) [∀ s a, Decidable (P s a)] (s : σ)
    (as : List α) (Q : σ → Bool) (h : (L.runs P s as).any Q = true) :
    ∃ t, L.Run P s as t ∧ Q t = true :=
  let ⟨t, ht, hQ⟩ := (Option.any_eq_true _ _).mp h
  ⟨t, run_of_runs ht, hQ⟩

end Lts
