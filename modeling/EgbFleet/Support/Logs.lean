import Mathlib.Data.List.Basic

/-!
# Support — logs

A log is a list of events, the newest first.  `Justified Φ h` says that every event of `h` met
`Φ` against the log before it, so a property of what had happened *when* an event happened is a
property of the final log.  `Happened Φ h` says that some event did.  `Grows p h h'` says that
`h'` adds to `h` only events of which `p` holds.
-/

universe u

namespace Log

variable {ε : Type u} {Φ Ψ : ε → List ε → Prop}

/-- Every event of the log met `Φ` against what the log held before it. -/
def Justified (Φ : ε → List ε → Prop) : List ε → Prop
  | [] => True
  | e :: h => Φ e h ∧ Justified Φ h

@[simp] theorem justified_nil : Justified Φ [] := trivial

@[simp] theorem justified_cons {e : ε} {h : List ε} :
    Justified Φ (e :: h) ↔ Φ e h ∧ Justified Φ h := Iff.rfl

theorem justified_iff {h : List ε} :
    Justified Φ h ↔ ∀ h₁ e h₂, h = h₁ ++ e :: h₂ → Φ e h₂ := by
  induction h with
  | nil => simp
  | cons x h ih =>
      rw [justified_cons, ih]
      constructor
      · rintro ⟨hx, hh⟩ h₁ e h₂ eq
        cases h₁ with
        | nil => cases eq; exact hx
        | cons y h₁ => cases eq; exact hh h₁ e h₂ rfl
      · intro hh
        exact ⟨hh [] x h rfl, fun h₁ e h₂ eq => hh (x :: h₁) e h₂ (by rw [eq]; rfl)⟩

/-- `h'` is `h` with events added, of all of which `p` holds. -/
def Grows (p : ε → Bool) (h h' : List ε) : Prop := ∃ es, h' = es ++ h ∧ ∀ e ∈ es, p e = true

section Grows

variable {p : ε → Bool} {h h₁ h₂ h₃ : List ε}

theorem Grows.refl (h : List ε) : Grows p h h := ⟨[], rfl, by simp⟩

theorem Grows.cons (hg : Grows p h₁ h₂) {e : ε} (he : p e = true) : Grows p h₁ (e :: h₂) := by
  obtain ⟨es, rfl, hes⟩ := hg
  refine ⟨e :: es, rfl, fun x hx => ?_⟩
  rcases List.mem_cons.mp hx with rfl | hx
  · exact he
  · exact hes x hx

theorem Grows.trans (hg : Grows p h₁ h₂) (hg' : Grows p h₂ h₃) : Grows p h₁ h₃ := by
  obtain ⟨es, rfl, hes⟩ := hg
  obtain ⟨es', rfl, hes'⟩ := hg'
  refine ⟨es' ++ es, by rw [List.append_assoc], fun x hx => ?_⟩
  rcases List.mem_append.mp hx with hx | hx
  · exact hes' x hx
  · exact hes x hx

theorem Grows.mono {q : ε → Bool} (hg : Grows p h₁ h₂) (hpq : ∀ e, p e = true → q e = true) :
    Grows q h₁ h₂ :=
  let ⟨es, hl, hes⟩ := hg
  ⟨es, hl, fun e he => hpq e (hes e he)⟩

theorem Grows.suffix (hg : Grows p h₁ h₂) : h₁ <:+ h₂ :=
  let ⟨es, hl, _⟩ := hg
  ⟨es, hl.symm⟩

/-- An event of which `p` does not hold is not new. -/
theorem Grows.back (hg : Grows p h₁ h₂) {e : ε} (he : p e = false) (hm : e ∈ h₂) : e ∈ h₁ := by
  obtain ⟨es, rfl, hes⟩ := hg
  refine (List.mem_append.mp hm).resolve_left fun hx => ?_
  rw [hes e hx] at he
  cases he

theorem Grows.justified (hg : Grows p h₁ h₂) (hp : ∀ e h, p e = true → Φ e h)
    (hh : Justified Φ h₁) : Justified Φ h₂ := by
  obtain ⟨es, rfl, hes⟩ := hg
  induction es with
  | nil => exact hh
  | cons e es ih =>
      exact ⟨hp e _ (hes e List.mem_cons_self), ih fun x hx => hes x (List.mem_cons_of_mem e hx)⟩

/-- A function of the log that the events added do not change. -/
theorem Grows.eq {β : Type*} {f : List ε → β} (hg : Grows p h₁ h₂)
    (hf : ∀ e h, p e = true → f (e :: h) = f h) : f h₂ = f h₁ := by
  obtain ⟨es, rfl, hes⟩ := hg
  induction es with
  | nil => rfl
  | cons e es ih =>
      refine (hf e _ (hes e List.mem_cons_self)).trans (ih fun x hx => ?_)
      exact hes x (List.mem_cons_of_mem e hx)

theorem Grows.countP {q : ε → Bool} (hg : Grows p h₁ h₂) (hq : ∀ e, p e = true → q e = false) :
    h₂.countP q = h₁.countP q := by
  obtain ⟨es, rfl, hes⟩ := hg
  rw [List.countP_append, List.countP_eq_zero.mpr, Nat.zero_add]
  exact fun e he => by simp [hq e (hes e he)]

end Grows

theorem countP_cons (q : ε → Bool) (e : ε) (h : List ε) :
    (e :: h).countP q = h.countP q + (q e).toNat := by
  rw [List.countP_cons]
  cases q e <;> rfl

/-- One element of a list is replaced. -/
theorem countP_set {l : List ε} {k : Nat} {t : ε} (h : l[k]? = some t) (t' : ε) (q : ε → Bool) :
    (l.set k t').countP q + (q t).toNat = l.countP q + (q t').toNat := by
  obtain ⟨hk, rfl⟩ := List.getElem?_eq_some_iff.mp h
  rw [List.countP_set hk]
  have hpos : (q l[k]).toNat ≤ l.countP q := by
    cases hp : q l[k] with
    | false => exact Nat.zero_le _
    | true => exact List.countP_pos_iff.mpr ⟨_, List.getElem_mem hk, hp⟩
  have toNat (b : Bool) : (if b = true then 1 else 0) = b.toNat := by cases b <;> rfl
  rw [toNat, toNat]
  omega

/-- Some event of the log met `Φ` against what the log held before it. -/
def Happened (Φ : ε → List ε → Prop) : List ε → Prop
  | [] => False
  | e :: h => Φ e h ∨ Happened Φ h

@[simp] theorem not_happened_nil : ¬ Happened Φ [] := id

@[simp] theorem happened_cons {e : ε} {h : List ε} :
    Happened Φ (e :: h) ↔ Φ e h ∨ Happened Φ h := Iff.rfl

theorem happened_iff {h : List ε} : Happened Φ h ↔ ∃ h₁ e h₂, h = h₁ ++ e :: h₂ ∧ Φ e h₂ := by
  induction h with
  | nil => simp
  | cons x h ih =>
      rw [happened_cons, ih]
      constructor
      · rintro (hx | ⟨h₁, e, h₂, rfl, he⟩)
        · exact ⟨[], x, h, rfl, hx⟩
        · exact ⟨x :: h₁, e, h₂, rfl, he⟩
      · rintro ⟨h₁, e, h₂, eq, he⟩
        cases h₁ with
        | nil => cases eq; exact .inl he
        | cons y h₁ => cases eq; exact .inr ⟨h₁, e, h₂, rfl, he⟩

instance [∀ e h, Decidable (Φ e h)] : ∀ h, Decidable (Happened Φ h)
  | [] => inferInstanceAs (Decidable False)
  | e :: h =>
      have : Decidable (Happened Φ h) := instDecidableHappened h
      inferInstanceAs (Decidable (Φ e h ∨ Happened Φ h))

instance [∀ e h, Decidable (Φ e h)] : ∀ h, Decidable (Justified Φ h)
  | [] => inferInstanceAs (Decidable True)
  | e :: h =>
      have : Decidable (Justified Φ h) := instDecidableJustified h
      inferInstanceAs (Decidable (Φ e h ∧ Justified Φ h))

end Log
