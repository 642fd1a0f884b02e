import Mathlib.Data.List.Nodup
import Mathlib.Logic.Function.Basic
import Mathlib.Order.Lattice

/-!
# Support — tables

A list built by appending what it does not hold yet (`collect`), and a map built by assigning to
its keys, the last assignment of a key winning (`assign`).  Both hold just the keys they were given:
`mem_collect`, `assign_isSome`; the list holds each once, `nodup_collect`.

A `SortedTable` lists its entries by ascending key.  `emplace` leaves the entry of a key it finds
(`find_emplace`).
-/

universe u v

namespace Table

section

variable {κ : Type u} [DecidableEq κ]

/-- Append `k`, unless `ks` holds it. -/
def insertNew (ks : List κ) (k : κ) : List κ := if k ∈ ks then ks else ks ++ [k]

/-- Append each of `new` that is not held yet. -/
def collect (ks new : List κ) : List κ := new.foldl insertNew ks

theorem mem_insertNew {ks : List κ} {k x : κ} : x ∈ insertNew ks k ↔ x ∈ ks ∨ x = k := by
  by_cases h : k ∈ ks
  · simp only [insertNew, h, if_true]
    constructor
    · exact .inl
    · rintro (hx | rfl)
      · exact hx
      · exact h
  · simp [insertNew, h]

theorem nodup_insertNew {ks : List κ} (h : ks.Nodup) (k : κ) : (insertNew ks k).Nodup := by
  by_cases hk : k ∈ ks
  · simpa [insertNew, hk] using h
  · simp only [insertNew, hk, if_false]
    rw [← List.concat_eq_append]
    exact h.concat hk

theorem mem_collect {ks new : List κ} {x : κ} : x ∈ collect ks new ↔ x ∈ ks ∨ x ∈ new := by
  induction new generalizing ks with
  | nil => simp [collect]
  | cons k new ih =>
      have : x ∈ collect (insertNew ks k) new ↔ x ∈ insertNew ks k ∨ x ∈ new := ih
      simpa [collect, mem_insertNew, or_assoc] using this

theorem nodup_collect {ks : List κ} (h : ks.Nodup) (new : List κ) : (collect ks new).Nodup := by
  induction new generalizing ks with
  | nil => exact h
  | cons k new ih => exact ih (nodup_insertNew h k)

variable {ν : Type v}

/-- Assign to each key of `entries`, in order. -/
def assign (m : κ → Option ν) (entries : List (κ × ν)) : κ → Option ν :=
  entries.foldl (fun m e => Function.update m e.1 (some e.2)) m

/-- A key is bound if it was, or has been assigned to. -/
theorem assign_isSome {m : κ → Option ν} {entries : List (κ × ν)} {k : κ} :
    (assign m entries k).isSome = true ↔ (m k).isSome = true ∨ k ∈ entries.map Prod.fst := by
  induction entries generalizing m with
  | nil => simp [assign]
  | cons e entries ih =>
      have := ih (m := Function.update m e.1 (some e.2))
      by_cases h : k = e.1
      · subst h
        simpa [assign] using this
      · simpa [assign, h] using this

end

end Table

/-! ### By ascending key -/

/-- Entries by ascending key. -/
structure SortedTable (κ : Type u) (ν : Type v) [LT κ] where
  entries : List (κ × ν)
  sorted : entries.Pairwise fun a b => a.1 < b.1

namespace SortedTable

theorem lookup_cons_of_ne {κ : Type u} {ν : Type v} [BEq κ] [LawfulBEq κ] {k k' : κ}
    (h : k' ≠ k) (v : ν) (entries : List (κ × ν)) :
    ((k, v) :: entries).lookup k' = entries.lookup k' := by
  have hbeq : (k' == k) = false := beq_false_of_ne h
  simp [List.lookup_cons, hbeq]

variable {κ : Type u} {ν : Type v} [LinearOrder κ]

def empty : SortedTable κ ν := ⟨[], .nil⟩

/-- `(k, v)`, at its place among `entries`, unless they hold `k`. -/
def insertAt (k : κ) (v : ν) : List (κ × ν) → List (κ × ν)
  | [] => [(k, v)]
  | e :: entries =>
      if k < e.1 then (k, v) :: e :: entries
      else if k = e.1 then e :: entries
      else e :: insertAt k v entries

theorem mem_insertAt {k : κ} {v : ν} {entries : List (κ × ν)} {e : κ × ν}
    (h : e ∈ insertAt k v entries) : e = (k, v) ∨ e ∈ entries := by
  induction entries with
  | nil => exact .inl (List.mem_singleton.mp h)
  | cons e' entries ih =>
      rw [insertAt] at h
      split_ifs at h with hlt heq
      · exact List.mem_cons.mp h
      · exact .inr h
      · rcases List.mem_cons.mp h with rfl | h
        · exact .inr List.mem_cons_self
        · exact (ih h).imp_right (List.mem_cons_of_mem e')

theorem sorted_insertAt {entries : List (κ × ν)} (h : entries.Pairwise fun a b => a.1 < b.1)
    (k : κ) (v : ν) : (insertAt k v entries).Pairwise fun a b => a.1 < b.1 := by
  induction entries with
  | nil => exact List.pairwise_singleton _ _
  | cons e entries ih =>
      obtain ⟨hhead, htail⟩ := List.pairwise_cons.mp h
      rw [insertAt]
      split_ifs with hlt heq
      · refine List.pairwise_cons.mpr ⟨fun e' he' => ?_, h⟩
        rcases List.mem_cons.mp he' with rfl | he'
        · exact hlt
        · exact lt_trans hlt (hhead e' he')
      · exact h
      · refine List.pairwise_cons.mpr ⟨fun e' he' => ?_, ih htail⟩
        rcases mem_insertAt he' with rfl | he'
        · exact lt_of_le_of_ne (not_lt.mp hlt) (Ne.symm heq)
        · exact hhead e' he'

/-- `std::map::emplace`. -/
def emplace (t : SortedTable κ ν) (k : κ) (v : ν) : SortedTable κ ν :=
  ⟨insertAt k v t.entries, sorted_insertAt t.sorted k v⟩

variable [BEq κ] [LawfulBEq κ]

def find (t : SortedTable κ ν) (k : κ) : Option ν := t.entries.lookup k

/-- A key before all of those held is none of them. -/
theorem lookup_of_lt {k : κ} {entries : List (κ × ν)} (h : ∀ e ∈ entries, k < e.1) :
    entries.lookup k = none := by
  rw [List.lookup_eq_none_iff]
  intro e he
  simpa using ne_of_lt (h e he)

/-- An entry is found under its key. -/
theorem find_of_mem {t : SortedTable κ ν} {e : κ × ν} (h : e ∈ t.entries) :
    t.find e.1 = some e.2 := by
  obtain ⟨entries, hsorted⟩ := t
  change entries.lookup e.1 = some e.2
  induction entries with
  | nil => cases h
  | cons e' entries ih =>
      obtain ⟨hhead, htail⟩ := List.pairwise_cons.mp hsorted
      rcases List.mem_cons.mp h with rfl | h
      · exact List.lookup_cons_self
      · rw [lookup_cons_of_ne (ne_of_gt (hhead e h))]
        exact ih htail h

/-- What is held stays; what is not is bound to the value. -/
theorem find_emplace (t : SortedTable κ ν) (k k' : κ) (v : ν) :
    (t.emplace k v).find k' = (t.find k').or ([(k, v)].lookup k') := by
  obtain ⟨entries, hsorted⟩ := t
  change (insertAt k v entries).lookup k' = (entries.lookup k').or ([(k, v)].lookup k')
  induction entries with
  | nil => rfl
  | cons e entries ih =>
      obtain ⟨hhead, htail⟩ := List.pairwise_cons.mp hsorted
      obtain ⟨k₀, v₀⟩ := e
      rw [insertAt]
      split_ifs with hlt heq
      · by_cases hk : k' = k
        · have hnone : ((k₀, v₀) :: entries).lookup k = none := by
            refine lookup_of_lt fun e he => ?_
            rcases List.mem_cons.mp he with rfl | he
            · exact hlt
            · exact lt_trans hlt (hhead e he)
          rw [hk, hnone, List.lookup_cons_self, List.lookup_cons_self, Option.none_or]
        · simp [lookup_cons_of_ne hk]
      · by_cases hk : k' = k₀
        · rw [hk, List.lookup_cons_self, Option.some_or]
        · have hk' : k' ≠ k := fun h => hk (h.trans heq)
          simp [lookup_cons_of_ne hk']
      · by_cases hk : k' = k₀
        · rw [hk, List.lookup_cons_self, List.lookup_cons_self, Option.some_or]
        · rw [lookup_cons_of_ne hk, lookup_cons_of_ne hk, ih htail]

end SortedTable
