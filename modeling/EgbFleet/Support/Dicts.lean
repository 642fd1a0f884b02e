import Mathlib.Data.List.Nodup

/-!
# Support — dictionaries

A dictionary lists its entries, and carries that no key is listed twice.  `put` replaces the entry
of its key, `erase` removes it; `mem_put` and `mem_erase` say which entries are left, and
`mem_of_get?` and `get?_eq_none` what is found.
-/

universe u v

structure Dict (κ : Type u) (ν : Type v) where
  entries : List (κ × ν)
  nodup : (entries.map Prod.fst).Nodup

namespace Dict

variable {κ : Type u} {ν : Type v}

def empty : Dict κ ν := ⟨[], List.nodup_nil⟩

/-- A key has one entry. -/
theorem eq_of_mem {d : Dict κ ν} {e e' : κ × ν} (he : e ∈ d.entries) (he' : e' ∈ d.entries)
    (h : e.1 = e'.1) : e = e' :=
  List.inj_on_of_nodup_map d.nodup he he' h

variable [DecidableEq κ]

def get? (d : Dict κ ν) (k : κ) : Option ν := d.entries.lookup k

def erase (k : κ) (d : Dict κ ν) : Dict κ ν where
  entries := d.entries.filter (·.1 ≠ k)
  nodup := d.nodup.sublist (List.filter_sublist.map Prod.fst)

theorem mem_erase {d : Dict κ ν} {k : κ} {e : κ × ν} :
    e ∈ (d.erase k).entries ↔ e ∈ d.entries ∧ e.1 ≠ k := by
  simp [erase]

def put (k : κ) (v : ν) (d : Dict κ ν) : Dict κ ν where
  entries := (d.erase k).entries ++ [(k, v)]
  nodup := by
    rw [List.map_append]
    refine (d.erase k).nodup.append (List.nodup_singleton k) ?_
    rw [List.map_singleton, List.disjoint_singleton]
    intro hmem
    obtain ⟨e, he, hk⟩ := List.mem_map.mp hmem
    exact (mem_erase.mp he).2 hk

theorem mem_put {d : Dict κ ν} {k : κ} {v : ν} {e : κ × ν} :
    e ∈ (d.put k v).entries ↔ (e ∈ d.entries ∧ e.1 ≠ k) ∨ e = (k, v) := by
  rw [put, List.mem_append, mem_erase, List.mem_singleton]

theorem get?_eq_none {d : Dict κ ν} {k : κ} : d.get? k = none ↔ ∀ e ∈ d.entries, e.1 ≠ k := by
  rw [get?, List.lookup_eq_none_iff]
  simp only [bne_iff_ne, ne_eq]
  exact forall₂_congr fun _ _ => not_congr eq_comm

theorem mem_of_get? {d : Dict κ ν} {k : κ} {v : ν} (h : d.get? k = some v) :
    (k, v) ∈ d.entries := by
  obtain ⟨l₁, l₂, e, -⟩ := List.lookup_eq_some_iff.mp h
  rw [e]
  simp

/-- The first entry is erased. -/
theorem erase_head {d : Dict κ ν} {e : κ × ν} {l : List (κ × ν)} (h : d.entries = e :: l) :
    (d.erase e.1).entries = l := by
  have hnodup := d.nodup
  rw [h, List.map_cons, List.nodup_cons] at hnodup
  have hne : ∀ e' ∈ l, e'.1 ≠ e.1 := fun e' he' heq =>
    hnodup.1 (heq ▸ List.mem_map_of_mem he')
  change d.entries.filter (fun e' => e'.1 ≠ e.1) = l
  rw [h, List.filter_cons_of_neg (by simp), List.filter_eq_self]
  simpa using hne

end Dict
