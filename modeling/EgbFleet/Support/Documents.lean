import Mathlib.Data.List.Lookmap
import Mathlib.Data.Option.Basic

/-!
# Support — documents

A document is a leaf, a list, or a table with entries under keys.  `get?` follows a path of keys
through tables, and `put` puts a document at the end of one, in a table that is there already.

`shape?_put`: where a leaf is put, the leaf is at the end of its path and nothing is below, and
there is at every other path what there was, a leaf, a list of items or a table.
-/

universe u v

/-- Leaves, lists and tables. -/
inductive Document (κ α : Type u) where
  | leaf (a : α)
  | list (items : List (Document κ α))
  | table (entries : List (κ × Document κ α))

namespace Document

/-! ### Entries -/

section

variable {κ : Type u} {ν : Type v} [DecidableEq κ]

/-- The entry of the key is replaced, or one is added. -/
def insert (k : κ) (x : ν) : List (κ × ν) → List (κ × ν)
  | [] => [(k, x)]
  | e :: entries => if k = e.1 then (k, x) :: entries else e :: insert k x entries

theorem lookup_insert_self (k : κ) (x : ν) (entries : List (κ × ν)) :
    (insert k x entries).lookup k = some x := by
  induction entries with
  | nil => simp [insert]
  | cons e entries ih =>
      unfold insert
      split
      · simp
      · rename_i hne
        rw [List.lookup_cons, beq_false_of_ne hne]
        exact ih

theorem lookup_insert_of_ne {k k' : κ} (h : k' ≠ k) (x : ν) (entries : List (κ × ν)) :
    (insert k x entries).lookup k' = entries.lookup k' := by
  induction entries with
  | nil => simp [insert, List.lookup_cons, beq_false_of_ne h]
  | cons e entries ih =>
      unfold insert
      split
      · rename_i he
        rw [List.lookup_cons, List.lookup_cons, ← he, beq_false_of_ne h]
      · rw [List.lookup_cons, List.lookup_cons, ih]

end

/-! ### Paths -/

/-- What a document is, but for the entries of a table. -/
inductive Shape (κ α : Type u) where
  | leaf (a : α)
  | list (items : List (Document κ α))
  | table

variable {κ α : Type u}

def shape : Document κ α → Shape κ α
  | .leaf a => .leaf a
  | .list items => .list items
  | .table _ => .table

variable [DecidableEq κ]

def get? : List κ → Document κ α → Option (Document κ α)
  | [], d => some d
  | k :: path, .table entries => (entries.lookup k).bind (get? path)
  | _ :: _, .leaf _ | _ :: _, .list _ => none

/-- What is at the end of the path. -/
def shape? (path : List κ) (d : Document κ α) : Option (Shape κ α) := (d.get? path).map shape

/-- Put a document at the end of the path `k :: path`. -/
def put (k : κ) (path : List κ) (d x : Document κ α) : Option (Document κ α) :=
  match path, d with
  | [], .table entries => some (.table (insert k x entries))
  | k' :: path, .table entries => do
      let d ← entries.lookup k
      let d ← put k' path d x
      return .table (insert k d entries)
  | _, .leaf _ | _, .list _ => none

variable {k k' : κ} {path : List κ} {entries : List (κ × Document κ α)} {d d' x : Document κ α}

theorem shape?_cons : shape? (k :: path) (.table entries : Document κ α) =
    (entries.lookup k).bind (shape? path) := by
  rw [shape?, get?, Option.map_bind]
  rfl

theorem put_nil_eq_some (h : d.put k [] x = some d') :
    ∃ entries, d = .table entries ∧ d' = .table (insert k x entries) := by
  cases d with
  | leaf a => cases h
  | list items => cases h
  | table entries =>
      cases h
      exact ⟨entries, rfl, rfl⟩

theorem put_cons_eq_some (h : d.put k (k' :: path) x = some d') :
    ∃ entries y z, d = .table entries ∧ entries.lookup k = some y ∧
      y.put k' path x = some z ∧ d' = .table (insert k z entries) := by
  cases d with
  | leaf a => cases h
  | list items => cases h
  | table entries =>
      obtain ⟨y, hy, h⟩ := Option.bind_eq_some_iff.mp h
      obtain ⟨z, hz, h⟩ := Option.bind_eq_some_iff.mp h
      cases h
      exact ⟨entries, y, z, rfl, hy, hz, rfl⟩

/-- What takes an entry is a table, and stays one. -/
theorem put_eq_some (h : d.put k path x = some d') :
    ∃ entries z, d = .table entries ∧ d' = .table (insert k z entries) := by
  cases path with
  | nil =>
      obtain ⟨entries, rfl, rfl⟩ := put_nil_eq_some h
      exact ⟨entries, x, rfl, rfl⟩
  | cons k' path =>
      obtain ⟨entries, y, z, rfl, -, -, rfl⟩ := put_cons_eq_some h
      exact ⟨entries, z, rfl, rfl⟩

/-- A table takes an entry: `put` succeeds just where the path leads to one. -/
theorem put_eq_none_iff : d.put k path x = none ↔ d.shape? (k :: path).dropLast ≠ some .table := by
  induction path generalizing k d with
  | nil => cases d <;> simp [put, shape?, get?, shape]
  | cons k' path ih =>
      cases d with
      | leaf a => simp [put, shape?, get?]
      | list items => simp [put, shape?, get?]
      | table entries =>
          rw [List.dropLast_cons_of_ne_nil (List.cons_ne_nil _ _), shape?_cons, put]
          cases hy : entries.lookup k with
          | none => simp
          | some y =>
              rw [Option.bind_some, ← ih]
              cases h : y.put k' path x <;> simp [h]

/-- **What is put.**  A leaf changes what is at its path, and what was below it. -/
theorem shape?_put {a : α} (h : d.put k path (.leaf a) = some d') (q : List κ) :
    d'.shape? q =
      if q = k :: path then some (.leaf a) else if k :: path <+: q then none else d.shape? q := by
  induction path generalizing k d d' q with
  | nil =>
      obtain ⟨entries, rfl, rfl⟩ := put_nil_eq_some h
      cases q with
      | nil => simp [shape?, get?, shape]
      | cons k' q =>
          rw [shape?_cons]
          by_cases hk : k' = k
          · subst hk
            rw [lookup_insert_self]
            cases q <;> simp [shape?, get?, shape]
          · rw [lookup_insert_of_ne hk, shape?_cons]
            simp [hk, Ne.symm hk]
  | cons k₁ path ih =>
      obtain ⟨entries, y, z, rfl, hy, hz, rfl⟩ := put_cons_eq_some h
      cases q with
      | nil => simp [shape?, get?, shape]
      | cons k' q =>
          rw [shape?_cons]
          by_cases hk : k' = k
          · subst hk
            rw [lookup_insert_self, shape?_cons, hy, Option.bind_some, Option.bind_some, ih hz]
            simp
          · rw [lookup_insert_of_ne hk, shape?_cons]
            simp [hk, Ne.symm hk]

end Document
