import Mathlib.Data.List.Chain
import Mathlib.Data.List.Nodup

/-!
# Support — breadth-first search

A search that starts at a point and follows a relation, breadth first.  Its queue holds, of each
point that has been visited and not been expanded yet, the number of hops to it and the path by
which it was reached.

`Inv` is what holds whenever the search takes the head of its queue: it starts so, `Inv.init`, and
stays so when the head is expanded, `Inv.expand`, or dropped for being too far off, `Inv.drop`.  A
goal at the head is a nearest one, `Inv.nearest`; if the queue runs empty, no goal is nearer than
the limit, `Inv.exhausted`.
-/

universe u

namespace Breadth

variable {α : Type u} (R : α → α → Prop)

/-- `Hops a n b`: `n` steps lead from `a` to `b`. -/
inductive Hops (a : α) : ℕ → α → Prop where
  | refl : Hops a 0 a
  | step {n : ℕ} {b c : α} (h : Hops a n b) (hR : R b c) : Hops a (n + 1) c

/-- A path of `n + 1` points makes `n` hops. -/
theorem Hops.of_isChain {R : α → α → Prop} {a b : α} {path : List α} {n : ℕ}
    (hchain : path.IsChain R) (hhead : path.head? = some a) (hlast : path.getLast? = some b)
    (hlength : path.length = n + 1) : Hops R a n b := by
  induction n generalizing path b with
  | zero =>
      obtain ⟨v, rfl⟩ := List.length_eq_one_iff.mp hlength
      cases hhead
      cases hlast
      exact .refl
  | succ n ih =>
      obtain ⟨front, rfl⟩ := List.getLast?_eq_some_iff.mp hlast
      have hfront : front.length = n + 1 := by simpa using hlength
      have hne : front ≠ [] := List.ne_nil_of_length_pos (by omega)
      obtain ⟨hchain, -, hR⟩ := List.isChain_append.mp hchain
      rw [List.head?_append_of_ne_nil _ hne] at hhead
      have hpenultimate := List.getLast?_eq_some_getLast hne
      refine .step (ih hchain hhead hpenultimate hfront) ?_
      exact hR _ hpenultimate b rfl

/-- An entry of the queue. -/
structure Node (α : Type u) where
  point : α
  depth : ℕ
  path : List α

variable (start : α)

/-- The path leads from the start to the point, through points that have been visited, none of them
twice, and there is no shorter way. -/
structure Valid (visited : α → Prop) (e : Node α) : Prop where
  head : e.path.head? = some start
  last : e.path.getLast? = some e.point
  chain : e.path.IsChain R
  nodup : e.path.Nodup
  length : e.path.length = e.depth + 1
  visited : ∀ v ∈ e.path, visited v
  least : ∀ n, Hops R start n e.point → e.depth ≤ n

variable (goal : α → Prop) (limit : ℕ)

/-- A point that has been taken off the queue: if it is nearer than the limit, it is no goal, and
all points next to it have been visited. -/
structure Settled (visited : α → Prop) (v : α) (k : ℕ) : Prop where
  least : ∀ n, Hops R start n v → k ≤ n
  tested : k < limit → v = start ∨ ¬ goal v
  expanded : k < limit → ∀ w, R v w → visited w

/-- What holds at the head of the loop. -/
structure Inv (visited : α → Prop) (queue : List (Node α)) : Prop where
  origin : visited start
  valid : ∀ e ∈ queue, Valid R start visited e
  sorted : queue.Pairwise fun e e' => e.depth ≤ e'.depth
  spread : ∀ e ∈ queue, ∀ e' ∈ queue, e'.depth ≤ e.depth + 1
  settled : ∀ v, visited v →
    (∃ e ∈ queue, e.point = v) ∨ ∃ k, Settled R start goal limit visited v k

variable {R start goal limit} {visited visited' : α → Prop} {queue : List (Node α)} {e : Node α}

theorem Valid.mono (h : Valid R start visited e) (hv : ∀ v, visited v → visited' v) :
    Valid R start visited' e where
  head := h.head
  last := h.last
  chain := h.chain
  nodup := h.nodup
  length := h.length
  visited := fun v hmem => hv v (h.visited v hmem)
  least := h.least

theorem Settled.mono {v : α} {k : ℕ} (h : Settled R start goal limit visited v k)
    (hv : ∀ v, visited v → visited' v) : Settled R start goal limit visited' v k where
  least := h.least
  tested := h.tested
  expanded := fun hk w hR => hv w (h.expanded hk w hR)

/-- The path makes the hops. -/
theorem Valid.hops (h : Valid R start visited e) : Hops R start e.depth e.point :=
  .of_isChain h.chain h.head h.last h.length

/-- The point of a node without hops is the start. -/
theorem Valid.point_eq (h : Valid R start visited e) (he : e.depth = 0) : e.point = start := by
  have hlast := h.last
  have hhead := h.head
  obtain ⟨v, hv⟩ := List.length_eq_one_iff.mp (h.length.trans (by rw [he]))
  rw [hv] at hlast hhead
  cases hlast
  cases hhead
  rfl

/-- The point of any other node is not. -/
theorem Valid.point_ne (h : Valid R start visited e) (he : 0 < e.depth) : e.point ≠ start := by
  intro hstart
  have := h.least 0 (hstart ▸ .refl)
  omega

namespace Inv

/-- The search begins with the start. -/
theorem init (start : α) : Inv R start goal limit (· = start) [⟨start, 0, [start]⟩] where
  origin := rfl
  valid := by
    intro e he
    obtain rfl := List.mem_singleton.mp he
    exact ⟨rfl, rfl, .singleton _, List.nodup_singleton _, rfl, fun v => List.mem_singleton.mp,
      fun n _ => Nat.zero_le n⟩
  sorted := List.pairwise_singleton _ _
  spread := by
    intro e he e' he'
    obtain rfl := List.mem_singleton.mp he
    obtain rfl := List.mem_singleton.mp he'
    exact Nat.le_succ _
  settled := by
    rintro v rfl
    exact .inl ⟨_, List.mem_singleton_self _, rfl⟩

variable (h : Inv R start goal limit visited queue)

include h

/-- Whatever is no farther than all of the queue has been visited. -/
theorem visited_of_hops {d : ℕ} (hd : d ≤ limit) (hq : ∀ e ∈ queue, d ≤ e.depth) {m : ℕ} {v : α}
    (hv : Hops R start m v) (hm : m ≤ d) : visited v := by
  induction hv with
  | refl => exact h.origin
  | @step m u w hu hR ih =>
      -- `u` has been visited; in the queue it would be too near, so it has been expanded
      rcases h.settled u (ih (Nat.le_of_succ_le hm)) with ⟨e, he, rfl⟩ | ⟨k, hk⟩
      · have hleast := (h.valid e he).least m hu
        have hfar := hq e he
        omega
      · have hleast := hk.least m hu
        exact hk.expanded (by omega) w hR

/-- Whatever is nearer than all of the queue has been tested. -/
theorem tested_of_hops {d : ℕ} (hd : d ≤ limit) (hq : ∀ e ∈ queue, d ≤ e.depth) {m : ℕ} {v : α}
    (hv : Hops R start m v) (hm : m < d) : v = start ∨ ¬ goal v := by
  rcases h.settled v (h.visited_of_hops hd hq hv hm.le) with ⟨e, he, rfl⟩ | ⟨k, hk⟩
  · have hleast := (h.valid e he).least m hv
    have hfar := hq e he
    omega
  · have hleast := hk.least m hv
    exact hk.tested (by omega)

/-- Once the queue is empty, no goal is nearer than the limit. -/
theorem exhausted (hq : queue = []) {m : ℕ} {v : α} (hv : Hops R start m v) (hm : m < limit)
    (hne : v ≠ start) : ¬ goal v := by
  subst hq
  exact (h.tested_of_hops le_rfl nofun hv hm).resolve_left hne

omit h

variable {rest : List (Node α)} (hcons : Inv R start goal limit visited (e :: rest))

include hcons

theorem head_le : ∀ e' ∈ e :: rest, e.depth ≤ e'.depth := by
  intro e' he'
  rcases List.mem_cons.mp he' with rfl | he'
  · exact le_rfl
  · exact (List.pairwise_cons.mp hcons.sorted).1 e' he'

/-- No goal is nearer than the head of the queue. -/
theorem nearest (hlimit : e.depth ≤ limit) {m : ℕ} {v : α} (hv : Hops R start m v) (hne : v ≠ start)
    (hgoal : goal v) : e.depth ≤ m := by
  by_contra hm
  have htested := hcons.tested_of_hops hlimit hcons.head_le hv (not_le.mp hm)
  exact (htested.resolve_left hne) hgoal

/-- The head of the queue is too far off. -/
theorem drop (hlimit : limit ≤ e.depth) : Inv R start goal limit visited rest where
  origin := hcons.origin
  valid := fun e' he' => hcons.valid e' (List.mem_cons_of_mem e he')
  sorted := (List.pairwise_cons.mp hcons.sorted).2
  spread := fun e₁ he₁ e₂ he₂ =>
    hcons.spread e₁ (List.mem_cons_of_mem e he₁) e₂ (List.mem_cons_of_mem e he₂)
  settled := by
    intro v hv
    rcases hcons.settled v hv with ⟨e', he', rfl⟩ | hsettled
    · rcases List.mem_cons.mp he' with rfl | he'
      · have hleast := (hcons.valid e' List.mem_cons_self).least
        exact .inr ⟨e'.depth, hleast, fun hk => by omega, fun hk => by omega⟩
      · exact .inl ⟨e', he', rfl⟩
    · exact .inr hsettled

end Inv

/-- The node of a point next to that of `e`. -/
def Node.next (e : Node α) (v : α) : Node α := ⟨v, e.depth + 1, e.path ++ [v]⟩

/-- The node of a point next to the head's that has not been visited yet. -/
theorem Inv.valid_next {rest : List (Node α)} (h : Inv R start goal limit visited (e :: rest))
    (hlimit : e.depth < limit) {v : α} (hR : R e.point v) (hv : ¬ visited v)
    (hmono : ∀ w, visited w → visited' w) (hv' : visited' v) :
    Valid R start visited' (e.next v) := by
  have he := h.valid e List.mem_cons_self
  refine ⟨?_, List.getLast?_concat, ?_, ?_, ?_, ?_, ?_⟩
  · simp [Node.next, he.head]
  · refine he.chain.append (.singleton v) ?_
    intro x hx y hy
    cases he.last.symm.trans hx
    cases hy
    exact hR
  · refine he.nodup.append (List.nodup_singleton v) (List.disjoint_singleton.mpr fun hmem => ?_)
    exact hv (he.visited v hmem)
  · simp [Node.next, he.length]
  · intro w hw
    rcases List.mem_append.mp hw with hw | hw
    · exact hmono w (he.visited w hw)
    · exact List.mem_singleton.mp hw ▸ hv'
  · intro n hn
    by_contra hlt
    have hle : n ≤ e.depth := by
      simp only [Node.next] at hlt
      omega
    exact hv (h.visited_of_hops hlimit.le h.head_le hn hle)

/-- The head of the queue is expanded: the points next to it that have not been visited yet are
visited, and go to the back of the queue. -/
theorem Inv.expand {rest : List (Node α)} (h : Inv R start goal limit visited (e :: rest))
    (hlimit : e.depth < limit) (htested : e.point = start ∨ ¬ goal e.point) {new : List α}
    (hnew : ∀ v, v ∈ new ↔ R e.point v ∧ ¬ visited v) :
    Inv R start goal limit (fun v => visited v ∨ v ∈ new) (rest ++ new.map e.next) := by
  have hmono : ∀ w, visited w → visited w ∨ w ∈ new := fun w => .inl
  have hrest : ∀ e' ∈ rest, e.depth ≤ e'.depth ∧ e'.depth ≤ e.depth + 1 := fun e' he' =>
    ⟨h.head_le e' (List.mem_cons_of_mem e he'),
      h.spread e List.mem_cons_self e' (List.mem_cons_of_mem e he')⟩
  have hnext : ∀ e' ∈ new.map e.next, e'.depth = e.depth + 1 := by
    intro e' he'
    obtain ⟨v, -, rfl⟩ := List.mem_map.mp he'
    rfl
  refine ⟨.inl h.origin, ?_, ?_, ?_, ?_⟩
  · intro e' he'
    rcases List.mem_append.mp he' with he' | he'
    · exact (h.valid e' (List.mem_cons_of_mem e he')).mono hmono
    · obtain ⟨v, hv, rfl⟩ := List.mem_map.mp he'
      obtain ⟨hR, hnv⟩ := (hnew v).mp hv
      exact h.valid_next hlimit hR hnv hmono (.inr hv)
  · rw [List.pairwise_append]
    refine ⟨(List.pairwise_cons.mp h.sorted).2, ?_, ?_⟩
    · rw [List.pairwise_map]
      exact List.pairwise_of_forall fun _ _ => le_rfl
    · intro e₁ he₁ e₂ he₂
      rw [hnext e₂ he₂]
      exact (hrest e₁ he₁).2
  · -- the head's depth and the next are the only ones
    intro e₁ he₁ e₂ he₂
    rcases List.mem_append.mp he₁ with he₁ | he₁ <;> rcases List.mem_append.mp he₂ with he₂ | he₂
    · exact h.spread e₁ (List.mem_cons_of_mem e he₁) e₂ (List.mem_cons_of_mem e he₂)
    · rw [hnext e₂ he₂]
      exact Nat.succ_le_succ (hrest e₁ he₁).1
    · rw [hnext e₁ he₁]
      exact (hrest e₂ he₂).2.trans (Nat.le_succ _)
    · rw [hnext e₁ he₁, hnext e₂ he₂]
      exact Nat.le_succ _
  · rintro v (hv | hv)
    · rcases h.settled v hv with ⟨e', he', rfl⟩ | ⟨k, hk⟩
      · rcases List.mem_cons.mp he' with rfl | he'
        · -- the head is settled now
          refine .inr ⟨e'.depth, (h.valid e' List.mem_cons_self).least, fun _ => htested, ?_⟩
          intro _ w hR
          by_cases hw : visited w
          · exact .inl hw
          · exact .inr ((hnew w).mpr ⟨hR, hw⟩)
        · exact .inl ⟨e', List.mem_append_left _ he', rfl⟩
      · exact .inr ⟨k, hk.mono hmono⟩
    · exact .inl ⟨e.next v, List.mem_append_right _ (List.mem_map_of_mem hv), rfl⟩

end Breadth
