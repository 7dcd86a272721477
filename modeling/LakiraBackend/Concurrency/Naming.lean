import LakiraBackend.Concurrency.ReadCommitted
import Mathlib.Data.List.Nodup
import Mathlib.Data.List.Pairwise

/-!
# Rows with names

A `Naming` picks out the rows of one table by a name that a write gives a row when
it creates it, together with what no write changes about the row.  Writes that do
not create a row may drop some, and change the rest.

`Known` is the names a store has, in its committed data or in the uncommitted
writes of a session; it grows only by a write that gives a name
(`Known.of_put`, `Known.of_autocommit`).  While every write gives a name that is
not known, each name is had once (`Distinct`).
-/

namespace LakiraBackend.Concurrency

open scoped List

structure Naming {Db Write Key ε : Type} (S : Schema Db Write Key ε) (N F : Type) where
  names : Db → List (N × F)
  gives : Write → Option (N × F)
  names_of_gives : ∀ {w : Write} {n : N × F} (d : Db), gives w = some n →
    names (S.apply w d) = names d ++ [n]
  names_of_keeps : ∀ {w : Write} (d : Db), gives w = none → names (S.apply w d) <+ names d

namespace Naming

variable {Db Write Key Stmt ε N F : Type} {S : Schema Db Write Key ε} (A : Naming S N F)

/-- The names of a store. -/
def Known (s : Store Db Write Key Stmt) (n : N × F) : Prop :=
  n ∈ A.names s.db ∨ ∃ p ∈ s.pending, A.gives p.2 = some n

/-- Two uncommitted writes that give different names. -/
def Apart (p q : Nat × Write) : Prop :=
  ∀ m n, A.gives p.2 = some m → A.gives q.2 = some n → m.1 ≠ n.1

/-- Each name is had once. -/
structure Distinct (s : Store Db Write Key Stmt) : Prop where
  committed : ((A.names s.db).map Prod.fst).Nodup
  pending_new : ∀ p ∈ s.pending, ∀ n, A.gives p.2 = some n → ∀ m ∈ A.names s.db, m.1 ≠ n.1
  pending_apart : s.pending.Pairwise A.Apart

variable {A} {s s' : Store Db Write Key Stmt} {i : Nat} {w : Write} {n : N × F}

/-- Writes add the names they give, and no others. -/
theorem names_foldl (ws : List Write) (d : Db) :
    A.names (ws.foldl (fun d w => S.apply w d) d) <+ A.names d ++ ws.filterMap A.gives := by
  induction ws generalizing d with
  | nil => rw [List.filterMap_nil, List.append_nil]; exact List.Sublist.refl _
  | cons w ws ih =>
    refine (ih (S.apply w d)).trans ?_
    cases hw : A.gives w with
    | none =>
      rw [List.filterMap_cons_none hw]
      exact (A.names_of_keeps d hw).append (List.Sublist.refl _)
    | some n =>
      rw [A.names_of_gives d hw, List.filterMap_cons_some hw, List.append_assoc]
      exact List.Sublist.refl _

theorem mem_names_view (h : n ∈ A.names (s.view S i)) :
    n ∈ A.names s.db ∨ ∃ p ∈ s.pending, p.1 = i ∧ A.gives p.2 = some n := by
  rcases List.mem_append.mp ((names_foldl (s.pendingOf i) s.db).subset h) with h | h
  · exact .inl h
  · obtain ⟨v, hv, hn⟩ := List.mem_filterMap.mp h
    exact .inr ⟨(i, v), s.mem_pendingOf.mp hv, rfl, hn⟩

/-! ### The names of a store -/

theorem Known.mono (h : A.Known s' n) (hdb : s'.db = s.db)
    (hp : ∀ p ∈ s'.pending, p ∈ s.pending) : A.Known s n := by
  rcases h with h | ⟨p, hmem, hn⟩
  · exact .inl (hdb ▸ h)
  · exact .inr ⟨p, hp p hmem, hn⟩

theorem Known.of_put (h : A.Known (s.put S i w) n) : A.Known s n ∨ A.gives w = some n := by
  rcases h with h | ⟨p, hp, hn⟩
  · exact .inl (.inl h)
  · rcases List.mem_append.mp hp with hp | hp
    · exact .inl (.inr ⟨p, hp, hn⟩)
    · rw [List.mem_singleton.mp hp] at hn
      exact .inr hn

theorem mem_names_apply {d : Db} (h : n ∈ A.names (S.apply w d)) :
    n ∈ A.names d ∨ A.gives w = some n := by
  cases hw : A.gives w with
  | none => exact .inl ((A.names_of_keeps d hw).subset h)
  | some m =>
    rw [A.names_of_gives d hw] at h
    rcases List.mem_append.mp h with h | h
    · exact .inl h
    · exact .inr (congrArg some (List.mem_singleton.mp h).symm)

theorem Known.of_autocommit (h : A.Known (s.autocommit S w) n) :
    A.Known s n ∨ A.gives w = some n := by
  rcases h with h | h
  · exact (mem_names_apply h).imp_left .inl
  · exact .inl (.inr h)

theorem Known.of_commit (h : A.Known (s.commit S i) n) : A.Known s n := by
  rcases h with h | ⟨p, hp, hn⟩
  · rcases mem_names_view h with h | ⟨p, hp, _, hn⟩
    · exact .inl h
    · exact .inr ⟨p, hp, hn⟩
  · exact .inr ⟨p, List.mem_of_mem_filter hp, hn⟩

/-! ### Each name once -/

theorem Distinct.mono (h : A.Distinct s) (hdb : s'.db = s.db) (hp : s'.pending <+ s.pending) :
    A.Distinct s' where
  committed := hdb ▸ h.committed
  pending_new := fun p hmem => hdb ▸ h.pending_new p (hp.subset hmem)
  pending_apart := h.pending_apart.sublist hp

theorem Distinct.put (h : A.Distinct s) (hnew : ∀ n, A.gives w = some n → ∀ m, A.Known s m →
    m.1 ≠ n.1) : A.Distinct (s.put S i w) where
  committed := h.committed
  pending_new := by
    intro p hp n hn m hm
    rcases List.mem_append.mp hp with hp | hp
    · exact h.pending_new p hp n hn m hm
    · rw [List.mem_singleton.mp hp] at hn
      exact hnew n hn m (.inl hm)
  pending_apart := by
    refine List.pairwise_append.mpr ⟨h.pending_apart, List.pairwise_singleton _ _, ?_⟩
    intro p hp q hq m n hm hn
    rw [List.mem_singleton.mp hq] at hn
    exact hnew n hn m (.inr ⟨p, hp, hm⟩)

theorem Distinct.autocommit (h : A.Distinct s) (hnew : ∀ n, A.gives w = some n → ∀ m,
    A.Known s m → m.1 ≠ n.1) : A.Distinct (s.autocommit S w) where
  committed := by
    change ((A.names (S.apply w s.db)).map Prod.fst).Nodup
    cases hw : A.gives w with
    | none => exact h.committed.sublist ((A.names_of_keeps s.db hw).map _)
    | some n =>
      rw [A.names_of_gives s.db hw, List.map_append]
      refine List.nodup_append.mpr ⟨h.committed, List.nodup_singleton _, ?_⟩
      intro a ha b hb
      obtain ⟨m, hm, rfl⟩ := List.mem_map.mp ha
      rw [List.mem_singleton.mp hb]
      exact hnew n hw m (.inl hm)
  pending_new := by
    intro p hp n hn m hm
    rcases mem_names_apply hm with hm | hm
    · exact h.pending_new p hp n hn m hm
    · exact (hnew m hm n (.inr ⟨p, hp, hn⟩)).symm
  pending_apart := h.pending_apart

instance : Std.Symm A.Apart := ⟨fun _ _ h m n hm hn => (h n m hn hm).symm⟩

theorem Distinct.apart (h : A.Distinct s) {p q : Nat × Write} (hp : p ∈ s.pending)
    (hq : q ∈ s.pending) (hne : p ≠ q) : A.Apart p q :=
  h.pending_apart.forall hp hq hne

theorem Distinct.pendingOf_nodup (h : A.Distinct s) :
    (((s.pendingOf i).filterMap A.gives).map Prod.fst).Nodup := by
  refine List.pairwise_map.mpr (List.pairwise_filterMap.mpr (List.pairwise_map.mpr ?_))
  refine (h.pending_apart.sublist List.filter_sublist).imp ?_
  exact fun hpq m hm n hn => hpq m n hm hn

theorem Distinct.commit (h : A.Distinct s) : A.Distinct (s.commit S i) where
  committed := by
    refine List.Nodup.sublist ((names_foldl (s.pendingOf i) s.db).map Prod.fst) ?_
    rw [List.map_append]
    refine List.nodup_append.mpr ⟨h.committed, h.pendingOf_nodup, fun a ha b hb => ?_⟩
    obtain ⟨m, hm, rfl⟩ := List.mem_map.mp ha
    obtain ⟨n, hn, rfl⟩ := List.mem_map.mp hb
    obtain ⟨v, hv, hg⟩ := List.mem_filterMap.mp hn
    exact h.pending_new (i, v) (s.mem_pendingOf.mp hv) n hg m hm
  pending_new := by
    intro p hp n hn m hm
    obtain ⟨hmem, hpi⟩ := List.mem_filter.mp hp
    rcases mem_names_view hm with hm | ⟨q, hq, hqi, hm⟩
    · exact h.pending_new p hmem n hn m hm
    · refine h.apart hq hmem (fun hqp => ?_) m n hm hn
      rw [← hqp, hqi] at hpi
      simp at hpi
  pending_apart := h.pending_apart.sublist List.filter_sublist

end Naming

end LakiraBackend.Concurrency
