import Mathlib.Data.Set.Basic

/-!
# SCAN

A keyspace that is iterated over with a cursor while keys come and go.  An iteration starts at the
cursor 0 and is over when that comes back: it has returned every key that was there all along
(`Complete`), and may return others, or a key more than once.

A hash table of fixed size, whose buckets are returned one after the other, is such a keyspace
(`buckets_complete`).
-/

namespace LakiraBackend.Redis

variable {σ Key : Type}

/-- A keyspace: what is in it, what SET and DEL make of it, and what SCAN returns at a cursor, the
next cursor and some keys. -/
structure Keyspace (σ Key : Type) : Type where
  keys : σ → List Key
  set : σ → Key → σ
  del : σ → List Key → σ
  scan : σ → Nat → Nat × List Key

/-- What SET and DEL do to the keys. -/
structure Keyspace.Lawful (K : Keyspace σ Key) : Prop where
  mem_set : ∀ s k k', k' ∈ K.keys (K.set s k) ↔ k' = k ∨ k' ∈ K.keys s
  mem_del : ∀ s ks k, k ∈ K.keys (K.del s ks) ↔ k ∈ K.keys s ∧ k ∉ ks

/-- An iteration: the next cursor, `none` when it is over, the keyspace, the keys that were there
all along, and those that were returned. -/
inductive Scanning (K : Keyspace σ Key) : Option Nat → σ → Set Key → List Key → Prop
  | start (s : σ) : Scanning K (some 0) s {k | k ∈ K.keys s} []
  | set {cursor : Option Nat} {s : σ} {kept : Set Key} {found : List Key} (k : Key) :
      Scanning K cursor s kept found → Scanning K cursor (K.set s k) kept found
  | del {cursor : Option Nat} {s : σ} {kept : Set Key} {found : List Key} (ks : List Key) :
      Scanning K cursor s kept found → Scanning K cursor (K.del s ks) {k ∈ kept | k ∉ ks} found
  | page {cursor : Nat} {s : σ} {kept : Set Key} {found : List Key} :
      Scanning K (some cursor) s kept found →
        Scanning K (if (K.scan s cursor).1 = 0 then none else some (K.scan s cursor).1) s kept
          (found ++ (K.scan s cursor).2)

/-- **An iteration that is over has returned what was there all along.** -/
def Keyspace.Complete (K : Keyspace σ Key) : Prop :=
  ∀ {s : σ} {kept : Set Key} {found : List Key}, Scanning K none s kept found →
    ∀ k ∈ kept, k ∈ found

/-! ### A hash table -/

variable [DecidableEq Key]

/-- `n` buckets, and the one each key is in. -/
def buckets (n : Nat) (bucket : Key → Fin n) : Keyspace (List Key) Key where
  keys s := s
  set s k := if k ∈ s then s else k :: s
  del s ks := s.filter fun k => k ∉ ks
  scan s cursor := ((cursor + 1) % n, s.filter fun k => (bucket k).val = cursor)

variable {n : Nat} {bucket : Key → Fin n}

theorem buckets_lawful : (buckets n bucket).Lawful where
  mem_set s k k' := by
    change k' ∈ (if k ∈ s then s else k :: s) ↔ _
    split
    · rename_i hk
      exact ⟨.inr, fun h => h.elim (fun heq => heq ▸ hk) id⟩
    · exact List.mem_cons
  mem_del s ks k := by
    change k ∈ s.filter (fun k => k ∉ ks) ↔ _
    rw [List.mem_filter, decide_eq_true_eq]
    rfl

/-- The buckets before the cursor are returned. -/
theorem buckets_scanning (hn : 0 < n) {cursor : Option Nat} {s : List Key} {kept : Set Key}
    {found : List Key} (h : Scanning (buckets n bucket) cursor s kept found) :
    (∀ c ∈ cursor, c < n) ∧ ∀ k ∈ kept,
      k ∈ s ∧ ((∀ c ∈ cursor, (bucket k).val < c) → k ∈ found) := by
  have hlawful : (buckets n bucket).Lawful := buckets_lawful
  induction h with
  | start s =>
    refine ⟨fun c hc => Option.some.inj hc ▸ hn, fun k hk => ⟨hk, fun hlt => ?_⟩⟩
    exact absurd (hlt 0 rfl) (Nat.not_lt_zero _)
  | set k _ ih =>
    exact ⟨ih.1, fun k' hk' => ⟨(hlawful.mem_set _ _ _).mpr (.inr (ih.2 k' hk').1),
      (ih.2 k' hk').2⟩⟩
  | del ks _ ih =>
    exact ⟨ih.1, fun k hk => ⟨(hlawful.mem_del _ _ _).mpr ⟨(ih.2 k hk.1).1, hk.2⟩,
      (ih.2 k hk.1).2⟩⟩
  | @page cursor s kept found _ ih =>
    have hcursor : cursor < n := ih.1 cursor rfl
    have hnext : ((buckets n bucket).scan s cursor).1 = (cursor + 1) % n := rfl
    refine ⟨fun c hc => ?_, fun k hk => ⟨(ih.2 k hk).1, fun hlt => ?_⟩⟩
    · rw [hnext] at hc
      split at hc
      · cases hc
      · exact Option.some.inj hc ▸ Nat.mod_lt _ hn
    · by_cases hbefore : (bucket k).val < cursor
      · exact List.mem_append_left _ ((ih.2 k hk).2 fun c hc => Option.some.inj hc ▸ hbefore)
      · have hbucket : (bucket k).val = cursor := by
          -- it is not past the cursor: the next one is past it, or there is no bucket past this
          rw [hnext] at hlt
          have hk' := (bucket k).isLt
          by_cases hlast : cursor + 1 = n
          · omega
          · have hmod : (cursor + 1) % n = cursor + 1 := Nat.mod_eq_of_lt (by omega)
            rw [hmod, if_neg (Nat.succ_ne_zero cursor)] at hlt
            have hlt := hlt (cursor + 1) rfl
            omega
        exact List.mem_append_right _ (List.mem_filter.mpr
          ⟨(ih.2 k hk).1, decide_eq_true hbucket⟩)

theorem buckets_complete (hn : 0 < n) : (buckets n bucket).Complete := by
  intro s kept found h k hk
  exact ((buckets_scanning hn h).2 k hk).2 fun c hc => by cases hc

end LakiraBackend.Redis
