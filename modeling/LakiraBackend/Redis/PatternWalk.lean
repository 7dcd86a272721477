import LakiraBackend.Concurrency.EventSystem
import LakiraBackend.Metrics.Calls
import LakiraBackend.Metrics.Percentages
import LakiraBackend.Redis.Glob
import LakiraBackend.Redis.Scan

/-!
# `invalidateCacheByPattern`

The walk over the keys of a pattern, on a client that is open, as an event system: it asks for a
page, deletes what the page has of the pattern, and goes on at the next cursor, until that is 0.
Between its commands others store and delete keys.

When it is over, a key of the pattern that is there was stored since the walk began; no key of
another kind is deleted, whenever it was stored (`walk_clears`).  A walk that nobody disturbs
leaves the keys that are not of the pattern, which is what the use cases make of it in one step
(`delByPattern_refined`).
-/

namespace LakiraBackend.Redis.PatternWalk

open LakiraBackend.Concurrency

variable {σ : Type}

inductive Phase : Type
  /-- SCAN is asked for the page at a cursor. -/
  | scanning (cursor : Nat)
  /-- DEL is asked to delete the keys; the walk goes on at the cursor. -/
  | deleting (keys : List (List Char)) (cursor : Nat)
  | over
  deriving DecidableEq, Repr

/-- `stored` and `removed` are bookkeeping: what the others have stored, and what they have
deleted and not stored again. -/
structure State (σ : Type) : Type where
  store : σ
  phase : Phase
  stored : List (List Char)
  removed : List (List Char)

inductive Event : Type
  | set (key : List Char)
  | del (keys : List (List Char))
  /-- The walk has its page. -/
  | scanned
  /-- The walk has deleted its keys. -/
  | deleted
  deriving DecidableEq, Repr

/-- The condition of the loop. -/
def next (cursor : Nat) : Phase := if cursor = 0 then .over else .scanning cursor

variable (K : Keyspace σ (List Char)) (pattern : List Char)

/-- `MATCH` is applied to what the page has. -/
def step (s : State σ) : Event → Option (State σ)
  | .set key => some { s with
      store := K.set s.store key
      stored := key :: s.stored
      removed := s.removed.filter (· ≠ key) }
  | .del keys => some { s with store := K.del s.store keys, removed := keys ++ s.removed }
  | .scanned =>
    match s.phase with
    | .scanning cursor =>
      let page := K.scan s.store cursor
      let keys := page.2.filter (globMatch pattern)
      some { s with phase := if keys = [] then next page.1 else .deleting keys page.1 }
    | _ => none
  | .deleted =>
    match s.phase with
    | .deleting keys cursor => some { s with store := K.del s.store keys, phase := next cursor }
    | _ => none

/-- A walk over the keyspace `s₀`, from its first command. -/
def system (s₀ : σ) : EventSystem (State σ) Event := ⟨⟨s₀, .scanning 0, [], []⟩, step K pattern⟩

/-! ### What a walk promises -/

structure Cleared (s₀ : σ) (s : State σ) : Prop where
  cleared : s.phase = .over → ∀ k ∈ K.keys s.store, globMatch pattern k = true → k ∈ s.stored
  spared : ∀ k, k ∈ K.keys s₀ ∨ k ∈ s.stored → globMatch pattern k = false → k ∉ s.removed →
    k ∈ K.keys s.store
  origin : ∀ k ∈ K.keys s.store, k ∈ K.keys s₀ ∨ k ∈ s.stored

/-! ### The invariant -/

def Phase.cursor : Phase → Option Nat
  | .scanning cursor => some cursor
  | .deleting _ cursor => if cursor = 0 then none else some cursor
  | .over => none

/-- What DEL is asked to delete. -/
def Phase.asked : Phase → List (List Char)
  | .deleting keys _ => keys
  | _ => []

/-- What nobody has stored since was there all along, and what of it was found is about to be
deleted. -/
structure Inv (s₀ : σ) (s : State σ) : Prop where
  scanning : ∃ kept found, Scanning K s.phase.cursor s.store kept found ∧
    (∀ k ∈ K.keys s.store, k ∉ s.stored → k ∈ kept) ∧
    ∀ k ∈ found, globMatch pattern k = true → k ∈ K.keys s.store → k ∉ s.stored → k ∈ s.phase.asked
  asked : ∀ k ∈ s.phase.asked, globMatch pattern k = true
  spared : ∀ k, k ∈ K.keys s₀ ∨ k ∈ s.stored → globMatch pattern k = false → k ∉ s.removed →
    k ∈ K.keys s.store
  origin : ∀ k ∈ K.keys s.store, k ∈ K.keys s₀ ∨ k ∈ s.stored

variable {K pattern} {s₀ : σ} {s t : State σ}

theorem cursor_next (cursor : Nat) :
    (next cursor).cursor = if cursor = 0 then none else some cursor := by
  unfold next
  split <;> rfl

theorem asked_next (cursor : Nat) : (next cursor).asked = [] := by
  unfold next
  split <;> rfl

theorem Inv.init : Inv K pattern s₀ (system K pattern s₀).init where
  scanning := ⟨_, _, .start s₀, fun _ hk _ => hk, fun _ hk => absurd hk List.not_mem_nil⟩
  asked _ hk := absurd hk List.not_mem_nil
  spared _ hk _ _ := hk.resolve_right List.not_mem_nil
  origin _ hk := .inl hk

theorem Inv.set (hK : K.Lawful) (hs : Inv K pattern s₀ s) {key : List Char}
    (h : step K pattern s (.set key) = some t) : Inv K pattern s₀ t := by
  cases h
  obtain ⟨kept, found, hscan, hkept, hfound⟩ := hs.scanning
  have hold : ∀ k ∈ K.keys (K.set s.store key), k ∉ key :: s.stored →
      k ∈ K.keys s.store ∧ k ∉ s.stored := fun k hk hnew =>
    ⟨((hK.mem_set _ _ _).mp hk).resolve_left fun heq => hnew (heq ▸ List.mem_cons_self),
      fun h => hnew (List.mem_cons_of_mem _ h)⟩
  refine ⟨⟨kept, found, .set key hscan, fun k hk hnew => ?_, fun k hk hmatch hthere hnew => ?_⟩,
    hs.asked, fun k hk hmiss hremoved => ?_, fun k hk => ?_⟩
  · exact hkept k (hold k hk hnew).1 (hold k hk hnew).2
  · exact hfound k hk hmatch (hold k hthere hnew).1 (hold k hthere hnew).2
  · refine (hK.mem_set _ _ _).mpr (or_iff_not_imp_left.mpr fun hne => ?_)
    refine hs.spared k (hk.imp_right fun h => ?_) hmiss fun h => hremoved ?_
    · exact (List.mem_cons.mp h).resolve_left hne
    · exact List.mem_filter.mpr ⟨h, decide_eq_true hne⟩
  · rcases (hK.mem_set _ _ _).mp hk with rfl | hk
    · exact .inr List.mem_cons_self
    · exact (hs.origin k hk).imp_right (List.mem_cons_of_mem key)

theorem Inv.del (hK : K.Lawful) (hs : Inv K pattern s₀ s) {keys : List (List Char)}
    (h : step K pattern s (.del keys) = some t) : Inv K pattern s₀ t := by
  cases h
  obtain ⟨kept, found, hscan, hkept, hfound⟩ := hs.scanning
  have hold : ∀ k ∈ K.keys (K.del s.store keys), k ∈ K.keys s.store ∧ k ∉ keys := fun k =>
    (hK.mem_del _ _ _).mp
  refine ⟨⟨_, found, .del keys hscan, fun k hk hnew => ?_, fun k hk hmatch hthere hnew => ?_⟩,
    hs.asked, fun k hk hmiss hremoved => ?_, fun k hk => hs.origin k (hold k hk).1⟩
  · exact ⟨hkept k (hold k hk).1 hnew, (hold k hk).2⟩
  · exact hfound k hk hmatch (hold k hthere).1 hnew
  · obtain ⟨hkeys, hremoved⟩ := not_or.mp (mt List.mem_append.mpr hremoved)
    exact (hK.mem_del _ _ _).mpr ⟨hs.spared k hk hmiss hremoved, hkeys⟩

/-- The page may have keys that were found before, and keys that are gone by now. -/
theorem Inv.scanned (hs : Inv K pattern s₀ s) (h : step K pattern s .scanned = some t) :
    Inv K pattern s₀ t := by
  simp only [step] at h
  split at h
  · rename_i cursor hphase
    cases h
    obtain ⟨kept, found, hscan, hkept, hfound⟩ := hs.scanning
    rw [hphase] at hscan hfound
    have hpage := hscan.page
    generalize hkeys : (K.scan s.store cursor).2.filter (globMatch pattern) = keys
    have hphase' : (if keys = [] then next (K.scan s.store cursor).1
        else Phase.deleting keys (K.scan s.store cursor).1).cursor =
          (if (K.scan s.store cursor).1 = 0 then none else some (K.scan s.store cursor).1) ∧
        (if keys = [] then next (K.scan s.store cursor).1
          else Phase.deleting keys (K.scan s.store cursor).1).asked = keys := by
      split
      · rename_i hnil
        exact ⟨cursor_next _, (asked_next _).trans hnil.symm⟩
      · exact ⟨rfl, rfl⟩
    refine ⟨⟨kept, _, hphase'.1 ▸ hpage, hkept, fun k hk hmatch hthere hnew => ?_⟩,
      fun k hk => ?_, hs.spared, hs.origin⟩
    · rcases List.mem_append.mp hk with hk | hk
      · exact absurd (hfound k hk hmatch hthere hnew) List.not_mem_nil
      · rw [hphase'.2, ← hkeys]
        exact List.mem_filter.mpr ⟨hk, hmatch⟩
    · rw [hphase'.2, ← hkeys] at hk
      exact (List.mem_filter.mp hk).2
  · cases h

theorem Inv.deleted (hK : K.Lawful) (hs : Inv K pattern s₀ s)
    (h : step K pattern s .deleted = some t) : Inv K pattern s₀ t := by
  simp only [step] at h
  split at h
  · rename_i keys cursor hphase
    cases h
    obtain ⟨kept, found, hscan, hkept, hfound⟩ := hs.scanning
    have hasked := hs.asked
    rw [hphase] at hscan hfound hasked
    have hold : ∀ k ∈ K.keys (K.del s.store keys), k ∈ K.keys s.store ∧ k ∉ keys := fun k =>
      (hK.mem_del _ _ _).mp
    have hcursor : (Phase.deleting keys cursor).cursor = (next cursor).cursor :=
      (cursor_next cursor).symm
    rw [hcursor] at hscan
    refine ⟨⟨_, found, .del keys hscan, fun k hk hnew => ?_,
      fun k hk hmatch hthere hnew => ?_⟩, fun k hk => ?_, fun k hk hmiss hremoved => ?_,
      fun k hk => hs.origin k (hold k hk).1⟩
    · exact ⟨hkept k (hold k hk).1 hnew, (hold k hk).2⟩
    · exact absurd (hfound k hk hmatch (hold k hthere).1 hnew) (hold k hthere).2
    · rw [asked_next] at hk
      cases hk
    · refine (hK.mem_del _ _ _).mpr ⟨hs.spared k hk hmiss hremoved, fun hkeys => ?_⟩
      rw [hasked k hkeys] at hmiss
      cases hmiss
  · cases h

theorem inv_step (hK : K.Lawful) (s : State σ) (e : Event) (t : State σ)
    (hs : Inv K pattern s₀ s) (h : step K pattern s e = some t) : Inv K pattern s₀ t := by
  cases e with
  | set key => exact hs.set hK h
  | del keys => exact hs.del hK h
  | scanned => exact hs.scanned h
  | deleted => exact hs.deleted hK h

theorem Inv.cleared (hcomplete : K.Complete) (hs : Inv K pattern s₀ s) : Cleared K pattern s₀ s := by
  refine ⟨fun hover k hk hmatch => ?_, hs.spared, hs.origin⟩
  obtain ⟨kept, found, hscan, hkept, hfound⟩ := hs.scanning
  rw [hover] at hscan hfound
  by_contra hnew
  have hnone := hfound k (hcomplete hscan k (hkept k hk hnew)) hmatch hk hnew
  cases hnone

/-- **A walk clears its pattern.**  Whatever the others do meanwhile, what is there of the pattern
when the walk is over was stored since it began, and nothing else is deleted by it. -/
theorem walk_clears (hK : K.Lawful) (hcomplete : K.Complete) (s₀ : σ) (events : List Event) :
    (system K pattern s₀).Always (Cleared K pattern s₀) events :=
  (system K pattern s₀).always Inv.init (inv_step hK) (fun _ hs => hs.cleared hcomplete) events

/-- Half of the keys are in the one bucket. -/
def halves (key : List Char) : Fin 2 := Fin.ofNat 2 key.length

/-- A key of the pattern and one of another kind are stored behind the walk, and another of the
pattern is deleted by it. -/
theorem walk_clears_behind :
    (system (buckets 2 halves) "log:*".toList ["log:7".toList, "metric:7".toList]).Always
      (Cleared (buckets 2 halves) "log:*".toList ["log:7".toList, "metric:7".toList])
      [.scanned, .set "log:12".toList, .set "goal:3".toList, .scanned, .deleted] :=
  walk_clears buckets_lawful (buckets_complete (by decide)) _ _

/-! ### A walk that nobody disturbs -/

/-- The walk's own commands. -/
def Alone (events : List Event) : Prop := ∀ e ∈ events, e = .scanned ∨ e = .deleted

theorem untouched_step {e : Event} (he : e = .scanned ∨ e = .deleted)
    (h : step K pattern s e = some t) (hs : s.stored = [] ∧ s.removed = []) :
    t.stored = [] ∧ t.removed = [] := by
  rcases he with rfl | rfl
  · simp only [step] at h
    split at h <;> cases h
    exact hs
  · simp only [step] at h
    split at h <;> cases h
    exact hs

theorem walk_alone (hK : K.Lawful) (hcomplete : K.Complete) {events : List Event}
    (halone : Alone events) (hrun : (system K pattern s₀).run events = some s)
    (hover : s.phase = .over) (k : List Char) :
    k ∈ K.keys s.store ↔ k ∈ K.keys s₀ ∧ globMatch pattern k = false := by
  have hmeets : (system K pattern s₀).Meets (fun _ e => e = .scanned ∨ e = .deleted) events := by
    intro past e rest _ _ heq _ _
    exact halone e (by rw [heq]; exact List.mem_append_right _ List.mem_cons_self)
  have huntouched : s.stored = [] ∧ s.removed = [] :=
    hmeets.invariant (I := fun s => s.stored = [] ∧ s.removed = []) ⟨rfl, rfl⟩
      (fun _ _ _ hs he ht => untouched_step he ht hs) hrun
  have hs := (walk_clears hK hcomplete s₀ events).last hrun
  constructor
  · intro hk
    refine ⟨(hs.origin k hk).resolve_right fun hstored => ?_, Bool.eq_false_iff.mpr fun hmatch => ?_⟩
    · rw [huntouched.1] at hstored
      cases hstored
    · have hstored := hs.cleared hover k hk hmatch
      rw [huntouched.1] at hstored
      cases hstored
  · rintro ⟨hk, hmiss⟩
    refine hs.spared k (.inl hk) hmiss fun hremoved => ?_
    rw [huntouched.2] at hremoved
    cases hremoved

/-- **The step that use cases take for a walk is what an undisturbed walk does.** -/
theorem delByPattern_refined {V : Type} (hK : K.Lawful) (hcomplete : K.Complete)
    {events : List Event} (halone : Alone events)
    (hrun : (system K pattern s₀).run events = some s) (hover : s.phase = .over)
    (D : Metrics.Deps V) (i : Nat) (inp : Metrics.Input) {w : Metrics.World V}
    (hcache : ∀ k, k ∈ K.keys s₀ ↔ ∃ e ∈ w.cache, e.key = k) :
    ∃ w', Metrics.exec D i inp (.delByPattern pattern) w = some (.ok (), w') ∧
      w'.store = w.store ∧ ∀ k, k ∈ K.keys s.store ↔ ∃ e ∈ w'.cache, e.key = k := by
  refine ⟨_, rfl, rfl, fun k => ?_⟩
  rw [walk_alone hK hcomplete halone hrun hover k, hcache]
  constructor
  · rintro ⟨⟨e, he, rfl⟩, hmiss⟩
    exact ⟨e, List.mem_filter.mpr ⟨he, by rw [hmiss]; rfl⟩, rfl⟩
  · rintro ⟨e, he, rfl⟩
    obtain ⟨he, hmiss⟩ := List.mem_filter.mp he
    exact ⟨⟨e, he, rfl⟩, Bool.not_eq_true' _ ▸ hmiss⟩

/-- Something that is cached under the key. -/
def cachedTrend (key : List Char) : Metrics.Entry (Fin 100) := ⟨key, .trend [], Metrics.walksDb⟩

/-- A cache with two entries. -/
theorem delByPattern_refined_two : ∃ w', Metrics.exec Metrics.utcDeps 0 ⟨0, Metrics.Utc.epoch, 0⟩
      (.delByPattern "log:*".toList) (Metrics.World.init Metrics.walksDb
        [cachedTrend "log:7".toList, cachedTrend "metric:7".toList]) = some (.ok (), w') ∧
    w'.store = (Metrics.World.init Metrics.walksDb []).store ∧
    ∀ k, k ∈ (buckets 2 halves).keys ["metric:7".toList] ↔ ∃ e ∈ w'.cache, e.key = k := by
  have hrun : (system (buckets 2 halves) "log:*".toList ["log:7".toList, "metric:7".toList]).run
      [.scanned, .scanned, .deleted] = some ⟨["metric:7".toList], .over, [], []⟩ := rfl
  refine delByPattern_refined buckets_lawful (buckets_complete (by decide)) ?_ hrun rfl _ _ _ ?_
  · intro e he
    simp only [List.mem_cons, List.not_mem_nil, or_false] at he
    rcases he with rfl | rfl | rfl
    · exact .inl rfl
    · exact .inl rfl
    · exact .inr rfl
  · intro k
    simp only [buckets, Metrics.World.init, cachedTrend, List.mem_cons, List.not_mem_nil, or_false,
      exists_eq_or_imp, exists_eq_left, eq_comm]

end LakiraBackend.Redis.PatternWalk
