import Mathlib.Data.List.Basic

/-!
# A database at READ COMMITTED

A `Schema` says what a write does to the committed data, which rows it changes
(and so locks), and when the database refuses it.  A `Store` is a database in
use: the committed data, the uncommitted writes of each session in the order
they were made, the row locks, and the UPDATE statements that have taken their
snapshot and not finished.

A session is a transaction of one thread.  What it writes nobody else sees
before it commits; what others commit it sees at once.  A write waits while
another session holds a lock on a row it changes, and while only the uncommitted
writes of another session make the database refuse it: a unique violation is
answered when the other row is committed.

An UPDATE over many rows takes its snapshot when it starts and writes when it
finishes, so a row committed in between is not among those it writes.
-/

namespace LakiraBackend.Concurrency

structure Schema (Db Write Key ε : Type) where
  /-- What the write does to the data. -/
  apply : Write → Db → Db
  /-- The rows there already that the write changes. -/
  rows : Write → Db → List Key
  /-- The error the database answers the write with, if it refuses it. -/
  refuse : Write → Db → Option ε

structure Store (Db Write Key Stmt : Type) where
  db : Db
  pending : List (Nat × Write)
  locks : List (Nat × Key)
  running : List (Nat × Stmt)

namespace Store

variable {Db Write Key Stmt ε : Type} (S : Schema Db Write Key ε) (s : Store Db Write Key Stmt)

/-- The uncommitted writes of session `i`, oldest first. -/
def pendingOf (i : Nat) : List Write := (s.pending.filter fun p => p.1 = i).map (·.2)

/-- The data as session `i` sees it. -/
def view (i : Nat) : Db := (s.pendingOf i).foldl (fun d w => S.apply w d) s.db

/-- The data a statement of thread `i` runs on: its session's, or the committed data. -/
def base (i : Nat) (tx : Bool) : Db := if tx then s.view S i else s.db

/-- Whether a session other than `i` has locked the row. -/
def heldByOther [DecidableEq Key] (i : Nat) (k : Key) : Bool :=
  s.locks.any fun l => l.1 ≠ i && l.2 = k

/-- Whether the write has to wait for another session. -/
def blocked [DecidableEq Key] (i : Nat) (tx : Bool) (w : Write) : Bool :=
  (S.rows w (s.base S i tx)).any (s.heldByOther i) ||
    (s.pending.any fun p =>
      p.1 ≠ i && (S.refuse w (s.view S p.1)).isSome && (S.refuse w (s.base S i tx)).isNone)

/-- Lock rows for session `i`. -/
def lock (i : Nat) (ks : List Key) : Store Db Write Key Stmt :=
  { s with locks := s.locks ++ ks.map fun k => (i, k) }

/-- Add an uncommitted write, with the locks it takes. -/
def put (i : Nat) (w : Write) : Store Db Write Key Stmt :=
  { s with
    pending := s.pending ++ [(i, w)]
    locks := s.locks ++ (S.rows w (s.view S i)).map fun k => (i, k) }

/-- A write that is its own transaction. -/
def autocommit (w : Write) : Store Db Write Key Stmt := { s with db := S.apply w s.db }

/-- End the transaction of session `i` without its writes. -/
def rollback (i : Nat) : Store Db Write Key Stmt :=
  { s with
    pending := s.pending.filter fun p => p.1 ≠ i
    locks := s.locks.filter fun l => l.1 ≠ i }

/-- End the transaction of session `i` with its writes. -/
def commit (i : Nat) : Store Db Write Key Stmt := { s.rollback i with db := s.view S i }

/-- An UPDATE has taken its snapshot. -/
def start (i : Nat) (st : Stmt) : Store Db Write Key Stmt :=
  { s with running := s.running ++ [(i, st)] }

/-- An UPDATE is over. -/
def stop [DecidableEq Stmt] (i : Nat) (st : Stmt) : Store Db Write Key Stmt :=
  { s with running := s.running.erase (i, st) }

/-- Thread `i` is gone, and with it its transaction and its statements. -/
def drop (i : Nat) : Store Db Write Key Stmt :=
  { s.rollback i with running := s.running.filter fun r => r.1 ≠ i }

/-- The store a write of thread `i` leaves when the database takes it. -/
def written (i : Nat) (tx : Bool) (w : Write) : Store Db Write Key Stmt :=
  if tx then s.put S i w else s.autocommit S w

/-- A write of thread `i`: it waits, it is refused, or it is done. -/
def write [DecidableEq Key] (i : Nat) (tx : Bool) (w : Write) :
    Option (Except ε Unit × Store Db Write Key Stmt) :=
  if s.blocked S i tx w then none
  else match S.refuse w (s.base S i tx) with
    | some e => some (.error e, s)
    | none => some (.ok (), s.written S i tx w)

/-! ### What each operation leaves alone -/

section Frame

variable {i j : Nat} {w : Write}

@[simp] theorem pendingOf_lock (ks : List Key) : (s.lock i ks).pendingOf j = s.pendingOf j := rfl

@[simp] theorem pendingOf_autocommit : (s.autocommit S w).pendingOf j = s.pendingOf j := rfl

@[simp] theorem pendingOf_start (st : Stmt) : (s.start i st).pendingOf j = s.pendingOf j := rfl

@[simp] theorem pendingOf_stop [DecidableEq Stmt] (st : Stmt) :
    (s.stop i st).pendingOf j = s.pendingOf j := rfl

@[simp] theorem pendingOf_commit : (s.commit S i).pendingOf j = (s.rollback i).pendingOf j := rfl

@[simp] theorem pendingOf_drop : (s.drop i).pendingOf j = (s.rollback i).pendingOf j := rfl

theorem pendingOf_put_self : (s.put S i w).pendingOf i = s.pendingOf i ++ [w] := by
  simp [pendingOf, put, List.filter_append]

theorem pendingOf_put_ne (h : j ≠ i) : (s.put S i w).pendingOf j = s.pendingOf j := by
  simp [pendingOf, put, List.filter_append, Ne.symm h]

theorem pendingOf_rollback_self : (s.rollback i).pendingOf i = [] := by
  simp [pendingOf, rollback, List.filter_filter]

theorem pendingOf_rollback_ne (h : j ≠ i) : (s.rollback i).pendingOf j = s.pendingOf j := by
  simp only [pendingOf, rollback, List.filter_filter]
  congr 1
  apply List.filter_congr
  intro p _
  by_cases hp : p.1 = j
  · simp [hp, h]
  · simp [hp]

theorem view_put_self : (s.put S i w).view S i = S.apply w (s.view S i) := by
  rw [view, pendingOf_put_self, List.foldl_append]
  rfl

theorem mem_pendingOf : w ∈ s.pendingOf i ↔ (i, w) ∈ s.pending := by
  simp [pendingOf]

theorem view_of_pendingOf_nil (h : s.pendingOf i = []) : s.view S i = s.db := by
  rw [view, h]
  rfl

theorem heldByOther_iff [DecidableEq Key] {k : Key} :
    s.heldByOther i k = true ↔ ∃ j, j ≠ i ∧ (j, k) ∈ s.locks := by
  simp only [heldByOther, List.any_eq_true, Bool.and_eq_true, decide_eq_true_eq, Prod.exists]
  constructor
  · rintro ⟨j, k', h, hj, rfl⟩
    exact ⟨j, hj, h⟩
  · rintro ⟨j, hj, h⟩
    exact ⟨j, k, h, hj, rfl⟩

end Frame

/-! ### What a write can do -/

/-- The database takes the write: it does not refuse it, no other session has
locked a row it changes, and no other session's writes make it refuse it. -/
structure Takes (i : Nat) (tx : Bool) (w : Write) : Prop where
  accepted : S.refuse w (s.base S i tx) = none
  unlocked : ∀ k ∈ S.rows w (s.base S i tx), ∀ j, (j, k) ∈ s.locks → j = i
  uncontested : ∀ j v, j ≠ i → (j, v) ∈ s.pending → S.refuse w (s.view S j) = none

variable [DecidableEq Key] {S s} {i : Nat} {tx : Bool} {w : Write} {r : Except ε Unit}
  {s' : Store Db Write Key Stmt}

/-- A write that does not wait is refused and changes nothing, or it is done. -/
theorem write_cases (h : s.write S i tx w = some (r, s')) :
    (∃ e, r = .error e ∧ s' = s ∧ S.refuse w (s.base S i tx) = some e) ∨
    (r = .ok () ∧ s' = s.written S i tx w ∧ s.Takes S i tx w) := by
  simp only [write] at h
  split at h
  · cases h
  · rename_i hb
    simp only [blocked, Bool.or_eq_true, not_or, Bool.not_eq_true] at hb
    obtain ⟨hl, hp⟩ := hb
    split at h
    · rename_i e he
      obtain ⟨rfl, rfl⟩ := Prod.mk.inj (Option.some.inj h)
      exact .inl ⟨e, rfl, rfl, he⟩
    · rename_i he
      obtain ⟨rfl, rfl⟩ := Prod.mk.inj (Option.some.inj h)
      refine .inr ⟨rfl, rfl, he, fun k hk j hj => ?_, fun j v hj hv => ?_⟩
      · by_contra hne
        have hheld := s.heldByOther_iff.mpr ⟨j, hne, hj⟩
        rw [List.any_eq_false.mp hl k hk |> Bool.eq_false_iff.mpr] at hheld
        cases hheld
      · have hno := List.any_eq_false.mp hp (j, v) hv
        simpa [hj, he] using hno

end Store

end LakiraBackend.Concurrency
