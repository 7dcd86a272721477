import LakiraBackend.Auth.Footprints
import LakiraBackend.Concurrency.Contract
import LakiraBackend.Concurrency.Lineage

/-!
# Refresh-token families

`refresh_tokens` is a table of families (`Lineage`): a row is live until it is
revoked, and a rotated row names its successor.  Four use cases write it, and
what they do to it is one of four things (`TableStep`): a new family, a rotation,
a revocation, or nothing.

A rotation is two writes in a transaction, and the invariant has to say what an
open transaction holds: `Phase` is where it has got to, and `Phase.Ok` is what
the other threads must not spoil.  They do not, because the row being replaced is
locked and a new row's id is the thread's own (`TokenStep`).
-/

namespace LakiraBackend.Auth

open LakiraBackend.Concurrency

def tokenLineage : Lineage RefreshToken Uuid Uuid Uuid where
  id := fun t => t.id
  family := fun t => t.familyId
  owner := fun t => t.userId
  live := fun t => t.revokedAt = none
  next := fun t => t.replacedById

namespace World

variable (w : World)

/-- The committed rows of `refresh_tokens`. -/
def refreshTokens : List RefreshToken := w.store.db.refreshTokens

/-- The uncommitted writes of a session to `refresh_tokens`. -/
def tokenWrites (i : Nat) : List Write :=
  (w.store.pendingOf i).filter fun wr => wr.table = .refreshTokens

/-- Whether a session has locked a row of `refresh_tokens`. -/
def HoldsToken (i : Nat) (id : Uuid) : Prop := (i, ⟨.refreshTokens, id⟩) ∈ w.store.locks

end World

/-! ### What happens to the table -/

/-- A token that starts a family, as thread `i` makes it. -/
structure Root (ts : List RefreshToken) (n i : Nat) (r : RefreshToken) : Prop where
  id_by : r.id.By i n
  id_new : ∀ a ∈ ts, a.id ≠ r.id
  family_by : r.familyId.By i n
  family_new : ∀ a ∈ ts, a.familyId ≠ r.familyId
  not_replaced : r.replacedById = none

/-- A token that replaces the live token `e`, as thread `i` makes it. -/
structure Successor (ts : List RefreshToken) (n i : Nat) (e r : RefreshToken) : Prop where
  mem : e ∈ ts
  live : e.revokedAt = none
  id_by : r.id.By i n
  id_new : ∀ a ∈ ts, a.id ≠ r.id
  family_eq : r.familyId = e.familyId
  user_eq : r.userId = e.userId
  not_replaced : r.replacedById = none

/-- A token marked revoked, and replaced by another. -/
def RefreshToken.replacedBy (e : RefreshToken) (now : Time) (r : RefreshToken) : RefreshToken :=
  { e with revokedAt := some now, replacedById := some r.id }

/-- The rows of a family that are among `ids` and live, revoked. -/
def revokeRow (familyId : Uuid) (now : Time) (ids : List Uuid) (t : RefreshToken) : RefreshToken :=
  if t.id ∈ ids ∧ t.familyId = familyId ∧ t.revokedAt = none then t.markRevoked now else t

/-- What thread `i` does to `refresh_tokens`. -/
inductive TableStep (n i : Nat) (ts : List RefreshToken) : List RefreshToken → Prop
  | same : TableStep n i ts ts
  | root {r : RefreshToken} : Root ts n i r → TableStep n i ts (ts ++ [r])
  | rotate {e r : RefreshToken} {now : Time} : Successor ts n i e r →
      TableStep n i ts (ts.map (tokenLineage.replaceBy (e.replacedBy now r)) ++ [r])
  | revoke {familyId : Uuid} {now : Time} {ids : List Uuid} :
      TableStep n i ts (ts.map (revokeRow familyId now ids))

section Table

variable {ts ts' : List RefreshToken} {n i : Nat}

@[simp] theorem revokeRow_id (f : Uuid) (now : Time) (ids : List Uuid) (t : RefreshToken) :
    (revokeRow f now ids t).id = t.id := by
  unfold revokeRow; split <;> rfl

@[simp] theorem revokeRow_familyId (f : Uuid) (now : Time) (ids : List Uuid) (t : RefreshToken) :
    (revokeRow f now ids t).familyId = t.familyId := by
  unfold revokeRow; split <;> rfl

@[simp] theorem revokeRow_userId (f : Uuid) (now : Time) (ids : List Uuid) (t : RefreshToken) :
    (revokeRow f now ids t).userId = t.userId := by
  unfold revokeRow; split <;> rfl

@[simp] theorem revokeRow_replacedById (f : Uuid) (now : Time) (ids : List Uuid)
    (t : RefreshToken) : (revokeRow f now ids t).replacedById = t.replacedById := by
  unfold revokeRow; split <;> rfl

theorem revokeRow_of_live {f : Uuid} {now : Time} {ids : List Uuid} {t : RefreshToken}
    (h : (revokeRow f now ids t).revokedAt = none) : revokeRow f now ids t = t := by
  unfold revokeRow at h ⊢
  split
  · rename_i hc; rw [if_pos hc] at h; cases h
  · rfl

/-- **The families are kept.** -/
theorem TableStep.wf (h : TableStep n i ts ts') (hw : tokenLineage.Wf ts) :
    tokenLineage.Wf ts' := by
  cases h with
  | same => exact hw
  | root hr => exact hw.root hr.id_new hr.family_new hr.not_replaced
  | rotate hs =>
    exact hw.extend hs.mem (decide_eq_true hs.live) rfl rfl rfl rfl rfl hs.id_new hs.family_eq
      hs.user_eq hs.not_replaced
  | revoke =>
    refine hw.retire (revokeRow_id _ _ _) (revokeRow_familyId _ _ _) (revokeRow_userId _ _ _)
      (revokeRow_replacedById _ _ _) fun a ha => ?_
    exact revokeRow_of_live (of_decide_eq_true ha)

theorem replaceBy_eq (e' a : RefreshToken) :
    tokenLineage.replaceBy e' a = if a.id = e'.id then e' else a := rfl

/-- A row keeps its id, its family and its user, and a replaced row its successor. -/
theorem TableStep.kept (h : TableStep n i ts ts') (hw : tokenLineage.Wf ts) {a : RefreshToken}
    (ha : a ∈ ts) : ∃ a' ∈ ts', a'.id = a.id ∧ a'.familyId = a.familyId ∧ a'.userId = a.userId ∧
      (a.revokedAt ≠ none → a' = a) := by
  cases h with
  | same => exact ⟨a, ha, rfl, rfl, rfl, fun _ => rfl⟩
  | root _ => exact ⟨a, List.mem_append_left _ ha, rfl, rfl, rfl, fun _ => rfl⟩
  | @rotate e r now hs =>
    by_cases hae : a.id = e.id
    · have hea : a = e := hw.eq_of_id ha hs.mem hae
      refine ⟨e.replacedBy now r, List.mem_append_left _ (List.mem_map.mpr ⟨a, ha, if_pos hae⟩),
        hae.symm, hea ▸ rfl, hea ▸ rfl, fun hr => absurd (hea ▸ hs.live) hr⟩
    · exact ⟨a, List.mem_append_left _ (List.mem_map.mpr ⟨a, ha, if_neg hae⟩), rfl, rfl, rfl,
        fun _ => rfl⟩
  | @revoke f now ids =>
    refine ⟨_, List.mem_map_of_mem ha, revokeRow_id _ _ _ _, revokeRow_familyId _ _ _ _,
      revokeRow_userId _ _ _ _, fun hr => ?_⟩
    exact if_neg fun hc => hr hc.2.2

/-- A row is an old one, or the thread's own. -/
theorem TableStep.new (h : TableStep n i ts ts') {a : RefreshToken} (ha : a ∈ ts') :
    ((∃ b ∈ ts, b.id = a.id) ∨ a.id.By i n) ∧
      ((∃ b ∈ ts, b.familyId = a.familyId) ∨ a.familyId.By i n) := by
  cases h with
  | same => exact ⟨.inl ⟨a, ha, rfl⟩, .inl ⟨a, ha, rfl⟩⟩
  | root hr =>
    rcases List.mem_append.mp ha with ha | ha
    · exact ⟨.inl ⟨a, ha, rfl⟩, .inl ⟨a, ha, rfl⟩⟩
    · rw [List.mem_singleton.mp ha]
      exact ⟨.inr hr.id_by, .inr hr.family_by⟩
  | @rotate e r now hs =>
    rcases List.mem_append.mp ha with ha | ha
    · obtain ⟨b, hb, rfl⟩ := List.mem_map.mp ha
      rw [replaceBy_eq]
      split
      · exact ⟨.inl ⟨e, hs.mem, rfl⟩, .inl ⟨e, hs.mem, rfl⟩⟩
      · exact ⟨.inl ⟨b, hb, rfl⟩, .inl ⟨b, hb, rfl⟩⟩
    · rw [List.mem_singleton.mp ha]
      exact ⟨.inr hs.id_by, .inl ⟨e, hs.mem, hs.family_eq.symm⟩⟩
  | revoke =>
    obtain ⟨b, hb, rfl⟩ := List.mem_map.mp ha
    exact ⟨.inl ⟨b, hb, by simp⟩, .inl ⟨b, hb, by simp⟩⟩

end Table

/-! ### What an open transaction holds -/

/-- How far the writes of a transaction to `refresh_tokens` have got. -/
inductive Phase : Type
  | idle
  /-- The first token of a family is written. -/
  | rooted (r : RefreshToken)
  /-- The successor is written, the token it replaces is not. -/
  | opened (e r : RefreshToken)
  | replaced (e r : RefreshToken) (now : Time)

namespace Phase

def writes : Phase → List Write
  | idle => []
  | rooted r => [.upsertRefreshToken r]
  | opened _ r => [.upsertRefreshToken r]
  | replaced e r now => [.upsertRefreshToken r, .upsertRefreshToken (e.replacedBy now r)]

/-- What the other threads must not spoil. -/
def Ok (w : World) (i : Nat) : Phase → Prop
  | idle => True
  | rooted r => Root w.refreshTokens w.draws i r
  | opened e r => Successor w.refreshTokens w.draws i e r ∧ w.HoldsToken i e.id
  | replaced e r _ => Successor w.refreshTokens w.draws i e r ∧ w.HoldsToken i e.id

/-- Whether the transaction may be committed here. -/
def Complete : Phase → Prop
  | opened _ _ => False
  | _ => True

end Phase

/-- **The invariant of `refresh_tokens`.** -/
structure TokenInv (w : World) : Prop where
  wf : tokenLineage.Wf w.refreshTokens
  drawn : ∀ a ∈ w.refreshTokens, (∃ i, a.id.By i w.draws) ∧ ∃ i, a.familyId.By i w.draws
  locks : Exclusive w.store
  phase : ∀ i, ∃ p : Phase, w.tokenWrites i = p.writes ∧ p.Ok w i

/-- What a thread has to know when it makes a call on `refresh_tokens`. -/
def TokenPre (i : Nat) (w : World) : Op → Prop
  | .call (.write tx wr) => wr.table = .refreshTokens → ∃ t, wr = .upsertRefreshToken t ∧
      if tx then ∃ p : Phase, w.tokenWrites i ++ [wr] = p.writes ∧ p.Ok w i
      else w.tokenWrites i = [] ∧ Root w.refreshTokens w.draws i t
  | .call .commit => ∃ p : Phase, w.tokenWrites i = p.writes ∧ p.Ok w i ∧ p.Complete
  | .call (.startUpdate tx u) => ∀ f now, u = .revokeFamily f now →
      tx = false ∧ ∃ a ∈ w.refreshTokens, a.familyId = f
  | .call (.finishUpdate tx u) => u.table = .refreshTokens → tx = false ∧ w.tokenWrites i = []
  | _ => True

/-- What a step of thread `j` leaves to the others. -/
structure TokenStep (j : Nat) (w w' : World) : Prop where
  draws : w.draws ≤ w'.draws
  table : TableStep w.draws j w.refreshTokens w'.refreshTokens
  writes : ∀ i, i ≠ j → w'.tokenWrites i = w.tokenWrites i
  holds : ∀ i, i ≠ j → ∀ id, w.HoldsToken i id → w'.HoldsToken i id
  held : ∀ i, i ≠ j → ∀ e ∈ w.refreshTokens, w.HoldsToken i e.id → e ∈ w'.refreshTokens

section Step

variable {D : Deps} {i j : Nat} {w w' : World}

theorem Root.step {r : RefreshToken} (h : Root w.refreshTokens w.draws i r)
    (hs : TokenStep j w w') (hij : i ≠ j) : Root w'.refreshTokens w'.draws i r where
  id_by := h.id_by.mono hs.draws
  id_new := fun a ha => by
    rcases (hs.table.new ha).1 with ⟨b, hb, hba⟩ | hby
    · exact hba ▸ h.id_new b hb
    · exact hby.ne h.id_by (Ne.symm hij)
  family_by := h.family_by.mono hs.draws
  family_new := fun a ha => by
    rcases (hs.table.new ha).2 with ⟨b, hb, hba⟩ | hby
    · exact hba ▸ h.family_new b hb
    · exact hby.ne h.family_by (Ne.symm hij)
  not_replaced := h.not_replaced

theorem Successor.step {e r : RefreshToken} (h : Successor w.refreshTokens w.draws i e r)
    (hl : w.HoldsToken i e.id) (hs : TokenStep j w w') (hij : i ≠ j) :
    Successor w'.refreshTokens w'.draws i e r where
  mem := hs.held i hij e h.mem hl
  live := h.live
  id_by := h.id_by.mono hs.draws
  id_new := fun a ha => by
    rcases (hs.table.new ha).1 with ⟨b, hb, hba⟩ | hby
    · exact hba ▸ h.id_new b hb
    · exact hby.ne h.id_by (Ne.symm hij)
  family_eq := h.family_eq
  user_eq := h.user_eq
  not_replaced := h.not_replaced

/-- **The others do not spoil an open transaction.** -/
theorem Phase.Ok.step {p : Phase} (h : p.Ok w i) (hs : TokenStep j w w') (hij : i ≠ j) :
    p.Ok w' i := by
  cases p with
  | idle => trivial
  | rooted r => exact Root.step h hs hij
  | opened e r => exact ⟨h.1.step h.2 hs hij, hs.holds i hij _ h.2⟩
  | replaced e r now => exact ⟨h.1.step h.2 hs hij, hs.holds i hij _ h.2⟩

/-! ### The writes of one table -/

theorem foldl_onRefreshTokens (D : Deps) (ws : List Write) (d : Db) :
    (ws.foldl (fun d wr => (schema D).apply wr d) d).refreshTokens =
      (ws.filter fun wr => wr.table = .refreshTokens).foldl
        (fun ts wr => wr.onRefreshTokens ts) d.refreshTokens := by
  induction ws generalizing d with
  | nil => rfl
  | cons wr ws ih =>
    rw [List.foldl_cons, ih]
    by_cases h : wr.table = .refreshTokens
    · rw [List.filter_cons_of_pos (by simpa using h)]
      rfl
    · rw [List.filter_cons_of_neg (by simpa using h)]
      congr 1
      exact Write.onRefreshTokens_of_table h _

/-- What a session sees of `refresh_tokens`. -/
theorem view_refreshTokens (D : Deps) (w : World) (i : Nat) :
    (w.store.view (schema D) i).refreshTokens =
      (w.tokenWrites i).foldl (fun ts wr => wr.onRefreshTokens ts) w.refreshTokens :=
  foldl_onRefreshTokens D _ _

theorem upsert_new {ts : List RefreshToken} {r : RefreshToken} (h : ∀ a ∈ ts, a.id ≠ r.id) :
    (Write.upsertRefreshToken r).onRefreshTokens ts = ts ++ [r] := by
  refine if_neg fun hany => ?_
  obtain ⟨a, ha, hid⟩ := List.any_eq_true.mp hany
  exact h a ha (of_decide_eq_true hid)

theorem upsert_old {ts : List RefreshToken} {e e' : RefreshToken} (h : e ∈ ts)
    (hid : e'.id = e.id) :
    (Write.upsertRefreshToken e').onRefreshTokens ts = ts.map (tokenLineage.replaceBy e') :=
  if_pos (List.any_eq_true.mpr ⟨e, h, decide_eq_true hid.symm⟩)

/-- **What a complete transaction does to the table**; the rows it has not locked
stay as they are. -/
theorem Phase.tableStep {p : Phase} (hok : p.Ok w i) (hc : p.Complete)
    {ts' : List RefreshToken}
    (hts : ts' = p.writes.foldl (fun ts wr => wr.onRefreshTokens ts) w.refreshTokens) :
    TableStep w.draws i w.refreshTokens ts' ∧
      ∀ a ∈ w.refreshTokens, ¬ w.HoldsToken i a.id → a ∈ ts' := by
  subst hts
  cases p with
  | idle => exact ⟨.same, fun a ha _ => ha⟩
  | rooted r =>
    have hr : Root w.refreshTokens w.draws i r := hok
    have happ : (Write.upsertRefreshToken r).onRefreshTokens w.refreshTokens =
        w.refreshTokens ++ [r] := upsert_new hr.id_new
    rw [Phase.writes, List.foldl_cons, List.foldl_nil, happ]
    exact ⟨.root hr, fun a ha _ => List.mem_append_left _ ha⟩
  | opened e r => exact hc.elim
  | replaced e r now =>
    obtain ⟨hs, hl⟩ := hok
    have happ : (Write.upsertRefreshToken r).onRefreshTokens w.refreshTokens =
        w.refreshTokens ++ [r] := upsert_new hs.id_new
    have hrep : (Write.upsertRefreshToken (e.replacedBy now r)).onRefreshTokens
        (w.refreshTokens ++ [r]) =
          (w.refreshTokens ++ [r]).map (tokenLineage.replaceBy (e.replacedBy now r)) :=
      upsert_old (List.mem_append_left _ hs.mem) rfl
    have hr : tokenLineage.replaceBy (e.replacedBy now r) r = r :=
      if_neg fun h => hs.id_new e hs.mem h.symm
    rw [Phase.writes, List.foldl_cons, List.foldl_cons, List.foldl_nil, happ, hrep, List.map_append,
      List.map_singleton, hr]
    refine ⟨.rotate hs, fun a ha hfree => List.mem_append_left _ (List.mem_map.mpr ⟨a, ha, ?_⟩)⟩
    exact if_neg fun hae : a.id = e.id => hfree (hae ▸ hl)

/-! ### One step -/

/-- An UPDATE of a transaction is not one of `refresh_tokens`. -/
theorem statement_table {st : Statement} (h : st.write.table = .refreshTokens) :
    ∃ f now, st.update = .revokeFamily f now ∧ st.write = .revokeRefreshTokens f now st.ids := by
  obtain ⟨tx, u, ids⟩ := st
  cases u with
  | revokeFamily f now => exact ⟨f, now, rfl, rfl⟩
  | useAllForUser kind userId now => cases h

theorem revoke_onRefreshTokens (f : Uuid) (now : Time) (ids : List Uuid)
    (ts : List RefreshToken) :
    (Write.revokeRefreshTokens f now ids).onRefreshTokens ts = ts.map (revokeRow f now ids) := rfl

/-- **What a step does to the table**: one of the four things, and it leaves the
rows the others hold. -/
theorem tableStep {op : Op} (hinv : TokenInv w) (hpre : TokenPre j w op)
    (hstep : StoreStep D j w.store op w'.store) :
    TableStep w.draws j w.refreshTokens w'.refreshTokens ∧
      ∀ i, i ≠ j → ∀ e ∈ w.refreshTokens, w.HoldsToken i e.id → e ∈ w'.refreshTokens := by
  rcases hstep.db_cases with hdb | ⟨wr, rfl, ht, hdb⟩ | ⟨st, rfl, htx, hrun, ht, hdb⟩ | ⟨rfl, hs⟩
  · have hrt : w'.refreshTokens = w.refreshTokens := congrArg Db.refreshTokens hdb
    rw [hrt]
    exact ⟨.same, fun _ _ e he _ => he⟩
  · have hrt : w'.refreshTokens = wr.onRefreshTokens w.refreshTokens :=
      congrArg Db.refreshTokens hdb
    rw [hrt]
    by_cases htab : wr.table = .refreshTokens
    · obtain ⟨t, rfl, hroot⟩ := hpre htab
      rw [if_neg (by simp)] at hroot
      replace hroot := hroot.2
      rw [upsert_new hroot.id_new]
      exact ⟨.root hroot, fun _ _ e he _ => List.mem_append_left _ he⟩
    · rw [Write.onRefreshTokens_of_table htab]
      exact ⟨.same, fun _ _ e he _ => he⟩
  · have hrt : w'.refreshTokens = st.write.onRefreshTokens w.refreshTokens :=
      congrArg Db.refreshTokens hdb
    rw [hrt]
    by_cases htab : st.write.table = .refreshTokens
    · obtain ⟨f, now, hu, hw⟩ := statement_table htab
      rw [hw] at ht ⊢
      rw [revoke_onRefreshTokens]
      refine ⟨.revoke, fun i hij e he hl => List.mem_map.mpr ⟨e, he, if_neg fun hc => hij ?_⟩⟩
      exact ht.unlocked _ (List.mem_map.mpr ⟨e.id, hc.1, rfl⟩) i hl
    · rw [Write.onRefreshTokens_of_table htab]
      exact ⟨.same, fun _ _ e he _ => he⟩
  · obtain ⟨p, hp, hok, hc⟩ := hpre
    have hrt : w'.refreshTokens = p.writes.foldl (fun ts wr => wr.onRefreshTokens ts)
        w.refreshTokens := by
      rw [World.refreshTokens, hs, ← hp, ← view_refreshTokens D]
      rfl
    obtain ⟨hts, hfree⟩ := p.tableStep hok hc hrt
    exact ⟨hts, fun i hij e he hl => hfree e he fun hj => hij (hinv.locks hl hj)⟩

theorem tokenWrites_of_pendingOf (h : w'.store.pendingOf i = w.store.pendingOf i) :
    w'.tokenWrites i = w.tokenWrites i := by
  rw [World.tokenWrites, h]
  rfl

/-- **What a step of one thread leaves to the others.** -/
theorem tokenStep {op : Op} (hinv : TokenInv w) (hpre : TokenPre j w op)
    (hstep : StoreStep D j w.store op w'.store) (hn : w.draws ≤ w'.draws) : TokenStep j w w' where
  draws := hn
  table := (tableStep hinv hpre hstep).1
  writes := fun _ hij => tokenWrites_of_pendingOf (hstep.pendingOf_ne hij)
  holds := fun _ hij _ hl => hstep.mem_locks_ne hij hl
  held := (tableStep hinv hpre hstep).2

/-- A transaction stays where it is while the table does. -/
theorem Phase.Ok.mono {p : Phase} (h : p.Ok w i) (ht : w'.refreshTokens = w.refreshTokens)
    (hn : w.draws ≤ w'.draws) (hl : ∀ id, w.HoldsToken i id → w'.HoldsToken i id) :
    p.Ok w' i := by
  have hroot : ∀ r, Root w.refreshTokens w.draws i r → Root w'.refreshTokens w'.draws i r :=
    fun r hr => ⟨hr.id_by.mono hn, ht ▸ hr.id_new, hr.family_by.mono hn, ht ▸ hr.family_new,
      hr.not_replaced⟩
  have hsucc : ∀ e r, Successor w.refreshTokens w.draws i e r →
      Successor w'.refreshTokens w'.draws i e r :=
    fun e r hs => ⟨ht ▸ hs.mem, hs.live, hs.id_by.mono hn, ht ▸ hs.id_new, hs.family_eq,
      hs.user_eq, hs.not_replaced⟩
  cases p with
  | idle => trivial
  | rooted r => exact hroot r h
  | opened e r => exact ⟨hsucc e r h.1, hl _ h.2⟩
  | replaced e r now => exact ⟨hsucc e r h.1, hl _ h.2⟩

theorem tokenWrites_nil (h : w.store.pendingOf i = []) : w.tokenWrites i = [] := by
  rw [World.tokenWrites, h]
  rfl

theorem tokenWrites_append {wr : Write}
    (h : w'.store.pendingOf i = w.store.pendingOf i ++ [wr]) :
    w'.tokenWrites i = w.tokenWrites i ++ if wr.table = .refreshTokens then [wr] else [] := by
  rw [World.tokenWrites, h, List.filter_append]
  congr 1
  by_cases ht : wr.table = .refreshTokens <;> simp [ht]

/-- Where the transaction of a thread is after its own step. -/
theorem phase_self {op : Op} (hinv : TokenInv w) (hpre : TokenPre j w op)
    (hstep : StoreStep D j w.store op w'.store) (hn : w.draws ≤ w'.draws) :
    ∃ p : Phase, w'.tokenWrites j = p.writes ∧ p.Ok w' j := by
  obtain ⟨p, hp, hok⟩ := hinv.phase j
  have hidle : w'.tokenWrites j = [] → ∃ p : Phase, w'.tokenWrites j = p.writes ∧ p.Ok w' j :=
    fun h => ⟨.idle, h, trivial⟩
  generalize hs : w'.store = s at hstep
  have hsame : w'.store.pendingOf j = w.store.pendingOf j → w'.refreshTokens = w.refreshTokens →
      (∀ l ∈ w.store.locks, l ∈ w'.store.locks) →
      ∃ p : Phase, w'.tokenWrites j = p.writes ∧ p.Ok w' j := by
    intro hpend ht hl
    exact ⟨p, (tokenWrites_of_pendingOf hpend).trans hp, hok.mono ht hn fun _ h => hl _ h⟩
  cases hstep with
  | same _ => exact hsame (by rw [hs]) (by rw [World.refreshTokens, hs]; rfl) (by rw [hs]; simp)
  | lock _ _ =>
    exact hsame (by rw [hs]; rfl) (by rw [World.refreshTokens, hs]; rfl)
      (by rw [hs]; exact fun l h => List.mem_append_left _ h)
  | @write tx wr _ =>
    cases tx with
    | false =>
      by_cases htab : wr.table = .refreshTokens
      · obtain ⟨t, rfl, hpre⟩ := hpre htab
        rw [if_neg (by simp)] at hpre
        exact hidle ((tokenWrites_of_pendingOf (by rw [hs]; rfl)).trans hpre.1)
      · refine hsame (by rw [hs]; rfl) ?_ (by rw [hs]; exact fun l h => h)
        rw [World.refreshTokens, hs]
        exact Write.onRefreshTokens_of_table htab _
    | true =>
      have hpend : w'.store.pendingOf j = w.store.pendingOf j ++ [wr] := by
        rw [hs]
        exact w.store.pendingOf_put_self (schema D)
      have hrt : w'.refreshTokens = w.refreshTokens := by rw [World.refreshTokens, hs]; rfl
      have hl : ∀ id, w.HoldsToken j id → w'.HoldsToken j id := by
        intro id h
        rw [World.HoldsToken, hs]
        exact mem_locks_written h
      by_cases htab : wr.table = .refreshTokens
      · obtain ⟨t, rfl, hpre⟩ := hpre htab
        rw [if_pos rfl] at hpre
        obtain ⟨p', hp', hok'⟩ := hpre
        refine ⟨p', ?_, hok'.mono hrt hn hl⟩
        rw [tokenWrites_append hpend, if_pos htab, hp']
      · refine ⟨p, ?_, hok.mono hrt hn hl⟩
        rw [tokenWrites_append hpend, if_neg htab, List.append_nil, hp]
  | commit => exact hidle (tokenWrites_nil (by rw [hs]; exact w.store.pendingOf_rollback_self))
  | rollback _ => exact hidle (tokenWrites_nil (by rw [hs]; exact w.store.pendingOf_rollback_self))
  | start =>
    exact hsame (by rw [hs]; rfl) (by rw [World.refreshTokens, hs]; rfl)
      (by rw [hs]; exact fun l h => h)
  | @finish st _ _ =>
    by_cases htab : st.update.table = .refreshTokens
    · obtain ⟨htx, hnil⟩ := hpre htab
      refine hidle ((tokenWrites_of_pendingOf ?_).trans hnil)
      rw [hs, Store.pendingOf_stop, htx]
      rfl
    · have hrt : w'.refreshTokens = w.refreshTokens := by
        rw [World.refreshTokens, hs]
        cases st.tx with
        | false =>
          exact Write.onRefreshTokens_of_table (by rwa [statement_write_table]) _
        | true => rfl
      have hl : ∀ l ∈ w.store.locks, l ∈ w'.store.locks := by
        rw [hs]
        exact fun l h => mem_locks_written h
      cases htx : st.tx with
      | false =>
        refine hsame ?_ hrt hl
        rw [hs, Store.pendingOf_stop, htx]
        rfl
      | true =>
        have hpend : w'.store.pendingOf j = w.store.pendingOf j ++ [st.write] := by
          rw [hs, Store.pendingOf_stop, htx]
          exact w.store.pendingOf_put_self (schema D)
        refine ⟨p, ?_, hok.mono hrt hn fun _ h => hl _ h⟩
        rw [tokenWrites_append hpend, if_neg (by rwa [statement_write_table]), List.append_nil, hp]
  | stop _ =>
    exact hsame (by rw [hs]; rfl) (by rw [World.refreshTokens, hs]; rfl)
      (by rw [hs]; exact fun l h => h)

/-- **The invariant is kept.** -/
theorem TokenInv.step {op : Op} (hinv : TokenInv w) (hpre : TokenPre j w op)
    (hstep : StoreStep D j w.store op w'.store) (hn : w.draws ≤ w'.draws) : TokenInv w' := by
  have hts := tokenStep hinv hpre hstep hn
  refine ⟨hts.table.wf hinv.wf, fun a ha => ⟨?_, ?_⟩, hstep.exclusive hinv.locks, fun i => ?_⟩
  · rcases (hts.table.new ha).1 with ⟨b, hb, hid⟩ | hby
    · obtain ⟨k, hk⟩ := (hinv.drawn b hb).1
      exact ⟨k, hid ▸ hk.mono hn⟩
    · exact ⟨j, hby.mono hn⟩
  · rcases (hts.table.new ha).2 with ⟨b, hb, hfam⟩ | hby
    · obtain ⟨k, hk⟩ := (hinv.drawn b hb).2
      exact ⟨k, hfam ▸ hk.mono hn⟩
    · exact ⟨j, hby.mono hn⟩
  · by_cases hij : i = j
    · subst hij
      exact phase_self hinv hpre hstep hn
    · obtain ⟨p, hp, hok⟩ := hinv.phase i
      exact ⟨p, (hts.writes i hij).trans hp, hok.step hts hij⟩

theorem rollback_pre : TokenPre j w (.call .rollback) := trivial

/-- A crash is a rollback to everybody else. -/
theorem tokenStep_drop (D : Deps) (hinv : TokenInv w) :
    TokenStep j w { w with store := w.store.drop j } := by
  have h : TokenStep j w { w with store := w.store.rollback j } :=
    tokenStep (D := D) hinv rollback_pre (.rollback (.inr rfl)) (Nat.le_refl _)
  exact ⟨h.draws, h.table, h.writes, h.holds, h.held⟩

theorem TokenInv.drop (D : Deps) (hinv : TokenInv w) :
    TokenInv { w with store := w.store.drop j } := by
  have h : TokenInv { w with store := w.store.rollback j } :=
    hinv.step (D := D) (j := j) rollback_pre (.rollback (.inr rfl)) (Nat.le_refl _)
  refine ⟨h.wf, h.drawn, h.locks, fun i => ?_⟩
  obtain ⟨p, hp, hok⟩ := h.phase i
  exact ⟨p, hp, hok.mono rfl (Nat.le_refl _) fun _ hl => hl⟩

end Step

/-! ### The contract -/

def tokenContract (D : Deps) : Contract (authMachine D) where
  Inv := fun s => TokenInv s.world ∧ Attributed s
  Pre := fun i _ op s => TokenPre i s.world op
  call_inv := fun hinv hpre he =>
    ⟨hinv.1.step hpre (exec_store he) (exec_draws he), hinv.2.call he⟩
  crash_inv := fun hinv => ⟨hinv.1.drop D, hinv.2.crash⟩

section Logic

variable {D : Deps} {i : Nat} {q : Request} {s t : AuthState} {α : Type}

theorem tokenStep_of_other (h : (tokenContract D).OtherStep i s t) :
    ∃ j, j ≠ i ∧ TokenStep j s.world t.world := by
  cases h with
  | call hj hinv hpre he => exact ⟨_, hj, tokenStep hinv.1 hpre (exec_store he) (exec_draws he)⟩
  | crash hj hinv => exact ⟨_, hj, tokenStep_drop D hinv.1⟩

/-- A fact about the world that no step of another thread spoils, and no call of
the thread itself that leaves the store alone. -/
structure Solid (D : Deps) (i : Nat) (P : World → Prop) : Prop where
  stable : (tokenContract D).Stable i fun s => P s.world
  quiet : ∀ w w', w'.store = w.store → w.draws ≤ w'.draws → P w → P w'

theorem Solid.and {P Q : World → Prop} (hP : Solid D i P) (hQ : Solid D i Q) :
    Solid D i fun w => P w ∧ Q w :=
  ⟨hP.stable.and hQ.stable, fun w w' h hn hw => ⟨hP.quiet w w' h hn hw.1, hQ.quiet w w' h hn hw.2⟩⟩

/-- The transaction of a thread, and what it holds, are its own. -/
theorem solid_phase (p : Phase) :
    Solid D i fun w => w.tokenWrites i = p.writes ∧ p.Ok w i := by
  constructor
  case stable =>
    intro s t h ⟨hp, hok⟩
    obtain ⟨j, hj, hs⟩ := tokenStep_of_other h
    exact ⟨(hs.writes i (Ne.symm hj)).trans hp, hok.step hs (Ne.symm hj)⟩
  case quiet =>
    intro w w' h hn ⟨hp, hok⟩
    refine ⟨(tokenWrites_of_pendingOf (by rw [h])).trans hp, hok.mono ?_ hn fun id hl => ?_⟩
    · rw [World.refreshTokens, h]; rfl
    · rw [World.HoldsToken, h]; exact hl

/-- Whether a thread has written nothing to `refresh_tokens` in its transaction. -/
def Idle (i : Nat) (w : World) : Prop := w.tokenWrites i = []

theorem solid_idle : Solid D i (Idle i) := by
  have h := solid_phase (D := D) (i := i) .idle
  exact ⟨fun s t hst hs => (h.stable hst ⟨hs, trivial⟩).1,
    fun w w' hw hn hs => (h.quiet w w' hw hn ⟨hs, trivial⟩).1⟩

/-- A thread that has locked a live token, and written nothing yet. -/
structure Holding (i : Nat) (e : RefreshToken) (w : World) : Prop where
  idle : Idle i w
  mem : e ∈ w.refreshTokens
  holds : w.HoldsToken i e.id

theorem solid_holding {e : RefreshToken} : Solid D i (Holding i e) := by
  constructor
  case stable =>
    intro s t h hs
    obtain ⟨j, hj, hst⟩ := tokenStep_of_other h
    exact ⟨(hst.writes i (Ne.symm hj)).trans hs.idle, hst.held i (Ne.symm hj) e hs.mem hs.holds,
      hst.holds i (Ne.symm hj) _ hs.holds⟩
  case quiet =>
    intro w w' h hn hs
    refine ⟨solid_idle.quiet (D := D) w w' h hn hs.idle, ?_, ?_⟩
    · rw [World.refreshTokens, h]; exact hs.mem
    · rw [World.HoldsToken, h]; exact hs.holds

/-- A value of thread `i` that names no row and no family. -/
def Unused (i : Nat) (u : Uuid) (w : World) : Prop :=
  u.By i w.draws ∧ ∀ a ∈ w.refreshTokens, a.id ≠ u ∧ a.familyId ≠ u

theorem solid_unused {u : Uuid} : Solid D i (Unused i u) := by
  constructor
  case stable =>
    intro s t h ⟨hby, hno⟩
    obtain ⟨j, hj, hst⟩ := tokenStep_of_other h
    refine ⟨hby.mono hst.draws, fun a ha => ⟨?_, ?_⟩⟩
    · rcases (hst.table.new ha).1 with ⟨b, hb, hba⟩ | hbj
      · exact hba ▸ (hno b hb).1
      · exact hbj.ne hby hj
    · rcases (hst.table.new ha).2 with ⟨b, hb, hba⟩ | hbj
      · exact hba ▸ (hno b hb).2
      · exact hbj.ne hby hj
  case quiet =>
    intro w w' h hn ⟨hby, hno⟩
    refine ⟨hby.mono hn, fun a ha => hno a ?_⟩
    rw [World.refreshTokens, h] at ha
    exact ha

/-- Whether a family has a row.  It always will. -/
def FamilyExists (f : Uuid) (w : World) : Prop := ∃ a ∈ w.refreshTokens, a.familyId = f

theorem FamilyExists.step {j : Nat} {f : Uuid} {w w' : World} (h : FamilyExists f w)
    (hinv : TokenInv w) (hs : TokenStep j w w') : FamilyExists f w' := by
  obtain ⟨a, ha, hf⟩ := h
  obtain ⟨a', ha', _, hfam, _, _⟩ := hs.table.kept hinv.wf ha
  exact ⟨a', ha', hfam.trans hf⟩

theorem otherStep_inv (h : (tokenContract D).OtherStep i s t) : TokenInv s.world := by
  cases h with
  | call _ hinv _ _ => exact hinv.1
  | crash _ hinv => exact hinv.1

theorem solid_familyExists {f : Uuid} : Solid D i (FamilyExists f) := by
  constructor
  case stable =>
    intro s t h hs
    obtain ⟨j, _, hst⟩ := tokenStep_of_other h
    exact hs.step (otherStep_inv h) hst
  case quiet =>
    intro w w' h _ hs
    rw [FamilyExists, World.refreshTokens, h]
    exact hs

end Logic

end LakiraBackend.Auth
