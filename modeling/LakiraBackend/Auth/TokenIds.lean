import LakiraBackend.Auth.Guards

/-!
# Who names a refresh token

`save` overwrites the row that has the id it is given, so it adds a row only where the id is new.
Every thread gives ids that it has drawn itself, or that are on a row already (`MayName`).  So the
id that a thread has drawn, and not given yet, is on no row, whatever the other threads do
(`stable_newToken`).
-/

namespace LakiraBackend.Auth

open LakiraBackend.Concurrency

variable {D : Deps} {init : World → Prop} {Pre : Precondition} {i j : Nat} {q : Request}
  {s t : AuthState} {w w' w₀ : World} {u : Uuid} {hist : List AuthEvent}

/-- No committed row has the id. -/
def NewToken (u : Uuid) (w : World) : Prop := ∀ a ∈ w.store.db.refreshTokens, a.id ≠ u

/-- Thread `i` has drawn the id itself, or it is on a committed row. -/
def MayName (i : Nat) (u : Uuid) (w : World) : Prop := u.By i w.draws ∨ ¬ NewToken u w

/-- What a thread has to know of the refresh token it saves. -/
def tokenIdPre (i : Nat) : Op → World → Prop
  | .call (.write _ (.upsertRefreshToken t)), w => MayName i t.id w
  | _, _ => True

theorem not_newToken : ¬ NewToken u w ↔ ∃ a ∈ w.store.db.refreshTokens, a.id = u := by
  simp only [NewToken, not_forall, not_not, exists_prop]

/-! ### Rows keep their ids -/

section Rows

variable {wr : Write} {ts : List RefreshToken} {a : RefreshToken}

theorem id_onRefreshTokens (ha : a ∈ ts) : ∃ b ∈ wr.onRefreshTokens ts, b.id = a.id := by
  cases wr with
  | upsertRefreshToken t =>
    simp only [Write.onRefreshTokens]
    split
    · refine ⟨_, List.mem_map_of_mem ha, ?_⟩
      split
      · rename_i hid
        exact hid.symm
      · rfl
    · exact ⟨a, List.mem_append_left _ ha, rfl⟩
  | revokeRefreshTokens familyId now ids =>
    refine ⟨_, List.mem_map_of_mem ha, ?_⟩
    split <;> rfl
  | _ => exact ⟨a, ha, rfl⟩

theorem id_of_onRefreshTokens (ha : a ∈ wr.onRefreshTokens ts) :
    (∃ b ∈ ts, b.id = a.id) ∨ ∃ t, wr = .upsertRefreshToken t ∧ a.id = t.id := by
  cases wr with
  | upsertRefreshToken t =>
    simp only [Write.onRefreshTokens] at ha
    split at ha
    · obtain ⟨b, hb, rfl⟩ := List.mem_map.mp ha
      split
      · exact .inr ⟨t, rfl, rfl⟩
      · exact .inl ⟨b, hb, rfl⟩
    · rcases List.mem_append.mp ha with ha | ha
      · exact .inl ⟨a, ha, rfl⟩
      · rw [List.mem_singleton.mp ha]
        exact .inr ⟨t, rfl, rfl⟩
  | revokeRefreshTokens familyId now ids =>
    obtain ⟨b, hb, rfl⟩ := List.mem_map.mp ha
    refine .inl ⟨b, hb, ?_⟩
    split <;> rfl
  | _ => exact .inl ⟨a, ha, rfl⟩

theorem id_foldl {ws : List Write} {d : Db} (ha : a ∈ d.refreshTokens) :
    ∃ b ∈ (ws.foldl (fun d wr => wr.apply D d) d).refreshTokens, b.id = a.id := by
  induction ws using List.reverseRecOn with
  | nil => exact ⟨a, ha, rfl⟩
  | append_singleton ws wr ih =>
    obtain ⟨b, hb, hid⟩ := ih
    obtain ⟨c, hc, hid'⟩ : ∃ c ∈ wr.onRefreshTokens _, c.id = b.id := id_onRefreshTokens hb
    rw [List.foldl_append]
    exact ⟨c, hc, hid'.trans hid⟩

theorem id_of_foldl {ws : List Write} {d : Db}
    (ha : a ∈ (ws.foldl (fun d wr => wr.apply D d) d).refreshTokens) :
    (∃ b ∈ d.refreshTokens, b.id = a.id) ∨ ∃ t, .upsertRefreshToken t ∈ ws ∧ a.id = t.id := by
  induction ws using List.reverseRecOn generalizing a with
  | nil => exact .inl ⟨a, ha, rfl⟩
  | append_singleton ws wr ih =>
    rw [List.foldl_append] at ha
    have hpast : ∀ {b : RefreshToken},
        b ∈ (ws.foldl (fun d wr => wr.apply D d) d).refreshTokens → b.id = a.id →
        (∃ c ∈ d.refreshTokens, c.id = a.id) ∨
          ∃ t, .upsertRefreshToken t ∈ ws ++ [wr] ∧ a.id = t.id := by
      intro b hb hid
      rcases ih hb with ⟨c, hc, hcb⟩ | ⟨t, ht, hbt⟩
      · exact .inl ⟨c, hc, hcb.trans hid⟩
      · exact .inr ⟨t, List.mem_append_left _ ht, hid.symm.trans hbt⟩
    rcases id_of_onRefreshTokens ha with ⟨b, hb, hid⟩ | ⟨t, rfl, hid⟩
    · exact hpast hb hid
    · exact .inr ⟨t, List.mem_append_right _ (List.mem_singleton_self _), hid⟩

end Rows

/-! ### One step -/

/-- The refresh token of an UPDATE over many rows is none. -/
theorem statement_ne_upsert (st : Statement) (t : RefreshToken) :
    st.write ≠ .upsertRefreshToken t := by
  obtain ⟨tx, u, ids⟩ := st
  cases u <;> exact fun h => nomatch h

/-- **The invariant of the ids.** -/
structure TokenIds (w : World) : Prop where
  committed : ∀ a ∈ w.store.db.refreshTokens, (∃ n, a.id = .seed n) ∨ ∃ j, a.id.By j w.draws
  pending : ∀ j t, (j, .upsertRefreshToken t) ∈ w.store.pending → MayName j t.id w

/-- A committed row stays. -/
theorem id_kept {op : Op} (hstep : StoreStep D j w.store op w'.store) (h : ¬ NewToken u w) :
    ¬ NewToken u w' := by
  obtain ⟨a, ha, hu⟩ := not_newToken.mp h
  refine not_newToken.mpr ?_
  have hwrite : ∀ wr : Write, w'.store.db = wr.apply D w.store.db →
      ∃ b ∈ w'.store.db.refreshTokens, b.id = u := by
    intro wr hdb
    obtain ⟨b, hb, hid⟩ : ∃ b ∈ wr.onRefreshTokens _, b.id = a.id := id_onRefreshTokens ha
    exact ⟨b, hdb ▸ hb, hid.trans hu⟩
  rcases hstep.db_cases with hdb | ⟨wr, _, _, hdb⟩ | ⟨st, _, _, _, _, hdb⟩ | ⟨_, hs⟩
  · exact ⟨a, hdb ▸ ha, hu⟩
  · exact hwrite wr hdb
  · exact hwrite st.write hdb
  · obtain ⟨b, hb, hid⟩ : ∃ b ∈ ((w.store.pendingOf j).foldl (fun d wr => wr.apply D d)
        w.store.db).refreshTokens, b.id = a.id := id_foldl ha
    rw [hs]
    exact ⟨b, hb, hid.trans hu⟩

theorem MayName.mono (h : MayName i u w) (hdraws : w.draws ≤ w'.draws)
    (hkept : ¬ NewToken u w → ¬ NewToken u w') : MayName i u w' :=
  h.imp (fun hby => hby.mono hdraws) hkept

/-- **An id that comes up is one of the thread's own.** -/
theorem id_new_of_step {op : Op} (hids : TokenIds w) (hpre : tokenIdPre j op w)
    (hstep : StoreStep D j w.store op w'.store) {a : RefreshToken}
    (ha : a ∈ w'.store.db.refreshTokens) (hnew : NewToken a.id w) : a.id.By j w.draws := by
  have hold : (∃ b ∈ w.store.db.refreshTokens, b.id = a.id) → a.id.By j w.draws :=
    fun ⟨b, hb, hid⟩ => absurd hid (hnew b hb)
  have hown : ∀ {t : RefreshToken}, MayName j t.id w → a.id = t.id → a.id.By j w.draws := by
    intro t ht hid
    rw [hid] at hnew ⊢
    exact ht.resolve_right fun h => h hnew
  rcases hstep.db_cases with hdb | ⟨wr, rfl, _, hdb⟩ | ⟨st, _, _, _, _, hdb⟩ | ⟨_, hs⟩
  · exact hold ⟨a, hdb ▸ ha, rfl⟩
  · rw [hdb] at ha
    rcases id_of_onRefreshTokens ha with hb | ⟨t, rfl, hid⟩
    · exact hold hb
    · exact hown hpre hid
  · rw [hdb] at ha
    rcases id_of_onRefreshTokens ha with hb | ⟨t, hst, _⟩
    · exact hold hb
    · exact absurd hst (statement_ne_upsert st t)
  · rw [hs] at ha
    rcases id_of_foldl (D := D) ha with hb | ⟨t, ht, hid⟩
    · exact hold hb
    · exact hown (hids.pending j t (w.store.mem_pendingOf.mp ht)) hid

/-- **The ids stay as they have to be.** -/
theorem TokenIds.step {op : Op} (hids : TokenIds w) (hpre : tokenIdPre j op w)
    (hstep : StoreStep D j w.store op w'.store) (hdraws : w.draws ≤ w'.draws) : TokenIds w' where
  committed := by
    intro a ha
    by_cases hnew : NewToken a.id w
    · exact .inr ⟨j, (id_new_of_step hids hpre hstep ha hnew).mono hdraws⟩
    · obtain ⟨b, hb, hid⟩ := not_newToken.mp hnew
      rcases hids.committed b hb with ⟨n, hn⟩ | ⟨k, hk⟩
      · exact .inl ⟨n, hid ▸ hn⟩
      · exact .inr ⟨k, hid ▸ hk.mono hdraws⟩
  pending := by
    intro k t ht
    have hmono : MayName k t.id w → MayName k t.id w' :=
      fun h => h.mono hdraws (id_kept hstep)
    rcases hstep.mem_pending ht with hold | hkj
    · exact hmono (hids.pending k t hold)
    · obtain rfl : k = j := hkj
      rcases hstep.pending_cases ht with hold | rfl | ⟨st, hst⟩
      · exact hmono (hids.pending k t hold)
      · exact hmono hpre
      · exact absurd hst.symm (statement_ne_upsert st t)

theorem TokenIds.drop (hids : TokenIds w) (j : Nat) :
    TokenIds { w with store := w.store.drop j } where
  committed := hids.committed
  pending := fun k t ht => hids.pending k t (List.mem_of_mem_filter ht)

/-- Another thread's step brings up no id of thread `i`. -/
theorem NewToken.step {op : Op} (h : NewToken u w) (hby : u.By i w.draws) (hij : j ≠ i)
    (hids : TokenIds w) (hpre : tokenIdPre j op w) (hstep : StoreStep D j w.store op w'.store) :
    NewToken u w' := by
  rintro a ha rfl
  exact (id_new_of_step hids hpre hstep ha h).ne hby hij rfl

/-! ### Along a run -/

/-- The preconditions ask of a thread that it may give the ids it gives. -/
def AsksIds (Pre : Precondition) : Prop := ∀ i q op s, Pre i q op s → tokenIdPre i op s.world

/-- The refresh tokens there are at the start have ids that nobody draws: random values are
new. -/
def TokensSeeded (d : Db) : Prop := ∀ a ∈ d.refreshTokens, ∃ n, a.id = .seed n

theorem tokenIds_init {d : Db} (hd : TokensSeeded d) : TokenIds (World.init d) :=
  ⟨fun a ha => .inl (hd a ha), fun _ _ h => nomatch h⟩

theorem tokenIds_of_legal (hA : AsksIds Pre) (hw₀ : TokenIds w₀)
    (h : LegalHistory D Pre w₀ hist) : TokenIds (worldAfter w₀ hist) := by
  refine h.invariant (P := fun _ w => TokenIds w) hw₀ fun e past hl hids => ?_
  obtain ⟨tid, req, act, before, after⟩ := e
  cases act with
  | call op r =>
    obtain ⟨hpre, inp, he⟩ := hl.2.1
    have he' : exec D tid inp op before = some (r, after) := he
    exact hids.step (hA _ _ _ _ hpre) (exec_store he') (exec_draws he')
  | crash =>
    have hafter : after = { before with store := before.store.drop tid } := hl.2.1
    exact hafter ▸ hids.drop tid

/-- The contract keeps the ids as they have to be. -/
theorem tokenIds_of_inv (hA : AsksIds Pre) (hinit : ∀ w, init w → TokenIds w)
    (h : (guard D init Pre).Inv s) : TokenIds s.world := by
  obtain ⟨w₀, hw₀, hworld, hl⟩ := h
  exact hworld ▸ tokenIds_of_legal hA (hinit w₀ hw₀) hl

/-- What a thread has drawn stays its own. -/
theorem stable_by : (guard D init Pre).Stable i fun s => u.By i s.world.draws := by
  intro s t h hs
  cases h with
  | @call j q op inp r w _ _ _ he =>
    have he' : exec D j inp op s.world = some (r, w) := he
    exact hs.mono (exec_draws he')
  | crash _ _ => exact hs

/-- **An id that a thread has drawn stays new.** -/
theorem stable_newToken (hA : AsksIds Pre) (hinit : ∀ w, init w → TokenIds w) :
    (guard D init Pre).Stable i fun s => u.By i s.world.draws ∧ NewToken u s.world := by
  intro s t h hs
  refine ⟨stable_by h hs.1, ?_⟩
  cases h with
  | @call j q op inp r w hj hinv hpre he =>
    have he' : exec D j inp op s.world = some (r, w) := he
    exact hs.2.step hs.1 hj (tokenIds_of_inv hA hinit hinv) (hA _ _ _ _ hpre) (exec_store he')
  | crash _ _ => exact hs.2

/-- What a thread may name it still may after the others have gone on. -/
theorem stable_mayName : (guard D init Pre).Stable i fun s => MayName i u s.world := by
  intro s t h hs
  cases h with
  | @call j q op inp r w _ _ _ he =>
    have he' : exec D j inp op s.world = some (r, w) := he
    exact hs.mono (exec_draws he') (id_kept (exec_store he'))
  | crash _ _ => exact hs

/-- A drawn value is on no row. -/
theorem newToken_of_draw (hids : TokenIds w) : NewToken (.drawn i w.draws) w := by
  intro a ha h
  rcases hids.committed a ha with ⟨n, hn⟩ | ⟨j, k, hk, hj⟩
  · cases hn.symm.trans h
  · obtain ⟨_, rfl⟩ := Uuid.drawn.inj (hj.symm.trans h)
    exact Nat.lt_irrefl _ hk

end LakiraBackend.Auth
