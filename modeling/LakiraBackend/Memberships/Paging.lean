import LakiraBackend.Memberships.Listing
import LakiraBackend.Paging.Keyset
import Mathlib.Data.Prod.Lex

/-!
# Paging of memberships is exact

A page is a keyset page by when a membership joined, to the millisecond, and its id
(`findPage_items`, `findPage_next`), and a cursor that is sent back is the position it was
made of (`decode_encode`).  So a walk of a route is a walk of pages (`Walk.refines`), and
what is listed of it comes in order and once (`memberships_listed`).
-/

namespace LakiraBackend.Memberships

open LakiraBackend.JavaScript LakiraBackend.Postgres

abbrev Key : Type := Int ×ₗ Uuid

def key (m : Membership) : Key := toLex (joinedAtMs m, m.id)

def MembershipPosition.key (p : MembershipPosition) : Key := toLex (p.joinedAt.ms, p.uuid)

/-! ### A page is a keyset page -/

theorem key_toPosition (m : Membership) : (toPosition m).key = key m := by
  have huuid : (toPosition m).uuid = m.id := Option.get_of_eq_some _ m.id.ofText_text
  rw [MembershipPosition.key, huuid]
  rfl

theorem orderByJoinedMs_iff {m n : Membership} : orderByJoinedMs m n ↔ key m ≤ key n := by
  rw [key, key, Prod.Lex.toLex_le_toLex]
  rfl

theorem isAfter_eq (after : Option MembershipPosition) (m : Membership) :
    isAfter after m = Paging.follows (after.map MembershipPosition.key) (key m) := by
  cases after with
  | none => rfl
  | some p =>
    refine Bool.eq_iff_iff.mpr ?_
    simp only [isAfter, Option.map_some, Paging.follows, Bool.or_eq_true, Bool.and_eq_true,
      decide_eq_true_eq, key, MembershipPosition.key, Prod.Lex.toLex_lt_toLex, gt_iff_lt,
      @eq_comm Int (joinedAtMs m)]

variable {t : MembershipTable} {where' : Membership → Bool} {limit : Nat}
  {after : Option MembershipPosition}

theorem found_eq : (t.rows.filter fun m => where' m && isAfter after m).insertionSort
    orderByJoinedMs = Paging.found key (t.rows.filter where') (after.map MembershipPosition.key) := by
  have hsort := List.map_insertionSort orderByJoinedMs (fun m n => key m ≤ key n) id
    (t.rows.filter fun m => where' m && isAfter after m) fun _ _ _ _ => orderByJoinedMs_iff
  rw [List.map_id, List.map_id] at hsort
  rw [hsort, Paging.found, List.filter_filter]
  congr 2
  funext m
  rw [isAfter_eq, Bool.and_comm]

/-- **A page has the items of a keyset page**, -/
theorem findPage_items : (findPage t where' ⟨limit, after⟩).items =
    (Paging.page key (t.rows.filter where') (after.map MembershipPosition.key) limit).items := by
  simp only [findPage, found_eq, Paging.page]

/-- **and its next position.** -/
theorem findPage_next : (findPage t where' ⟨limit, after⟩).next.map MembershipPosition.key =
    (Paging.page key (t.rows.filter where') (after.map MembershipPosition.key) limit).next := by
  simp only [findPage, found_eq, Paging.page]
  split
  · rw [Option.map_map]
    exact congrArg (Option.map · _) (funext key_toPosition)
  · rfl

/-! ### A cursor is read back -/

/-- **A cursor that is encoded is decoded.** -/
theorem decode_encode (other : List Char → Option Date) (p : MembershipPosition) :
    decodeMembershipCursor other (encodeMembershipCursor p) = some p := by
  obtain ⟨joinedAt, id, hid⟩ := p
  have hback : Json.ofBase64url (encodeMembershipCursor ⟨joinedAt, id, hid⟩) =
      some (.obj [("j".toList, .str joinedAt.toISOString), ("i".toList, .str id)]) := by
    refine Json.ofBase64url_toBase64url (List.cons_ne_nil _ _) ?_
    exact List.forall_mem_cons.mpr ⟨trivial, List.forall_mem_singleton.mpr trivial⟩
  rw [decodeMembershipCursor, hback, Option.bind_some]
  have hj : (Json.obj [("j".toList, .str joinedAt.toISOString), ("i".toList, .str id)]).get "j" =
      some (.str joinedAt.toISOString) := rfl
  have hi : (Json.obj [("j".toList, .str joinedAt.toISOString), ("i".toList, .str id)]).get "i" =
      some (.str id) := rfl
  simp only [hj, hi, dif_pos hid, Date.parse_toISOString, Option.map_some]

/-! ### What a route lists -/

/-- A route that lists memberships, each as its `entry` has it. -/
structure Listing (other : List Char → Option Date) (D : Type) : Type where
  route : Db → Option Int → Option (List Char) → Response D
  where' : Membership → Bool
  entry : Db → Membership → Option D
  /-- What the entry is made of is there. -/
  found : Db → Membership → Prop
  where_role : ∀ m role, where' { m with role := role } = where' m
  entry_isSome : ∀ db m role, found db m → (entry db { m with role := role }).isSome
  route_ok : ∀ {db limit after res}, route db limit after = .ok res →
    ∃ page, membershipPageQuery other limit after = .ok page ∧
      res.items = (findPage db.memberships where' page).items.filterMap (entry db) ∧
      res.next = (findPage db.memberships where' page).next.map encodeMembershipCursor

/-- The one that was looked up is there. -/
theorem find?_lookup {α : Type} {l : List α} {live : α → Bool} {id : α → Uuid} {ids : List Uuid}
    {x : Uuid} (hx : x ∈ ids) :
    (l.filter fun a => live a && ids.contains (id a)).reverse.find? (fun a => id a = x) =
      (l.filter live).reverse.find? fun a => id a = x := by
  rw [← List.filter_reverse, ← List.filter_reverse, List.find?_filter, List.find?_filter]
  congr 1
  funext a
  by_cases h : id a = x
  · simp [h, hx]
  · simp [h]

theorem isSome_find?_lookup {α : Type} {l : List α} {live : α → Bool} {id : α → Uuid} {a : α}
    (ha : a ∈ l) (hlive : live a = true) :
    ((l.filter live).reverse.find? fun b => id b = id a).isSome :=
  List.find?_isSome.mpr ⟨a, List.mem_reverse.mpr (List.mem_filter.mpr ⟨ha, hlive⟩), by simp⟩

def memberEntry (db : Db) (m : Membership) : Option MemberDTO :=
  toMemberDTO (db.users.filter fun u => u.deletedAt.isNone) m

def userIsLive (db : Db) (m : Membership) : Prop :=
  ∃ u ∈ db.users, u.id = m.userId ∧ u.deletedAt = none

def organizationEntry (memberOf : Uuid) (db : Db) (m : Membership) : Option UserOrganizationDTO :=
  toUserOrganizationDTO (db.organizations.filter fun o => o.deletedAt.isNone) memberOf m

def organizationIsLive (db : Db) (m : Membership) : Prop :=
  ∃ o ∈ db.organizations, o.id = m.organizationId ∧ o.deletedAt = none

variable (other : List Char → Option Date)

/-- `listMembers`: a membership whose user is gone is left out. -/
def members {id : List Char} {organizationId : Uuid} (memberOf : Uuid)
    (hid : Uuid.ofText id = some organizationId) : Listing other MemberDTO where
  route := listMembers other memberOf id
  where' := ofOrganization organizationId
  entry := memberEntry
  found := userIsLive
  where_role _ _ := rfl
  entry_isSome := by
    rintro db m role ⟨u, hu, huser, hlive⟩
    rw [memberEntry, toMemberDTO, Option.isSome_map, ← huser]
    exact isSome_find?_lookup hu (by rw [hlive]; rfl)
  route_ok := by
    intro db limit after res h
    unfold listMembers at h
    rw [hid] at h
    cases hpage : membershipPageQuery other limit after with
    | error e => rw [hpage] at h; cases h
    | ok page =>
      simp only [hpage] at h
      split at h
      · cases h
      · obtain rfl := Except.ok.inj h
        refine ⟨page, rfl, List.filterMap_congr fun m hm => ?_, rfl⟩
        rw [memberEntry, toMemberDTO, toMemberDTO, findUsersByIds,
          find?_lookup (List.mem_map_of_mem hm)]

/-- `listMyOrganizations`: an organization since deleted is left out. -/
def organizations (userId memberOf : Uuid) : Listing other UserOrganizationDTO where
  route := listMyOrganizations other userId memberOf
  where' := activeOfUser userId
  entry := organizationEntry memberOf
  found := organizationIsLive
  where_role _ _ := rfl
  entry_isSome := by
    rintro db m role ⟨o, ho, horg, hlive⟩
    rw [organizationEntry, toUserOrganizationDTO, Option.isSome_map, ← horg]
    exact isSome_find?_lookup ho (by rw [hlive]; rfl)
  route_ok := by
    intro db limit after res h
    unfold listMyOrganizations at h
    cases hpage : membershipPageQuery other limit after with
    | error e => rw [hpage] at h; cases h
    | ok page =>
      simp only [hpage] at h
      obtain rfl := Except.ok.inj h
      refine ⟨page, rfl, List.filterMap_congr fun m hm => ?_, rfl⟩
      rw [organizationEntry, toUserOrganizationDTO, toUserOrganizationDTO, findOrganizationsByIds,
        find?_lookup (List.mem_map_of_mem hm)]

variable {other}

/-- What a query asks for is a page after the position that its cursor was made of. -/
theorem membershipPageQuery_ok {limit : Option Int} {position : Option MembershipPosition}
    {page : MembershipPageRequest}
    (h : membershipPageQuery other limit (position.map encodeMembershipCursor) = .ok page) :
    0 < page.limit ∧ page.after = position := by
  unfold membershipPageQuery at h
  dsimp only at h
  split at h
  · rename_i hlimit
    cases position with
    | none =>
      obtain rfl := Except.ok.inj h
      exact ⟨by dsimp only; omega, rfl⟩
    | some p =>
      simp only [Option.map_some, decode_encode] at h
      obtain rfl := Except.ok.inj h
      exact ⟨by dsimp only; omega, rfl⟩
  · cases h

/-! ### A walk of a route is a walk of pages -/

variable {D : Type} (L : Listing other D)

/-- The memberships a route lists, with the tables they are in. -/
def Listing.rows (db : Db) : List (Db × Membership) :=
  (db.memberships.rows.filter L.where').map fun m => (db, m)

theorem Listing.nodup_keys (db : Db) : ((L.rows db).map fun p => key p.2).Nodup := by
  have hids : ((db.memberships.rows.filter L.where').map Membership.id).Nodup :=
    db.memberships.ids.sublist (List.filter_sublist.map _)
  have hrows : (L.rows db).map (fun p => key p.2) = (db.memberships.rows.filter L.where').map key := by
    rw [Listing.rows, List.map_map]
    rfl
  rw [hrows]
  refine List.Nodup.of_map (fun k => (ofLex k).2) ?_
  rw [List.map_map]
  exact hids

variable {L} {db : Db} {events : List Event} {reads : List Db} {out : List D}
  {cursor : Option (List Char)} {rest : Option (Option (List Char))}

/-- One page of a route. -/
theorem Listing.page_eq {limit : Option Int} {position : Option MembershipPosition}
    {res : Listed D (List Char)}
    (h : L.route db limit (position.map encodeMembershipCursor) = .ok res) :
    ∃ n > 0, ∃ next : Option MembershipPosition,
      let page := Paging.page (fun p : Db × Membership => key p.2) (L.rows db)
        (position.map MembershipPosition.key) n
      res.items = page.items.filterMap (fun p => L.entry p.1 p.2) ∧
        res.next = next.map encodeMembershipCursor ∧ page.next = next.map MembershipPosition.key := by
  obtain ⟨⟨n, after⟩, hquery, hitems, hnext⟩ := L.route_ok h
  obtain ⟨hpos, rfl⟩ := membershipPageQuery_ok hquery
  refine ⟨n, hpos, _, ?_, hnext, ?_⟩
  · rw [hitems, findPage_items, Listing.rows, Paging.page_map, List.filterMap_map]
    rfl
  · rw [findPage_next, Listing.rows, Paging.page_map]
    rfl

/-- **A walk of a route is a walk of pages.** -/
theorem Walk.refines (h : Walk L.route db cursor events reads out rest) :
    ∀ position : Option MembershipPosition, cursor = position.map encodeMembershipCursor →
    ∃ pages listed restK,
      Paging.Walk (fun p : Db × Membership => key p.2) (position.map MembershipPosition.key)
        pages listed restK ∧
      (∀ page ∈ pages, ∃ db' ∈ reads, page.1 = L.rows db' ∧ 0 < page.2) ∧
      out = listed.filterMap (fun p => L.entry p.1 p.2) ∧ (rest = none → restK = none) := by
  induction h with
  | stop =>
    exact fun position _ =>
      ⟨_, _, _, .stop, fun _ h => absurd h List.not_mem_nil, rfl, fun h => nomatch h⟩
  | write _ ih => exact ih
  | @last db _ _ items hroute =>
    rintro position rfl
    obtain ⟨n, hn, next, hitems, hnext, hpage⟩ := Listing.page_eq hroute
    obtain rfl := Option.map_eq_none_iff.mp hnext.symm
    exact ⟨_, _, _, .last hpage, List.forall_mem_singleton.mpr ⟨db, List.mem_cons_self, rfl, hn⟩,
      hitems, fun _ => rfl⟩
  | @more db _ _ items c _ _ _ _ hroute _ ih =>
    rintro position rfl
    obtain ⟨n, hn, next, hitems, hnext, hpage⟩ := Listing.page_eq hroute
    obtain ⟨p, rfl, rfl⟩ := Option.map_eq_some_iff.mp hnext.symm
    obtain ⟨pages, listed, restK, hwalk, hreads, rfl, hrest⟩ := ih (some p) rfl
    refine ⟨_, _, restK, .more hpage hwalk, List.forall_mem_cons.mpr ⟨?_, ?_⟩, ?_, hrest⟩
    · exact ⟨db, List.mem_cons_self, rfl, hn⟩
    · intro page hmem
      obtain ⟨db', hread, hrows⟩ := hreads page hmem
      exact ⟨db', List.mem_cons_of_mem _ hread, hrows⟩
    · rw [List.filterMap_append, ← hitems]

/-! ### Memberships that are kept -/

/-- Only the role of a membership ever changes. -/
theorem onDb_kept {w : Write} {m : Membership} (h : m ∈ db.memberships.rows)
    (hkept : w ≠ .delete m.id) :
    ∃ role, { m with role := role } ∈ (w.onDb db).memberships.rows := by
  cases w with
  | create id userId organizationId role status now =>
    refine ⟨m.role, ?_⟩
    simp only [Write.onDb, MembershipTable.create]
    split
    · exact List.mem_cons_of_mem _ h
    · exact h
  | save id role =>
    have hrow : m.changeRole role id ∈ ((Write.save id role).onDb db).memberships.rows :=
      List.mem_map_of_mem h
    unfold Membership.changeRole at hrow
    split at hrow
    · exact ⟨role, hrow⟩
    · exact ⟨m.role, hrow⟩
  | delete id =>
    have hne : m.id ≠ id := fun heq => hkept (by rw [heq])
    exact ⟨m.role, List.mem_filter.mpr ⟨h, decide_eq_true hne⟩⟩
  | others _ _ => exact ⟨m.role, h⟩

/-- **A membership that is kept is in every table that is read.** -/
theorem Walk.kept {route : Db → Option Int → Option (List Char) → Response D}
    (h : Walk route db cursor events reads out rest) : ∀ m ∈ db.memberships.rows,
    Kept events m.id → ∀ db' ∈ reads, ∃ role, { m with role := role } ∈ db'.memberships.rows := by
  induction h with
  | stop => exact fun _ _ _ _ h => absurd h List.not_mem_nil
  | write _ ih =>
    intro m hm hkept
    obtain ⟨hw, hrest⟩ := List.forall_mem_cons.mp hkept
    obtain ⟨role, hrow⟩ := onDb_kept hm fun heq => hw (congrArg Event.write heq)
    exact ih { m with role := role } hrow hrest
  | last _ => exact fun m hm _ => List.forall_mem_singleton.mpr ⟨m.role, hm⟩
  | more _ _ ih =>
    intro m hm hkept
    exact List.forall_mem_cons.mpr ⟨⟨m.role, hm⟩, ih m hm (List.forall_mem_cons.mp hkept).2⟩

/-! ### What is listed -/

/-- The entries that were returned, each with the membership it is of. -/
structure Exact (where' : Membership → Bool) (entry : Db → Membership → Option D)
    (found : Db → Membership → Prop) (db : Db) (events : List Event) (reads : List Db)
    (rest : Option (Option (List Char))) (listed : List (Membership × D)) : Prop where
  /-- Each is an entry of a membership that was there when it was read. -/
  sound : ∀ p ∈ listed, ∃ db' ∈ reads, p.1 ∈ db'.memberships.rows ∧ where' p.1 = true ∧
    entry db' p.1 = some p.2
  /-- They are in order. -/
  ordered : listed.Pairwise fun p q => joinedAtMs p.1 < joinedAtMs q.1 ∨
    joinedAtMs p.1 = joinedAtMs q.1 ∧ p.1.id < q.1.id
  /-- After the last page, a membership that was there throughout has one entry. -/
  once : rest = none → ∀ m ∈ db.memberships.rows, where' m = true → Kept events m.id →
    (∀ db' ∈ reads, found db' m) → listed.countP (fun p => p.1.id = m.id) = 1

theorem key_lt_iff {m n : Membership} :
    key m < key n ↔ joinedAtMs m < joinedAtMs n ∨ joinedAtMs m = joinedAtMs n ∧ m.id < n.id :=
  Prod.Lex.toLex_lt_toLex

/-- Two rows of one table that have one id are one row. -/
theorem MembershipTable.eq_of_id (t : MembershipTable) {m n : Membership} (hm : m ∈ t.rows)
    (hn : n ∈ t.rows) (h : m.id = n.id) : m = n := List.inj_on_of_nodup_map t.ids hm hn h

/-- **What a walk of a route lists.** -/
theorem Walk.exact (h : Walk L.route db none events reads out rest) :
    ∃ listed, Exact L.where' L.entry L.found db events reads rest listed ∧
      out = listed.map Prod.snd := by
  obtain ⟨pages, listed, restK, hwalk, hpages, rfl, hrest⟩ := h.refines none rfl
  have hkeys : ∀ page ∈ pages, (page.1.map fun p => key p.2).Nodup := by
    intro page hpage
    obtain ⟨db', _, hrows, _⟩ := hpages page hpage
    exact hrows ▸ L.nodup_keys db'
  have hordered := hwalk.pairwise hkeys
  have hsource : ∀ p ∈ listed, p.1 ∈ reads ∧ p.2 ∈ p.1.memberships.rows ∧ L.where' p.2 = true := by
    rintro ⟨db', m⟩ hp
    obtain ⟨page, hpage, hmem⟩ := (hwalk.sound hp).1
    obtain ⟨db'', hread, hrows, _⟩ := hpages page hpage
    rw [hrows] at hmem
    obtain ⟨n, hn, heq⟩ := List.mem_map.mp hmem
    obtain ⟨rfl, rfl⟩ := Prod.mk.inj heq
    exact ⟨hread, List.mem_filter.mp hn⟩
  refine ⟨listed.filterMap fun p => (L.entry p.1 p.2).map fun d => (p.2, d), ⟨?_, ?_, ?_⟩, ?_⟩
  · rintro ⟨m, d⟩ hp
    obtain ⟨⟨db', m'⟩, hmem, hentry⟩ := List.mem_filterMap.mp hp
    obtain ⟨d', hd, heq⟩ := Option.map_eq_some_iff.mp hentry
    obtain ⟨rfl, rfl⟩ := Prod.mk.inj heq
    obtain ⟨hread, hrow, hwhere⟩ := hsource _ hmem
    exact ⟨db', hread, hrow, hwhere, hd⟩
  · refine List.pairwise_filterMap.mpr ((List.pairwise_map.mp hordered).imp ?_)
    rintro p q hlt ⟨m, d⟩ hm ⟨n, d'⟩ hn
    obtain ⟨_, _, heq⟩ := Option.map_eq_some_iff.mp hm
    obtain ⟨_, _, heq'⟩ := Option.map_eq_some_iff.mp hn
    rw [← congrArg Prod.fst heq, ← congrArg Prod.fst heq']
    exact key_lt_iff.mp hlt
  · intro hlast m hm hwhere hkept hfound
    obtain rfl := hrest hlast
    -- At every read the row of this id is the membership, with the role it has by then.
    have hsame : ∀ p ∈ listed, p.2.id = m.id → ∃ role, p.2 = { m with role := role } := by
      intro p hp hid
      obtain ⟨hread, hrow, _⟩ := hsource p hp
      obtain ⟨role, hrow'⟩ := h.kept m hm hkept p.1 hread
      exact ⟨role, p.1.memberships.eq_of_id hrow hrow' hid⟩
    have hthere : ∀ page ∈ pages, ∃ r ∈ page.1, key r.2 = key m := by
      intro page hpage
      obtain ⟨db', hread, hrows, _⟩ := hpages page hpage
      obtain ⟨role, hrow⟩ := h.kept m hm hkept db' hread
      refine ⟨(db', { m with role := role }), ?_, rfl⟩
      rw [hrows]
      exact List.mem_map_of_mem (List.mem_filter.mpr ⟨hrow, (L.where_role m role).trans hwhere⟩)
    have hlimit : ∀ page ∈ pages, 0 < page.2 := by
      intro page hpage
      obtain ⟨_, _, _, hpos⟩ := hpages page hpage
      exact hpos
    have hcount := hwalk.count_eq hkeys hlimit hthere
    rw [← hcount, List.countP_filterMap]
    refine List.countP_congr fun p hp => ?_
    by_cases hid : p.2.id = m.id
    · obtain ⟨role, hrole⟩ := hsame p hp hid
      obtain ⟨d, hd⟩ := Option.isSome_iff_exists.mp
        (L.entry_isSome p.1 m role (hfound p.1 (hsource p hp).1))
      have hkey : key p.2 = key m := by rw [hrole]; rfl
      simp [hrole ▸ hd, hid, hkey]
    · have hkey : key p.2 ≠ key m := fun heq => hid (congrArg (fun k => (ofLex k).2) heq)
      cases hentry : L.entry p.1 p.2 <;> simp [hid, hkey]
  · rw [List.map_filterMap]
    refine List.filterMap_congr fun p _ => ?_
    rw [Option.map_map]
    exact (congrFun Option.map_id _).symm

/-- **Memberships are paged exactly**, but for those whose user, or organization, is gone. -/
theorem memberships_listed (other : List Char → Option Date) :
    (∀ (memberOf organizationId : Uuid) (id : List Char) (db : Db) (events : List Event)
      (reads : List Db) (out : List MemberDTO) (rest : Option (Option (List Char))),
      Uuid.ofText id = some organizationId →
      Walk (listMembers other memberOf id) db none events reads out rest →
      ∃ listed, Exact (ofOrganization organizationId) memberEntry userIsLive db events reads rest
        listed ∧ out = listed.map Prod.snd) ∧
    (∀ (userId memberOf : Uuid) (db : Db) (events : List Event) (reads : List Db)
      (out : List UserOrganizationDTO) (rest : Option (Option (List Char))),
      Walk (listMyOrganizations other userId memberOf) db none events reads out rest →
      ∃ listed, Exact (activeOfUser userId) (organizationEntry memberOf) organizationIsLive db
        events reads rest listed ∧ out = listed.map Prod.snd) ∧
    ∀ position : MembershipPosition,
      decodeMembershipCursor other (encodeMembershipCursor position) = some position :=
  ⟨fun memberOf _ _ _ _ _ _ _ hid h => Walk.exact (L := members other memberOf hid) h,
    fun userId memberOf _ _ _ _ _ h => Walk.exact (L := organizations other userId memberOf) h,
    decode_encode other⟩

def ada : Membership := ⟨1, 2, 3, .member, .active, ⟨0, by decide⟩⟩

def grace : Membership := ⟨4, 5, 3, .member, .active, ⟨1000, by decide⟩⟩

/-- Grace joined after ada. -/
def twoMembers : Db where
  memberships := ⟨[ada, grace], by decide, by decide⟩
  users := [⟨2, "ada", "ada@example.com", none⟩, ⟨5, "grace", "grace@example.com", none⟩]
  organizations := [⟨3, "org", "org", none⟩]

/-- Between the pages ada leaves and grace becomes an admin. -/
def betweenPages : List Event := [.write (.delete ada.id), .write (.save grace.id .admin)]

def afterWrites : Db := (Write.save grace.id .admin).onDb ((Write.delete ada.id).onDb twoMembers)

theorem walk_ada_grace (other : List Char → Option Date) :
    Walk (listMembers other 3 (Uuid.text 3)) twoMembers none
      (.read (some 1) :: betweenPages ++ [.read (some 1)]) [twoMembers, afterWrites]
      ((memberEntry twoMembers ada).toList ++
        (memberEntry afterWrites { grace with role := .admin }).toList) none := by
  have hsecond : membershipPageQuery other (some 1) (some (encodeMembershipCursor (toPosition ada))) =
      .ok ⟨1, some (toPosition ada)⟩ := by
    simp only [membershipPageQuery, decode_encode, Option.getD_some]
    rfl
  have hfirst : listMembers other 3 (Uuid.text 3) twoMembers (some 1) none =
      .ok ⟨(memberEntry twoMembers ada).toList, some (encodeMembershipCursor (toPosition ada))⟩ := rfl
  refine .more hfirst (.write (.write (.last ?_)))
  unfold listMembers
  rw [hsecond, Uuid.ofText_text]
  rfl

theorem memberships_listed_ada_grace : ∃ listed, Exact (ofOrganization 3) memberEntry userIsLive
    twoMembers (.read (some 1) :: betweenPages ++ [.read (some 1)]) [twoMembers, afterWrites] none
    listed ∧ (memberEntry twoMembers ada).toList ++
      (memberEntry afterWrites { grace with role := .admin }).toList = listed.map Prod.snd :=
  (memberships_listed fun _ => none).1 3 3 (Uuid.text 3) twoMembers _ [twoMembers, afterWrites] _
    none (Uuid.ofText_text 3) (walk_ada_grace _)

def adaGone : Db where
  memberships := ⟨[ada], List.nodup_singleton _, List.nodup_singleton _⟩
  users := [⟨2, "ada", "ada@example.com", some ⟨0, by decide⟩⟩]
  organizations := [⟨3, "org", "org", none⟩]

/-- The user was soft-deleted: the membership is there throughout, and is not listed. -/
theorem gone_not_listed : ∃ db events reads rest, rest = none ∧
    Walk (listMembers (fun _ => none) 3 (Uuid.text 3)) db none events reads [] rest ∧
    ada ∈ db.memberships.rows ∧ ada.organizationId = 3 ∧ ada.status = .active ∧
    Kept events ada.id := by
  refine ⟨adaGone, [.read none], _, _, rfl, .last rfl, List.mem_cons_self, rfl,
    rfl, ?_⟩
  exact List.forall_mem_singleton.mpr fun h => nomatch h

end LakiraBackend.Memberships
