import LakiraBackend.Auth.Entities
import LakiraBackend.JavaScript.Json
import LakiraBackend.Postgres.Values
import Mathlib.Data.List.Sort

/-!
# The lists of an organization's members and of a user's organizations

The tables have what the two lists read.  A query pages a table of memberships by when they
joined, to the millisecond, and by id; a route decodes the cursor it is sent and encodes
the next.  `Walk` follows the cursors, with writes between the reads.
-/

namespace LakiraBackend.Memberships

open LakiraBackend.Auth (MembershipRole MembershipStatus)
open LakiraBackend.JavaScript LakiraBackend.Postgres

/-! ### Tables -/

structure Membership : Type where
  id : Uuid
  userId : Uuid
  organizationId : Uuid
  role : MembershipRole
  status : MembershipStatus
  joinedAt : Timestamp
  deriving DecidableEq

/-- The table, with its primary key and `uq_memberships_user_organization`. -/
structure MembershipTable : Type where
  rows : List Membership
  ids : (rows.map Membership.id).Nodup
  members : (rows.map fun m => (m.userId, m.organizationId)).Nodup

structure User : Type where
  id : Uuid
  username : String
  email : String
  deletedAt : Option Timestamp
  deriving DecidableEq

structure Organization : Type where
  id : Uuid
  name : String
  slug : String
  deletedAt : Option Timestamp
  deriving DecidableEq

structure Db : Type where
  memberships : MembershipTable
  users : List User
  organizations : List Organization

/-- `Membership.create`; a row that breaks a key is refused. -/
def MembershipTable.create (t : MembershipTable) (m : Membership) : MembershipTable :=
  if h : m.id ∉ t.rows.map Membership.id ∧
      (m.userId, m.organizationId) ∉ t.rows.map fun m => (m.userId, m.organizationId) then
    ⟨m :: t.rows, List.nodup_cons.mpr ⟨h.1, t.ids⟩, List.nodup_cons.mpr ⟨h.2, t.members⟩⟩
  else t

def Membership.changeRole (role : MembershipRole) (id : Uuid) (m : Membership) : Membership :=
  if m.id = id then { m with role := role } else m

@[simp] theorem Membership.changeRole_id (role : MembershipRole) (id : Uuid) (m : Membership) :
    (m.changeRole role id).id = m.id := by unfold changeRole; split <;> rfl

@[simp] theorem Membership.changeRole_userId (role : MembershipRole) (id : Uuid) (m : Membership) :
    (m.changeRole role id).userId = m.userId := by unfold changeRole; split <;> rfl

@[simp] theorem Membership.changeRole_organizationId (role : MembershipRole) (id : Uuid)
    (m : Membership) : (m.changeRole role id).organizationId = m.organizationId := by
  unfold changeRole; split <;> rfl

@[simp] theorem Membership.changeRole_status (role : MembershipRole) (id : Uuid) (m : Membership) :
    (m.changeRole role id).status = m.status := by unfold changeRole; split <;> rfl

@[simp] theorem Membership.changeRole_joinedAt (role : MembershipRole) (id : Uuid)
    (m : Membership) : (m.changeRole role id).joinedAt = m.joinedAt := by
  unfold changeRole; split <;> rfl

/-- `save`, which updates the role alone. -/
def MembershipTable.save (t : MembershipTable) (id : Uuid) (role : MembershipRole) :
    MembershipTable where
  rows := t.rows.map (Membership.changeRole role id)
  ids := by simpa [Function.comp_def] using t.ids
  members := by simpa [Function.comp_def] using t.members

def MembershipTable.delete (t : MembershipTable) (id : Uuid) : MembershipTable where
  rows := t.rows.filter fun m => m.id ≠ id
  ids := t.ids.sublist (List.filter_sublist.map _)
  members := t.members.sublist (List.filter_sublist.map _)

inductive Write : Type
  | create (id userId organizationId : Uuid) (role : MembershipRole)
      (status : Option MembershipStatus) (now : Date)
  | save (id : Uuid) (role : MembershipRole)
  | delete (id : Uuid)
  /-- Whatever happens to the tables the lists look users and organizations up in. -/
  | others (users : List User) (organizations : List Organization)

def Write.onDb : Write → Db → Db
  | create id userId organizationId role status now, db =>
    let m := ⟨id, userId, organizationId, role, status.getD .active, Timestamp.ofDate now⟩
    { db with memberships := db.memberships.create m }
  | save id role, db => { db with memberships := db.memberships.save id role }
  | delete id, db => { db with memberships := db.memberships.delete id }
  | others users organizations, db => { db with users := users, organizations := organizations }

/-! ### Pages of memberships -/

/-- Where a page ended; the id is a text the database reads. -/
structure MembershipPosition : Type where
  joinedAt : Date
  id : List Char
  isUuid : (Uuid.ofText id).isSome

def MembershipPosition.uuid (p : MembershipPosition) : Uuid := (Uuid.ofText p.id).get p.isUuid

structure MembershipPageRequest : Type where
  limit : Nat
  after : Option MembershipPosition

structure MembershipPage : Type where
  items : List Membership
  next : Option MembershipPosition

def joinedAtMs (m : Membership) : Int := m.joinedAt.trunc.ms

/-- `ORDER_BY_JOINED_MS`. -/
def orderByJoinedMs (m n : Membership) : Prop :=
  joinedAtMs m < joinedAtMs n ∨ joinedAtMs m = joinedAtMs n ∧ m.id ≤ n.id

instance (m n : Membership) : Decidable (orderByJoinedMs m n) := inferInstanceAs (Decidable (_ ∨ _))

def isAfter (after : Option MembershipPosition) (m : Membership) : Bool :=
  match after with
  | none => true
  | some p => joinedAtMs m > p.joinedAt.ms || (joinedAtMs m = p.joinedAt.ms && m.id > p.uuid)

def toPosition (m : Membership) : MembershipPosition :=
  ⟨m.joinedAt.trunc, m.id.text, Option.isSome_iff_exists.mpr ⟨m.id, m.id.ofText_text⟩⟩

def findPage (t : MembershipTable) (where' : Membership → Bool) (page : MembershipPageRequest) :
    MembershipPage :=
  let found := t.rows.filter fun m => where' m && isAfter page.after m
  let rows := (found.insertionSort orderByJoinedMs).take (page.limit + 1)
  let items := rows.take page.limit
  ⟨items, if page.limit < rows.length then items.getLast?.map toPosition else none⟩

def ofOrganization (organizationId : Uuid) (m : Membership) : Bool :=
  m.organizationId = organizationId

def activeOfUser (userId : Uuid) (m : Membership) : Bool := m.userId = userId && m.status = .active

def findPageByOrganization (db : Db) (organizationId : Uuid) (page : MembershipPageRequest) :
    MembershipPage := findPage db.memberships (ofOrganization organizationId) page

def findActivePageByUser (db : Db) (userId : Uuid) (page : MembershipPageRequest) :
    MembershipPage := findPage db.memberships (activeOfUser userId) page

/-! ### Queries -/

structure MemberDTO : Type where
  membershipId : List Char
  userId : List Char
  username : String
  email : String
  role : MembershipRole
  status : MembershipStatus
  joinedAt : List Char
  deriving DecidableEq

structure UserOrganizationDTO : Type where
  organizationId : List Char
  name : String
  slug : String
  role : MembershipRole
  joinedAt : List Char
  isCurrent : Bool
  deriving DecidableEq

def findUsersByIds (db : Db) (ids : List Uuid) : List User :=
  db.users.filter fun u => u.deletedAt.isNone && ids.contains u.id

def findOrganizationsByIds (db : Db) (ids : List Uuid) : List Organization :=
  db.organizations.filter fun o => o.deletedAt.isNone && ids.contains o.id

def toMemberDTO (users : List User) (m : Membership) : Option MemberDTO :=
  (users.reverse.find? fun u => u.id = m.userId).map fun u =>
    ⟨m.id.text, u.id.text, u.username, u.email, m.role, m.status, m.joinedAt.trunc.toISOString⟩

def toUserOrganizationDTO (organizations : List Organization) (currentOrganizationId : Uuid)
    (m : Membership) : Option UserOrganizationDTO :=
  (organizations.reverse.find? fun o => o.id = m.organizationId).map fun o =>
    ⟨o.id.text, o.name, o.slug, m.role, m.joinedAt.trunc.toISOString,
      o.id = currentOrganizationId⟩

/-- What a query returns, and where the next page starts. -/
structure Listed (D P : Type) : Type where
  items : List D
  next : Option P

def ListOrganizationMembers (db : Db) (organizationId : Uuid) (page : MembershipPageRequest) :
    Listed MemberDTO MembershipPosition :=
  let memberships := findPageByOrganization db organizationId page
  let users := findUsersByIds db (memberships.items.map Membership.userId)
  ⟨memberships.items.filterMap (toMemberDTO users), memberships.next⟩

def ListUserOrganizations (db : Db) (userId currentOrganizationId : Uuid)
    (page : MembershipPageRequest) : Listed UserOrganizationDTO MembershipPosition :=
  let memberships := findActivePageByUser db userId page
  let orgs := findOrganizationsByIds db (memberships.items.map Membership.organizationId)
  ⟨memberships.items.filterMap (toUserOrganizationDTO orgs currentOrganizationId),
    memberships.next⟩

/-! ### Cursors -/

def encodeMembershipCursor (position : MembershipPosition) : List Char :=
  (Json.obj [("j".toList, .str position.joinedAt.toISOString),
    ("i".toList, .str position.id)]).toBase64url

/-- `other` is what `new Date` makes of a text that `toISOString` does not write. -/
def decodeMembershipCursor (other : List Char → Option Date) (cursor : List Char) :
    Option MembershipPosition :=
  (Json.ofBase64url cursor).bind fun v =>
    match v.get "j", v.get "i" with
    | some (.str j), some (.str i) =>
      if h : (Uuid.ofText i).isSome then
        (Date.parse other j).map fun joinedAt => ⟨joinedAt, i, h⟩
      else none
    | _, _ => none

/-! ### Routes -/

inductive Refusal : Type
  /-- The query schema refuses the request. -/
  | badRequest
  | forbidden (message : String)
  deriving DecidableEq

/-- The whole number a `limit` is coerced to, and a cursor. -/
def membershipPageQuery (other : List Char → Option Date) (limit : Option Int)
    (after : Option (List Char)) : Except Refusal MembershipPageRequest :=
  let limit := limit.getD 100
  if 1 ≤ limit ∧ limit ≤ 100 then
    match after with
    | none => .ok ⟨limit.toNat, none⟩
    | some cursor =>
      match decodeMembershipCursor other cursor with
      | some position => .ok ⟨limit.toNat, some position⟩
      | none => .error .badRequest
  else .error .badRequest

/-- A page of a response, with its `nextCursor`. -/
abbrev Response (D : Type) : Type := Except Refusal (Listed D (List Char))

def respond {D : Type} (listed : Listed D MembershipPosition) : Response D :=
  .ok ⟨listed.items, listed.next.map encodeMembershipCursor⟩

/-- The organization the caller is a member of, and the one the path names. -/
def listMembers (other : List Char → Option Date) (memberOf : Uuid) (id : List Char) (db : Db)
    (limit : Option Int) (after : Option (List Char)) : Response MemberDTO :=
  match Uuid.ofText id, membershipPageQuery other limit after with
  | none, _ => .error .badRequest
  | _, .error e => .error e
  | some organizationId, .ok page =>
    if memberOf.text ≠ id then
      .error (.forbidden "Forbidden: not a member of this organization")
    else respond (ListOrganizationMembers db organizationId page)

def listMyOrganizations (other : List Char → Option Date) (userId memberOf : Uuid) (db : Db)
    (limit : Option Int) (after : Option (List Char)) : Response UserOrganizationDTO :=
  match membershipPageQuery other limit after with
  | .error e => .error e
  | .ok page => respond (ListUserOrganizations db userId memberOf page)

/-! ### Following the cursors -/

inductive Event : Type
  | write (w : Write)
  | read (limit : Option Int)

variable {D : Type} (route : Db → Option Int → Option (List Char) → Response D)

/-- Reads that follow the cursors, with writes in between: what each read found the tables
as, what they returned, and the cursor that was not followed, or none after the last
page. -/
inductive Walk : Db → Option (List Char) → List Event → List Db → List D →
    Option (Option (List Char)) → Prop
  | stop {db : Db} {after : Option (List Char)} : Walk db after [] [] [] (some after)
  | write {db : Db} {after : Option (List Char)} {w : Write} {events : List Event}
      {reads : List Db} {out : List D} {rest : Option (Option (List Char))} :
      Walk (w.onDb db) after events reads out rest →
      Walk db after (.write w :: events) reads out rest
  | last {db : Db} {after : Option (List Char)} {limit : Option Int} {items : List D} :
      route db limit after = .ok ⟨items, none⟩ →
      Walk db after [.read limit] [db] items none
  | more {db : Db} {after : Option (List Char)} {limit : Option Int} {items : List D}
      {cursor : List Char} {events : List Event} {reads : List Db} {out : List D}
      {rest : Option (Option (List Char))} : route db limit after = .ok ⟨items, some cursor⟩ →
      Walk db (some cursor) events reads out rest →
      Walk db after (.read limit :: events) (db :: reads) (items ++ out) rest

/-- The membership is not removed. -/
def Kept (events : List Event) (id : Uuid) : Prop := ∀ e ∈ events, e ≠ .write (.delete id)

end LakiraBackend.Memberships
