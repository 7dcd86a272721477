import LakiraBackend.Auth.Access
import Mathlib.Logic.Relation

/-!
# Who becomes a member

What holds of every run of the server, whoever calls it and however the calls interleave: a member
was there at the start, or registered with the organization, or redeemed an invite that an owner or
an admin made who was a member already (`members_invited`), and only a registration makes an owner
(`owners_founded`).
-/

namespace LakiraBackend.Auth.Routes

open LakiraBackend.Concurrency

variable {D : Deps} {jwtVerify : JwtVerify} {w₀ : World} {d d₀ : Db} {log past : List ServerEvent}
  {e : ServerEvent} {i : Nat}

/-! ### The server's histories -/

theorem sameCalls : SameCalls (serverMachine D jwtVerify) (authMachine D) := ⟨rfl, rfl⟩

/-- Whom a call is for does not matter to what it does. -/
def forget (_ : HttpRequest) : Request := .requestEmailVerification (.seed 0)

/-- The history as the feature's calls. -/
def calls (log : List ServerEvent) : List AuthEvent := log.map (Event.relabel forget)

theorem deeds_calls (i : Nat) (log : List ServerEvent) : deeds i (calls log) = deeds i log := by
  rw [deeds, calls, own_relabel, List.map_map]
  rfl

/-- Every call of the history was made as its request permits. -/
abbrev AccessLegal (D : Deps) (jwtVerify : JwtVerify) (w₀ : World) (log : List ServerEvent) : Prop :=
  Legal (serverMachine D jwtVerify) (byRequest forget (accessPre D jwtVerify)) w₀ log

theorem accessLegal_of_reachable {init : World → Prop} {c : ServerConfig}
    (h : (serverMachine D jwtVerify).Reachable init c) :
    ∃ w₀, init w₀ ∧ c.state.world = worldAfter w₀ c.state.hist ∧
      AccessLegal D jwtVerify w₀ c.state.hist := by
  refine (Contract.legal_by_request (f := forget) (R := fun _ _ _ => True) sameCalls
    (agree_heldTo _) (fun i q t ha _ => meets_respond (fun r hr => ?_) t) h).1
  subst hr
  exact ha

/-- As the feature's calls, it is a legal history. -/
theorem AccessLegal.calls (h : AccessLegal D jwtVerify w₀ log) :
    LegalHistory D (fun _ _ _ _ => True) w₀ (calls log) :=
  h.relabel sameCalls fun _ _ _ _ _ => trivial

/-! ### Deeds and what they show -/

/-- A write that is made was permitted. -/
theorem AccessLegal.permitted (h : AccessLegal D jwtVerify w₀ log) (hs : (e :: past) <:+ log)
    {tx : Bool} {wr : Write} {r : Except Err (Op.call (.write tx wr)).Answer}
    (ha : e.act = .call (.call (.write tx wr)) r) :
    Permitted D jwtVerify e.req (deeds e.tid past) tx wr := by
  have hpre : Permitted D jwtVerify e.req (deeds e.tid (Routes.calls past)) tx wr :=
    (h.obeys hs).pre ha
  rwa [deeds_calls] at hpre

/-- What a thread found was in the committed data. -/
theorem exists_of_found {rd : Read} {a : rd.Answer} (h : AccessLegal D jwtVerify w₀ log)
    (hf : found rd a ∈ deeds i log) :
    ∃ r before, (r :: before) <:+ log ∧ r ∈ own i log ∧ r.before = worldAfter w₀ before ∧
      a = rd.eval D r.before.store.db := by
  obtain ⟨r, hr, hact⟩ := List.mem_map.mp hf
  obtain ⟨before, hs⟩ := exists_past (mem_of_mem_own hr).1
  have hreads : Reads rd a (r.relabel forget) := hact
  exact ⟨r, before, hs, hr, h.before hs, (hreads.eval (h.calls.obeys (suffix_relabel hs))).1⟩

theorem kept_foldl {P : Db → Prop} {W : Write → Prop} {ws : List Write}
    (hW : ∀ wr d, W wr → P d → P (wr.apply D d)) (hws : ∀ wr ∈ ws, W wr) (hd : P d) :
    P (ws.foldl (fun d wr => wr.apply D d) d) := by
  induction ws generalizing d with
  | nil => exact hd
  | cons wr ws ih =>
    exact ih (fun wr' h => hws wr' (List.mem_cons_of_mem wr h))
      (hW wr d (hws wr List.mem_cons_self) hd)

/-- A step of the store keeps what its write keeps, and the uncommitted writes. -/
theorem kept_of_step {P : Db → Prop} {W : Write → Prop} {s s' : AuthStore} {op : Op}
    (h : StoreStep D i s op s') (hW : ∀ wr d, W wr → P d → P (wr.apply D d))
    (hupdate : ∀ st : Statement, W st.write) (hop : ∀ tx wr, op = .call (.write tx wr) → W wr)
    (hdb : P s.db) (hpend : ∀ l ∈ s.pending, W l.2) : P s'.db ∧ ∀ l ∈ s'.pending, W l.2 := by
  constructor
  · rcases h.db_cases with hsame | ⟨wr, hwr, _, happ⟩ | ⟨st, _, _, _, _, happ⟩ | ⟨_, rfl⟩
    · exact hsame ▸ hdb
    · exact happ ▸ hW wr _ (hop false wr hwr) hdb
    · exact happ ▸ hW _ _ (hupdate st) hdb
    · exact kept_foldl hW (fun wr hwr => hpend _ (s.mem_pendingOf.mp hwr)) hdb
  · intro l hl
    rcases h.pending_cases hl with hl | hwr | ⟨st, hst⟩
    · exact hpend l hl
    · exact hop true l.2 hwr
    · exact hst ▸ hupdate st

/-- **What the writes keep**: it holds of the committed data all along, when each write that is
made has what keeps it, given that it held so far. -/
theorem kept_of_writes {P : Db → Prop} {W : Write → Prop}
    (h : AccessLegal D jwtVerify w₀ log) (h₀ : P w₀.store.db)
    (hnone : w₀.store.pending = []) (hW : ∀ wr d, W wr → P d → P (wr.apply D d))
    (hupdate : ∀ st : Statement, W st.write)
    (hmade : ∀ e past tx wr r, (e :: past) <:+ log → e.act = .call (.call (.write tx wr)) r →
      (∀ before, before <:+ past → P (worldAfter w₀ before).store.db) → W wr) :
    ∀ before, before <:+ log → P (worldAfter w₀ before).store.db := by
  suffices hall : ∀ before, before <:+ log → P (worldAfter w₀ before).store.db ∧
      ∀ l ∈ (worldAfter w₀ before).store.pending, W l.2 from fun before hs => (hall before hs).1
  induction log with
  | nil =>
    intro before hs
    rw [List.suffix_nil.mp hs]
    exact ⟨h₀, fun l hl => absurd (hnone ▸ hl) List.not_mem_nil⟩
  | cons e past ih =>
    have hobeys := h.calls.2.1
    obtain ⟨hbefore, _, hlegal⟩ := h
    have ih := ih hlegal fun e' past' tx wr r hs =>
      hmade e' past' tx wr r (hs.trans (List.suffix_cons e past))
    intro before hs
    rcases List.suffix_cons_iff.mp hs with rfl | hs
    · obtain ⟨hdb, hpend⟩ := ih past (List.suffix_refl _)
      rw [← hbefore] at hdb hpend
      change P e.after.store.db ∧ ∀ l ∈ e.after.store.pending, W l.2
      rcases store_of_obeys hobeys with ⟨op, r, ha, hstep⟩ | ⟨_, hdrop⟩
      · refine kept_of_step hstep hW hupdate (fun tx wr hwr => ?_) hdb hpend
        subst hwr
        exact hmade e past tx wr r (List.suffix_refl _) ha fun before hs => (ih before hs).1
      · have hafter : e.after.store = e.before.store.drop e.tid := hdrop
        rw [hafter]
        exact ⟨hdb, fun l hl => hpend l (List.mem_of_mem_filter hl)⟩
    · exact ih before hs

/-! ### Nobody is a member uninvited -/

/-- The same invite, whatever has become of it. -/
structure SameInvite (v v' : OrganizationInvite) : Prop where
  id : v'.id = v.id
  organization : v'.organizationId = v.organizationId
  email : v'.email = v.email
  role : v'.role = v.role

theorem SameInvite.refl (v : OrganizationInvite) : SameInvite v v := ⟨rfl, rfl, rfl, rfl⟩

/-- Some call of the history is such: whom it was for, what it was, and what its thread had done
before it. -/
def Sometime (P : HttpRequest → Deed → List Deed → Prop) (log : List ServerEvent) : Prop :=
  ∃ e past, (e :: past) <:+ log ∧ P e.req e.act (deeds e.tid past)

/-- The deed is the write, whatever came of it. -/
def Deed.Writes (wr : Write) (a : Deed) : Prop := ∃ tx r, a = .call (.call (.write tx wr)) r

/-- A registration made the user and the organization, and the membership of the one in the
other. -/
def FoundedBy (log : List ServerEvent) (m : Membership) : Prop :=
  Sometime (fun q a l => ∃ input, q = .direct (.registerUser input) ∧
    a.Writes (.createMembership m) ∧ Founds m l) log

section Trust

variable (D) (jwtVerify) (d₀ log)

/-- The user redeemed the invite. -/
def Redeemed (v : OrganizationInvite) (userId : Uuid) : Prop :=
  Sometime (fun q a l => ∃ authorization token, q = .acceptInvite authorization token ∧
    ∃ m v', m.userId = userId ∧ SameInvite v v' ∧ a.Writes (.createMembership m) ∧
      Redeems D jwtVerify q token m v' l) log

/-- The inviter made the invite, acting as an owner or an admin of its organization. -/
def Offered (inviter : Uuid) (v : OrganizationInvite) : Prop :=
  Sometime (fun q a l => a.Writes (.createInvite v) ∧
    ∃ m, m.userId = inviter ∧ Invites jwtVerify q m v.organizationId l) log

/-- The inviter made an invite to the organization that the user redeemed. -/
def Invited (org inviter userId : Uuid) : Prop :=
  ∃ v, v.organizationId = org ∧ Redeemed D jwtVerify log v userId ∧ Offered jwtVerify log inviter v

/-- A member that nobody has invited in this history: one there was at the start, one who redeemed
an invite there was, or a founder. -/
inductive Root (userId org : Uuid) : Prop
  | member {m : Membership} (hm : m ∈ d₀.memberships) (huser : m.userId = userId)
      (horg : m.organizationId = org) : Root userId org
  | invite {v : OrganizationInvite} (hv : v ∈ d₀.invites) (horg : v.organizationId = org)
      (h : Redeemed D jwtVerify log v userId) : Root userId org
  | founder {m : Membership} (h : FoundedBy log m) (huser : m.userId = userId)
      (horg : m.organizationId = org) : Root userId org

/-- The user is a root of the organization, or comes from one by invitations. -/
def Trusted (userId org : Uuid) : Prop :=
  ∃ root, Root D jwtVerify d₀ log root org ∧
    Relation.ReflTransGen (Invited D jwtVerify log org) root userId

/-- The invite was there at the start, or one who is trusted made it. -/
def Vouched (v : OrganizationInvite) : Prop :=
  ∃ v₀, SameInvite v₀ v ∧
    (v₀ ∈ d₀.invites ∨
      ∃ inviter, Trusted D jwtVerify d₀ log inviter v.organizationId ∧ Offered jwtVerify log inviter v₀)

/-- Every member is trusted, and every invite vouched for. -/
structure AllTrusted (d : Db) : Prop where
  members : ∀ m ∈ d.memberships, Trusted D jwtVerify d₀ log m.userId m.organizationId
  invites : ∀ v ∈ d.invites, Vouched D jwtVerify d₀ log v

/-- What keeps it of a write. -/
def TrustsWrite : Write → Prop
  | .createMembership m => Trusted D jwtVerify d₀ log m.userId m.organizationId
  | .createInvite v => Vouched D jwtVerify d₀ log v
  | _ => True

end Trust

variable {v v' : OrganizationInvite}

theorem SameInvite.trans {v₀ : OrganizationInvite} (h : SameInvite v₀ v) (h' : SameInvite v v') :
    SameInvite v₀ v' :=
  ⟨h'.id.trans h.id, h'.organization.trans h.organization, h'.email.trans h.email,
    h'.role.trans h.role⟩

theorem Vouched.same (h : Vouched D jwtVerify d₀ log v) (hs : SameInvite v v') : Vouched D jwtVerify d₀ log v' := by
  obtain ⟨v₀, h₀, hfrom⟩ := h
  exact ⟨v₀, h₀.trans hs, hs.organization ▸ hfrom⟩

/-- **A redeemed invite that is vouched for makes a trusted member.** -/
theorem Vouched.redeemed {userId : Uuid} (h : Vouched D jwtVerify d₀ log v)
    (hr : ∀ v₀, SameInvite v₀ v → Redeemed D jwtVerify log v₀ userId) :
    Trusted D jwtVerify d₀ log userId v.organizationId := by
  obtain ⟨v₀, h₀, hmem | ⟨inviter, ⟨root, hroot, hchain⟩, hoffered⟩⟩ := h
  · exact ⟨userId, .invite hmem h₀.organization.symm (hr v₀ h₀), .refl⟩
  · exact ⟨root, hroot, hchain.tail ⟨v₀, h₀.organization.symm, hr v₀ h₀, hoffered⟩⟩

theorem vouched_map {vs : List OrganizationInvite} {f : OrganizationInvite → OrganizationInvite}
    (hf : ∀ v, SameInvite v (f v)) (h : ∀ v ∈ vs, Vouched D jwtVerify d₀ log v) :
    ∀ v ∈ vs.map f, Vouched D jwtVerify d₀ log v := by
  intro v hv
  obtain ⟨u, hu, rfl⟩ := List.mem_map.mp hv
  exact (h u hu).same (hf u)

theorem AllTrusted.apply {wr : Write} (hw : TrustsWrite D jwtVerify d₀ log wr) (h : AllTrusted D jwtVerify d₀ log d) :
    AllTrusted D jwtVerify d₀ log (wr.apply D d) := by
  cases wr with
  | createMembership m =>
    refine ⟨fun n hn => ?_, h.invites⟩
    rcases List.mem_append.mp hn with hn | hn
    · exact h.members n hn
    · exact List.mem_singleton.mp hn ▸ hw
  | saveMembership id role =>
    refine ⟨fun n hn => ?_, h.invites⟩
    obtain ⟨m, hm, rfl⟩ := List.mem_map.mp hn
    split <;> exact h.members m hm
  | deleteMembership id => exact ⟨fun n hn => h.members n (List.mem_of_mem_filter hn), h.invites⟩
  | createInvite v =>
    refine ⟨h.members, fun u hu => ?_⟩
    rcases List.mem_append.mp hu with hu | hu
    · exact h.invites u hu
    · exact List.mem_singleton.mp hu ▸ hw
  | replaceInviteTokenHash id tokenHash =>
    exact ⟨h.members, vouched_map (fun v => by split <;> exact ⟨rfl, rfl, rfl, rfl⟩) h.invites⟩
  | acceptInvite id now =>
    exact ⟨h.members, vouched_map (fun v => by split <;> exact ⟨rfl, rfl, rfl, rfl⟩) h.invites⟩
  | deleteInvite id => exact ⟨h.members, fun v hv => h.invites v (List.mem_of_mem_filter hv)⟩
  | deleteExpiredInvites email org now =>
    exact ⟨h.members, fun v hv => h.invites v (List.mem_of_mem_filter hv)⟩
  | _ => exact ⟨h.members, h.invites⟩

theorem trustsWrite_update (st : Statement) :
    TrustsWrite D jwtVerify d₀ log st.write := by
  obtain ⟨tx, u, ids⟩ := st
  cases u <;> trivial

/-- **All along**, every member is trusted and every invite vouched for. -/
theorem allTrusted_of_reachable {c : ServerConfig}
    (h : (serverMachine D jwtVerify).Reachable (StartsFrom d₀) c) :
    ∃ w₀, StartsFrom d₀ w₀ ∧ c.state.world = worldAfter w₀ c.state.hist ∧
      AccessLegal D jwtVerify w₀ c.state.hist ∧ ∀ before, before <:+ c.state.hist →
        AllTrusted D jwtVerify d₀ c.state.hist (worldAfter w₀ before).store.db := by
  obtain ⟨w₀, rfl, hworld, hl⟩ := accessLegal_of_reachable h
  refine ⟨_, rfl, hworld, hl, kept_of_writes (P := AllTrusted D jwtVerify d₀ c.state.hist)
    (W := TrustsWrite D jwtVerify d₀ c.state.hist) hl ?_ rfl (fun wr d hw hd => hd.apply hw)
    trustsWrite_update ?_⟩
  · exact ⟨fun m hm => ⟨m.userId, .member hm rfl rfl, .refl⟩,
      fun v hv => ⟨v, .refl v, .inl hv⟩⟩
  · intro e past tx wr r hs ha hpast
    have hpre := hl.permitted hs ha
    have hlegal : AccessLegal D jwtVerify _ past := (hl.suffix hs).2.2
    have hfound : ∀ {rd : Read} {a : rd.Answer}, found rd a ∈ deeds e.tid past →
        ∃ d, AllTrusted D jwtVerify d₀ c.state.hist d ∧ a = rd.eval D d := by
      intro rd a hf
      obtain ⟨r, before, hr, _, hbefore, heval⟩ := exists_of_found hlegal hf
      exact ⟨_, hbefore ▸ hpast before ((List.suffix_cons r before).trans hr), heval⟩
    cases wr with
    | createMembership m =>
      rcases hpre with ⟨input, hq, hfounds⟩ | ⟨authorization, token, hq, v, hredeems⟩
      · have hfounded : FoundedBy c.state.hist m :=
          ⟨e, past, hs, input, hq, ⟨tx, r, ha⟩, hfounds⟩
        exact ⟨m.userId, .founder hfounded rfl rfl, .refl⟩
      · obtain ⟨d, hd, heval⟩ := hfound hredeems.invite
        have hv := hd.invites v (List.mem_of_find?_eq_some heval.symm)
        have htrusted := hv.redeemed fun v₀ h₀ =>
          ⟨e, past, hs, authorization, token, hq, m, v, rfl, h₀, ⟨tx, r, ha⟩, hredeems⟩
        change Trusted D jwtVerify d₀ c.state.hist m.userId m.organizationId
        rw [hredeems.organization]
        exact htrusted
    | createInvite v =>
      obtain ⟨a, hinvites⟩ := hpre
      obtain ⟨d, hd, heval⟩ := hfound hinvites.1.membership
      have hactor := hd.members a (List.mem_of_find?_eq_some heval.symm)
      exact ⟨v, .refl v, .inr ⟨a.userId, hinvites.2.1 ▸ hactor, e, past, hs, ⟨tx, r, ha⟩, a, rfl,
        hinvites⟩⟩
    | _ => trivial

/-- **Nobody is a member uninvited.**  In every run of the server, each member of an organization
was there at the start, or founded it, or redeemed an invite there was; or they redeemed an invite
that an owner or an admin of it made, who is such a member in turn. -/
theorem members_invited {c : ServerConfig}
    (h : (serverMachine D jwtVerify).Reachable (StartsFrom d₀) c) :
    ∀ m ∈ c.state.world.store.db.memberships,
      Trusted D jwtVerify d₀ c.state.hist m.userId m.organizationId := by
  obtain ⟨w₀, _, hworld, _, hall⟩ := allTrusted_of_reachable h
  exact hworld ▸ (hall _ (List.suffix_refl _)).members

/-- Bob is in Ann's organization because she invited him. -/
theorem members_invited_bob :
    ∃ c, serve sampleDeps sampleVerify twoOrganizationsDb inviteBob = some c ∧
      ∃ m ∈ c.state.world.store.db.memberships, m.userId = .seed 4 ∧ m.organizationId = .seed 2 ∧
        Trusted sampleDeps sampleVerify twoOrganizationsDb c.state.hist m.userId
          m.organizationId := by
  have hrun : (serve sampleDeps sampleVerify twoOrganizationsDb inviteBob).map (fun c =>
      decide (∃ m ∈ c.state.world.store.db.memberships, m.userId = .seed 4 ∧
        m.organizationId = .seed 2)) = some true := by
    decide +kernel
  obtain ⟨c, hc, hval⟩ := Option.map_eq_some_iff.mp hrun
  obtain ⟨m, hm, huser, horg⟩ := of_decide_eq_true hval
  exact ⟨c, hc, m, hm, huser, horg, members_invited (reachable_of_serve hc) m hm⟩

/-! ### Only a registration makes an owner -/

/-- Every owner was one at the start, or founded the organization. -/
def OwnersFounded (d₀ : Db) (log : List ServerEvent) (d : Db) : Prop :=
  ∀ m ∈ d.memberships, m.role = .owner → m ∈ d₀.memberships ∨ FoundedBy log m

/-- What keeps it of a write. -/
def FoundsOwner (log : List ServerEvent) : Write → Prop
  | .createMembership m => m.role = .owner → FoundedBy log m
  | .saveMembership _ role => role ≠ .owner
  | _ => True

theorem OwnersFounded.apply {wr : Write} (hw : FoundsOwner log wr) (h : OwnersFounded d₀ log d) :
    OwnersFounded d₀ log (wr.apply D d) := by
  intro n hn howner
  cases wr with
  | createMembership m =>
    rcases List.mem_append.mp hn with hn | hn
    · exact h n hn howner
    · obtain rfl := List.mem_singleton.mp hn
      exact .inr (hw howner)
  | saveMembership id role =>
    obtain ⟨m, hm, rfl⟩ := List.mem_map.mp hn
    split at howner
    · exact absurd howner hw
    · rename_i hid
      rw [if_neg hid]
      exact h m hm howner
  | deleteMembership id => exact h n (List.mem_of_mem_filter hn) howner
  | _ => exact h n hn howner

/-- **Only a registration makes an owner**: whoever owns an organization owned it at the start, in
the same row, or founded it. -/
theorem owners_founded {c : ServerConfig}
    (h : (serverMachine D jwtVerify).Reachable (StartsFrom d₀) c) :
    ∀ m ∈ c.state.world.store.db.memberships, m.role = .owner →
      m ∈ d₀.memberships ∨ FoundedBy c.state.hist m := by
  obtain ⟨w₀, rfl, hworld, hl⟩ := accessLegal_of_reachable h
  have hkept := kept_of_writes (P := OwnersFounded d₀ c.state.hist)
    (W := FoundsOwner c.state.hist) hl (fun m hm _ => .inl hm) rfl
    (fun wr d hw hd => hd.apply hw) (fun st => ?_) ?_ _ (List.suffix_refl _)
  · exact hworld ▸ hkept
  · obtain ⟨tx, u, ids⟩ := st
    cases u <;> trivial
  · intro e past tx wr r hs ha _
    have hpre := hl.permitted hs ha
    cases wr with
    | createMembership m =>
      intro howner
      rcases hpre with ⟨input, hq, hfounds⟩ | ⟨_, _, _, v, hredeems⟩
      · exact ⟨e, past, hs, input, hq, ⟨tx, r, ha⟩, hfounds⟩
      · -- an invite is never for an owner
        have hrole := hredeems.role
        rw [howner] at hrole
        cases hv : v.role <;> rw [hv] at hrole <;> cases hrole
    | saveMembership id role => exact hpre.2.1
    | _ => trivial

/-- A registration makes an owner. -/
theorem owners_founded_registered :
    ∃ c, serve sampleDeps sampleVerify twoOrganizationsDb registerEve = some c ∧
      ∃ m ∈ c.state.world.store.db.memberships, m.role = .owner ∧
        m ∉ twoOrganizationsDb.memberships ∧ FoundedBy c.state.hist m := by
  have hrun : (serve sampleDeps sampleVerify twoOrganizationsDb registerEve).map (fun c =>
      decide (∃ m ∈ c.state.world.store.db.memberships, m.role = .owner ∧
        m ∉ twoOrganizationsDb.memberships)) = some true := by
    decide +kernel
  obtain ⟨c, hc, hval⟩ := Option.map_eq_some_iff.mp hrun
  obtain ⟨m, hm, howner, hnew⟩ := of_decide_eq_true hval
  exact ⟨c, hc, m, hm, howner, hnew,
    (owners_founded (reachable_of_serve hc) m hm howner).resolve_left hnew⟩

end LakiraBackend.Auth.Routes
