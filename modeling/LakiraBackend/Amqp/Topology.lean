import LakiraBackend.Amqp.Topic
import Mathlib.Data.List.Nodup

/-!
# A broker's exchanges, queues and bindings

What is declared stays; a queue that is there is not declared again with other arguments, and a
binding needs what it binds.  A message goes to the queues that its exchange and its routing key
lead to: the default exchange leads to the queue of that name (`route_default`), a topic exchange to
the queues whose bindings take the key (`route_topic`).
-/

namespace LakiraBackend.Amqp

/-! ### What is declared -/

structure Queue : Type where
  name : String
  messageTtl : Option Nat
  deadLetterExchange : Option String
  deadLetterRoutingKey : Option String
  deriving DecidableEq, Repr

structure Binding : Type where
  queue : String
  exchange : String
  pattern : String
  deriving DecidableEq, Repr

/-- The exchanges, all of them topic exchanges, the queues and the bindings. -/
structure Topology : Type where
  exchanges : List String
  queues : List Queue
  bindings : List Binding
  deriving DecidableEq, Repr

inductive Declaration : Type
  /-- `assertExchange`, of a topic exchange. -/
  | exchange (name : String)
  /-- `assertQueue`. -/
  | queue (q : Queue)
  /-- `bindQueue`. -/
  | binding (b : Binding)
  deriving DecidableEq, Repr

namespace Topology

variable (T : Topology)

def empty : Topology := ⟨[], [], []⟩

/-- It is declared. -/
def Has : Declaration → Prop
  | .exchange name => name ∈ T.exchanges
  | .queue q => q ∈ T.queues
  | .binding b => b ∈ T.bindings

/-- Declare it, if it is not there; `none` where the broker refuses. -/
def declare : Declaration → Option Topology
  | .exchange name =>
    some (if name ∈ T.exchanges then T else { T with exchanges := T.exchanges ++ [name] })
  | .queue q =>
    match T.queues.find? fun q' => q'.name = q.name with
    | some q' => if q' = q then some T else none
    | none => some { T with queues := T.queues ++ [q] }
  | .binding b =>
    if b.exchange ∈ T.exchanges ∧ b.queue ∈ T.queues.map Queue.name then
      some (if b ∈ T.bindings then T else { T with bindings := T.bindings ++ [b] })
    else none

/-- The queues a message is routed to: the default exchange leads to the queue that the routing key
names. -/
def route (exchange key : String) : List Queue :=
  if exchange = "" then T.queues.filter fun q => q.name = key
  else if exchange ∈ T.exchanges then
    T.queues.filter fun q => T.bindings.any fun b =>
      b.queue = q.name && b.exchange = exchange && topicMatches b.pattern key
  else []

/-- The queues that a queue's dead letters are routed to. -/
def deadLetters (q : Queue) (key : String) : List Queue :=
  match q.deadLetterExchange with
  | none => []
  | some exchange => T.route exchange (q.deadLetterRoutingKey.getD key)

end Topology

/-! ### Declarations -/

namespace Topology

variable {T T' : Topology} {d : Declaration} {q : Queue}

/-- What a declaration makes of what is declared. -/
structure Grows (T : Topology) (d : Declaration) (T' : Topology) : Prop where
  has : T'.Has d
  keeps : ∀ d', T.Has d' → T'.Has d'
  only : ∀ d', T'.Has d' → T.Has d' ∨ d' = d

theorem grows_of_declare (h : T.declare d = some T') : T.Grows d T' := by
  cases d with
  | exchange name =>
    obtain rfl := Option.some.inj h
    split
    · rename_i hold
      exact ⟨hold, fun _ hd => hd, fun _ hd => .inl hd⟩
    · refine ⟨by simp [Has], fun d hd => ?_, fun d hd => ?_⟩
      · cases d <;> simp_all [Has]
      · cases d <;> simp_all [Has]
  | queue q =>
    simp only [declare] at h
    split at h
    · rename_i q' hfind
      obtain ⟨hsame, hT⟩ := Option.ite_none_right_eq_some.mp h
      obtain rfl := Option.some.inj hT
      exact ⟨hsame ▸ List.mem_of_find?_eq_some hfind, fun _ hd => hd, fun _ hd => .inl hd⟩
    · obtain rfl := Option.some.inj h
      refine ⟨by simp [Has], fun d hd => ?_, fun d hd => ?_⟩
      · cases d <;> simp_all [Has]
      · cases d <;> simp_all [Has]
  | binding b =>
    obtain ⟨_, h⟩ := Option.ite_none_right_eq_some.mp h
    obtain rfl := Option.some.inj h
    split
    · rename_i hold
      exact ⟨hold, fun _ hd => hd, fun _ hd => .inl hd⟩
    · refine ⟨by simp [Has], fun d hd => ?_, fun d hd => ?_⟩
      · cases d <;> simp_all [Has]
      · cases d <;> simp_all [Has]

/-- No two queues have one name. -/
def Distinct (T : Topology) : Prop := (T.queues.map Queue.name).Nodup

theorem Distinct.declare (hT : T.Distinct) (h : T.declare d = some T') : T'.Distinct := by
  cases d with
  | exchange name =>
    obtain rfl := Option.some.inj h
    split
    · exact hT
    · exact hT
  | queue q =>
    simp only [Topology.declare] at h
    split at h
    · obtain ⟨_, hT'⟩ := Option.ite_none_right_eq_some.mp h
      obtain rfl := Option.some.inj hT'
      exact hT
    · rename_i hfind
      obtain rfl := Option.some.inj h
      rw [Distinct, List.map_append, List.map_singleton]
      refine List.nodup_append.mpr ⟨hT, List.nodup_singleton _, ?_⟩
      rintro name hname _ hlast rfl
      obtain ⟨q', hq', rfl⟩ := List.mem_map.mp hname
      have hno := List.find?_eq_none.mp hfind q' hq'
      exact hno (by simpa using hlast)
  | binding b =>
    obtain ⟨_, h⟩ := Option.ite_none_right_eq_some.mp h
    obtain rfl := Option.some.inj h
    split
    · exact hT
    · exact hT

theorem Distinct.foldlM {ds : List Declaration} (hT : T.Distinct)
    (h : ds.foldlM Topology.declare T = some T') : T'.Distinct := by
  induction ds generalizing T with
  | nil => exact Option.some.inj h ▸ hT
  | cons d ds ih =>
    rw [List.foldlM_cons] at h
    obtain ⟨T₁, hfirst, hrest⟩ := Option.bind_eq_some_iff.mp h
    exact ih (hT.declare hfirst) hrest

theorem Distinct.eq_of_name {q' : Queue} (hT : T.Distinct) (hq : q ∈ T.queues) (hq' : q' ∈ T.queues)
    (h : q.name = q'.name) : q = q' := List.inj_on_of_nodup_map hT hq hq' h

/-- The exchange and the queue of a binding are there. -/
def Closed (T : Topology) : Prop :=
  ∀ b ∈ T.bindings, b.exchange ∈ T.exchanges ∧ b.queue ∈ T.queues.map Queue.name

/-- What is there is declared again without a change. -/
theorem declare_of_has (hT : T.Distinct) (hclosed : T.Closed) (h : T.Has d) :
    T.declare d = some T := by
  cases d with
  | exchange name => exact congrArg some (if_pos h)
  | queue q =>
    simp only [declare]
    split
    · rename_i q' hfind
      have hname : q'.name = q.name := by simpa using List.find?_some hfind
      exact if_pos (hT.eq_of_name (List.mem_of_find?_eq_some hfind) h hname)
    · rename_i hfind
      exact absurd (List.find?_eq_none.mp hfind q h) (by simp)
  | binding b =>
    rw [declare, if_pos (hclosed b h)]
    exact congrArg some (if_pos h)

/-- **Declaring all of it again changes nothing.** -/
theorem foldlM_of_has {ds : List Declaration} (hT : T.Distinct) (hclosed : T.Closed)
    (h : ∀ d ∈ ds, T.Has d) : ds.foldlM declare T = some T := by
  induction ds with
  | nil => rfl
  | cons d ds ih =>
    rw [List.foldlM_cons, declare_of_has hT hclosed (h d List.mem_cons_self)]
    exact ih fun d' hd' => h d' (List.mem_cons_of_mem _ hd')

/-- What a declaration needs is among those before it. -/
def After (before : List Declaration) : Declaration → Prop
  | .binding b => .exchange b.exchange ∈ before ∧ ∃ q, .queue q ∈ before ∧ q.name = b.queue
  | _ => True

/-- Each of the declarations comes after what it needs. -/
def Ordered (before : List Declaration) : List Declaration → Prop
  | [] => True
  | d :: ds => After before d ∧ Ordered (before ++ [d]) ds

/-- **A declaration that has what it needs is not refused**, if a queue of the name is the same. -/
theorem declare_isSome {before : List Declaration} (hafter : After before d)
    (hbefore : ∀ d' ∈ before, T.Has d')
    (hsame : ∀ q, d = .queue q → ∀ q' ∈ T.queues, q'.name = q.name → q' = q) :
    ∃ T', T.declare d = some T' := by
  cases d with
  | exchange name => exact ⟨_, rfl⟩
  | queue q =>
    simp only [declare]
    split
    · rename_i q' hfind
      have hname : q'.name = q.name := by simpa using List.find?_some hfind
      exact ⟨T, if_pos (hsame q rfl q' (List.mem_of_find?_eq_some hfind) hname)⟩
    · exact ⟨_, rfl⟩
  | binding b =>
    obtain ⟨hexchange, q, hq, hname⟩ := hafter
    have hthere : b.exchange ∈ T.exchanges ∧ b.queue ∈ T.queues.map Queue.name :=
      ⟨hbefore _ hexchange, hname ▸ List.mem_map_of_mem (hbefore _ hq)⟩
    exact ⟨_, if_pos hthere⟩

/-! ### Routes -/

theorem filter_eq_singleton {α : Type} {l : List α} {p : α → Bool} {a : α} (hl : l.Nodup)
    (ha : a ∈ l) (h : ∀ x ∈ l, p x = true ↔ x = a) : l.filter p = [a] := by
  induction l with
  | nil => cases ha
  | cons x l ih =>
    obtain ⟨hx, hl⟩ := List.nodup_cons.mp hl
    have htail : ∀ y ∈ l, p y = true ↔ y = a := fun y hy => h y (List.mem_cons_of_mem _ hy)
    rcases List.mem_cons.mp ha with rfl | ha
    · have hnone : l.filter p = [] := by
        refine List.filter_eq_nil_iff.mpr fun y hy hp => hx ?_
        rwa [(htail y hy).mp hp] at hy
      rw [List.filter_cons_of_pos ((h a List.mem_cons_self).mpr rfl), hnone]
    · have hne : x ≠ a := fun heq => hx (heq ▸ ha)
      have hp : ¬ p x = true := fun hp => hne ((h x List.mem_cons_self).mp hp)
      rw [List.filter_cons_of_neg hp, ih hl ha htail]

/-- **The default exchange leads to the queue of the name.** -/
theorem route_default (hT : T.Distinct) (hq : q ∈ T.queues) : T.route "" q.name = [q] := by
  rw [route, if_pos rfl]
  refine filter_eq_singleton (List.Nodup.of_map _ hT) hq fun q' hq' => ?_
  rw [decide_eq_true_iff]
  exact ⟨fun hname => hT.eq_of_name hq' hq hname, fun h => h ▸ rfl⟩

theorem route_default_nil {name : String} (h : ∀ q ∈ T.queues, q.name ≠ name) :
    T.route "" name = [] := by
  rw [route, if_pos rfl]
  exact List.filter_eq_nil_iff.mpr fun q hq hname => h q hq (of_decide_eq_true hname)

/-- **A topic exchange leads to the one queue whose bindings take the key.** -/
theorem route_topic {exchange key : String} (hT : T.Distinct) (hx : exchange ∈ T.exchanges)
    (hne : exchange ≠ "") (hq : q ∈ T.queues)
    (h : ∀ q' ∈ T.queues, (∃ b ∈ T.bindings, b.queue = q'.name ∧ b.exchange = exchange ∧
      topicMatches b.pattern key = true) ↔ q' = q) : T.route exchange key = [q] := by
  rw [route, if_neg hne, if_pos hx]
  refine filter_eq_singleton (List.Nodup.of_map _ hT) hq fun q' hq' => ?_
  rw [List.any_eq_true, ← h q' hq']
  simp [and_assoc]

end Topology

end LakiraBackend.Amqp
