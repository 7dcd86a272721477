import LakiraBackend.Amqp.Topology

/-!
# The messages of a broker

A message goes to the queues that its exchange and its routing key lead to.  A queue's messages are
taken in any order.  A message keeps its serial number as it is moved.  What the broker has taken is
held once, or was acknowledged, or was dropped because its dead-letter route led nowhere
(`Counted`).
-/

namespace LakiraBackend.Amqp

/-! ### Messages -/

inductive Place : Type
  | queue (name : String)
  /-- Delivered from the queue on a channel, and not settled. -/
  | unacked (channel : Nat) (queue : String)
  deriving DecidableEq, Repr

/-- A message the broker holds. -/
structure Held (β : Type) : Type where
  serial : Nat
  place : Place
  routingKey : String
  body : β
  deriving DecidableEq, Repr

/-- `next` is the next serial number; `acked` and `dropped` are bookkeeping. -/
structure Broker (β : Type) : Type where
  topology : Topology
  messages : List (Held β)
  next : Nat
  acked : List Nat
  dropped : List Nat
  deriving DecidableEq, Repr

namespace Broker

variable {β : Type} (b : Broker β)

def empty : Broker β := ⟨.empty, [], 0, [], []⟩

def declare (d : Declaration) : Option (Broker β) :=
  (b.topology.declare d).map fun T => { b with topology := T }

/-- A new message in a queue. -/
def add (key : String) (body : β) (q : Queue) : Broker β :=
  { b with messages := b.messages ++ [⟨b.next, .queue q.name, key, body⟩], next := b.next + 1 }

/-- A message is published: each queue it is routed to has one. -/
def publish (exchange key : String) (body : β) : Broker β :=
  (b.topology.route exchange key).foldl (fun b q => b.add key body q) b

/-- The message of the number is put somewhere else. -/
def move (n : Nat) (f : Held β → Held β) : Broker β :=
  { b with messages := b.messages.map fun m => if m.serial = n then f m else m }

/-- It is gone. -/
def remove (n : Nat) : Broker β := { b with messages := b.messages.filter fun m => m.serial ≠ n }

def ack (n : Nat) : Broker β := { b.remove n with acked := n :: b.acked }

/-- A queue's message is dead-lettered: it goes to the first queue of its route, and copies of it to
the others. -/
def deadLetter (m : Held β) (q : Queue) : Broker β :=
  let key := q.deadLetterRoutingKey.getD m.routingKey
  match b.topology.deadLetters q m.routingKey with
  | [] => { b.remove m.serial with dropped := m.serial :: b.dropped }
  | target :: others =>
    others.foldl (fun b q => b.add key m.body q)
      (b.move m.serial fun m => { m with place := .queue target.name, routingKey := key })

/-- What a channel has not settled goes back to its queue. -/
def close (channel : Nat) : Broker β :=
  { b with messages := b.messages.map fun m => match m.place with
      | .unacked c queue => if c = channel then { m with place := .queue queue } else m
      | .queue _ => m }

end Broker

/-! ### No message is lost or doubled -/

open scoped List

namespace Broker

variable {β : Type} {b : Broker β} {m : Held β} {n : Nat}

/-- The numbers of what is held, of what was acknowledged and of what was dropped. -/
def serials (b : Broker β) : List Nat := b.messages.map Held.serial ++ (b.acked ++ b.dropped)

/-- What there was, each message once. -/
def Counted (b : Broker β) : Prop := b.serials.Perm (List.range b.next)

theorem counted_empty : (empty : Broker β).Counted := List.Perm.refl _

theorem Counted.add (hb : b.Counted) (key : String) (body : β) (q : Queue) :
    (b.add key body q).Counted := by
  have hnew : (b.add key body q).serials =
      b.messages.map Held.serial ++ ([b.next] ++ (b.acked ++ b.dropped)) := by
    simp [serials, Broker.add]
  have hnext : List.range (b.add key body q).next = List.range b.next ++ [b.next] := List.range_succ
  rw [Counted, hnew, hnext]
  calc b.messages.map Held.serial ++ ([b.next] ++ (b.acked ++ b.dropped))
      ~ b.messages.map Held.serial ++ ((b.acked ++ b.dropped) ++ [b.next]) :=
        List.Perm.append_left _ List.perm_append_comm
    _ ~ b.serials ++ [b.next] := List.Perm.of_eq (List.append_assoc _ _ _).symm
    _ ~ List.range b.next ++ [b.next] := List.Perm.append_right _ hb

theorem Counted.move {f : Held β → Held β} (hb : b.Counted) (hf : ∀ m, (f m).serial = m.serial) :
    (b.move n f).Counted := by
  have hmap : (b.move n f).messages.map Held.serial = b.messages.map Held.serial := by
    rw [Broker.move, List.map_map]
    refine List.map_congr_left fun m _ => ?_
    simp only [Function.comp_apply]
    split
    · exact hf m
    · rfl
  rw [Counted, serials, hmap]
  exact hb

theorem Counted.close (hb : b.Counted) (channel : Nat) : (b.close channel).Counted := by
  have hmap : (b.close channel).messages.map Held.serial = b.messages.map Held.serial := by
    rw [Broker.close, List.map_map]
    refine List.map_congr_left fun m _ => ?_
    simp only [Function.comp_apply]
    split
    · split <;> rfl
    · rfl
  rw [Counted, serials, hmap]
  exact hb

/-- A message that is held is held once. -/
theorem Counted.nodup (hb : b.Counted) : (b.messages.map Held.serial).Nodup :=
  (List.nodup_append.mp ((List.Perm.nodup_iff hb).mpr List.nodup_range)).1

theorem Counted.eq_of_serial {m' : Held β} (hb : b.Counted) (hm : m ∈ b.messages)
    (hm' : m' ∈ b.messages) (h : m.serial = m'.serial) : m = m' :=
  List.inj_on_of_nodup_map hb.nodup hm hm' h

theorem Counted.remove (hb : b.Counted) (hm : m ∈ b.messages) :
    (b.messages.map Held.serial).Perm
      (m.serial :: (b.remove m.serial).messages.map Held.serial) := by
  have hmem : m.serial ∈ b.messages.map Held.serial := List.mem_map_of_mem hm
  have hrest : (b.remove m.serial).messages.map Held.serial =
      (b.messages.map Held.serial).erase m.serial := by
    rw [hb.nodup.erase_eq_filter, Broker.remove, List.filter_map]
    congr 1
    refine List.filter_congr fun x _ => ?_
    simp [bne, Bool.beq_eq_decide_eq]
  rw [hrest]
  exact List.perm_cons_erase hmem

theorem Counted.ack (hb : b.Counted) (hm : m ∈ b.messages) : (b.ack m.serial).Counted := by
  refine List.Perm.trans ?_ hb
  calc (b.remove m.serial).messages.map Held.serial ++ (m.serial :: b.acked ++ b.dropped)
      ~ m.serial :: (b.remove m.serial).messages.map Held.serial ++ (b.acked ++ b.dropped) :=
        List.perm_middle
    _ ~ b.serials := List.Perm.append_right _ (hb.remove hm).symm

/-! ### What is held after a step -/

theorem publish_eq {exchange key : String} {body : β} {q : Queue}
    (h : b.topology.route exchange key = [q]) :
    b.publish exchange key body = b.add key body q := by
  rw [publish, h]
  rfl

theorem deadLetter_eq {q target : Queue} (h : b.topology.deadLetters q m.routingKey = [target]) :
    b.deadLetter m q = b.move m.serial fun x =>
      { x with
        place := .queue target.name
        routingKey := q.deadLetterRoutingKey.getD m.routingKey } := by
  rw [deadLetter, h]
  rfl

theorem mem_add {key : String} {body : β} {q : Queue} (h : m ∈ (b.add key body q).messages) :
    m ∈ b.messages ∨ m.place = .queue q.name ∧ m.body = body := by
  rcases List.mem_append.mp h with h | h
  · exact .inl h
  · obtain rfl := List.mem_singleton.mp h
    exact .inr ⟨rfl, rfl⟩

theorem mem_move {f : Held β → Held β} (h : m ∈ (b.move n f).messages) :
    m ∈ b.messages ∨ ∃ x ∈ b.messages, x.serial = n ∧ m = f x := by
  obtain ⟨x, hx, rfl⟩ := List.mem_map.mp h
  by_cases hn : x.serial = n
  · rw [if_pos hn]
    exact .inr ⟨x, hx, hn, rfl⟩
  · rw [if_neg hn]
    exact .inl hx

theorem mem_close {channel : Nat} (h : m ∈ (b.close channel).messages) :
    m ∈ b.messages ∨ ∃ x ∈ b.messages, ∃ c queue, x.place = .unacked c queue ∧
      m.place = .queue queue ∧ m.body = x.body := by
  obtain ⟨x, hx, rfl⟩ := List.mem_map.mp h
  cases hplace : x.place with
  | queue name => exact .inl hx
  | unacked c queue =>
    simp only
    split
    · exact .inr ⟨x, hx, c, queue, hplace, rfl, rfl⟩
    · exact .inl hx

end Broker

end LakiraBackend.Amqp
