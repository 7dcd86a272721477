import LakiraBackend.Auth.LoginLockout
import LakiraBackend.Auth.System
import LakiraBackend.Concurrency.Contract

/-!
# A lockout ends by itself

A counter that is made has no expiry until its maker sets one.  So the keys that last are those a
call is about to give an expiry (`Expiring`), unless a call that has made one ends before that: its
answer is lost, the command fails, or the process stops (`Abandons`).  Where none does while nobody
else is about to, every key expires (`lockout_expires`).
-/

namespace LakiraBackend.Auth.Lockout

open LakiraBackend.Concurrency LakiraBackend.Redis

variable {α β : Type}

/-! ### What comes after a count -/

/-- The next call gives the key an expiry. -/
def Awaits (key : String) : Async α → Prop
  | .call (.redis (.expire other _)) _ => other = key
  | _ => False

/-- A count that makes a key is followed by its expiry. -/
def ThenExpires : (op : Op) → (Except Err op.Answer → Async α) → Prop
  | .redis (.incr key), k => Awaits key (k (.ok (1 : Nat)))
  | _, _ => True

def Paired : Async α → Prop
  | .done _ => True
  | .fail _ => True
  | .call op k => ThenExpires op k ∧ ∀ r, Paired (k r)

theorem Awaits.bind {key : String} {p : Async α} (h : Awaits key p) (f : α → Async β) :
    Awaits key (p.bind f) := by
  cases p with
  | done a => exact h.elim
  | fail e => exact h.elim
  | call op k => cases op with
    | redis command => cases command with
      | expire other seconds => exact h
      | _ => exact h.elim
    | _ => exact h.elim

theorem Awaits.handle {key : String} {p : Async α} (h : Awaits key p) (f : Err → Async α) :
    Awaits key (p.handle f) := by
  cases p with
  | done a => exact h.elim
  | fail e => exact h.elim
  | call op k => cases op with
    | redis command => cases command with
      | expire other seconds => exact h
      | _ => exact h.elim
    | _ => exact h.elim

theorem ThenExpires.map {op : Op} {k : Except Err op.Answer → Async α} (h : ThenExpires op k)
    {g : Async α → Async β} (hg : ∀ key p, Awaits key p → Awaits key (g p)) :
    ThenExpires op fun r => g (k r) := by
  cases op with
  | redis command => cases command with
    | incr key => exact hg key _ h
    | _ => trivial
  | _ => trivial

theorem Paired.bind {p : Async α} {f : α → Async β} (hp : Paired p) (hf : ∀ a, Paired (f a)) :
    Paired (p.bind f) := by
  induction p with
  | done a => exact hf a
  | fail e => trivial
  | call op k ih =>
    exact ⟨hp.1.map fun _ _ h => h.bind f, fun r => ih r (hp.2 r)⟩

theorem Paired.handle {p : Async α} {f : Err → Async α} (hp : Paired p)
    (hf : ∀ e, Paired (f e)) : Paired (p.handle f) := by
  induction p with
  | done a => trivial
  | fail e => exact hf e
  | call op k ih =>
    exact ⟨hp.1.map fun _ _ h => h.handle f, fun r => ih r (hp.2 r)⟩

theorem Paired.attempt {p : Async α} (hp : Paired p) : Paired p.attempt := by
  induction p with
  | done a => trivial
  | fail e => trivial
  | call op k ih =>
    refine ⟨hp.1.map fun key p h => ?_, fun r => ih r (hp.2 r)⟩
    cases p with
    | done a => exact h.elim
    | fail e => exact h.elim
    | call op k => cases op with
      | redis command => cases command with
        | expire other seconds => exact h
        | _ => exact h.elim
      | _ => exact h.elim

/-- A call that counts nothing. -/
theorem Paired.await {op : Op} (h : ∀ key, op ≠ .redis (.incr key)) : Paired (Prog.await op) := by
  refine ⟨?_, fun r => by cases r <;> trivial⟩
  cases op with
  | redis command => cases command with
    | incr key => exact absurd rfl (h key)
    | _ => trivial
  | _ => trivial

theorem Paired.lower {f : (op : Auth.Op) → Async op.Answer} (hf : ∀ op, Paired (f op))
    (p : Auth.Async α) : Paired (p.lower f) := by
  induction p with
  | done a => trivial
  | fail e => trivial
  | call op k ih => exact (hf op).attempt.bind ih

variable (D : LockoutDeps)

theorem paired_checkLockout (email : String) : Paired (checkLockout D email) := by
  refine Paired.bind (Paired.handle (Paired.bind (.await fun _ h => by cases h) fun isOpen => ?_)
    fun _ => trivial) fun count => ?_
  · cases isOpen
    · trivial
    · exact Paired.bind (.await fun _ h => by cases h) fun _ => trivial
  · cases count with
    | none => trivial
    | some count =>
      dsimp only
      split <;> trivial

theorem paired_recordFailedAttempt (email : String) : Paired (recordFailedAttempt D email) := by
  refine Paired.handle (Paired.bind (.await fun _ h => by cases h) fun isOpen => ?_) fun _ => trivial
  cases isOpen with
  | false => trivial
  | true =>
    refine ⟨rfl, fun r => ?_⟩
    cases r with
    | error e => trivial
    | ok count =>
      change Paired (if count = 1 then _ else _)
      split
      · exact Paired.bind (.await fun _ h => by cases h) fun _ => trivial
      · trivial

theorem paired_resetLockout (email : String) : Paired (resetLockout D email) := by
  refine Paired.handle (Paired.bind (.await fun _ h => by cases h) fun isOpen => ?_) fun _ => trivial
  cases isOpen
  · trivial
  · exact Paired.bind (.await fun _ h => by cases h) fun _ => trivial

theorem paired_loginAttempts (op : Auth.Op) : Paired (loginAttempts D op) := by
  unfold loginAttempts
  split
  · exact paired_recordFailedAttempt D _
  · exact paired_resetLockout D _
  · exact .await fun _ h => by cases h

/-- **Whoever makes a counter sets its expiry next.** -/
theorem paired_handle (q : Request) : Paired (handle D q) := by
  cases q with
  | login input =>
    exact Paired.bind (Paired.bind (paired_checkLockout D _) fun _ =>
      Paired.lower (paired_loginAttempts D) _) fun _ => trivial
  | checkLockout email => exact Paired.bind (paired_checkLockout D email) fun _ => trivial
  | recordFailedAttempt email =>
    exact Paired.bind (paired_recordFailedAttempt D email) fun _ => trivial
  | resetLockout email => exact Paired.bind (paired_resetLockout D email) fun _ => trivial
  | clock key => exact Paired.bind (.await fun _ h => by cases h) fun _ => trivial

/-! ### Runs -/

/-- Thread `j` is between its count and the expiry of the key. -/
def Between (c : LockoutConfig) (j : Nat) (key : String) : Prop :=
  ∃ q p, c.threads[j]? = some (q, p) ∧ Awaits key p

/-- Thread `i` ends, after it has made the key, without an expiry of it. -/
inductive Abandons (c : LockoutConfig) (i : Nat) (key : String) : Label Input Request → Prop
  /-- The answer to its count is lost. -/
  | lost {q : Request} {k : Except Err Nat → Async (Option LoginResult)} {inp : Input} :
      c.threads[i]? = some (q, .call (.redis (.incr key)) k) → c.state.world key = none →
      inp.outcome = .lost → Abandons c i key (.step i inp)
  | failed {q : Request} {seconds : Nat} {k : Except Err Bool → Async (Option LoginResult)}
      {inp : Input} :
      c.threads[i]? = some (q, .call (.redis (.expire key seconds)) k) →
      c.state.world.Lasting key → inp.outcome = .failed → Abandons c i key (.step i inp)
  | stopped : Between c i key → c.state.world.Lasting key → Abandons c i key (.crash i)

/-- A key that is abandoned is about to be given its expiry by another call. -/
def Tended (c : LockoutConfig) (l : Label Input Request) : Prop :=
  ∀ i key, Abandons c i key l → ∃ j, j ≠ i ∧ Between c j key

/-- Every key that has no expiry is about to be given one. -/
def Expiring (c : LockoutConfig) : Prop :=
  ∀ key, c.state.world.Lasting key → ∃ j, Between c j key

variable {D} {c c' : LockoutConfig} {i j : Nat} {key : String} {q : Request}
  {l : Label Input Request}

/-- What another thread does leaves a thread where it is. -/
theorem Between.of_set (h : Between c j key) (hj : j ≠ i) {x : Request × Async (Option LoginResult)}
    (heq : c'.threads = c.threads.set i x) : Between c' j key := by
  obtain ⟨q, p, hp, hawaits⟩ := h
  refine ⟨q, p, ?_, hawaits⟩
  rw [heq, List.getElem?_set_ne (Ne.symm hj)]
  exact hp

/-- A thread that is about to set the expiry of a key makes that call next. -/
theorem Between.op_eq (h : Between c i key) {op : Op}
    {k : Except Err op.Answer → Async (Option LoginResult)}
    (ht : c.threads[i]? = some (q, .call op k)) : ∃ seconds, op = .redis (.expire key seconds) := by
  obtain ⟨q', p, hp, hawaits⟩ := h
  rw [ht] at hp
  obtain ⟨-, rfl⟩ := Prod.mk.inj (Option.some.inj hp)
  cases op with
  | redis command => cases command with
    | expire other seconds => exact ⟨seconds, by rw [show other = key from hawaits]⟩
    | _ => exact hawaits.elim
  | _ => exact hawaits.elim

/-- One Redis command, answered or not, keeps every key without an expiry about to get one. -/
theorem expiring_of_command (hexp : Expiring c) {command : Command String}
    {k : Except Err command.Answer → Async (Option LoginResult)}
    (ht : c.threads[i]? = some (q, .call (.redis command) k)) (hpaired : ThenExpires (.redis command) k)
    {r : Except Err command.Answer} (heq : c'.threads = c.threads.set i (q, k r))
    (hworld : c'.state.world = (c.state.world.apply command).2)
    (hmade : ∀ key, command = .incr key → c.state.world key = none →
      r = .ok (c.state.world.apply command).1 ∨ ∃ j, j ≠ i ∧ Between c j key) : Expiring c' := by
  intro key hlasting
  rw [hworld] at hlasting
  have hother : c.state.world.Lasting key → (∀ seconds, command ≠ .expire key seconds) →
      ∃ j, Between c' j key := by
    intro hold hne
    obtain ⟨j, hj⟩ := hexp key hold
    by_cases hji : j = i
    · subst hji
      obtain ⟨seconds, hop⟩ := hj.op_eq ht
      exact absurd (Op.redis.inj hop) (hne seconds)
    · exact ⟨j, hj.of_set hji heq⟩
  by_cases hkey : key = command.key
  · cases command with
    | get other => exact hother hlasting fun _ h => by cases h
    | incr other =>
      obtain rfl : key = other := hkey
      rcases Counters.lasting_incr.mp hlasting with hnone | hold
      · rcases hmade key rfl hnone with rfl | ⟨j, hj, hbetween⟩
        · have hone : c.state.world.count key + 1 = 1 := by rw [Counters.count, hnone]; rfl
          have hlt : i < c.threads.length := (List.getElem?_eq_some_iff.mp ht).1
          refine ⟨i, q, _, ?_, hpaired⟩
          rw [heq, List.getElem?_set_self hlt, Counters.answer_incr, hone]
        · exact ⟨j, hbetween.of_set hj heq⟩
      · exact hother hold fun _ h => by cases h
    | expire other seconds =>
      obtain rfl : key = other := hkey
      exact absurd hlasting Counters.not_lasting_expire
    | del other =>
      obtain rfl : key = other := hkey
      exact absurd hlasting (Counters.not_lasting_of_none Counters.apply_del)
  · refine hother ((Counters.lasting_congr (Counters.apply_of_ne hkey)).mp hlasting) fun _ h => ?_
    rw [h] at hkey
    exact hkey rfl

/-- A call to something else leaves the keys, or lets one pass its expiry. -/
theorem expiring_of_other (hexp : Expiring c) {op : Op}
    {k : Except Err op.Answer → Async (Option LoginResult)}
    (ht : c.threads[i]? = some (q, .call op k)) (hop : ∀ command, op ≠ .redis command)
    {r : Except Err op.Answer} (heq : c'.threads = c.threads.set i (q, k r))
    (hworld : ∀ key, c'.state.world.Lasting key → c.state.world.Lasting key) : Expiring c' := by
  intro key hlasting
  obtain ⟨j, hj⟩ := hexp key (hworld key hlasting)
  have hji : j ≠ i := by
    rintro rfl
    obtain ⟨seconds, h⟩ := hj.op_eq ht
    exact hop _ h
  exact ⟨j, hj.of_set hji heq⟩

theorem lasting_of_lapse {w : World} {other : String} (h : (w.lapse other).Lasting key) :
    w.Lasting key := by
  by_cases hkey : key = other
  · subst hkey
    have hcases : (w.Lasting key ∧ w.lapse key = w) ∨ w.lapse key key = none :=
      Counters.lapse_cases
    rcases hcases with ⟨hold, -⟩ | hnone
    · exact hold
    · exact absurd h (Counters.not_lasting_of_none hnone)
  · exact (Counters.lasting_congr (Counters.lapse_of_ne hkey)).mp h

/-- **One step** of a run in which no key is abandoned. -/
theorem Expiring.next (hexp : Expiring c)
    (hpaired : ∀ (j : Nat) (q : Request) (p : Async (Option LoginResult)),
      c.threads[j]? = some (q, p) → Paired p) (htended : Tended c l)
    (hn : (lockoutMachine D).next c l = some c') : Expiring c' := by
  cases l with
  | spawn q' =>
    cases hn
    intro key hlasting
    obtain ⟨j, q, p, hp, hawaits⟩ := hexp key hlasting
    exact ⟨j, q, p, (List.getElem?_append_left (List.getElem?_eq_some_iff.mp hp).1).trans hp, hawaits⟩
  | step i inp =>
    simp only [Machine.next] at hn
    split at hn
    · rename_i q op k ht
      split at hn
      · rename_i r w he
        obtain rfl := Option.some.inj hn
        cases op with
        | isOpen =>
          cases he
          exact expiring_of_other hexp ht (fun _ h => by cases h) rfl fun _ h => h
        | auth op =>
          cases he
          exact expiring_of_other hexp ht (fun _ h => by cases h) rfl fun _ h => h
        | lapse other =>
          cases he
          exact expiring_of_other hexp ht (fun _ h => by cases h) rfl fun _ h => lasting_of_lapse h
        | redis command =>
          have hthen := (hpaired i q _ ht).1
          cases houtcome : inp.outcome with
          | ok =>
            obtain ⟨rfl, rfl⟩ : .ok _ = r ∧ _ = w := by
              simpa [lockoutMachine, exec, houtcome] using he
            exact expiring_of_command hexp ht hthen rfl rfl fun _ _ _ => .inl rfl
          | lost =>
            obtain ⟨rfl, rfl⟩ : .error Err.repository = r ∧ _ = w := by
              simpa [lockoutMachine, exec, houtcome] using he
            refine expiring_of_command hexp ht hthen rfl rfl fun key hincr hnone => .inr ?_
            subst hincr
            exact htended i key (.lost ht hnone houtcome)
          | failed =>
            obtain ⟨rfl, rfl⟩ : .error Err.repository = r ∧ c.state.world = w := by
              simpa [lockoutMachine, exec, houtcome] using he
            intro key hlasting
            obtain ⟨j, hj⟩ := hexp key hlasting
            by_cases hji : j = i
            · subst hji
              obtain ⟨seconds, hop⟩ := hj.op_eq ht
              cases hop
              obtain ⟨j', hne, hbetween⟩ := htended j key (.failed ht hlasting houtcome)
              exact ⟨j', hbetween.of_set hne rfl⟩
            · exact ⟨j, hj.of_set hji rfl⟩
      · cases hn
    · cases hn
  | crash i =>
    simp only [Machine.next] at hn
    split at hn
    · obtain rfl := Option.some.inj hn
      intro key hlasting
      obtain ⟨j, hj⟩ := hexp key hlasting
      by_cases hji : j = i
      · subst hji
        obtain ⟨j', hne, hbetween⟩ := htended j key (.stopped hj hlasting)
        exact ⟨j', hbetween.of_set hne rfl⟩
      · exact ⟨j, hj.of_set hji rfl⟩
    · cases hn

/-- Whatever a thread has left to do sets the expiry of a key it makes. -/
theorem paired_of_reachable (h : (lockoutMachine D).Reachable Fresh c) :
    ∀ (j : Nat) (q : Request) (p : Async (Option LoginResult)),
      c.threads[j]? = some (q, p) → Paired p := by
  induction h with
  | boot _ => intro j q p hp; simp [Machine.boot] at hp
  | step _ hn ih =>
    rcases Machine.next_cases hn with
      ⟨q', _, rfl⟩ | ⟨i, inp, q', op, k, r, w, ht, _, rfl⟩ | ⟨i, q', op, k, ht, rfl⟩
    · intro j q p hp
      rcases Contract.concat_cases hp with hp | ⟨-, hx⟩
      · exact ih j q p hp
      · obtain ⟨rfl, rfl⟩ := Prod.mk.inj hx
        exact paired_handle D q
    · intro j q p hp
      rcases Contract.set_cases hp with ⟨-, hx⟩ | ⟨-, hp⟩
      · obtain ⟨rfl, rfl⟩ := Prod.mk.inj hx
        exact (ih i q _ ht).2 r
      · exact ih j q p hp
    · intro j q p hp
      rcases Contract.set_cases hp with ⟨-, hx⟩ | ⟨-, hp⟩
      · obtain ⟨rfl, rfl⟩ := Prod.mk.inj hx
        trivial
      · exact ih j q p hp

/-- **Every run** in which no key is abandoned keeps the keys without an expiry about to get one. -/
theorem expiring_of_tended (h : (lockoutMachine D).ReachableBy Tended Fresh c) : Expiring c := by
  induction h with
  | boot hw =>
    rintro key ⟨counter, hcounter, -⟩
    rw [show (Machine.boot _ : LockoutConfig).state.world = fun _ => none from hw] at hcounter
    cases hcounter
  | step hr htended hn ih => exact ih.next (paired_of_reachable hr.reachable) htended hn

/-- **A lockout ends by itself** in a run in which no key is abandoned: where no call is between
its count and its expiry, every counter there is has an expiry. -/
theorem lockout_expires (h : (lockoutMachine D).ReachableBy Tended Fresh c)
    (hquiet : ∀ j key, ¬ Between c j key) {key : String} {counter : Counter}
    (hcounter : c.state.world key = some counter) : counter.expiry ≠ none := by
  intro hnone
  obtain ⟨j, hj⟩ := expiring_of_tended h key ⟨counter, hcounter, hnone⟩
  exact hquiet j key hj

/-- A key that is abandoned has no expiry then. -/
theorem lasting_of_abandons (h : Abandons c i key l)
    (hn : (lockoutMachine D).next c l = some c') : c'.state.world.Lasting key := by
  cases h with
  | lost ht hnone houtcome =>
    simp only [Machine.next, ht, lockoutMachine, exec, houtcome] at hn
    obtain rfl := Option.some.inj hn
    exact Counters.lasting_incr.mpr (.inl hnone)
  | failed ht hlasting houtcome =>
    simp only [Machine.next, ht, lockoutMachine, exec, houtcome] at hn
    obtain rfl := Option.some.inj hn
    exact hlasting
  | stopped hbetween hlasting =>
    obtain ⟨q, p, ht, hawaits⟩ := hbetween
    cases p with
    | call op k =>
      simp only [Machine.next, ht] at hn
      obtain rfl := Option.some.inj hn
      exact hlasting
    | _ => exact hawaits.elim

/-! ### Two runs -/

/-- Texts of lower case without blanks, whose digests are themselves. -/
def sampleLockout : LockoutDeps := ⟨sampleDeps, id⟩

/-- A call that is answered. -/
def answered (i : Nat) : Label Input Request := .step i ⟨true, .ok, fun _ => .error .repository⟩

theorem tended_answered (c : LockoutConfig) (i : Nat) : Tended c (answered i) := by
  rintro j key (⟨-, -, h⟩ | ⟨-, -, h⟩) <;> cases h

theorem tended_spawn (c : LockoutConfig) (q : Request) : Tended c (.spawn q) := by
  rintro j key ⟨⟩

/-- The program makes no more calls. -/
def isOver : Async α → Bool
  | .call _ _ => false
  | _ => true

theorem quiet_of_isOver {c : LockoutConfig} (h : (c.threads.all fun t => isOver t.2) = true) (j : Nat)
    (key : String) : ¬ Between c j key := by
  rintro ⟨q, p, hp, hawaits⟩
  have hover := List.all_eq_true.mp h _ (List.mem_of_getElem? hp)
  cases p with
  | call op k => cases hover
  | _ => exact hawaits

theorem fresh_none : Fresh fun _ => none := rfl

/-- What a schedule makes of no counters, when no thread has a call left and the counter of `a`
is such. -/
def endsWith (ls : List (Label Input Request)) (counter : Counter) : Bool :=
  ((lockoutMachine sampleLockout).run (Machine.boot fun _ => none) ls).any fun c =>
    (c.threads.all fun t => isOver t.2) && c.state.world "auth:lockout:a" = some counter

theorem of_endsWith (ls : List (Label Input Request)) (counter : Counter)
    (h : endsWith ls counter = true) :
    ∃ c, (lockoutMachine sampleLockout).run (Machine.boot fun _ => none) ls = some c ∧
      (∀ j key, ¬ Between c j key) ∧ c.state.world "auth:lockout:a" = some counter := by
  obtain ⟨c, hc, h⟩ := (Option.any_eq_true _ _).mp h
  rw [Bool.and_eq_true] at h
  exact ⟨c, hc, quiet_of_isOver h.1, of_decide_eq_true h.2⟩

/-- A failure is counted, and its counter expires. -/
theorem lockout_expires_counted : ∃ (c : LockoutConfig) (counter : Counter),
    (lockoutMachine sampleLockout).ReachableBy Tended Fresh c ∧
      c.state.world "auth:lockout:a" = some counter ∧ counter.expiry ≠ none := by
  obtain ⟨c, hrun, hquiet, hcounter⟩ := of_endsWith
    [.spawn (.recordFailedAttempt "a"), answered 0, answered 0, answered 0] ⟨1, some ttlSeconds⟩
    (by decide +kernel)
  have hreach : (lockoutMachine sampleLockout).ReachableBy Tended Fresh c := by
    refine Machine.ReachableBy.run (.boot fresh_none) (fun l hl c => ?_) hrun
    rcases List.mem_cons.mp hl with rfl | hl
    · exact tended_spawn c _
    · obtain rfl : l = answered 0 := by simpa using hl
      exact tended_answered c 0
  exact ⟨c, _, hreach, hcounter, lockout_expires hreach hquiet hcounter⟩

/-- The process stops after a count, and nothing ends the lockout. -/
theorem lasting_after_stop : ∃ (c : LockoutConfig) (counter : Counter),
    (lockoutMachine sampleLockout).Reachable Fresh c ∧ (∀ j key, ¬ Between c j key) ∧
      c.state.world "auth:lockout:a" = some counter ∧ counter.expiry = none := by
  obtain ⟨c, hrun, hquiet, hcounter⟩ := of_endsWith
    [.spawn (.recordFailedAttempt "a"), answered 0, answered 0, .crash 0] ⟨1, none⟩
    (by decide +kernel)
  exact ⟨c, _, Machine.reachable_of_run fresh_none hrun, hquiet, hcounter, rfl⟩

end LakiraBackend.Auth.Lockout
