import LakiraBackend.Auth.LockoutExpiry
import LakiraBackend.Auth.Footprints
import LakiraBackend.Concurrency.History
import Mathlib.Data.Finset.Card

/-!
# How many passwords are guessed

The check and the count of a login are apart, so the logins that have passed the check and are not
counted yet are not seen by the next check: they are under way (`underWay`).  Where every check that
lets a login through finds fewer failures, with the logins under way, than the threshold, no more
passwords than the threshold are guessed until the counter ends (`lockout_bounds_guesses`).
-/

namespace LakiraBackend.Auth.Lockout

open LakiraBackend.Concurrency LakiraBackend.Redis

variable (D : LockoutDeps)

/-- The counter of the address a login is for. -/
def keyOf : Request → Option String
  | .login input => some (keyFor D input.email)
  | _ => none

/-! ### Where a login stands -/

/-- The key a login that has passed its check is for, until it is counted, succeeds or fails; and
whether its comparison came out false.  By what its thread has done. -/
def standing : List LockoutEvent → Option (String × Bool)
  | [] => none
  | e :: past => match e.act with
    | .call (.redis (.get key)) (.ok raw) => if raw.getD 0 < threshold then some (key, false) else none
    | .call (.auth (.call (.compare _ _))) (.ok valid) =>
      if valid then none else (standing past).map fun s => (s.1, true)
    | .call (.redis (.incr _)) (.ok _) => none
    | .call _ (.error _) => none
    | .crash => none
    | _ => standing past

/-- The threads there are. -/
def threadsOf (hist : List LockoutEvent) : Finset Nat := (hist.map Event.tid).toFinset

/-- The logins that have passed their check and are not counted yet. -/
def underWay (key : String) (hist : List LockoutEvent) : Finset Nat :=
  (threadsOf hist).filter fun i => (standing (own i hist)).map Prod.fst = some key

/-- Those of them that have guessed. -/
def uncounted (key : String) (hist : List LockoutEvent) : Finset Nat :=
  (threadsOf hist).filter fun i => standing (own i hist) = some (key, true)

/-- The comparisons that came out false since the counter last ended. -/
def guesses (key : String) : List LockoutEvent → Nat
  | [] => 0
  | e :: past => match e.act with
    | .call (.auth (.call (.compare _ _))) (.ok valid) =>
      if valid = false ∧ keyOf D e.req = some key then guesses key past + 1 else guesses key past
    | .call (.redis (.del other)) (.ok _) => if other = key then 0 else guesses key past
    | .call (.lapse other) _ =>
      if other = key ∧ (e.before key).isSome ∧ e.after key = none then 0 else guesses key past
    | _ => guesses key past

/-- A login, or the clock. -/
def Admitted : Request → Prop
  | .login _ => True
  | .clock _ => True
  | _ => False

instance : DecidablePred Admitted
  | .login _ => .isTrue trivial
  | .clock _ => .isTrue trivial
  | .checkLockout _ => .isFalse id
  | .recordFailedAttempt _ => .isFalse id
  | .resetLockout _ => .isFalse id

def Answered : Act Op Op.Answer Err → Prop
  | .call .isOpen r => r = .ok true
  | .call (.redis _) (.error _) => False
  | .crash => False
  | _ => True

instance : DecidablePred Answered
  | .call .isOpen (.ok isOpen) => decidable_of_iff (isOpen = true) (Except.ok.injEq isOpen true ▸ .rfl)
  | .call .isOpen (.error _) => .isFalse fun h => by cases h
  | .call (.redis _) (.ok _) => .isTrue trivial
  | .call (.redis _) (.error _) => .isFalse id
  | .call (.auth _) _ => .isTrue trivial
  | .call (.lapse _) _ => .isTrue trivial
  | .crash => .isFalse id

/-- Redis is there, no command of it fails and no process stops, and only logins use it. -/
def Works (e : LockoutEvent) : Prop := Answered e.act ∧ Admitted e.req

instance (e : LockoutEvent) : Decidable (Works e) :=
  inferInstanceAs (Decidable (Answered e.act ∧ Admitted e.req))

def Available (hist : List LockoutEvent) : Prop := ∀ e ∈ hist, Works e

instance (hist : List LockoutEvent) : Decidable (Available hist) :=
  inferInstanceAs (Decidable (∀ e ∈ hist, Works e))

/-- A check that lets a login through. -/
def lets (key : String) (e : LockoutEvent) : Bool :=
  match e.act with
  | .call (.redis (.get other)) (.ok raw) => other = key ∧ raw.getD 0 < threshold
  | _ => false

/-- Each login that is let through fits: with those under way, and the failures counted. -/
def Fits (key : String) : List LockoutEvent → Prop :=
  Throughout fun e past => lets key e → e.before.count key + (underWay key past).card < threshold

instance (key : String) (hist : List LockoutEvent) : Decidable (Fits key hist) :=
  inferInstanceAs (Decidable (Throughout _ hist))

/-! ### Threads -/

variable {D} {i j : Nat} {key : String} {hist past : List LockoutEvent} {e : LockoutEvent}

theorem mem_threadsOf_of_standing {s : String × Bool} (h : standing (own i hist) = some s) :
    i ∈ threadsOf hist := by
  cases hown : own i hist with
  | nil => rw [hown] at h; cases h
  | cons e rest =>
    obtain ⟨he, rfl⟩ := mem_of_mem_own (show e ∈ own i hist by rw [hown]; exact List.mem_cons_self)
    exact List.mem_toFinset.mpr (List.mem_map_of_mem he)

theorem mem_underWay : i ∈ underWay key hist ↔ ∃ failed, standing (own i hist) = some (key, failed) := by
  rw [underWay, Finset.mem_filter]
  constructor
  · rintro ⟨-, h⟩
    obtain ⟨⟨k, failed⟩, hs, rfl⟩ := Option.map_eq_some_iff.mp h
    exact ⟨failed, hs⟩
  · rintro ⟨failed, h⟩
    exact ⟨mem_threadsOf_of_standing h, by rw [h]; rfl⟩

theorem mem_uncounted : i ∈ uncounted key hist ↔ standing (own i hist) = some (key, true) := by
  rw [uncounted, Finset.mem_filter]
  exact ⟨fun h => h.2, fun h => ⟨mem_threadsOf_of_standing h, h⟩⟩

/-- What a thread does changes where it stands, and no other. -/
theorem underWay_insert {failed : Bool} (h : standing (e :: own e.tid past) = some (key, failed)) :
    underWay key (e :: past) = insert e.tid (underWay key past) := by
  ext j
  rw [Finset.mem_insert, mem_underWay]
  by_cases hj : j = e.tid
  · subst hj
    rw [own_cons_self rfl]
    exact iff_of_true ⟨failed, h⟩ (.inl rfl)
  · rw [own_cons_ne (Ne.symm hj), ← mem_underWay, or_iff_right hj]

theorem underWay_erase (h : ∀ failed, standing (e :: own e.tid past) ≠ some (key, failed)) :
    underWay key (e :: past) = (underWay key past).erase e.tid := by
  ext j
  rw [Finset.mem_erase, mem_underWay]
  by_cases hj : j = e.tid
  · subst hj
    rw [own_cons_self rfl]
    exact iff_of_false (fun ⟨failed, hs⟩ => h failed hs) fun hne => hne.1 rfl
  · rw [own_cons_ne (Ne.symm hj), ← mem_underWay, and_iff_right hj]

theorem uncounted_insert (h : standing (e :: own e.tid past) = some (key, true)) :
    uncounted key (e :: past) = insert e.tid (uncounted key past) := by
  ext j
  rw [Finset.mem_insert, mem_uncounted]
  by_cases hj : j = e.tid
  · subst hj
    rw [own_cons_self rfl]
    exact iff_of_true h (.inl rfl)
  · rw [own_cons_ne (Ne.symm hj), ← mem_uncounted, or_iff_right hj]

theorem uncounted_erase (h : standing (e :: own e.tid past) ≠ some (key, true)) :
    uncounted key (e :: past) = (uncounted key past).erase e.tid := by
  ext j
  rw [Finset.mem_erase, mem_uncounted]
  by_cases hj : j = e.tid
  · subst hj
    rw [own_cons_self rfl]
    exact iff_of_false h fun hne => hne.1 rfl
  · rw [own_cons_ne (Ne.symm hj), ← mem_uncounted, and_iff_right hj]

/-- A thread that was not among them. -/
theorem erase_underWay (h : ∀ failed, standing (own e.tid past) ≠ some (key, failed)) :
    (underWay key past).erase e.tid = underWay key past :=
  Finset.erase_eq_of_notMem fun hm => (mem_underWay.mp hm).elim h

theorem erase_uncounted (h : standing (own e.tid past) ≠ some (key, true)) :
    (uncounted key past).erase e.tid = uncounted key past :=
  Finset.erase_eq_of_notMem fun hm => h (mem_uncounted.mp hm)

/-- A thread that stands where it stood. -/
theorem cons_of_standing (h : standing (e :: own e.tid past) = standing (own e.tid past))
    (key : String) :
    underWay key (e :: past) = underWay key past ∧ uncounted key (e :: past) = uncounted key past := by
  constructor
  · ext j
    rw [mem_underWay, mem_underWay]
    by_cases hj : j = e.tid
    · rw [hj, own_cons_self rfl, h]
    · rw [own_cons_ne (Ne.symm hj)]
  · ext j
    rw [mem_uncounted, mem_uncounted]
    by_cases hj : j = e.tid
    · rw [hj, own_cons_self rfl, h]
    · rw [own_cons_ne (Ne.symm hj)]

theorem uncounted_subset (key : String) (hist : List LockoutEvent) :
    uncounted key hist ⊆ underWay key hist := fun _ hj =>
  mem_underWay.mpr ⟨true, mem_uncounted.mp hj⟩

/-! ### One step -/

variable (D) in
/-- What a login has done before it looks, compares and counts. -/
def Known (i : Nat) (q : Request) (op : Op) (s : State Op Op.Answer Err World Request) : Prop :=
  Available (own i s.hist) → match op with
    | .auth (.call (.compare _ _)) =>
      ∃ key, keyOf D q = some key ∧ standing (own i s.hist) = some (key, false)
    | .auth _ => ∀ key, standing (own i s.hist) ≠ some (key, true)
    | .redis (.get _) => standing (own i s.hist) = none
    | .redis (.incr key) => ∃ failed, standing (own i s.hist) = some (key, failed)
    | _ => True

variable (D) in
/-- What has been guessed is counted or under way, and the two do not exceed the threshold. -/
structure Safe (key : String) (hist : List LockoutEvent) (w : World) : Prop where
  guessed : guesses D key hist ≤ w.count key + (uncounted key hist).card
  bounded : w.count key + (underWay key hist).card ≤ threshold

theorem Safe.guesses_le {w : World} (h : Safe D key hist w) : guesses D key hist ≤ threshold :=
  le_trans h.guessed (le_trans
    (Nat.add_le_add_left (Finset.card_le_card (uncounted_subset key hist)) _) h.bounded)

/-- Nothing is guessed, and no counter changes. -/
theorem Safe.same {w w' : World} (h : Safe D key past w)
    (hstand : standing (e :: own e.tid past) = standing (own e.tid past))
    (hguess : guesses D key (e :: past) = guesses D key past) (hw : w'.count key = w.count key) :
    Safe D key (e :: past) w' := by
  obtain ⟨hunder, hun⟩ := cons_of_standing hstand key
  exact ⟨by rw [hguess, hun, hw]; exact h.guessed, by rw [hunder, hw]; exact h.bounded⟩

/-- The counter ends. -/
theorem Safe.ended {w w' : World} (h : Safe D key past w)
    (hstand : standing (e :: own e.tid past) = standing (own e.tid past))
    (hguess : guesses D key (e :: past) = 0) (hw : w'.count key = 0) :
    Safe D key (e :: past) w' := by
  obtain ⟨hunder, hun⟩ := cons_of_standing hstand key
  refine ⟨by rw [hguess]; exact Nat.zero_le _, ?_⟩
  rw [hunder, hw, Nat.zero_add]
  exact le_trans (Nat.le_add_left _ _) h.bounded

/-- A login ends that has not guessed. -/
theorem Safe.finished {w : World} (h : Safe D key past w)
    (hstand : standing (e :: own e.tid past) = none)
    (hno : standing (own e.tid past) ≠ some (key, true))
    (hguess : guesses D key (e :: past) = guesses D key past) : Safe D key (e :: past) w := by
  have hnone : ∀ failed, standing (e :: own e.tid past) ≠ some (key, failed) := by
    rw [hstand]
    exact fun failed => (Option.some_ne_none _).symm
  refine ⟨?_, ?_⟩
  · rw [hguess, uncounted_erase (hnone true), erase_uncounted hno]
    exact h.guessed
  · rw [underWay_erase hnone]
    exact le_trans (Nat.add_le_add_left Finset.card_erase_le _) h.bounded

/-- **A count**: one failure more, and one login less under way. -/
theorem Safe.counted {w w' : World} {counted : String} {failed : Bool} (h : Safe D key past w)
    (hold : standing (own e.tid past) = some (counted, failed))
    (hstand : standing (e :: own e.tid past) = none)
    (hguess : guesses D key (e :: past) = guesses D key past)
    (hw : w'.count key = if counted = key then w.count key + 1 else w.count key) :
    Safe D key (e :: past) w' := by
  have hnone : ∀ failed, standing (e :: own e.tid past) ≠ some (key, failed) := by
    rw [hstand]
    exact fun failed => (Option.some_ne_none _).symm
  by_cases hkey : counted = key
  · subst hkey
    have hmem : e.tid ∈ underWay counted past := mem_underWay.mpr ⟨failed, hold⟩
    have hcard := Finset.card_erase_add_one hmem
    have hle := Finset.pred_card_le_card_erase (s := uncounted counted past) (a := e.tid)
    have hguessed := h.guessed
    have hbounded := h.bounded
    rw [if_pos rfl] at hw
    exact ⟨by rw [hguess, uncounted_erase (hnone true), hw]; omega,
      by rw [underWay_erase hnone, hw]; omega⟩
  · have hne : ∀ failed, standing (own e.tid past) ≠ some (key, failed) := by
      intro failed' hs
      rw [hold] at hs
      exact hkey (congrArg Prod.fst (Option.some.inj hs))
    rw [if_neg hkey] at hw
    refine ⟨?_, ?_⟩
    · rw [hguess, uncounted_erase (hnone true), erase_uncounted (hne true), hw]
      exact h.guessed
    · rw [underWay_erase hnone, erase_underWay hne, hw]
      exact h.bounded

/-- A login is let through that fits. -/
theorem Safe.let_through {w : World} {checked : String} (h : Safe D key past w)
    (hold : standing (own e.tid past) = none)
    (hstand : standing (e :: own e.tid past) = some (checked, false))
    (hguess : guesses D key (e :: past) = guesses D key past)
    (hfit : checked = key → w.count key + (underWay key past).card < threshold) :
    Safe D key (e :: past) w := by
  have hnot : ∀ failed, standing (own e.tid past) ≠ some (key, failed) := by
    rw [hold]
    exact fun failed => (Option.some_ne_none _).symm
  have hno : standing (e :: own e.tid past) ≠ some (key, true) := by
    rw [hstand]
    intro heq
    cases (Prod.mk.inj (Option.some.inj heq)).2
  refine ⟨by rw [hguess, uncounted_erase hno, erase_uncounted (hnot true)]; exact h.guessed, ?_⟩
  by_cases hkey : checked = key
  · rw [underWay_insert (hkey ▸ hstand),
      Finset.card_insert_of_notMem fun hm => (mem_underWay.mp hm).elim hnot]
    exact hfit hkey
  · have hother : ∀ failed, standing (e :: own e.tid past) ≠ some (key, failed) := by
      rw [hstand]
      exact fun failed heq => hkey (Prod.mk.inj (Option.some.inj heq)).1
    rw [underWay_erase hother, erase_underWay hnot]
    exact h.bounded

/-- **A guess**: it is yet to be counted. -/
theorem Safe.guess {w : World} {checked : String} (h : Safe D key past w)
    (hold : standing (own e.tid past) = some (checked, false))
    (hstand : standing (e :: own e.tid past) = some (checked, true))
    (hguess : guesses D key (e :: past) =
      if checked = key then guesses D key past + 1 else guesses D key past) :
    Safe D key (e :: past) w := by
  have hno : standing (own e.tid past) ≠ some (key, true) := by
    rw [hold]
    intro heq
    cases (Prod.mk.inj (Option.some.inj heq)).2
  have hguessed := h.guessed
  by_cases hkey : checked = key
  · subst hkey
    have hmem : e.tid ∈ underWay checked past := mem_underWay.mpr ⟨false, hold⟩
    refine ⟨?_, ?_⟩
    · rw [hguess, if_pos rfl, uncounted_insert hstand,
        Finset.card_insert_of_notMem fun hm => hno (mem_uncounted.mp hm)]
      omega
    · rw [underWay_insert hstand, Finset.insert_eq_of_mem hmem]
      exact h.bounded
  · have hne : ∀ (stand : Option (String × Bool)) (b : Bool), stand = some (checked, b) →
        ∀ failed, stand ≠ some (key, failed) := by
      rintro _ b rfl failed heq
      exact hkey (Prod.mk.inj (Option.some.inj heq)).1
    refine ⟨?_, ?_⟩
    · rw [hguess, if_neg hkey, uncounted_erase (hne _ _ hstand true),
        erase_uncounted (hne _ _ hold true)]
      exact hguessed
    · rw [underWay_erase (hne _ _ hstand), erase_underWay (hne _ _ hold)]
      exact h.bounded

/-- A comparison: a guess, where it comes out false. -/
theorem safe_compare {i : Nat} {q : Request} {password : String} {hash : PasswordHash}
    {r : Except Err Bool} {w : World} (hown : Available (own i past))
    (hknown : Known D i q (.auth (.call (.compare password hash))) ⟨w, past⟩)
    (h : Safe D key past w) :
    Safe D key (⟨i, q, .call (.auth (.call (.compare password hash))) r, w, w⟩ :: past) w := by
  obtain ⟨checked, hkey, hold⟩ := hknown hown
  have hno : standing (own i past) ≠ some (key, true) := by
    rw [show standing (own i past) = some (checked, false) from hold]
    intro heq
    cases (Prod.mk.inj (Option.some.inj heq)).2
  cases r with
  | error err => exact h.finished rfl hno rfl
  | ok valid => cases valid with
    | true => exact h.finished rfl hno rfl
    | false =>
      refine h.guess hold ?_ ?_
      · change (standing (own i past)).map _ = _
        rw [show standing (own i past) = some (checked, false) from hold]
        rfl
      · change (if false = false ∧ keyOf D q = some key then _ else _) = _
        rw [hkey]
        by_cases heq : checked = key
        · rw [if_pos heq, if_pos ⟨rfl, congrArg some heq⟩]
        · rw [if_neg heq, if_neg fun hc => heq (Option.some.inj hc.2)]

/-- A login ends with a call that fails. -/
theorem standing_error {i : Nat} {q : Request} {w w' : World} (op : Op) {err : Err}
    {past : List LockoutEvent} :
    standing (⟨i, q, .call op (.error err), w, w'⟩ :: past) = none := by
  cases op with
  | redis command => cases command <;> rfl
  | auth op => cases op with
    | call c => cases c <;> rfl
    | _ => rfl
  | _ => rfl

/-- What is asked of the database besides counts nothing. -/
theorem safe_auth {i : Nat} {q : Request} {op : Auth.Op} {r : Except Err op.Answer} {w : World}
    (hown : Available (own i past)) (hknown : Known D i q (.auth op) ⟨w, past⟩)
    (h : Safe D key past w) :
    Safe D key (⟨i, q, .call (.auth op) r, w, w⟩ :: past) w := by
  have hother : (∀ key, standing (own i past) ≠ some (key, true)) →
      (∀ a, r = .ok a → standing (⟨i, q, .call (.auth op) r, w, w⟩ :: own i past) =
        standing (own i past)) →
      guesses D key (⟨i, q, .call (.auth op) r, w, w⟩ :: past) = guesses D key past →
      Safe D key (⟨i, q, .call (.auth op) r, w, w⟩ :: past) w := by
    intro hno hstand hguess
    cases r with
    | error err => exact h.finished (standing_error (.auth op)) (hno key) hguess
    | ok a => exact h.same (hstand a rfl) hguess rfl
  cases op with
  | call c => cases c with
    | compare password hash => exact safe_compare hown hknown h
    | _ => exact hother (hknown hown) (fun a ha => by subst ha; rfl) (by cases r <;> rfl)
  | _ => exact hother (hknown hown) (fun a ha => by subst ha; rfl) (by cases r <;> rfl)

/-- A key that expires ends its counter. -/
theorem safe_lapse {i : Nat} {q : Request} {other : String} {r : Except Err Unit} {w : World}
    (hr : r = .ok ()) (h : Safe D key past w) :
    Safe D key (⟨i, q, .call (.lapse other) r, w, w.lapse other⟩ :: past) (w.lapse other) := by
  subst hr
  have hguess : guesses D key (⟨i, q, .call (.lapse other) (.ok ()), w, w.lapse other⟩ :: past) =
      if other = key ∧ (w key).isSome ∧ w.lapse other key = none then 0
      else guesses D key past := rfl
  by_cases hkey : other = key
  · subst hkey
    by_cases hends : (w other).isSome ∧ w.lapse other other = none
    · rw [if_pos ⟨rfl, hends⟩] at hguess
      exact h.ended rfl hguess (by rw [Counters.count, hends.2]; rfl)
    · rw [if_neg fun hc => hends hc.2] at hguess
      refine h.same rfl hguess (Counters.count_congr ?_)
      have hcases : (w.Lasting other ∧ w.lapse other = w) ∨ w.lapse other other = none :=
        Counters.lapse_cases
      rcases hcases with ⟨-, hsame⟩ | hnone
      · rw [hsame]
      · have hw : w other = none := by
          cases hw : w other with
          | none => rfl
          | some counter => exact absurd ⟨by rw [hw]; rfl, hnone⟩ hends
        rw [hnone, hw]
  · rw [if_neg fun hc => hkey hc.1] at hguess
    exact h.same rfl hguess (Counters.count_congr (Counters.lapse_of_ne (Ne.symm hkey)))

/-- A command of Redis that is answered. -/
theorem safe_redis {i : Nat} {q : Request} {command : Command String} {w : World}
    (hown : Available (own i past)) (hknown : Known D i q (.redis command) ⟨w, past⟩)
    (hfit : lets key ⟨i, q, .call (.redis command) (.ok (w.apply command).1), w,
      (w.apply command).2⟩ → w.count key + (underWay key past).card < threshold)
    (h : Safe D key past w) :
    Safe D key (⟨i, q, .call (.redis command) (.ok (w.apply command).1), w,
      (w.apply command).2⟩ :: past) (w.apply command).2 := by
  cases command with
  | get other =>
    have hold : standing (own i past) = none := hknown hown
    by_cases hpasses : ((w other).map Counter.count).getD 0 < threshold
    · exact h.let_through hold (if_pos hpasses) rfl fun heq => hfit (decide_eq_true ⟨heq, hpasses⟩)
    · refine h.finished (if_neg hpasses) ?_ rfl
      rw [show standing (own i past) = none from hold]
      exact (Option.some_ne_none _).symm
  | incr other =>
    obtain ⟨failed, hold⟩ := hknown hown
    refine h.counted hold rfl rfl ?_
    by_cases hkey : other = key
    · subst hkey
      rw [if_pos rfl, Counters.count_incr]
    · rw [if_neg hkey]
      exact Counters.count_congr (Counters.apply_of_ne (Ne.symm hkey))
  | expire other seconds =>
    refine h.same rfl rfl ?_
    by_cases hkey : other = key
    · subst hkey
      exact Counters.count_expire
    · exact Counters.count_congr (Counters.apply_of_ne (Ne.symm hkey))
  | del other =>
    by_cases hkey : other = key
    · subst hkey
      exact h.ended rfl (if_pos rfl) (by rw [Counters.count, Counters.apply_del]; rfl)
    · exact h.same rfl (if_neg hkey)
        (Counters.count_congr (Counters.apply_of_ne (Ne.symm hkey)))

/-- **One step** of a run in which Redis works and each login that is let through fits. -/
theorem safe_cons (hobeys : Obeys (lockoutMachine D) (Known D) e past) (hworks : Works e)
    (havail : Available past)
    (hfit : lets key e → e.before.count key + (underWay key past).card < threshold)
    (h : Safe D key past e.before) : Safe D key (e :: past) e.after := by
  obtain ⟨i, q, act, before, after⟩ := e
  have hown : Available (own i past) := fun e he => havail e (mem_of_mem_own he).1
  cases act with
  | crash => exact hworks.1.elim
  | call op r =>
    obtain ⟨hknown, inp, he⟩ := hobeys
    cases op with
    | isOpen =>
      cases he
      exact h.same rfl rfl rfl
    | lapse other =>
      have he' : some (Except.ok (), before.lapse other) = some (r, after) := he
      obtain ⟨rfl, rfl⟩ := Prod.mk.inj (Option.some.inj he')
      exact safe_lapse rfl h
    | auth op =>
      cases he
      exact safe_auth hown hknown h
    | redis command =>
      cases houtcome : inp.outcome with
      | ok =>
        obtain ⟨rfl, rfl⟩ : .ok _ = r ∧ _ = after := by
          simpa [lockoutMachine, exec, houtcome] using he
        exact safe_redis hown hknown hfit h
      | lost =>
        obtain ⟨rfl, rfl⟩ : .error Err.repository = r ∧ _ = after := by
          simpa [lockoutMachine, exec, houtcome] using he
        exact hworks.1.elim
      | failed =>
        obtain ⟨rfl, rfl⟩ : .error Err.repository = r ∧ before = after := by
          simpa [lockoutMachine, exec, houtcome] using he
        exact hworks.1.elim

/-! ### The programs -/

section Programs

variable {q : Request} {s t : State Op Op.Answer Err World Request} {α : Type}

variable (D) in
/-- What is known of a run is its history, in which each login does first what it has to. -/
abbrev logins : Contract (lockoutMachine D) := Contract.guarded (lockoutMachine D) Fresh (Known D)

/-- Where a thread stands, as long as Redis works for it. -/
def Stands (i : Nat) (stand : Option (String × Bool))
    (s : State Op Op.Answer Err World Request) : Prop :=
  Available (own i s.hist) → standing (own i s.hist) = stand

theorem stable_stands (stand : Option (String × Bool)) : (logins D).Stable i (Stands i stand) :=
  Contract.stable_own fun own => Available own → standing own = stand

/-- One call: where its thread stands then. -/
theorem Stands.push {stand stand' : Option (String × Bool)} (h : Stands i stand t) {op : Op}
    {r : Except Err op.Answer} {w : World}
    (hstand : Works ⟨i, q, .call op r, t.world, w⟩ → standing (own i t.hist) = stand →
      standing (⟨i, q, .call op r, t.world, w⟩ :: own i t.hist) = stand') :
    Stands i stand' (t.push i q (.call op r) w) := by
  intro havail
  rw [own_push] at havail ⊢
  exact hstand (havail _ List.mem_cons_self) (h fun e he => havail e (List.mem_cons_of_mem _ he))

/-- A call to Redis: where it fails, Redis does not work. -/
theorem wp_stands {op : Op} {stand : Option (String × Bool)}
    (stand' : op.Answer → Option (String × Bool)) (hs : Stands i stand s)
    (hpre : ∀ t, Stands i stand t → Known D i q op t)
    (hok : ∀ a w w' past, Works ⟨i, q, .call op (.ok a), w, w'⟩ → standing past = stand →
      standing (⟨i, q, .call op (.ok a), w, w'⟩ :: past) = stand' a)
    (herr : ∀ err w w', ¬ Works ⟨i, q, .call op (.error err), w, w'⟩) :
    (logins D).wp i q (Prog.await op) (fun a t => Stands i (stand' a) t)
      (fun _ t => ∀ stand, Stands i stand t) s :=
  Contract.wp_await (stable_stands stand) hs (fun t _ ht => hpre t ht)
    (fun t _ a w _ ht _ => ht.push fun hworks hstand => hok a t.world w _ hworks hstand)
    fun t _ err w _ ht _ _ => ht.push fun hworks _ => absurd hworks (herr err t.world w)

/-- A call to the database or the hasher. -/
theorem wp_stands_auth {op : Auth.Op} {stand : Option (String × Bool)}
    (stand' : op.Answer → Option (String × Bool)) (hs : Stands i stand s)
    (hpre : ∀ t, Stands i stand t → Known D i q (.auth op) t)
    (hok : ∀ a w w' past, standing past = stand →
      standing (⟨i, q, .call (.auth op) (.ok a), w, w'⟩ :: past) = stand' a) :
    (logins D).wp i q (Prog.await (Op.auth op)) (fun a t => Stands i (stand' a) t)
      (fun _ _ => True) s :=
  Contract.wp_await (stable_stands stand) hs (fun t _ ht => hpre t ht)
    (fun t _ a w _ ht _ => ht.push fun _ hstand => hok a t.world w _ hstand)
    fun _ _ _ _ _ _ _ => trivial

/-- What a login still does that is not under way. -/
def Harmless : Op → Prop
  | .isOpen => True
  | .redis (.expire _ _) => True
  | .redis (.del _) => True
  | .auth (.call (.compare _ _)) => False
  | .auth _ => True
  | _ => False

theorem known_of_harmless {op : Op} (hop : Harmless op) (h : Stands i none t) : Known D i q op t := by
  intro havail
  have hno : ∀ key, standing (own i t.hist) ≠ some (key, true) := fun key => by
    rw [h havail]
    exact (Option.some_ne_none _).symm
  cases op with
  | auth op => cases op with
    | call c => cases c with
      | compare password hash => exact hop.elim
      | _ => exact hno
    | _ => exact hno
  | redis command => cases command with
    | get key => exact hop.elim
    | incr key => exact hop.elim
    | _ => trivial
  | _ => trivial

theorem standing_of_harmless {op : Op} (hop : Harmless op) {r : Except Err op.Answer} {w w' : World}
    {past : List LockoutEvent} (h : standing past = none) :
    standing (⟨i, q, .call op r, w, w'⟩ :: past) = none := by
  cases r with
  | error err => exact standing_error op
  | ok a => cases op with
    | auth op => cases op with
      | call c => cases c with
        | compare password hash => exact hop.elim
        | _ => exact h
      | _ => exact h
    | redis command => cases command with
      | get key => exact hop.elim
      | incr key => exact hop.elim
      | _ => exact h
    | _ => exact h

theorem wp_harmless {p : Async α} (hp : p.Calls Harmless) (hs : Stands i none s) :
    (logins D).wp i q p (fun _ _ => True) (fun _ _ => True) s :=
  Contract.wp_mono (fun _ _ _ => trivial) (fun _ _ _ => trivial)
    (Contract.wp_of_calls (stable_stands none) (fun _ _ hop _ ht => known_of_harmless hop ht)
      (fun _ _ _ _ _ hop _ ht _ => ht.push fun _ hstand => standing_of_harmless hop hstand) hp hs)

/-- Once Redis has not worked for a thread, nothing is asked of it. -/
theorem wp_unavailable {p : Async α} (hs : ¬ Available (own i s.hist)) :
    (logins D).wp i q p (fun _ _ => True) (fun _ _ => True) s := by
  have hcalls : ∀ {p : Async α}, p.Calls fun _ => True := by
    intro p
    induction p with
    | done a => trivial
    | fail e => trivial
    | call op k ih => exact ⟨trivial, ih⟩
  refine Contract.wp_mono (fun _ _ _ => trivial) (fun _ _ _ => trivial)
    (Contract.wp_of_calls (Contract.stable_own fun own => ¬ Available own)
      (fun _ _ _ _ ht havail => absurd havail ht) (fun _ t _ _ _ _ _ ht _ havail => ?_) hcalls hs)
  rw [own_push] at havail
  exact ht fun e he => havail e (List.mem_cons_of_mem _ he)

/-- The check: a login that it lets through is under way. -/
theorem wp_checkLockout (email : String) (hs : Stands i none s) :
    (logins D).wp i q (checkLockout D email)
      (fun _ t => Stands i (some (keyFor D email, false)) t) (fun _ _ => True) s := by
  refine Contract.wp_bind.mpr (Contract.wp_handle.mpr ?_)
  refine Contract.wp_bind.mpr (Contract.wp_mono (fun isOpen t ht => ?_) (fun err t ht => ?_)
    (wp_stands (fun isOpen => if isOpen then none else some (keyFor D email, false)) hs
      (fun t _ _ => trivial) (fun isOpen w w' past hworks hstand => ?_) fun err w w' hworks => ?_))
  · cases isOpen with
    | false => exact ht
    | true =>
      refine Contract.wp_bind.mpr (Contract.wp_mono (fun raw t ht => ?_) (fun err t ht => ?_)
        (wp_stands (fun raw : Option Nat =>
            if raw.getD 0 < threshold then some (keyFor D email, false) else none) ht
          (fun t ht havail => ht havail) (fun raw w w' past _ _ => rfl) fun err w w' h => h.1))
      · change (logins D).wp i q (if threshold ≤ raw.getD 0 then _ else _) _ _ t
        split
        · trivial
        · rename_i hlt
          rw [if_pos (Nat.lt_of_not_le hlt)] at ht
          exact ht
      · exact ht _
  · exact ht _
  · cases isOpen with
    | false => cases hworks.1
    | true => exact hstand
  · cases hworks.1

/-- The count of a login that is under way. -/
theorem wp_recordFailedAttempt (email : String) {failed : Bool}
    (hs : Stands i (some (keyFor D email, failed)) s) :
    (logins D).wp i q (recordFailedAttempt D email) (fun _ _ => True) (fun _ _ => True) s := by
  refine Contract.wp_handle.mpr ?_
  refine Contract.wp_bind.mpr (Contract.wp_mono (fun isOpen t ht => ?_) (fun _ _ _ => trivial)
    (wp_stands (fun isOpen => some (keyFor D email, failed)) hs
      (fun t _ _ => trivial) (fun isOpen w w' past _ hstand => hstand) fun err w w' hworks => ?_))
  · cases isOpen with
    | false => trivial
    | true =>
      refine Contract.wp_bind.mpr (Contract.wp_mono (fun count t ht => ?_) (fun _ _ _ => trivial)
        (wp_stands (fun _ => none) ht (fun t ht havail => ⟨failed, ht havail⟩)
          (fun count w w' past _ _ => rfl) fun err w w' h => h.1))
      change (logins D).wp i q (if count = 1 then _ else _) _ _ t
      split
      · exact wp_harmless (Prog.Calls.bind (Prog.Calls.await trivial) fun _ => trivial) ht
      · trivial
  · cases hworks.1

/-- What `LoginUser` awaits once the password is right. -/
def AfterCompare : Auth.Op → Prop
  | .call (.compare _ _) => False
  | .call (.recordFailure _) => False
  | _ => True

theorem harmless_loginAttempts {op : Auth.Op} (h : AfterCompare op) :
    (loginAttempts D op).Calls Harmless := by
  cases op with
  | call c => cases c with
    | compare password hash => exact h.elim
    | recordFailure email => exact h.elim
    | resetFailures email =>
      refine Prog.Calls.handle (Prog.Calls.bind (Prog.Calls.await trivial) fun isOpen => ?_)
        fun _ => trivial
      cases isOpen
      · trivial
      · exact Prog.Calls.bind (Prog.Calls.await trivial) fun _ => trivial
    | _ => exact Prog.Calls.await trivial
  | _ => exact Prog.Calls.await trivial

theorem afterCompare_issueRefreshToken (D : Deps) (input : IssueRefreshTokenInput) (tx : Bool) :
    (issueRefreshToken D input tx).Calls AfterCompare := by
  refine .bind (.await trivial) fun raw => .bind ?_ fun token => .bind (.await trivial) fun _ => trivial
  refine .bind (.await trivial) fun now => .bind (.await trivial) fun id => ?_
  cases input.familyId with
  | none => exact .bind (.await trivial) fun _ => trivial
  | some familyId => trivial

/-- A login that is refused is counted. -/
theorem wp_refuseLogin (email : String) {failed : Bool}
    (hs : Stands i (some (keyFor D email, failed)) s) :
    (logins D).wp i q ((refuseLogin email).lower (loginAttempts D)) (fun _ _ => True)
      (fun _ _ => True) s := by
  have hlower : (refuseLogin email).lower (loginAttempts D) =
      (recordFailedAttempt D email).bind fun _ =>
        .fail (unauthorizedError "Invalid email or password") := by
    refine (Prog.lower_bind _ _ _).trans ?_
    exact congrArg (fun p : Async Unit => p.bind _) (Prog.lower_await _ _)
  rw [hlower]
  exact Contract.wp_bind.mpr (Contract.wp_mono (fun _ _ _ => trivial) (fun _ _ _ => trivial)
    (wp_recordFailedAttempt email hs))

/-- What the use case does for a login that has passed its check. -/
theorem wp_loginUser (input : LoginInput)
    (hs : Stands i (some (keyFor D input.email, false)) s) :
    (logins D).wp i (.login input) ((loginUser D.auth input).lower (loginAttempts D))
      (fun _ _ => True) (fun _ _ => True) s := by
  have hknown : ∀ {op : Auth.Op} {t : State Op Op.Answer Err World Request},
      (∀ password hash, op ≠ .call (.compare password hash)) →
      Stands i (some (keyFor D input.email, false)) t → Known D i (.login input) (.auth op) t := by
    intro op t hop ht havail
    have hno : ∀ key, standing (own i t.hist) ≠ some (key, true) := by
      intro key heq
      cases (Prod.mk.inj (Option.some.inj ((ht havail).symm.trans heq))).2
    cases op with
    | call c => cases c with
      | compare password hash => exact absurd rfl (hop password hash)
      | _ => exact hno
    | _ => exact hno
  rw [show (loginUser D.auth input).lower (loginAttempts D) =
    (Prog.await (Op.auth (.call (.read false (.findUserByEmail
      (D.auth.toLowerCase (D.auth.trim input.email))))))).bind _ from Prog.lower_await_bind _ _ _]
  refine Contract.wp_bind.mpr (Contract.wp_mono (fun user t ht => ?_) (fun _ _ _ => trivial)
    (wp_stands_auth (fun _ => some (keyFor D input.email, false)) hs
      (fun t ht => hknown (fun _ _ h => by cases h) ht) fun _ _ _ _ hstand => hstand))
  cases user with
  | none => exact wp_refuseLogin input.email ht
  | some user =>
    dsimp only
    rw [show Prog.lower (loginAttempts D) _ =
      (Prog.await (Op.auth (.call (.compare input.password user.passwordHash)))).bind _ from
        Prog.lower_await_bind _ _ _]
    refine Contract.wp_bind.mpr (Contract.wp_mono (fun valid t ht => ?_) (fun _ _ _ => trivial)
      (wp_stands_auth (fun valid : Bool => if valid then none else some (keyFor D input.email, true))
        ht (fun t ht havail => ⟨_, rfl, ht havail⟩) fun valid w w' past hstand => ?_))
    · cases valid with
      | false => exact wp_refuseLogin input.email ht
      | true =>
        refine wp_harmless (Prog.Calls.lower (.bind (.await trivial) fun membership => ?_)
          fun _ => harmless_loginAttempts) ht
        cases membership with
        | none => trivial
        | some membership =>
          exact .bind (.await trivial) fun _ => .bind (afterCompare_issueRefreshToken _ _ _)
            fun _ => .bind (.await trivial) fun _ => trivial
    · cases valid with
      | true => rfl
      | false => exact congrArg (Option.map _) hstand

/-- A request that is no login asks first whether Redis is there. -/
theorem wp_other {k : Except Err Bool → Async α} (hq : ¬ Admitted q) :
    (logins D).wp i q (.call .isOpen k) (fun _ _ => True) (fun _ _ => True) s := by
  refine fun t _ _ => ⟨fun _ => trivial, fun _ r w _ => wp_unavailable fun havail => ?_⟩
  rw [own_push] at havail
  exact hq (havail _ List.mem_cons_self).2

/-- **Each login does what it has to.** -/
theorem wp_handle (q : Request) (hs : own i s.hist = []) :
    (logins D).wp i q (handle D q) (fun _ _ => True) (fun _ _ => True) s := by
  have hstands : Stands i none s := fun _ => by rw [hs]; rfl
  cases q with
  | login input =>
    exact Contract.wp_bind.mpr (Contract.wp_seq (wp_checkLockout input.email hstands)
      (fun _ _ h => h) fun _ _ ht => wp_loginUser input ht)
  | clock key => exact fun t _ _ => ⟨fun _ => trivial, fun _ r _ _ => by cases r <;> trivial⟩
  | checkLockout email => exact wp_other fun h => h
  | recordFailedAttempt email => exact wp_other fun h => h
  | resetLockout email => exact wp_other fun h => h

end Programs

/-! ### Runs -/

variable {c : LockoutConfig}

/-- What holds along a run in which Redis works and each login that is let through fits. -/
theorem safe_of_reachable (h : (lockoutMachine D).Reachable Fresh c) (key : String)
    (havail : Available c.state.hist) (hfits : Fits key c.state.hist) :
    Safe D key c.state.hist c.state.world := by
  obtain ⟨w₀, h₀, hw, hlegal⟩ := Contract.legal_of_reachable (fun _ q _ hs => wp_handle q hs) h
  rw [hw]
  refine hlegal.invariant
    (P := fun hist w => Available hist → Fits key hist → Safe D key hist w) ?_ ?_ havail hfits
  · intro _ _
    rw [h₀]
    exact ⟨Nat.zero_le _, Nat.zero_le _⟩
  · intro e past hl ih havail hfits
    have hpast : Available past := fun e he => havail e (List.mem_cons_of_mem _ he)
    exact safe_cons hl.2.1 (havail e List.mem_cons_self) hpast hfits.1 (ih hpast hfits.2)

/-- **In a run in which Redis works, no more passwords than the threshold are guessed** before the
counter of an address ends, where each login that is let through fits. -/
theorem lockout_bounds_guesses (D : LockoutDeps) {c : LockoutConfig} (email : String)
    (h : (lockoutMachine D).Reachable Fresh c) (havail : Available c.state.hist)
    (hfits : Fits (keyFor D email) c.state.hist) :
    guesses D (keyFor D email) c.state.hist ≤ threshold :=
  (safe_of_reachable h _ havail hfits).guesses_le

/-! ### Two runs -/

/-- Every password is wrong. -/
def wrong : Input where
  isOpen := true
  outcome := .ok
  answer
    | .call (.read false (.findUserByEmail email)) =>
      .ok (some ⟨.seed 0, email, "u", ⟨"p", .seed 1⟩, true, none⟩)
    | .call (.compare _ _) => .ok false
    | _ => .error .repository

/-- So many calls of a thread, each answered. -/
def guess (i calls : Nat) : List (Label Input Request) := List.replicate calls (.step i wrong)

def wrongLogin : Label Input Request := .spawn (.login ⟨"a", "x", ⟨none, none⟩⟩)

/-- Where a schedule leads from no counters. -/
def guessed (ls : List (Label Input Request)) : Option LockoutConfig :=
  (lockoutMachine sampleLockout).run (Machine.boot fun _ => none) ls

/-- Logins one after another: five are compared, and the sixth is refused. -/
def inTurn : List (Label Input Request) :=
  wrongLogin :: guess 0 7 ++ (List.range 4).flatMap (fun i => wrongLogin :: guess (i + 1) 6) ++
    wrongLogin :: guess 5 2

/-- Five passwords are guessed. -/
theorem lockout_bounds_guesses_in_turn : ∃ c : LockoutConfig,
    (lockoutMachine sampleLockout).Reachable Fresh c ∧ Available c.state.hist ∧
      Fits (keyFor sampleLockout "a") c.state.hist ∧
      guesses sampleLockout (keyFor sampleLockout "a") c.state.hist = 5 ∧
      guesses sampleLockout (keyFor sampleLockout "a") c.state.hist ≤ threshold := by
  obtain ⟨c, hrun, h⟩ := (Option.any_eq_true _ _).mp
    (show ((guessed inTurn).any fun c => Available c.state.hist ∧
      Fits (keyFor sampleLockout "a") c.state.hist ∧
      guesses sampleLockout (keyFor sampleLockout "a") c.state.hist = 5) = true by decide +kernel)
  obtain ⟨havail, hfits, hfive⟩ := of_decide_eq_true h
  have hreach := Machine.reachable_of_run fresh_none hrun
  exact ⟨c, hreach, havail, hfits, hfive, lockout_bounds_guesses sampleLockout "a" hreach havail hfits⟩

/-- Seven logins that have all passed their check, of which the first is counted. -/
def together : List (Label Input Request) :=
  List.replicate 7 wrongLogin ++ (List.range 7).flatMap (fun i => guess i 2) ++ guess 0 5

/-- The passwords of the other six are compared then. -/
def afterwards : List (Label Input Request) := (List.range 6).flatMap fun i => guess (i + 1) 2

/-- From the first failure that is counted, six passwords are guessed before the counter ends. -/
theorem guesses_overrun : ∃ c c' : LockoutConfig,
    (lockoutMachine sampleLockout).Reachable Fresh c ∧
      c.state.world.count (keyFor sampleLockout "a") = 1 ∧
      (lockoutMachine sampleLockout).run c afterwards = some c' ∧ Available c'.state.hist ∧
      guesses sampleLockout (keyFor sampleLockout "a") c.state.hist + threshold <
        guesses sampleLockout (keyFor sampleLockout "a") c'.state.hist := by
  obtain ⟨c, hrun, h⟩ := (Option.any_eq_true _ _).mp
    (show ((guessed together).any fun c => c.state.world.count (keyFor sampleLockout "a") = 1 ∧
      ((lockoutMachine sampleLockout).run c afterwards).any fun c' => Available c'.state.hist ∧
        guesses sampleLockout (keyFor sampleLockout "a") c.state.hist + threshold <
          guesses sampleLockout (keyFor sampleLockout "a") c'.state.hist) = true by decide +kernel)
  obtain ⟨hcount, hafter⟩ := of_decide_eq_true h
  obtain ⟨c', hrun', h'⟩ := (Option.any_eq_true _ _).mp hafter
  obtain ⟨havail, hguesses⟩ := of_decide_eq_true h'
  exact ⟨c, c', Machine.reachable_of_run fresh_none hrun, hcount, hrun', havail, hguesses⟩

end LakiraBackend.Auth.Lockout
