import LakiraBackend.JavaScript.Whole

/-!
# When a failed message is retried, and how long it waits

`readRetryCount` reads the count a message carries, `decideOnFailure` parks the
message or sends it round again with the next count, after a delay that doubles up
to a cap, and `retryDelaysMs` lists the delays there are.
-/

namespace LakiraBackend.Queue

open LakiraBackend.JavaScript

/-- What a consumer is built with. -/
structure Settings : Type where
  /-- `APP_SHORT_NAME`, which the queues are named after. -/
  appShortName : String
  /-- `RABBITMQ_MAX_RETRIES`. -/
  maxRetries : Whole
  /-- `RABBITMQ_RETRY_BASE_DELAY_MS`. -/
  retryBaseDelayMs : Whole
  /-- `JSON.stringify(JSON.parse(content))`; `none` where the content is no JSON. -/
  reserialize : String → Option String

/-- What the environment's schema admits: `parseInt` of any text, if it is positive. -/
def Settings.Admitted (S : Settings) : Prop := S.retryBaseDelayMs ≠ .nat 0

/-! ### Headers -/

/-- The value of a header. -/
inductive HeaderValue : Type
  /-- `undefined` and `null`. -/
  | absent
  | number (n : Whole)
  /-- Any other value, with what `String(value)` gives; `none` where that throws. -/
  | other (text : Option String)
  deriving DecidableEq, Repr

/-- `String(value ?? "0")`. -/
def HeaderValue.text : HeaderValue → Option (List Char)
  | absent => some ['0']
  | number n => some n.text
  | other text => text.map String.toList

abbrev Headers : Type := List (String × HeaderValue)

def Headers.get (headers : Headers) (name : String) : HeaderValue :=
  (headers.lookup name).getD .absent

/-- `{ ...headers, [name]: value }`. -/
def Headers.set (headers : Headers) (name : String) (value : HeaderValue) : Headers :=
  (name, value) :: headers.filter fun h => h.1 ≠ name

theorem Headers.get_set (headers : Headers) (name : String) (value : HeaderValue) :
    (headers.set name value).get name = value := by
  simp [get, set]

/-! ### The policy -/

def RETRY_COUNT_HEADER : String := "x-retry-count"

def MAX_RETRY_DELAY_MS : Nat := 300000

def retryDelayMs (retryCount baseDelayMs : Whole) : Nat :=
  (baseDelayMs.mul retryCount.twoPow).min MAX_RETRY_DELAY_MS

/-- The longest array there is. -/
def MAX_ARRAY_LENGTH : Nat := 2 ^ 32 - 1

/-- Each delay once; `none` where the array would be too long. -/
def retryDelaysMs (maxRetries baseDelayMs : Whole) : Option (List Nat) :=
  match maxRetries with
  | .nat n =>
    if n ≤ MAX_ARRAY_LENGTH then
      some ((List.range n).map fun retryCount => retryDelayMs (.nat retryCount) baseDelayMs).eraseDups
    else none
  | .infinity => none

inductive ParkReason : Type
  | terminal
  | exhausted
  deriving DecidableEq, Repr

inductive FailureDecision : Type
  | park (reason : ParkReason)
  | retry (nextRetryCount : Whole) (delayMs : Nat)
  deriving DecidableEq, Repr

/-- The count of a message's header; `none` where `String` throws. -/
def readRetryCount (headers : Headers) : Option Whole :=
  (headers.get RETRY_COUNT_HEADER).text.map fun text =>
    match parseInt text with
    | some (false, n) => n
    | _ => .nat 0

/-- What a handler, a channel or a publisher throws. -/
inductive QueueError : Type
  /-- `TerminalMessageError`. -/
  | terminal
  | other
  /-- A settlement, or a declaration, on a channel that is closed. -/
  | illegalOperation
  /-- The publisher's promise was rejected. -/
  | publish
  /-- `UnroutableMessageError`. -/
  | unroutable
  /-- `JSON.parse` threw. -/
  | syntaxError
  /-- `String` threw. -/
  | type
  /-- The process died. -/
  | crashed
  deriving DecidableEq, Repr

def decideOnFailure (S : Settings) (error : QueueError) (retryCount : Whole) : FailureDecision :=
  if error = .terminal then .park .terminal
  else if S.maxRetries.le retryCount then .park .exhausted
  else .retry (retryCount.add (.nat 1)) (retryDelayMs retryCount S.retryBaseDelayMs)

/-! ### Delays -/

variable {S : Settings} {base : Whole} {n m : Nat} {error : QueueError} {count next : Whole}
  {delayMs : Nat}

/-- **The delay doubles from the base, up to the cap.** -/
theorem retryDelayMs_eq {b : Nat} (hb : 0 < b) :
    retryDelayMs (.nat n) (.nat b) = Nat.min (b * 2 ^ n) MAX_RETRY_DELAY_MS := by
  have hcap : MAX_RETRY_DELAY_MS ≤ 2 ^ 53 := by decide
  rw [retryDelayMs, Whole.twoPow]
  split
  · exact Whole.min_ofNat hcap
  · rename_i hn
    have hle : MAX_RETRY_DELAY_MS ≤ b * 2 ^ n :=
      calc MAX_RETRY_DELAY_MS ≤ 2 ^ 53 := hcap
        _ ≤ 2 ^ n := Nat.pow_le_pow_right (by decide) (by omega)
        _ ≤ b * 2 ^ n := Nat.le_mul_of_pos_left _ hb
    exact (Nat.min_eq_right hle).symm

theorem retryDelayMs_infinity : retryDelayMs count .infinity = MAX_RETRY_DELAY_MS := by
  rw [retryDelayMs]
  cases count.twoPow <;> rfl

/-- A delay is capped. -/
theorem retryDelayMs_le : retryDelayMs count base ≤ MAX_RETRY_DELAY_MS := by
  rw [retryDelayMs]
  cases base.mul count.twoPow with
  | nat k => exact Nat.min_le_right _ _
  | infinity => exact Nat.le_refl _

/-- A later retry waits as long, or longer. -/
theorem retryDelayMs_mono (hbase : base ≠ .nat 0) (h : n ≤ m) :
    retryDelayMs (.nat n) base ≤ retryDelayMs (.nat m) base := by
  cases base with
  | infinity => rw [retryDelayMs_infinity, retryDelayMs_infinity]
  | nat b =>
    have hb : 0 < b := Nat.pos_of_ne_zero fun hb => hbase (congrArg _ hb)
    rw [retryDelayMs_eq hb, retryDelayMs_eq hb]
    have hpow : b * 2 ^ n ≤ b * 2 ^ m :=
      Nat.mul_le_mul_left b (Nat.pow_le_pow_right (by decide) h)
    exact Nat.le_min.mpr ⟨(Nat.min_le_left _ _).trans hpow, Nat.min_le_right _ _⟩

/-- What is left of a list in order when each element is kept once. -/
theorem pairwise_lt_eraseDups {l : List Nat} (h : l.Pairwise (· ≤ ·)) :
    l.eraseDups.Pairwise (· < ·) := by
  generalize hlen : l.length = k
  induction k using Nat.strongRecOn generalizing l with
  | ind k ih =>
    cases l with
    | nil => exact .nil
    | cons a as =>
      obtain ⟨ha, has⟩ := List.pairwise_cons.mp h
      rw [List.eraseDups_cons]
      refine List.pairwise_cons.mpr ⟨fun b hb => ?_, ?_⟩
      · obtain ⟨hmem, hne⟩ := List.mem_filter.mp (List.mem_eraseDups.mp hb)
        have hle := ha b hmem
        have hneq : b ≠ a := by simpa using hne
        omega
      · refine ih _ ?_ (has.filter _) rfl
        have := List.length_filter_le (fun b => !b == a) as
        simp only [List.length_cons] at hlen
        omega

/-! ### What is decided -/

/-- **A retry** is of a message that has retries left, with the next count and the delay of
its count. -/
theorem retry_cases (h : decideOnFailure S error count = .retry next delayMs) :
    S.maxRetries.le count = false ∧ next = count.add (.nat 1) ∧
      delayMs = retryDelayMs count S.retryBaseDelayMs := by
  unfold decideOnFailure at h
  split at h
  · cases h
  · split at h
    · cases h
    · rename_i hle
      obtain ⟨rfl, rfl⟩ := FailureDecision.retry.inj h
      exact ⟨by simpa using hle, rfl, rfl⟩

/-- The count of a retry is a number below the bound, and the next is one more. -/
theorem retry_count (hmax : S.maxRetries = .nat n) (hn : n ≤ 2 ^ 53)
    (h : decideOnFailure S error count = .retry next delayMs) :
    ∃ k, count = .nat k ∧ k < n ∧ next = .nat (k + 1) ∧
      delayMs = retryDelayMs (.nat k) S.retryBaseDelayMs := by
  obtain ⟨hle, rfl, rfl⟩ := retry_cases h
  rw [hmax] at hle
  cases count with
  | infinity => cases hle
  | nat k =>
    have hk : k < n := by simpa [Whole.le] using hle
    exact ⟨k, rfl, hk, Whole.ofNat_of_le (by omega), rfl⟩

/-- **A count that is written is read back**: the next consumer reads one more. -/
theorem readRetryCount_set {headers : Headers} (hn : n ≤ 2 ^ 53) :
    readRetryCount (headers.set RETRY_COUNT_HEADER (.number (.nat n))) = some (.nat n) := by
  have hlt : n < 10 ^ 21 := Nat.lt_of_le_of_lt hn (by decide)
  rw [readRetryCount, Headers.get_set, HeaderValue.text, Option.map_some, parseInt_text hlt,
    Whole.ofNat_of_le hn]

/-- **The delays there are** are those that can be chosen, each once, in order, and capped. -/
theorem retryDelaysMs_eq (hmax : S.maxRetries = .nat n) (hn : n ≤ MAX_ARRAY_LENGTH)
    (hbase : S.Admitted) :
    ∃ delays, retryDelaysMs S.maxRetries S.retryBaseDelayMs = some delays ∧
      delays.Pairwise (· < ·) ∧ (∀ d ∈ delays, d ≤ MAX_RETRY_DELAY_MS) ∧
      ∀ d, d ∈ delays ↔ ∃ error count next, decideOnFailure S error count = .retry next d := by
  have hmem : ∀ d, d ∈ ((List.range n).map fun k =>
      retryDelayMs (.nat k) S.retryBaseDelayMs).eraseDups ↔
      ∃ k < n, retryDelayMs (.nat k) S.retryBaseDelayMs = d := by
    intro d
    simp
  refine ⟨_, by rw [hmax, retryDelaysMs, if_pos hn], pairwise_lt_eraseDups ?_, fun d hd => ?_,
    fun d => ?_⟩
  · refine List.pairwise_map.mpr (List.pairwise_lt_range.imp fun hlt => ?_)
    exact retryDelayMs_mono hbase (Nat.le_of_lt hlt)
  · obtain ⟨k, _, rfl⟩ := (hmem d).mp hd
    exact retryDelayMs_le
  · rw [hmem d]
    constructor
    · rintro ⟨k, hk, rfl⟩
      refine ⟨.other, .nat k, (Whole.nat k).add (.nat 1), ?_⟩
      have hle : S.maxRetries.le (.nat k) = false := by
        rw [hmax]
        simpa [Whole.le] using hk
      rw [decideOnFailure, if_neg (by decide), hle]
      rfl
    · rintro ⟨error, count, next, h⟩
      have hn' : n ≤ 2 ^ 53 := Nat.le_trans hn (by decide)
      obtain ⟨k, _, hk, _, hd⟩ := retry_count hmax hn' h
      exact ⟨k, hk, hd.symm⟩

end LakiraBackend.Queue
