import LakiraBackend.Queue.Topology

/-!
# Whose a queue is

The name of a queue is read word by word: the app's short name, which has no dot, and what the queue
is for (`queueText_inj`).  So a name that two apps have is of one queue, declared by both in one way
(`queue_eq_of_name`), and an exchange of one app has none of the bindings of another
(`bound_of_bindings`).
-/

namespace LakiraBackend.Queue

/-- What a queue of an app is for. -/
inductive QueueKind : Type
  | work (job : Job)
  | retry (job : Job) (delayMs : Nat)
  | parking
  deriving DecidableEq, Repr

def QueueKind.text (S : Settings) : QueueKind → String
  | work job => QUEUES S job
  | retry job delayMs => retryQueueFor (QUEUES S job) delayMs
  | parking => QUEUES_PARKING S

/-- The words after the app's. -/
def Job.words : Job → List (List Char)
  | .metricLogGenerateDummy => ["metric-log".toList, "generate-dummy".toList]
  | .authSendVerificationEmail => ["auth".toList, "send-verification-email".toList]
  | .authSendPasswordResetEmail => ["auth".toList, "send-password-reset-email".toList]
  | .authSendInviteEmail => ["auth".toList, "send-invite-email".toList]

def QueueKind.words : QueueKind → List (List Char)
  | work job => job.words
  | retry job delayMs => job.words ++ ["retry".toList, Nat.toDigits 10 delayMs]
  | parking => ["jobs".toList, "parking".toList, "queue".toList]

theorem Job.words_injective : Function.Injective Job.words := by
  intro job job' h
  cases job <;> cases job' <;> first | rfl | exact absurd h (by decide)

theorem Job.length_words (job : Job) : job.words.length = 2 := by cases job <;> rfl

theorem digits_injective : Function.Injective (Nat.toDigits 10) :=
  Function.LeftInverse.injective (g := fun s => Nat.ofDigitChars 10 s 0) fun _ =>
    Nat.ofDigitChars_ten_toDigits

theorem QueueKind.words_injective : Function.Injective QueueKind.words := by
  intro k k' h
  have hlength := congrArg List.length h
  cases k with
  | work job =>
    cases k' with
    | work job' => rw [Job.words_injective h]
    | retry job' delayMs' => simp [words, Job.length_words] at hlength
    | parking => simp [words, Job.length_words] at hlength
  | retry job delayMs =>
    cases k' with
    | work job' => simp [words, Job.length_words] at hlength
    | retry job' delayMs' =>
      have hwords : job.words ++ ["retry".toList, Nat.toDigits 10 delayMs] =
        job'.words ++ ["retry".toList, Nat.toDigits 10 delayMs'] := h
      obtain ⟨hjob, hrest⟩ := List.append_inj hwords (by simp [Job.length_words])
      simp only [List.cons.injEq, and_true, true_and] at hrest
      rw [Job.words_injective hjob, digits_injective hrest]
    | parking => simp [words, Job.length_words] at hlength
  | parking =>
    cases k' with
    | work job' => simp [words, Job.length_words] at hlength
    | retry job' delayMs' => simp [words, Job.length_words] at hlength
    | parking => rfl

theorem splitOn_key (job : Job) : (ROUTING_KEYS job).toList.splitOn '.' = job.words := by
  cases job <;> decide

theorem toList_queues (S : Settings) (job : Job) :
    (QUEUES S job).toList = S.appShortName.toList ++ '.' :: (ROUTING_KEYS job).toList := by
  cases job <;> simp [QUEUES, ROUTING_KEYS]

/-- A name is the app's short name and its words, with dots between. -/
theorem splitOn_text {S : Settings} (hS : '.' ∉ S.appShortName.toList) (k : QueueKind) :
    (k.text S).toList.splitOn '.' = S.appShortName.toList :: k.words := by
  cases k with
  | work job =>
    rw [QueueKind.text, toList_queues, List.splitOn_append_cons_self_of_not_mem hS, splitOn_key]
    rfl
  | retry job delayMs =>
    have hdigits : '.' ∉ Nat.toDigits 10 delayMs := fun h =>
      absurd (Nat.isDigit_of_mem_toDigits (by decide) (by decide) h) (by decide)
    have htext : (retryQueueFor (QUEUES S job) delayMs).toList =
        S.appShortName.toList ++ '.' :: ((ROUTING_KEYS job).toList ++
          '.' :: ("retry".toList ++ '.' :: Nat.toDigits 10 delayMs)) := by
      simp [retryQueueFor, toList_queues]
    rw [QueueKind.text, htext, List.splitOn_append_cons_self_of_not_mem hS,
      List.splitOn_append_cons_self, splitOn_key,
      List.splitOn_append_cons_self_of_not_mem (by decide), List.splitOn_eq_singleton hdigits]
    rfl
  | parking =>
    have hsplit : "jobs.parking.queue".toList.splitOn '.' = QueueKind.parking.words := by decide
    have htext : (QUEUES_PARKING S).toList =
        S.appShortName.toList ++ '.' :: "jobs.parking.queue".toList := by
      simp [QUEUES_PARKING]
    rw [QueueKind.text, htext, List.splitOn_append_cons_self_of_not_mem hS, hsplit]

/-- **A queue's name tells whose it is and what it is for.** -/
theorem queueText_inj {S S' : Settings} (hS : '.' ∉ S.appShortName.toList)
    (hS' : '.' ∉ S'.appShortName.toList) {k k' : QueueKind} (h : k.text S = k'.text S') :
    S.appShortName = S'.appShortName ∧ k = k' := by
  have hwords : S.appShortName.toList :: k.words = S'.appShortName.toList :: k'.words := by
    rw [← splitOn_text hS, ← splitOn_text hS', h]
  obtain ⟨hname, hk⟩ := List.cons.inj hwords
  exact ⟨String.toList_inj.mp hname, QueueKind.words_injective hk⟩

/-! ### What is declared under the names -/

def QueueKind.queue (S : Settings) : QueueKind → Amqp.Queue
  | work job => (workQueue S (QUEUES S job)).toQueue
  | retry job delayMs => (retryTier (QUEUES S job) delayMs).toQueue
  | parking => parkingQueue S

@[simp] theorem QueueKind.queue_name (S : Settings) (k : QueueKind) :
    (k.queue S).name = k.text S := by
  cases k <;> rfl

section Congruence

variable {S S' : Settings}

theorem queues_congr (h : S.appShortName = S'.appShortName) (job : Job) :
    QUEUES S job = QUEUES S' job := by
  cases job <;> simp [QUEUES, h]

theorem queue_congr (h : S.appShortName = S'.appShortName) (k : QueueKind) :
    k.queue S = k.queue S' := by
  cases k <;> simp [QueueKind.queue, workQueue, parkingQueue, QUEUES_PARKING, EXCHANGES_PARKING,
    QueueDeclaration.toQueue, retryTier, retryQueueFor, queues_congr h, h]

theorem jobBinding_congr (h : S.appShortName = S'.appShortName) (job : Job) :
    jobBinding S job = jobBinding S' job := by
  simp [jobBinding, EXCHANGES_JOBS, queues_congr h, h]

theorem parkingBinding_congr (h : S.appShortName = S'.appShortName) :
    parkingBinding S = parkingBinding S' := by
  simp [parkingBinding, QUEUES_PARKING, EXCHANGES_PARKING, h]

theorem assertTopology_congr (h : S.appShortName = S'.appShortName) :
    assertTopology S = assertTopology S' := by
  have hwork : ∀ job, workQueue S (QUEUES S job) = workQueue S' (QUEUES S' job) := fun job => by
    simp [workQueue, EXCHANGES_PARKING, queues_congr h, h]
  simp only [assertTopology, assertWorkQueue, hwork, jobBinding_congr h, parkingBinding_congr h]
  simp [EXCHANGES_JOBS, EXCHANGES_PARKING, parkingQueue, QUEUES_PARKING, h]

end Congruence

/-- **What has one name is one queue.** -/
theorem queue_eq_of_name {S S' : Settings} (hS : '.' ∉ S.appShortName.toList)
    (hS' : '.' ∉ S'.appShortName.toList) {k k' : QueueKind}
    (h : (k.queue S).name = (k'.queue S').name) : k.queue S = k'.queue S' := by
  rw [QueueKind.queue_name, QueueKind.queue_name] at h
  obtain ⟨hname, rfl⟩ := queueText_inj hS hS' h
  exact queue_congr hname k

theorem exchangesJobs_ne {S S' : Settings} (hS : '.' ∉ S.appShortName.toList)
    (hS' : '.' ∉ S'.appShortName.toList) : EXCHANGES_JOBS S ≠ EXCHANGES_PARKING S' := by
  intro h
  have hjobs : (EXCHANGES_JOBS S).toList = S.appShortName.toList ++ '.' :: "jobs".toList := by
    simp [EXCHANGES_JOBS]
  have hparking : (EXCHANGES_PARKING S').toList =
      S'.appShortName.toList ++ '.' :: "jobs.parking".toList := by
    simp [EXCHANGES_PARKING]
  have hwords := congrArg (fun name : String => name.toList.splitOn '.') h
  simp only [hjobs, hparking, List.splitOn_append_cons_self_of_not_mem hS,
    List.splitOn_append_cons_self_of_not_mem hS'] at hwords
  have hrest := (List.cons.inj hwords).2
  exact absurd hrest (by decide)

theorem exchangesJobs_inj {S S' : Settings} (h : EXCHANGES_JOBS S = EXCHANGES_JOBS S') :
    S.appShortName = S'.appShortName := String.append_left_inj _ |>.mp h

theorem exchangesParking_inj {S S' : Settings} (h : EXCHANGES_PARKING S = EXCHANGES_PARKING S') :
    S.appShortName = S'.appShortName := String.append_left_inj _ |>.mp h

/-- **Bindings of other apps are bound to other exchanges.** -/
theorem bound_of_bindings {S : Settings} {T : Amqp.Topology} (hS : '.' ∉ S.appShortName.toList)
    (h : ∀ b ∈ T.bindings, ∃ S' : Settings, '.' ∉ S'.appShortName.toList ∧
      ((∃ job, b = jobBinding S' job) ∨ b = parkingBinding S')) : Bound S T where
  jobs b hb hexchange := by
    obtain ⟨S', hS', ⟨job, rfl⟩ | rfl⟩ := h b hb
    · exact ⟨job, jobBinding_congr (exchangesJobs_inj hexchange) job⟩
    · exact absurd hexchange.symm (exchangesJobs_ne hS hS')
  parking b hb hexchange := by
    obtain ⟨S', hS', ⟨job, rfl⟩ | rfl⟩ := h b hb
    · exact absurd hexchange (exchangesJobs_ne hS' hS)
    · exact parkingBinding_congr (exchangesParking_inj hexchange)

theorem ordered_assertTopology (S : Settings) : Amqp.Topology.Ordered [] (assertTopology S) := by
  simp [assertTopology, assertWorkQueue, Amqp.Topology.Ordered, Amqp.Topology.After, jobBinding,
    parkingBinding, parkingQueue, workQueue, QueueDeclaration.toQueue]

end LakiraBackend.Queue
