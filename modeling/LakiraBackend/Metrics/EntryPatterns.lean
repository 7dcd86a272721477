import LakiraBackend.Metrics.ListPatterns

/-!
# Which entries a pattern takes

The key of what is cached of a metric or of logs begins with a label, an organization and a user,
and so does the pattern of a write; a pattern takes the keys that begin with its parts
(`leading_matches_iff`).  So a write of a log takes what was read of the log, of its metric and of
all the user's logs in the organization, and nothing else (`logPatterns_match_iff`).
-/

namespace LakiraBackend.Metrics

open LakiraBackend.JavaScript LakiraBackend.Postgres LakiraBackend.Redis

/-! ### Leading parts -/

/-- **A pattern of leading parts** takes the keys that begin with them, and have more. -/
theorem leading_matches_iff {ps qs : List (List Char)} (hps : ∀ p ∈ ps, ':' ∉ p ∧ Redis.Literal p)
    (hqs : ∀ q ∈ qs, ':' ∉ q) (hne : ps ≠ []) (hne' : qs ≠ []) :
    globMatch (joinParts (ps ++ [['*']])) (joinParts qs) = true ↔
      ps <+: qs ∧ ps.length < qs.length := by
  have hpattern : joinParts (ps ++ [['*']]) = joinParts ps ++ [':'] ++ ['*'] := by
    rw [joinParts_append hne (List.cons_ne_nil _ _), joinParts_singleton, List.append_assoc]
    rfl
  have hliteral : Redis.Literal (joinParts ps ++ [':']) :=
    (literal_joinParts fun p hp => (hps p hp).2).append (by decide)
  rw [hpattern, globMatch_leading hliteral]
  constructor
  · rintro ⟨rest, hrest⟩
    have hsplit := congrArg (List.splitOn ':') hrest
    rw [List.append_assoc, List.singleton_append, List.splitOn_append_cons_self, joinParts,
      joinParts, List.splitOn_intercalate ':' (fun p hp => (hps p hp).1) hne,
      List.splitOn_intercalate ':' hqs hne'] at hsplit
    refine ⟨⟨_, hsplit⟩, ?_⟩
    rw [← hsplit, List.length_append]
    exact Nat.lt_add_of_pos_right (List.length_pos_of_ne_nil (List.splitOn_ne_nil _ _))
  · rintro ⟨⟨rest, rfl⟩, hlt⟩
    have hrest : rest ≠ [] := by
      rintro rfl
      rw [List.append_nil] at hlt
      exact absurd hlt (Nat.lt_irrefl _)
    rw [joinParts_append hne hrest]
    refine ⟨joinParts rest, ?_⟩
    rw [List.append_assoc]
    rfl

theorem literal_idText (i : IdText) : Redis.Literal i.text := by
  intro hmem
  rcases (digits_of_ofText i.spells).2 _ hmem with hdash | hdigit
  · cases hdash
  · cases hdigit

theorem not_mem_toDigits (n : Nat) : ':' ∉ Nat.toDigits 10 n := fun h =>
  absurd (Nat.isDigit_of_mem_toDigits (by decide) (by decide) h) (by decide)

theorem not_mem_includeText (includes : List MetricDetailInclude) : ':' ∉ includeText includes := by
  have htext : ∀ i : MetricDetailInclude, ':' ∉ i.text := by
    intro i
    cases i <;> decide
  unfold includeText
  split
  · decide
  · clear * - htext
    induction includes with
    | nil => exact List.not_mem_nil
    | cons i includes ih =>
      cases includes with
      | nil =>
        rw [List.map_singleton, List.intercalate_singleton]
        exact htext i
      | cons j includes =>
        rw [List.map_cons, List.map_cons, List.intercalate_cons_cons, List.mem_append,
          List.mem_append, ← List.map_cons]
        exact not_or.mpr ⟨not_or.mpr ⟨htext i, by decide⟩, ih⟩

theorem not_mem_boundText (bound : Option Date) : ':' ∉ boundText bound := by
  cases bound with
  | none => decide
  | some d =>
    rw [boundText]
    split
    · exact fun h => not_mem_toDigits _ ((List.mem_cons.mp h).resolve_left (by decide))
    · exact not_mem_toDigits _

theorem not_mem_iso (bucket : BucketAlias) : ':' ∉ (resolveBucket bucket).iso := by
  cases bucket <;> decide

theorem not_mem_hash (hash : List (Fin 64)) : ':' ∉ hash.map fun n => Buffer.digit n.val := by
  intro h
  obtain ⟨n, _, hn⟩ := List.mem_map.mp h
  have hall : ∀ n : Fin 64, Buffer.digit n.val ≠ ':' := by decide
  exact hall n hn

/-! ### The details of a metric -/

section

variable {u o : Uuid} {includes : List MetricDetailInclude} {logsLimit : Nat}

theorem not_mem_metricEntryKey {id : IdText} : ∀ q ∈ ["metric".toList, o.text, u.text, id.text,
    "inc".toList, includeText includes, "ll".toList, Nat.toDigits 10 logsLimit], ':' ∉ q := by
  have hlabels : ∀ label ∈ ["metric".toList, "inc".toList, "ll".toList], ':' ∉ label := by decide
  simp only [List.forall_mem_cons] at hlabels ⊢
  obtain ⟨hmetric, hinc, hll, _⟩ := hlabels
  exact ⟨hmetric, not_mem_text.1, not_mem_text.1, not_mem_idText id, hinc,
    not_mem_includeText includes, hll, not_mem_toDigits logsLimit,
    fun _ h => absurd h List.not_mem_nil⟩

/-- The pattern of the details of a metric, of those with one spelling of its id. -/
theorem metricEntryPattern_matches_iff {id : Uuid} {text : IdText} :
    globMatch (metricEntryPattern u o id.text) (metricEntryKey u o text.text includes logsLimit) =
      true ↔ text.text = id.text := by
  have hlabel : ':' ∉ "metric".toList ∧ Redis.Literal "metric".toList := by decide
  have hps : ∀ p ∈ ["metric".toList, o.text, u.text, id.text], ':' ∉ p ∧ Redis.Literal p := by
    simp only [List.forall_mem_cons]
    exact ⟨hlabel, not_mem_text, not_mem_text, not_mem_text, fun _ h => absurd h List.not_mem_nil⟩
  refine (leading_matches_iff hps not_mem_metricEntryKey (List.cons_ne_nil _ _)
    (List.cons_ne_nil _ _)).trans ?_
  simp [List.cons_prefix_cons, eq_comm]

end

/-! ### What is read of logs -/

section

variable {V : Type} (D : Deps V)

/-- What is cached besides the pages, and is read of logs. -/
inductive LogEntry (V : Type) : Type
  | metric (id : IdText) (includes : List MetricDetailInclude) (logsLimit : Nat)
  | log (id metricId : IdText)
  | stats (metricId : Option IdText) (startDate endDate : Option Date)
  | visualization (metricId : IdText) (q : VizQuery)
  | dashboard (q : VizQuery) (metrics : List (DashboardMetricRow V))

namespace LogEntry

/-- The key it is cached under. -/
def key (u o : Uuid) : LogEntry V → List Char
  | metric id includes logsLimit => metricEntryKey u o id.text includes logsLimit
  | log id metricId => metricLogCacheKey u o id.text metricId.text
  | stats metricId startDate endDate =>
    metricLogStatsCacheKey u o (metricId.map IdText.text) startDate endDate
  | visualization metricId q => vizKey D ⟨u, o, metricId.text, q.range, q.tz, q.fill⟩
  | dashboard q metrics => vizDashKey D (dashboardKey D u o q metrics)

/-- It is read of the log, of its metric, or of all logs. -/
def Of (metricId logId : IdText) : LogEntry V → Prop
  | metric id _ _ => metricId.text = id.text
  | log id _ => logId.text = id.text
  | stats (some id) _ _ => metricId.text = id.text
  | stats none _ _ => True
  | visualization id _ => metricId.text = id.text
  | dashboard _ _ => True

/-- The parts of its key. -/
def parts (u o : Uuid) : LogEntry V → List (List Char)
  | metric id includes logsLimit => ["metric".toList, o.text, u.text, id.text, "inc".toList,
    includeText includes, "ll".toList, Nat.toDigits 10 logsLimit]
  | log id metricId => ["log".toList, o.text, u.text, id.text, "m".toList, metricId.text]
  | stats metricId startDate endDate => ["logStats".toList, o.text, u.text, "m".toList,
    (metricId.map IdText.text).getD "all".toList, "s".toList, boundText startDate, "e".toList,
    boundText endDate]
  | visualization metricId q => ["viz".toList, o.text, u.text, metricId.text,
    (resolveBucket q.range.bucket).iso,
    (D.vizHash ⟨u, o, metricId.text, q.range, q.tz, q.fill⟩).map fun n => Buffer.digit n.val]
  | dashboard q metrics => ["vizdash".toList, o.text, u.text, (resolveBucket q.range.bucket).iso,
    (D.vizDashHash (dashboardKey D u o q metrics)).map fun n => Buffer.digit n.val]

variable {D} {u o u' o' : Uuid}

theorem key_eq (e : LogEntry V) : e.key D u o = joinParts (e.parts D u o) := by
  cases e <;> rfl

theorem parts_plain (e : LogEntry V) : ∀ q ∈ e.parts D u o, ':' ∉ q := by
  have hlabels : ∀ label ∈ ["log".toList, "m".toList, "logStats".toList, "s".toList, "e".toList,
      "viz".toList, "vizdash".toList, "all".toList], ':' ∉ label := by decide
  simp only [List.forall_mem_cons] at hlabels
  obtain ⟨hlog, hm, hstats, hs, he, hviz, hvizdash, hall, _⟩ := hlabels
  have hu : ∀ {u : Uuid}, ':' ∉ u.text := not_mem_text.1
  have hnil : ∀ q ∈ ([] : List (List Char)), ':' ∉ q := fun _ h => absurd h List.not_mem_nil
  cases e with
  | metric id includes logsLimit => exact not_mem_metricEntryKey
  | log id metricId =>
    simp only [parts, List.forall_mem_cons]
    exact ⟨hlog, hu, hu, not_mem_idText id, hm, not_mem_idText metricId, hnil⟩
  | stats metricId startDate endDate =>
    have hid : ':' ∉ (metricId.map IdText.text).getD "all".toList := by
      cases metricId with
      | none => exact hall
      | some id => exact not_mem_idText id
    simp only [parts, List.forall_mem_cons]
    exact ⟨hstats, hu, hu, hm, hid, hs, not_mem_boundText startDate, he, not_mem_boundText endDate,
      hnil⟩
  | visualization metricId q =>
    simp only [parts, List.forall_mem_cons]
    exact ⟨hviz, hu, hu, not_mem_idText metricId, not_mem_iso _, not_mem_hash _, hnil⟩
  | dashboard q metrics =>
    simp only [parts, List.forall_mem_cons]
    exact ⟨hvizdash, hu, hu, not_mem_iso _, not_mem_hash _, hnil⟩

theorem cursorPattern_misses (e : LogEntry V) (feature : List Char) :
    globMatch (cursorPattern u o feature) (e.key D u' o') = false := by
  obtain ⟨pattern, hpattern⟩ : ∃ rest, cursorPattern u o feature = 'c' :: rest :=
    head_joinParts ⟨_, rfl⟩
  have hhead : ∃ c rest, e.key D u' o' = c :: rest ∧ c ≠ 'c' := by
    cases e with
    | metric => exact ⟨'m', _, rfl, by decide⟩
    | log => exact ⟨'l', _, rfl, by decide⟩
    | stats => exact ⟨'l', _, rfl, by decide⟩
    | visualization => exact ⟨'v', _, rfl, by decide⟩
    | dashboard => exact ⟨'v', _, rfl, by decide⟩
  obtain ⟨c, rest, hrest, hc⟩ := hhead
  rw [hpattern, hrest]
  exact globMatch_of_head (by decide) hc

/-- What the patterns of a write of a log have before their star, but for those of the pages. -/
def leads (u o : Uuid) (metricId logId : List Char) : List (List (List Char)) :=
  [["logStats".toList, o.text, u.text, "m".toList, metricId],
    ["logStats".toList, o.text, u.text, "m".toList, "all".toList],
    ["log".toList, o.text, u.text, logId], ["viz".toList, o.text, u.text, metricId],
    ["vizdash".toList, o.text, u.text], ["metric".toList, o.text, u.text, metricId]]

theorem leads_plain {metricId logId : IdText} : ∀ ps ∈ leads u o metricId.text logId.text,
    ps ≠ [] ∧ ∀ p ∈ ps, ':' ∉ p ∧ Redis.Literal p := by
  have hid : ∀ i : IdText, ':' ∉ i.text ∧ Redis.Literal i.text :=
    fun i => ⟨not_mem_idText i, literal_idText i⟩
  have hlabels : ∀ label ∈ ["metric".toList, "log".toList, "logStats".toList, "viz".toList,
      "vizdash".toList, "m".toList, "all".toList], ':' ∉ label ∧ Redis.Literal label := by decide
  intro ps hps
  simp only [leads, List.mem_cons, List.not_mem_nil, or_false] at hps
  simp only [List.forall_mem_cons] at hlabels
  rcases hps with rfl | rfl | rfl | rfl | rfl | rfl <;>
    simp only [List.forall_mem_cons, hlabels, hid, not_mem_text, ne_eq, List.cons_ne_nil,
      not_false_eq_true, and_self, List.not_mem_nil, false_implies, implies_true]

/-- The patterns of a write of a log take the entries that begin with their parts. -/
theorem exists_pattern_iff (e : LogEntry V) (metricId logId : IdText) :
    (∃ p ∈ logPatterns u o metricId.text logId.text, globMatch p (e.key D u' o') = true) ↔
      ∃ ps ∈ leads u o metricId.text logId.text,
        ps <+: e.parts D u' o' ∧ ps.length < (e.parts D u' o').length := by
  have hne : e.parts D u' o' ≠ [] := by cases e <;> exact List.cons_ne_nil _ _
  have hlead : ∀ ps ∈ leads u o metricId.text logId.text,
      (globMatch (joinParts (ps ++ [['*']])) (e.key D u' o') = true ↔
        ps <+: e.parts D u' o' ∧ ps.length < (e.parts D u' o').length) := by
    intro ps hps
    obtain ⟨hps, hplain⟩ := leads_plain ps hps
    rw [key_eq]
    exact leading_matches_iff hplain e.parts_plain hps hne
  have hpage : ∀ feature, ¬globMatch (cursorPattern u o feature) (e.key D u' o') = true :=
    fun feature => Bool.eq_false_iff.mp (e.cursorPattern_misses feature)
  simp only [leads, List.forall_mem_cons] at hlead
  obtain ⟨hstats, hall, hlog, hviz, hvizdash, hmetric, _⟩ := hlead
  simp only [logPatterns, leads, List.mem_cons, List.not_mem_nil, or_false, exists_eq_or_imp,
    exists_eq_left, ← hstats, ← hall, ← hlog, ← hviz, ← hvizdash, ← hmetric, hpage, false_or,
    Bool.false_eq_true, metricLogStatsPattern, metricLogPattern, vizPattern, vizDashPattern,
    metricEntryPattern, List.cons_append, List.nil_append]

end LogEntry

/-- **A write of a log takes what is read of it**, of its metric and of all the user's logs in the
organization, where the ids are spelled as the write has them, and nothing of anyone else. -/
theorem logPatterns_match_iff {u o u' o' : Uuid} (metricId logId : IdText) (e : LogEntry V) :
    (∃ p ∈ logPatterns u o metricId.text logId.text, globMatch p (e.key D u' o') = true) ↔
      o = o' ∧ u = u' ∧ e.Of metricId logId := by
  have hall : ∀ i : IdText, i.text ≠ ['a', 'l', 'l'] := by
    intro i heq
    have hnone : Uuid.ofText ['a', 'l', 'l'] = none := by decide
    rw [← heq, i.spells] at hnone
    cases hnone
  rw [LogEntry.exists_pattern_iff]
  simp only [LogEntry.leads, List.mem_cons, List.not_mem_nil, or_false, exists_eq_or_imp,
    exists_eq_left]
  have htext : ∀ {v w : Uuid}, v.text = w.text ↔ v = w := Uuid.text_injective.eq_iff
  cases e with
  | stats id startDate endDate =>
    cases id with
    | none => simp [LogEntry.parts, LogEntry.Of, List.cons_prefix_cons, htext, hall]
    | some id =>
      have hid : ¬['a', 'l', 'l'] = id.text := fun h => hall id h.symm
      simp [LogEntry.parts, LogEntry.Of, List.cons_prefix_cons, htext, hid]
  | _ => simp [LogEntry.parts, LogEntry.Of, List.cons_prefix_cons, htext]

end

end LakiraBackend.Metrics
