import LakiraBackend.Analytics.RelativeRange

/-!
# The instant of a local time

`localInstant` is what `instantOf` computes where the wall times it reads are local times.  It is
the first instant at which the clocks show the time or a later one (`isLeast_localInstant`): the
earliest that shows it, and the instant the clocks moved where they skip it
(`changes_localInstant`).
-/

namespace LakiraBackend.Analytics

open LakiraBackend.Calendar

/-- The clocks are less than a day from UTC. -/
def WithinDay (zone : Offset) : Prop := ∀ t, -DAY_MS < zone t ∧ zone t < DAY_MS

/-- The clocks are set once at most from a day before to a day after the wall time read as
UTC. -/
def OneChangeNear (zone : Offset) (wallMs : Int) : Prop :=
  OneChange zone (wallMs - DAY_MS) (wallMs + DAY_MS)

variable {zone : Offset} {wallMs t c : Int}

theorem DAY_MS_pos : 0 < DAY_MS := by decide

theorem withinDay_setOnce {before after : Int} (hb : -DAY_MS < before ∧ before < DAY_MS)
    (ha : -DAY_MS < after ∧ after < DAY_MS) : WithinDay (setOnce c before after) := by
  intro t
  rw [setOnce]
  split
  · exact hb
  · exact ha

/-- What `instantOf` gives where local times are read. -/
def localInstant (zone : Offset) (wallMs : Int) : Int :=
  let first := wallMs - zone (wallMs - DAY_MS)
  let second := wallMs - zone (wallMs + DAY_MS)
  let shown := [first, second].filter fun c => localTime zone c = wallMs
  let offsetAfter := zone (max first second)
  shown.min?.getD (bisect (fun t => zone t = offsetAfter) (min first second) (max first second))

/-- Two days' offsets on either side of an instant between them. -/
structure Turns (zone : Offset) (wallMs c : Int) : Prop where
  before : ∀ t, wallMs - DAY_MS ≤ t → t < c → zone t = zone (wallMs - DAY_MS)
  after : ∀ t, c ≤ t → t ≤ wallMs + DAY_MS → zone t = zone (wallMs + DAY_MS)

/-- Near a wall time the clocks have the one offset, and then the other; where these are the
same, the instant between may be any. -/
theorem exists_turns (h : OneChangeNear zone wallMs) :
    ∃ c, Turns zone wallMs c ∧ (wallMs - DAY_MS < c ∧ c ≤ wallMs + DAY_MS) ∧
      (zone (wallMs - DAY_MS) ≠ zone (wallMs + DAY_MS) → Changes zone c) := by
  have hday := DAY_MS_pos
  rcases constant_or_changes h with hconst | ⟨c, hlo, hhi, hc, hbefore, hafter⟩
  · have heq := hconst (wallMs + DAY_MS) (by omega) le_rfl
    refine ⟨wallMs, ⟨fun t ht ht' => hconst t ht (by omega), fun t ht ht' => ?_⟩, by omega,
      fun hne => absurd heq.symm hne⟩
    rw [heq]
    exact hconst t (by omega) ht'
  · exact ⟨c, ⟨hbefore, hafter⟩, ⟨hlo, hhi⟩, fun _ => hc⟩

/-- **The candidates**: the earlier offset's where that is before the change, or else the later
one's where that is not, or else the change. -/
theorem localInstant_eq (hz : WithinDay zone) (hc : Turns zone wallMs c) :
    localInstant zone wallMs =
      if wallMs - zone (wallMs - DAY_MS) < c then wallMs - zone (wallMs - DAY_MS)
      else if c ≤ wallMs - zone (wallMs + DAY_MS) then wallMs - zone (wallMs + DAY_MS) else c := by
  have hfirst := hz (wallMs - DAY_MS)
  have hsecond := hz (wallMs + DAY_MS)
  have hbefore := hc.before
  have hafter := hc.after
  unfold localInstant
  generalize zone (wallMs - DAY_MS) = a at *
  generalize zone (wallMs + DAY_MS) = b at *
  have hshows : ∀ t, localTime zone t = wallMs ↔ t + zone t = wallMs := fun _ => Iff.rfl
  simp only [List.filter_cons, List.filter_nil]
  by_cases h₁ : wallMs - a < c
  · have ha : zone (wallMs - a) = a := hbefore _ (by omega) h₁
    have hone : localTime zone (wallMs - a) = wallMs := by
      rw [hshows]
      omega
    rw [if_pos h₁]
    by_cases htwo : localTime zone (wallMs - b) = wallMs
    · have hle : wallMs - a ≤ wallMs - b := by
        by_cases h₂ : wallMs - b < c
        · rw [hshows, hbefore _ (by omega) h₂] at htwo
          omega
        · omega
      simp only [hone, htwo, decide_true, if_true]
      exact min_eq_left hle
    · simp only [hone, htwo, decide_true, decide_false, if_true, Bool.false_eq_true, if_false]
      rfl
  · have hb : zone (wallMs - a) = b := hafter _ (by omega) (by omega)
    rw [if_neg h₁]
    by_cases h₂ : c ≤ wallMs - b
    · have hb' : zone (wallMs - b) = b := hafter _ h₂ (by omega)
      have htwo : localTime zone (wallMs - b) = wallMs := by
        rw [hshows]
        omega
      rw [if_pos h₂]
      by_cases hab : a = b
      · subst hab
        simp only [htwo, decide_true, if_true]
        exact min_self _
      · have hone : ¬localTime zone (wallMs - a) = wallMs := by
          rw [hshows]
          omega
        simp only [hone, htwo, decide_true, decide_false, if_true, Bool.false_eq_true, if_false]
        rfl
    · have ha : zone (wallMs - b) = a := hbefore _ (by omega) (by omega)
      have hone : ¬localTime zone (wallMs - a) = wallMs := by
        rw [hshows]
        omega
      have htwo : ¬localTime zone (wallMs - b) = wallMs := by
        rw [hshows]
        omega
      simp only [hone, htwo, decide_false, Bool.false_eq_true, if_false]
      rw [if_neg h₂]
      have hmax : max (wallMs - a) (wallMs - b) = wallMs - a := max_eq_left (by omega)
      have hmin : min (wallMs - a) (wallMs - b) = wallMs - b := min_eq_right (by omega)
      rw [hmax, hmin, hb]
      obtain ⟨hlo, hhi, hp, hp'⟩ := bisect_spec (p := fun t => zone t = b)
        (show wallMs - b < wallMs - a by omega) (decide_eq_false (by omega))
        (decide_eq_true hb)
      generalize bisect (fun t => decide (zone t = b)) (wallMs - b) (wallMs - a) = r at *
      rcases lt_trichotomy r c with hr | hr | hr
      · rw [hbefore r (by omega) hr] at hp
        have : a = b := of_decide_eq_true hp
        omega
      · exact hr
      · rw [hafter (r - 1) (by omega) (by omega)] at hp'
        exact absurd rfl (of_decide_eq_false hp')

/-- **The first instant at which the clocks show the wall time or a later one.** -/
theorem isLeast_localInstant (hz : WithinDay zone) (h : OneChangeNear zone wallMs) :
    IsLeast (reached zone wallMs) (localInstant zone wallMs) := by
  obtain ⟨c, hc, ⟨hlo, hhi⟩, -⟩ := exists_turns h
  have hbefore := hc.before
  have hafter := hc.after
  have hday := DAY_MS_pos
  have hfirst := hz (wallMs - DAY_MS)
  have hsecond := hz (wallMs + DAY_MS)
  rw [localInstant_eq hz hc]
  generalize zone (wallMs - DAY_MS) = a at *
  generalize zone (wallMs + DAY_MS) = b at *
  -- no instant before the stretch shows so late a wall time
  have hshown : ∀ t, wallMs ≤ t + zone t → t < c ∧ wallMs ≤ t + a ∨
      c ≤ t ∧ (wallMs ≤ t + b ∨ wallMs + DAY_MS < t) := by
    intro t ht
    have htz := hz t
    by_cases htc : t < c
    · rw [hbefore t (by omega) htc] at ht
      exact .inl ⟨htc, ht⟩
    · refine .inr ⟨not_lt.mp htc, ?_⟩
      by_cases hlate : wallMs + DAY_MS < t
      · exact .inr hlate
      · rw [hafter t (by omega) (by omega)] at ht
        exact .inl ht
  split
  · rename_i h₁
    refine ⟨?_, fun t ht => ?_⟩
    · change wallMs ≤ wallMs - a + zone (wallMs - a)
      rw [hbefore _ (by omega) h₁]
      omega
    · rcases hshown t ht with h | h <;> omega
  · split
    · rename_i h₁ h₂
      refine ⟨?_, fun t ht => ?_⟩
      · change wallMs ≤ wallMs - b + zone (wallMs - b)
        rw [hafter _ h₂ (by omega)]
        omega
      · rcases hshown t ht with h | h <;> omega
    · rename_i h₁ h₂
      refine ⟨?_, fun t ht => ?_⟩
      · change wallMs ≤ c + zone c
        rw [hafter c le_rfl (by omega)]
        omega
      · rcases hshown t ht with h | h <;> omega

/-- It is less than a day from the wall time read as UTC. -/
theorem localInstant_near (hz : WithinDay zone) (h : OneChangeNear zone wallMs) :
    wallMs - DAY_MS ≤ localInstant zone wallMs ∧ localInstant zone wallMs ≤ wallMs + DAY_MS := by
  obtain ⟨c, hc, hstretch, -⟩ := exists_turns h
  have hfirst := hz (wallMs - DAY_MS)
  have hsecond := hz (wallMs + DAY_MS)
  rw [localInstant_eq hz hc]
  split
  · omega
  · split <;> omega

/-- Where no instant shows the wall time, the clocks move at the instant that is given, past
it. -/
theorem changes_localInstant (hz : WithinDay zone) (h : OneChangeNear zone wallMs)
    (hgap : localTime zone (localInstant zone wallMs) ≠ wallMs) :
    Changes zone (localInstant zone wallMs) ∧
      (wallMs - DAY_MS < localInstant zone wallMs ∧ localInstant zone wallMs ≤ wallMs + DAY_MS) ∧
      ∀ t, localInstant zone wallMs ≤ t → t ≤ wallMs + DAY_MS →
        zone t = zone (localInstant zone wallMs) := by
  obtain ⟨c, hc, hstretch, hchanges⟩ := exists_turns h
  have hbefore := hc.before
  have hafter := hc.after
  have hfirst := hz (wallMs - DAY_MS)
  have hsecond := hz (wallMs + DAY_MS)
  rw [localTime_eq] at hgap
  rw [localInstant_eq hz hc] at hgap ⊢
  split at hgap
  · rename_i h₁
    rw [hbefore _ (by omega) h₁] at hgap
    omega
  · split at hgap
    · rename_i h₂
      rw [hafter _ h₂ (by omega)] at hgap
      omega
    · rename_i h₁ h₂
      rw [if_neg h₁, if_neg h₂]
      refine ⟨hchanges (by omega), hstretch, fun t ht ht' => ?_⟩
      rw [hafter t ht ht', hafter c le_rfl hstretch.2]

/-- The clocks are not set from a day before to a day after. -/
def Steady (zone : Offset) (wallMs : Int) : Prop :=
  ∀ t, wallMs - DAY_MS ≤ t → t ≤ wallMs + DAY_MS → zone t = zone wallMs

theorem localInstant_steady (hz : WithinDay zone) (hs : Steady zone wallMs) :
    localInstant zone wallMs = wallMs - zone wallMs := by
  have hday := DAY_MS_pos
  have hfirst : zone (wallMs - DAY_MS) = zone wallMs := hs _ le_rfl (by omega)
  have hsecond : zone (wallMs + DAY_MS) = zone wallMs := hs _ (by omega) le_rfl
  have hturns : Turns zone wallMs wallMs :=
    ⟨fun t ht ht' => (hs t ht (by omega)).trans hfirst.symm,
      fun t ht ht' => (hs t (by omega) ht').trans hsecond.symm⟩
  rw [localInstant_eq hz hturns, hfirst, hsecond]
  split
  · rfl
  · exact if_pos (by omega)

end LakiraBackend.Analytics
