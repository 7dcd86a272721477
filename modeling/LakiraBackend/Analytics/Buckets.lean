import LakiraBackend.Analytics.WallTime

/-!
# The buckets of wall times

`dateTrunc` is what the database makes of a wall time: the start of the hour, day, week, month
or year it is in, where weeks start on a Monday.  `nextBoundary` is where the next one starts.
From the start of a bucket to the next boundary a wall time is in that bucket (`bucket_spec`),
so the boundary is the first there is (`isLeast_nextBoundary`).
-/

namespace LakiraBackend.Analytics

open LakiraBackend.Calendar LakiraBackend.JavaScript
open LakiraBackend.JavaScript.Date
open LakiraBackend.Metrics (BucketAlias)

/-- `date_trunc`, of a wall time. -/
def dateTrunc : BucketAlias → Int → Int
  | .hour, w => w / HOUR_MS * HOUR_MS
  | .day, w => dayOf w * DAY_MS
  | .week, w => (dayOf w - (dayOf w + 3) % 7) * DAY_MS
  | .month, w => firstOfMonth (getUTCFullYear w) (getUTCMonth w) * DAY_MS
  | .year, w => dayFromYear (getUTCFullYear w) * DAY_MS

def IsBoundary (bucket : BucketAlias) (w : Int) : Prop := dateTrunc bucket w = w

instance (bucket : BucketAlias) (w : Int) : Decidable (IsBoundary bucket w) :=
  inferInstanceAs (Decidable (_ = _))

def nextBoundary : BucketAlias → Int → Int
  | .hour, w => w / HOUR_MS * HOUR_MS + HOUR_MS
  | .day, w => (dayOf w + 1) * DAY_MS
  | .week, w => (dayOf w - (dayOf w + 3) % 7 + 7) * DAY_MS
  | .month, w => firstOfMonth (getUTCFullYear w) (getUTCMonth w + 1) * DAY_MS
  | .year, w => dayFromYear (getUTCFullYear w + 1) * DAY_MS

variable {bucket : BucketAlias} {w b e : Int}

theorem dayOf_mul (d : Int) : dayOf (d * DAY_MS) = d := by
  rw [dayOf_eq, DAY_MS_eq]
  omega

/-! ### Months and years -/

theorem firstOfMonth_twelve (y : Int) : firstOfMonth y 12 = firstOfMonth (y + 1) 0 := by
  rw [firstOfMonth, firstOfMonth, show (12 : Int) / 12 = 1 from rfl,
    show (0 : Int) / 12 = 0 from rfl, Int.add_zero]
  rfl

theorem firstOfMonth_zero (y : Int) : firstOfMonth y 0 = dayFromYear y := by
  rw [show (0 : Int) = ((0 : Nat) : Int) from rfl, firstOfMonth_of_lt (by decide)]
  exact Int.add_zero _

theorem firstOfMonth_lt {y : Int} {m : Nat} (hm : m < 12) :
    firstOfMonth y m < firstOfMonth y (m + 1) := by
  rw [firstOfMonth_of_lt hm, firstOfMonth_succ hm]
  exact Int.add_lt_add_left (Int.ofNat_lt.mpr (monthStart_lt _ hm)) _

/-- The first day of a month is in it. -/
theorem dateTrunc_firstOfMonth {y : Int} {m : Nat} (hm : m < 12) :
    dateTrunc .month (firstOfMonth y m * DAY_MS) = firstOfMonth y m * DAY_MS := by
  have hfrom : firstOfMonth y m ≤ dayOf (firstOfMonth y m * DAY_MS) := by rw [dayOf_mul]
  have hto : dayOf (firstOfMonth y m * DAY_MS) < firstOfMonth y (m + 1) := by
    rw [dayOf_mul]
    exact firstOfMonth_lt hm
  obtain ⟨hy, hmonth⟩ := fields_eq hm hfrom hto
  rw [dateTrunc, hy, hmonth]

theorem dateTrunc_nextMonth {y : Int} {m : Nat} (hm : m < 12) :
    dateTrunc .month (firstOfMonth y (m + 1) * DAY_MS) = firstOfMonth y (m + 1) * DAY_MS := by
  by_cases h : m + 1 < 12
  · exact dateTrunc_firstOfMonth h
  · obtain rfl : m = 11 := by omega
    rw [show firstOfMonth y ((11 : Nat) + 1) = firstOfMonth (y + 1) (0 : Nat) from
      firstOfMonth_twelve y]
    exact dateTrunc_firstOfMonth (by decide)

theorem getUTCFullYear_eq {y : Int} (h : dayFromYear y ≤ dayOf w)
    (h' : dayOf w < dayFromYear (y + 1)) : getUTCFullYear w = y := yearFromDay_eq h h'

/-! ### Buckets -/

/-- **A bucket** goes from its start to the next boundary. -/
theorem bucket_spec (bucket : BucketAlias) (w : Int) :
    dateTrunc bucket w ≤ w ∧ w < nextBoundary bucket w ∧
      IsBoundary bucket (nextBoundary bucket w) ∧
      ∀ b, dateTrunc bucket w ≤ b → b < nextBoundary bucket w →
        dateTrunc bucket b = dateTrunc bucket w := by
  have hw := dayOf_eq w
  cases bucket with
  | hour =>
    simp only [IsBoundary, dateTrunc, nextBoundary, HOUR_MS_eq]
    refine ⟨by omega, by omega, by omega, fun b hb hb' => by omega⟩
  | day =>
    simp only [IsBoundary, dateTrunc, nextBoundary, dayOf_mul]
    rw [DAY_MS_eq]
    refine ⟨by omega, by omega, trivial, fun b hb hb' => ?_⟩
    rw [dayOf_eq b]
    omega
  | week =>
    simp only [IsBoundary, dateTrunc, nextBoundary, dayOf_mul]
    rw [DAY_MS_eq]
    refine ⟨by omega, by omega, by omega, fun b hb hb' => ?_⟩
    rw [dayOf_eq b]
    omega
  | month =>
    obtain ⟨hfirst, hnext, hm⟩ := day_in_month w
    refine ⟨?_, ?_, dateTrunc_nextMonth hm, fun b hb hb' => ?_⟩
    · change firstOfMonth _ _ * DAY_MS ≤ w
      rw [DAY_MS_eq]
      omega
    · change w < firstOfMonth _ _ * DAY_MS
      rw [DAY_MS_eq]
      omega
    · change firstOfMonth _ _ * DAY_MS ≤ b at hb
      change b < firstOfMonth _ _ * DAY_MS at hb'
      rw [DAY_MS_eq] at hb hb'
      have hday := dayOf_eq b
      have hfrom : firstOfMonth (getUTCFullYear w) (getUTCMonth w) ≤ dayOf b := by omega
      have hto : dayOf b < firstOfMonth (getUTCFullYear w) (getUTCMonth w + 1) := by omega
      obtain ⟨hy, hmonth⟩ := fields_eq hm hfrom hto
      rw [dateTrunc, dateTrunc, hy, hmonth]
  | year =>
    obtain ⟨hfirst, hnext⟩ := yearFromDay_spec (dayOf w)
    change dayFromYear (getUTCFullYear w) ≤ _ at hfirst
    change _ < dayFromYear (getUTCFullYear w + 1) at hnext
    refine ⟨?_, ?_, ?_, fun b hb hb' => ?_⟩
    · change dayFromYear _ * DAY_MS ≤ w
      rw [DAY_MS_eq]
      omega
    · change w < dayFromYear _ * DAY_MS
      rw [DAY_MS_eq]
      omega
    · have hyear : getUTCFullYear (dayFromYear (getUTCFullYear w + 1) * DAY_MS) =
          getUTCFullYear w + 1 :=
        getUTCFullYear_eq (by rw [dayOf_mul]) (by rw [dayOf_mul]; exact dayFromYear_lt _)
      rw [IsBoundary, nextBoundary, dateTrunc, hyear]
    · change dayFromYear _ * DAY_MS ≤ b at hb
      change b < dayFromYear _ * DAY_MS at hb'
      rw [DAY_MS_eq] at hb hb'
      have hyear : getUTCFullYear b = getUTCFullYear w :=
        getUTCFullYear_eq (by rw [dayOf_eq]; omega) (by rw [dayOf_eq]; omega)
      rw [dateTrunc, dateTrunc, hyear]

/-- **The next boundary** is the first after a wall time. -/
theorem isLeast_nextBoundary (bucket : BucketAlias) (w : Int) :
    IsLeast {b | w < b ∧ IsBoundary bucket b} (nextBoundary bucket w) := by
  obtain ⟨hle, hlt, hnext, hsame⟩ := bucket_spec bucket w
  refine ⟨⟨hlt, hnext⟩, fun b ⟨hb, hboundary⟩ => ?_⟩
  by_contra hbefore
  have htrunc := hsame b (by omega) (not_le.mp hbefore)
  rw [hboundary] at htrunc
  omega

/-- Wall times in one bucket have one next boundary. -/
theorem nextBoundary_eq (h : dateTrunc bucket b = dateTrunc bucket w) :
    nextBoundary bucket b = nextBoundary bucket w := by
  have hle : ∀ {x y : Int}, dateTrunc bucket x = dateTrunc bucket y →
      nextBoundary bucket x ≤ nextBoundary bucket y := by
    intro x y hxy
    obtain ⟨hx, hx', hnext, -⟩ := bucket_spec bucket y
    obtain ⟨hle, hlt, -, hsame⟩ := bucket_spec bucket x
    by_contra hlater
    have htrunc := hsame (nextBoundary bucket y) (by omega) (not_le.mp hlater)
    rw [hnext] at htrunc
    omega
  exact le_antisymm (hle h) (hle h.symm)

/-! ### What the code computes -/

theorem startOfDay_of_le (h : FromYear100 w) (hw : w ≤ 8640000000000000) :
    startOfDay w = some (dayOf w * DAY_MS) := by
  have hlow := year100_le h
  have hday := dayOf_eq w
  rw [startOfDay, timeClip, if_pos ⟨hlow, hw⟩, Option.bind_some, UTC, fullYear_of_le h,
    day_of_fields, timeClip]
  refine if_pos ?_
  rw [show msPerDay = 86400000 from rfl]
  omega

theorem timeClip_eq (ms : Int) (h : -8640000000000000 ≤ ms) :
    timeClip ms = some ms ∨ timeClip ms = none ∧ 8640000000000000 < ms := by
  by_cases hms : ms ≤ 8640000000000000
  · exact .inl (if_pos ⟨h, hms⟩)
  · exact .inr ⟨if_neg fun hin => hms hin.2, not_le.mp hms⟩

/-- **The next boundary is what is computed**, unless it is past what a `Date` holds. -/
theorem startOfNextBucketWall_eq (h : FromYear100 w) :
    startOfNextBucketWall w bucket = some (nextBoundary bucket w) ∨
      startOfNextBucketWall w bucket = none ∧ 8640000000000000 < nextBoundary bucket w := by
  have hlow := year100_le h
  have hnext := (bucket_spec bucket w).2.1
  by_cases hw : w ≤ 8640000000000000
  · have hclip : timeClip w = some w := if_pos ⟨hlow, hw⟩
    have hstart := startOfDay_of_le h hw
    cases bucket with
    | hour => exact .inl rfl
    | day =>
      refine .inl ((congrArg (Option.map fun start => start + DAY_MS) hstart).trans ?_)
      rw [Option.map_some, nextBoundary, DAY_MS_eq]
      congr 1
      omega
    | week =>
      refine .inl ((congrArg (Option.map fun start =>
        start + (7 - (getUTCDay w + 6) % 7) * DAY_MS) hstart).trans ?_)
      rw [Option.map_some, nextBoundary, DAY_MS_eq, getUTCDay]
      congr 1
      omega
    | month =>
      have hutc : startOfNextBucketWall w .month = timeClip (nextBoundary .month w) := by
        rw [startOfNextBucketWall, hclip, Option.bind_some, UTC, fullYear_of_le h, Int.sub_self,
          Int.add_zero]
        rfl
      rw [hutc]
      exact timeClip_eq _ (by omega)
    | year =>
      have hutc : startOfNextBucketWall w .year = timeClip (nextBoundary .year w) := by
        have hyear : 100 ≤ getUTCFullYear w := h
        rw [startOfNextBucketWall, hclip, Option.bind_some, UTC, fullYear_of_le (by omega),
          Int.sub_self, Int.add_zero, firstOfMonth_zero]
        rfl
      rw [hutc]
      exact timeClip_eq _ (by omega)
  · have hclip : timeClip w = none := if_neg fun hin => hw hin.2
    cases bucket with
    | hour => exact .inl rfl
    | _ =>
      refine .inr ⟨?_, by omega⟩
      simp only [startOfNextBucketWall, startOfDay, hclip, Option.bind_none, Option.map_none]

/-- The end of a range, of a wall time whose boundary a `Date` has room for. -/
theorem startOfNextBucketWall_bind (h : FromYear100 w) {α : Type} {f : Int → Option α}
    (hf : ∀ e, 8640000000000000 < e → f e = none) :
    (startOfNextBucketWall w bucket).bind f = f (nextBoundary bucket w) := by
  rcases startOfNextBucketWall_eq h with heq | ⟨heq, hlate⟩
  · rw [heq, Option.bind_some]
  · rw [heq, hf _ hlate, Option.bind_none]

theorem dateOf_of_late {zone : Offset} {e : Int} (h : 8640000000000000 < e) :
    dateOf zone e = none := by
  cases hr : instantOf zone e with
  | none => rw [dateOf, hr, Option.bind_none]
  | some r =>
    obtain ⟨-, second, -, hsecond, -⟩ := instantOf_eq_some hr
    obtain ⟨-, -, -, hin, -⟩ := candidate_eq_some hsecond
    rw [InRange, DAY_MS_eq] at hin
    omega

/-- The end of a bucket, of an instant from the year 100 on whose bucket's end a `Date` has room
for. -/
theorem endWallOf_bind {zone : Offset} {now : Date} (h : FromYear100 (localTime zone now.ms))
    {α : Type} {f : Int → Option α} (hf : ∀ e, 8640000000000000 < e → f e = none) :
    (endWallOf zone now bucket).bind f = f (nextBoundary bucket (localTime zone now.ms)) := by
  cases hw : wallTimeOf zone now.ms with
  | some w =>
    obtain rfl := eq_localTime hw h
    rw [endWallOf, hw, Option.bind_some, startOfNextBucketWall_bind h hf]
  | none =>
    have hlate : ¬localTime zone now.ms ≤ 8640000000000000 := fun hle => by
      rw [wallTimeOf_local now.inRange h hle] at hw
      cases hw
    have hnext := (bucket_spec bucket (localTime zone now.ms)).2.1
    rw [endWallOf, hw, Option.bind_none, Option.bind_none, hf _ (by omega)]

/-- A bucket ends after the year 100 has started. -/
theorem year100_lt_endWallOf {zone : Offset} {now : Date} (h : endWallOf zone now bucket = some e) :
    year100 < e := by
  obtain ⟨w, hw, hnext⟩ := Option.bind_eq_some_iff.mp h
  have h100 := year100_le_wallTimeOf hw
  have hlt := (bucket_spec bucket w).2.1
  have heq : startOfNextBucketWall w bucket = some (nextBoundary bucket w) ∨
      startOfNextBucketWall w bucket = none ∧ 8640000000000000 < nextBoundary bucket w :=
    startOfNextBucketWall_eq (fromYear100_iff.mpr h100)
  rcases heq with heq | ⟨hnone, -⟩
  · rw [hnext] at heq
    rw [Option.some.inj heq]
    exact h100.trans_lt hlt
  · rw [hnext] at hnone
    cases hnone

/-- **Relative ranges are stable inside a bucket.**  The wall time computed is the first boundary
after the one that is given, if a `Date` has room for it; and two times in one bucket give one
range. -/
theorem resolveRelativeRange_stable (bucket : BucketAlias) :
    (∀ w b, FromYear100 w → w < b → IsBoundary bucket b → b ≤ 8640000000000000 →
      ∃ e, startOfNextBucketWall w bucket = some e ∧ w < e ∧ IsBoundary bucket e ∧
        ∀ b, w < b → b < e → ¬IsBoundary bucket b) ∧
    ∀ (zone : Offset) (last : List Char) (now now' : Date),
      FromYear100 (localTime zone now.ms) → FromYear100 (localTime zone now'.ms) →
      dateTrunc bucket (localTime zone now.ms) = dateTrunc bucket (localTime zone now'.ms) →
      resolveRelativeRange zone last bucket now = resolveRelativeRange zone last bucket now' := by
  refine ⟨fun w b hw hwb hb hroom => ?_, fun zone last now now' h h' hsame => ?_⟩
  · have hleast := isLeast_nextBoundary bucket w
    have hle : nextBoundary bucket w ≤ b := hleast.2 ⟨hwb, hb⟩
    have hnext : startOfNextBucketWall w bucket = some (nextBoundary bucket w) ∨
        startOfNextBucketWall w bucket = none ∧ 8640000000000000 < nextBoundary bucket w :=
      startOfNextBucketWall_eq hw
    rcases hnext with heq | ⟨-, hlate⟩
    · refine ⟨_, heq, hleast.1.1, hleast.1.2, fun b' hwb' hb' hboundary => ?_⟩
      have := hleast.2 ⟨hwb', hboundary⟩
      omega
    · omega
  · have hlate : ∀ e, 8640000000000000 < e → ∀ {α : Type} (f : Date → Option α),
        (dateOf zone e).bind f = none := fun e he α f => by
      rw [dateOf_of_late he, Option.bind_none]
    have hres : ∀ now : Date, resolveRelativeRange zone last bucket now =
        (endWallOf zone now bucket).bind fun endWall =>
          (dateOf zone endWall).bind fun stop =>
            ((parseRelativeWindow last).bind (startWallOf endWall)).elim
              (some ⟨stop.toISOString, stop.toISOString⟩) fun startWall =>
                (dateOf zone startWall).bind fun start =>
                  some ⟨start.toISOString, stop.toISOString⟩ := fun now => by
      rw [resolveRelativeRange]
      refine congrArg _ (funext fun endWall => congrArg _ (funext fun stop => ?_))
      cases (parseRelativeWindow last).bind (startWallOf endWall) <;> rfl
    rw [hres, hres, endWallOf_bind h fun e he => hlate e he _,
      endWallOf_bind h' fun e he => hlate e he _, nextBoundary_eq hsame]

/-- Noon and midnight of a day in 1970, whose next boundary is the day after. -/
theorem resolveRelativeRange_stable_1970 :
    (∃ e, startOfNextBucketWall 86400000 .day = some e ∧ 86400000 < e) ∧
      resolveRelativeRange (fun _ => 0) "7d".toList .day ⟨86400000, by decide⟩ =
        resolveRelativeRange (fun _ => 0) "7d".toList .day ⟨129600000, by decide⟩ := by
  obtain ⟨hnext, hsame⟩ := resolveRelativeRange_stable .day
  obtain ⟨e, he, hlt, -⟩ :=
    hnext 86400000 172800000 (by decide) (by decide) (by decide) (by decide)
  exact ⟨⟨e, he, hlt⟩, hsame _ _ _ _ (by decide) (by decide) (by decide)⟩

/-- In the last year of the `Date`s none has room for the next. -/
theorem nextYear_beyond : ¬∀ (bucket : BucketAlias) (w : Int), FromYear100 w →
    w ≤ 8640000000000000 → ∃ e, startOfNextBucketWall w bucket = some e ∧ w < e := by
  intro h
  obtain ⟨e, he, -⟩ := h .year 8640000000000000 (by decide) le_rfl
  rw [show startOfNextBucketWall 8640000000000000 .year = none by decide] at he
  cases he

end LakiraBackend.Analytics
