import LakiraBackend.Analytics.InstantOf

/-!
# What a wall time before the year 100 is taken for

A local time before the year 100 is read as a later one.  By how much is the same in all the years
1 to 99, and in one before them up to February, and from March on (`misreading_eq`).  So
`instantOf` takes the wall time for one as much earlier as the local times a day either side are
misread.  Where these are misread differently the bisection finds the first time, after the
earlier of the two it could be, from which on all are misread as the later is
(`isLeast_instantOf`).
-/

namespace LakiraBackend.Analytics

open LakiraBackend.Calendar LakiraBackend.JavaScript
open LakiraBackend.JavaScript.Date

/-- How much later than it is a local time is read. -/
def misreading (u : Int) : Int := readLocal u - u

/-- From the one local time to the other all are misread as the other is. -/
def Alike (u v : Int) : Prop := ∀ s, u ≤ s → s ≤ v → misreading s = misreading v

/-- What the wall time could be: it is as much earlier as the local time at an instant near it is
misread. -/
def misread (zone : Offset) (wallMs near : Int) : Int :=
  wallMs - misreading (localTime zone near)

/-- What a wall time is taken for: from the year 100 on for itself, before it for what it could be.
Where the day before and the day after say different things, that is the first time past the
earlier one from which on all are misread as the later one is. -/
def TakenFor (zone : Offset) (wallMs u : Int) : Prop :=
  let early := misread zone wallMs (wallMs - DAY_MS)
  let late := misread zone wallMs (wallMs + DAY_MS)
  if year100 ≤ wallMs then u = wallMs
  else if early = late then u = early
  else IsLeast {s | min early late < s ∧ Alike s (max early late)} u

/-- The clocks are not set before the year 100. -/
def SetFromYear100 (zone : Offset) : Prop := ∀ t, t ≤ year100 → zone t = zone year100

variable {zone : Offset} {wallMs u v s t r : Int}

theorem setFromYear100_setOnce {c before after : Int} (h : year100 < c) :
    SetFromYear100 (setOnce c before after) := by
  intro t ht
  rw [setOnce, setOnce, if_pos (by omega), if_pos h]

theorem takenFor_of_year100_le (h100 : year100 ≤ wallMs) : TakenFor zone wallMs wallMs := by
  unfold TakenFor
  dsimp only
  rw [if_pos h100]

theorem TakenFor.unique (hu : TakenFor zone wallMs u) (hv : TakenFor zone wallMs v) : u = v := by
  unfold TakenFor at hu hv
  dsimp only at hu hv
  by_cases h100 : year100 ≤ wallMs
  · rw [if_pos h100] at hu hv
    exact hu.trans hv.symm
  · rw [if_neg h100] at hu hv
    split at hu
    · rename_i heq
      rw [if_pos heq] at hv
      exact hu.trans hv.symm
    · rename_i hne
      rw [if_neg hne] at hv
      exact hu.unique hv

/-! ### How a local time is misread -/

/-- By how many days the year that a year is read as starts later. -/
def yearGap (y : Int) : Int := dayFromYear (readYear y) - dayFromYear y

/-- What the leap days of both years make of it, from March on. -/
def leapGap (y : Int) : Int := (isLeap (readYear y)).toNat - ((isLeap y).toNat : Int)

theorem leapGap_mem (y : Int) : -1 ≤ leapGap y ∧ leapGap y ≤ 1 := by
  have hread := (isLeap (readYear y)).toNat_le
  have hleap := (isLeap y).toNat_le
  unfold leapGap
  omega

theorem monthStart_eq (leap : Bool) {m : Nat} (hm : m < 12) :
    monthStart leap m = monthStart false m + if 2 ≤ m then leap.toNat else 0 := by
  have hall : ∀ leap : Bool, ∀ m < 12,
      monthStart leap m = monthStart false m + if 2 ≤ m then leap.toNat else 0 := by decide
  exact hall leap m hm

theorem two_le_monthOf_iff (leap : Bool) {n : Nat} (hn : n < 365 + leap.toNat) :
    2 ≤ monthOf leap n ↔ 59 + leap.toNat ≤ n := by
  have hall : ∀ leap : Bool, ∀ n < 365 + leap.toNat,
      (2 ≤ monthOf leap n ↔ 59 + leap.toNat ≤ n) := by decide +kernel
  exact hall leap n hn

/-- **How a local time is misread** depends on its year, and on whether it is in March yet. -/
theorem misreading_eq (u : Int) : misreading u =
    (yearGap (getUTCFullYear u) +
      if 59 + ((isLeap (getUTCFullYear u)).toNat : Int) ≤ dayOf u - dayFromYear (getUTCFullYear u)
        then leapGap (getUTCFullYear u) else 0) * DAY_MS := by
  obtain ⟨hday, hlt⟩ := dayInYear_spec u
  obtain ⟨hm, -, -⟩ := monthOf_spec (isLeap (getUTCFullYear u)) hlt
  have hmarch := two_le_monthOf_iff _ hlt
  have hfields := day_of_fields u
  change getUTCMonth u < 12 at hm
  change 2 ≤ getUTCMonth u ↔ _ at hmarch
  have hread := monthStart_eq (isLeap (readYear (getUTCFullYear u))) hm
  have hleap := monthStart_eq (isLeap (getUTCFullYear u)) hm
  have hiff : 59 + ((isLeap (getUTCFullYear u)).toNat : Int) ≤
      dayOf u - dayFromYear (getUTCFullYear u) ↔ 2 ≤ getUTCMonth u := by omega
  rw [firstOfMonth_of_lt hm] at hfields
  rw [misreading, readLocal, firstOfMonth_of_lt hm, if_congr hiff rfl rfl, yearGap, leapGap, hread]
  rw [hleap] at hfields
  rw [dayOf_eq] at hfields
  rw [DAY_MS_eq]
  split at hfields <;> rename_i h <;> simp only [h, if_true, if_false] <;> push_cast at * <;> omega

/-- The years 1 to 99 are read in the twentieth century, whose leap years are alike. -/
theorem gaps_of_century {y : Int} (h₁ : 1 ≤ y) (h₂ : y < 100) :
    yearGap y = 693960 ∧ leapGap y = 0 := by
  have hall : ∀ n < 100, 1 ≤ n →
      yearGap ((n : Nat) : Int) = 693960 ∧ leapGap ((n : Nat) : Int) = 0 := by decide
  obtain ⟨n, rfl⟩ := Int.eq_ofNat_of_zero_le (show 0 ≤ y by omega)
  exact hall n (by omega) (by omega)

theorem readYear_of_lt {y : Int} (h : y ≤ -99) : readYear y = 1 - y := by
  unfold readYear fullYear shownYear
  split <;> split <;> omega

theorem readYear_of_neg {y : Int} (h : -99 < y) (h' : y < 1) : readYear y = 1901 - y := by
  unfold readYear fullYear shownYear
  split <;> split <;> omega

/-- Another year is misread by as many days as those of the first century only from it on. -/
theorem yearGap_ne {y : Int} (h : y < 1) : yearGap y < 693959 ∨ 693961 < yearGap y := by
  unfold yearGap
  by_cases h₁ : y ≤ -99
  · rw [readYear_of_lt h₁]
    by_cases h₂ : y ≤ -950
    · have hmono : dayFromYear 951 ≤ dayFromYear (1 - y) := dayFromYear_mono (by omega)
      have hmono' : dayFromYear y ≤ dayFromYear (-950) := dayFromYear_mono h₂
      rw [show dayFromYear 951 = -372182 by decide] at hmono
      rw [show dayFromYear (-950) = -1066508 by decide] at hmono'
      omega
    · have hmono : dayFromYear (1 - y) ≤ dayFromYear 950 := dayFromYear_mono (by omega)
      have hmono' : dayFromYear (-949) ≤ dayFromYear y := dayFromYear_mono (by omega)
      rw [show dayFromYear 950 = -372547 by decide] at hmono
      rw [show dayFromYear (-949) = -1066143 by decide] at hmono'
      omega
  · rw [readYear_of_neg (not_le.mp h₁) h]
    have hmono : dayFromYear 1901 ≤ dayFromYear (1901 - y) := dayFromYear_mono (by omega)
    have hmono' : dayFromYear y ≤ dayFromYear 0 := dayFromYear_mono (by omega)
    rw [show dayFromYear 1901 = -25202 by decide] at hmono
    rw [show dayFromYear 0 = -719528 by decide] at hmono'
    omega

/-- Before the year -98 each year is misread by less than the one before it. -/
theorem yearGap_lt {x y : Int} (h : x < y) (hy : y ≤ -99) : yearGap y + 3 ≤ yearGap x := by
  unfold yearGap
  rw [readYear_of_lt hy, readYear_of_lt (by omega)]
  have hmono : dayFromYear (x + 1) ≤ dayFromYear y := dayFromYear_mono (by omega)
  have hmono' : dayFromYear (1 - y + 1) ≤ dayFromYear (1 - x) := dayFromYear_mono (by omega)
  have hlength := year_length x
  have hlength' := year_length (1 - y)
  omega

theorem getUTCFullYear_mono (h : u ≤ v) : getUTCFullYear u ≤ getUTCFullYear v := by
  have hle := le_getUTCFullYear_iff.mp (le_refl (getUTCFullYear u))
  exact le_getUTCFullYear_iff.mpr (hle.trans h)

/-- **Local times that are misread alike** have no other between them, up to the year -99 and from
the year 1 to 99. -/
theorem alike_of_misreading_eq (hs : misreading s = misreading v)
    (hv : getUTCFullYear v ≤ -99 ∨ 1 ≤ getUTCFullYear v ∧ getUTCFullYear v < 100) : Alike s v := by
  intro t hst htv
  have hyear := getUTCFullYear_mono hst
  have hyear' := getUTCFullYear_mono htv
  have hday : dayOf s ≤ dayOf t := Int.ediv_le_ediv (by decide) hst
  have hday' : dayOf t ≤ dayOf v := Int.ediv_le_ediv (by decide) htv
  have hgap := leapGap_mem (getUTCFullYear s)
  have hgap' := leapGap_mem (getUTCFullYear v)
  rw [misreading_eq, misreading_eq] at hs ⊢
  have hpos := DAY_MS_pos
  have hs := Int.eq_of_mul_eq_mul_right hpos.ne' hs
  refine congrArg (· * DAY_MS) ?_
  generalize getUTCFullYear s = x at *
  generalize getUTCFullYear t = y at *
  generalize getUTCFullYear v = z at *
  rcases hv with hv | ⟨hv, hv'⟩
  · -- they are of one year, whose misreading is one up to February and one from March on
    obtain rfl : x = z := by
      by_contra hne
      have hlt := yearGap_lt (show x < z by omega) hv
      split at hs <;> split at hs <;> omega
    obtain rfl : y = x := by omega
    split at hs <;> split at hs <;> split <;> omega
  · obtain ⟨hz, hz'⟩ := gaps_of_century hv hv'
    have hx : 1 ≤ x := by
      by_contra hlt
      have hne := yearGap_ne (not_le.mp hlt)
      rw [hz, hz', ite_self] at hs
      split at hs <;> omega
    obtain ⟨hy, hy'⟩ := gaps_of_century (show 1 ≤ y by omega) (by omega)
    rw [hy, hy', hz, hz', ite_self, ite_self]

/-- What is misread is read later, and by so much that the wall time is before the year -98. -/
theorem lt_of_misreading (h : u < year100) :
    0 < misreading u ∧ u - misreading u + 2 * DAY_MS < dayFromYear (-98) * DAY_MS := by
  obtain ⟨hle, hlt⟩ := yearFromDay_spec (dayOf u)
  change dayFromYear (getUTCFullYear u) ≤ _ at hle
  change _ < dayFromYear (getUTCFullYear u + 1) at hlt
  have hmem := (readLocal_mem u).1
  have hyear : getUTCFullYear u < 100 := by
    by_contra hnot
    exact absurd (fromYear100_iff.mp (not_lt.mp hnot)) (not_le.mpr h)
  unfold misreading
  rw [dayOf_eq] at hle hlt
  rw [show dayFromYear (-98) = -755322 by decide]
  rw [year100_eq] at h
  rw [DAY_MS_eq] at hmem ⊢
  unfold readYear fullYear shownYear at hmem
  generalize getUTCFullYear u = y at *
  unfold dayFromYear at *
  split at hmem <;> split at hmem <;> omega

/-! ### What the bisection finds -/

theorem candidate_eq_misread {near c : Int} (h : candidate zone wallMs near = some c) :
    c = misread zone wallMs near - zone near ∧ InRange c := by
  obtain ⟨w, hw, rfl, -, hc⟩ := candidate_eq_some h
  have hread := (wallTimeOf_eq_some hw).2
  have hlocal := localTime_eq zone near
  refine ⟨?_, hc⟩
  rw [misread, misreading]
  omega

theorem offsetAt_early (hz : WithinDay zone) (ht : InRange t) (h : localTime zone t < year100) :
    offsetAt zone t = some (misreading (localTime zone t) + zone t) := by
  rw [offsetAt, wallTimeOf_early hz ht (by rwa [fromYear100_iff, not_le]), Option.map_some,
    misreading]
  have hlocal := localTime_eq zone t
  congr 1
  omega

/-- Clocks that have not been set show a time first at the instant that has its offset. -/
theorem isLeast_reached_of_constant (h : ∀ t, t ≤ r → zone t = zone r) :
    IsLeast (reached zone (localTime zone r)) r := by
  refine ⟨le_refl (localTime zone r), fun t ht => ?_⟩
  by_contra hlt
  change localTime zone r ≤ localTime zone t at ht
  rw [localTime_eq, localTime_eq, h t (by omega)] at ht
  omega

/-- The later of the two times is before the year -98, or in the last days of the year 99. -/
theorem max_misread (hz : WithinDay zone) (hearly : wallMs < year100)
    (hsame : ∀ t, t ≤ year100 + DAY_MS → zone t = zone year100) {v : Int}
    (hv : v = max (misread zone wallMs (wallMs - DAY_MS))
      (misread zone wallMs (wallMs + DAY_MS))) :
    v < year100 ∧
      (getUTCFullYear v ≤ -99 ∨ 1 ≤ getUTCFullYear v ∧ getUTCFullYear v < 100) := by
  have hzone := hz year100
  have hfirst := localTime_eq zone (wallMs - DAY_MS)
  have hsecond := localTime_eq zone (wallMs + DAY_MS)
  rw [hsame _ (by omega)] at hfirst hsecond
  have hone := (lt_of_misreading (u := localTime zone (wallMs - DAY_MS)) (by omega)).2
  have hyear := year100_eq
  have hday := DAY_MS_eq
  have h98 : dayFromYear (-98) * DAY_MS = -65259820800000 := by decide
  unfold misread at hv
  by_cases hlate : localTime zone (wallMs + DAY_MS) < year100
  · have htwo := (lt_of_misreading hlate).2
    have hold : v < dayFromYear (-98) * DAY_MS := by
      rw [hv]
      exact max_lt (by omega) (by omega)
    refine ⟨by omega, .inl ?_⟩
    by_contra hnot
    exact absurd (le_getUTCFullYear_iff.mp (show -98 ≤ getUTCFullYear v by omega))
      (not_le.mpr hold)
  · have hread := readLocal_of_fromYear100 (fromYear100_iff.mpr (not_lt.mp hlate))
    have hzero : misreading (localTime zone (wallMs + DAY_MS)) = 0 := by
      rw [misreading, hread]
      omega
    rw [hzero] at hv
    obtain rfl : v = wallMs := by
      rw [hv]
      exact (max_eq_right (by omega)).trans (Int.sub_zero _)
    have h1 : dayFromYear 1 * DAY_MS = -62135596800000 := by decide
    refine ⟨hearly, .inr ⟨le_getUTCFullYear_iff.mpr (by omega), ?_⟩⟩
    by_contra hnot
    exact absurd (fromYear100_iff.mp (not_lt.mp hnot)) (not_le.mpr hearly)

/-- Two instants with one offset, before the year 100, have what is read alike where their local
times are misread alike. -/
theorem sameOffset_iff (hz : WithinDay zone) (hs : InRange s) (ht : InRange t)
    (hs' : localTime zone s < year100) (ht' : localTime zone t < year100)
    (hsame : zone s = zone t) : sameOffset zone (offsetAt zone t) s = true ↔
      misreading (localTime zone s) = misreading (localTime zone t) := by
  rw [sameOffset, offsetAt_early hz hs hs', offsetAt_early hz ht ht', hsame, Option.isSome_some,
    Bool.true_and, decide_eq_true_eq, Option.some.injEq]
  exact Int.add_left_inj _

/-- **The bisection** finds the first local time from which on all are misread as the last is. -/
theorem isLeast_bisect_early {lo hi : Int} (hz : WithinDay zone) (hlt : lo < hi)
    (hlo : InRange lo) (hhi : InRange hi) (hsame : ∀ t, t ≤ hi → zone t = zone hi)
    (hv : localTime zone hi < year100)
    (hyear : getUTCFullYear (localTime zone hi) ≤ -99 ∨
      1 ≤ getUTCFullYear (localTime zone hi) ∧ getUTCFullYear (localTime zone hi) < 100) :
    IsLeast {s | localTime zone lo < s ∧ Alike s (localTime zone hi)}
      (localTime zone (bisect (sameOffset zone (offsetAt zone hi)) lo hi)) := by
  have hlocal : ∀ t, t ≤ hi → localTime zone t = t + zone hi := fun t ht => by
    rw [localTime_eq, hsame t ht]
  have hp : ∀ t, lo ≤ t → t ≤ hi → (sameOffset zone (offsetAt zone hi) t = true ↔
      misreading (localTime zone t) = misreading (localTime zone hi)) := by
    intro t ht ht'
    have hin : InRange t := ⟨hlo.1.trans ht, ht'.trans hhi.2⟩
    have hearly : localTime zone t < year100 := by
      rw [hlocal hi le_rfl] at hv
      rw [hlocal t ht']
      omega
    exact sameOffset_iff hz hin hhi hearly hv (hsame t ht')
  have hconnected : ∀ s t, lo < s → s ≤ t → t ≤ hi →
      sameOffset zone (offsetAt zone hi) s = true →
      sameOffset zone (offsetAt zone hi) t = true := by
    intro s t hs hst ht hps
    have halike := alike_of_misreading_eq ((hp s hs.le (hst.trans ht)).mp hps) hyear
    refine (hp t (hs.le.trans hst) ht).mpr (halike _ ?_ ?_)
    · rw [hlocal s (hst.trans ht), hlocal t ht]
      omega
    · rw [hlocal t ht, hlocal hi le_rfl]
      omega
  obtain ⟨⟨hr, hr', hfound⟩, hleast⟩ :=
    isLeast_bisect hlt ((hp hi hlt.le le_rfl).mpr rfl) hconnected
  generalize bisect (sameOffset zone (offsetAt zone hi)) lo hi = r at *
  have hfirst : localTime zone lo < localTime zone r := by
    rw [hlocal lo hlt.le, hlocal r hr']
    omega
  refine ⟨⟨hfirst, alike_of_misreading_eq ((hp r hr.le hr').mp hfound) hyear⟩, fun s hs => ?_⟩
  have hlos := hs.1
  rw [hlocal lo hlt.le] at hlos
  have hlast := hlocal hi le_rfl
  rw [hlocal r hr']
  by_cases hle : s ≤ localTime zone hi
  · have hback : localTime zone (s - zone hi) = s := by
      rw [hlocal _ (by omega)]
      omega
    have hps : sameOffset zone (offsetAt zone hi) (s - zone hi) = true := by
      refine (hp _ (by omega) (by omega)).mpr ?_
      rw [hback]
      exact hs.2 s le_rfl hle
    have hmem : s - zone hi ∈
        {t | lo < t ∧ t ≤ hi ∧ sameOffset zone (offsetAt zone hi) t = true} :=
      ⟨by omega, by omega, hps⟩
    have hfound := hleast hmem
    omega
  · omega

/-- Neither candidate shows a wall time before the year 100. -/
theorem instantOf_eq_bisect {first second : Int} (hearly : wallMs < year100)
    (hfirst : candidate zone wallMs (wallMs - DAY_MS) = some first)
    (hsecond : candidate zone wallMs (wallMs + DAY_MS) = some second) :
    instantOf zone wallMs = some (bisect (sameOffset zone (offsetAt zone (max first second)))
      (min first second) (max first second)) := by
  have hnone : ([first, second].filter fun c => wallTimeOf zone c = some wallMs) = [] := by
    refine List.filter_eq_nil_iff.mpr fun c _ hc => ?_
    have hread := year100_le_wallTimeOf (of_decide_eq_true hc)
    omega
  rw [instantOf, hfirst, hsecond]
  dsimp only [Option.bind_eq_bind, Option.bind_some, Option.pure_def]
  rw [hnone]
  rfl

/-- **Of a wall time before the year 100** the first instant is given that shows what it is taken
for. -/
theorem isLeast_instantOf_early (hz : WithinDay zone) (he : SetFromYear100 zone)
    (hs : Settled zone) (hearly : wallMs < year100) (h : instantOf zone wallMs = some r) :
    ∃ u, TakenFor zone wallMs u ∧ IsLeast (reached zone u) r := by
  have hday := DAY_MS_pos
  have hzone := hz year100
  have hsame : ∀ t, t ≤ year100 + DAY_MS → zone t = zone year100 := by
    intro t ht
    by_cases hle : t ≤ year100
    · exact he t hle
    · exact hs.1 t (by omega) (by omega)
  obtain ⟨first, second, hfirst, hsecond, hlo, hhi⟩ := instantOf_eq_some h
  obtain ⟨hone, hin⟩ := candidate_eq_misread hfirst
  obtain ⟨htwo, hin'⟩ := candidate_eq_misread hsecond
  rw [instantOf_eq_bisect hearly hfirst hsecond] at h
  have hr := Option.some.inj h
  rw [hsame _ (by omega)] at hone htwo
  obtain ⟨hv, hyear⟩ := max_misread hz hearly hsame rfl
  have hreached : IsLeast (reached zone (localTime zone r)) r :=
    isLeast_reached_of_constant fun t ht => by
      rw [hsame t (by omega), hsame r (by omega)]
  refine ⟨localTime zone r, ?_, hreached⟩
  unfold TakenFor
  dsimp only
  rw [if_neg (not_le.mpr hearly)]
  generalize misread zone wallMs (wallMs - DAY_MS) = early at *
  generalize misread zone wallMs (wallMs + DAY_MS) = late at *
  have hlocal : ∀ t, t ≤ max first second → localTime zone t = t + zone year100 := fun t ht => by
    rw [localTime_eq, hsame t (by omega)]
  split
  · rename_i heq
    obtain rfl : second = first := by omega
    rw [min_self, max_self, bisect_self] at hr
    rw [hlocal r hhi]
    omega
  · have hmin : localTime zone (min first second) = min early late := by
      rw [hlocal _ min_le_max]
      omega
    have hmax : localTime zone (max first second) = max early late := by
      rw [hlocal _ le_rfl]
      omega
    have hleast := isLeast_bisect_early hz (show min first second < max first second by omega)
      ⟨le_min hin.1 hin'.1, (min_le_left _ _).trans hin.2⟩
      ⟨hin.1.trans (le_max_left _ _), max_le hin.2 hin'.2⟩
      (fun t ht => (hsame t (by omega)).trans (hsame _ (by omega)).symm) (by rw [hmax]; exact hv)
      (by rw [hmax]; exact hyear)
    rw [hr, hmin, hmax] at hleast
    exact hleast

/-- **Of a wall time** the first instant is given that shows what it is taken for, or a later
time. -/
theorem isLeast_instantOf (hz : WithinDay zone) (hone : OneChangeNear zone wallMs)
    (hs : Settled zone) (he : SetFromYear100 zone) (h : instantOf zone wallMs = some r) :
    ∃ u, TakenFor zone wallMs u ∧ IsLeast (reached zone u) r := by
  by_cases h100 : year100 ≤ wallMs
  · refine ⟨wallMs, takenFor_of_year100_le h100, ?_⟩
    rw [instantOf_settled hz hs h100 h]
    exact isLeast_localInstant hz hone
  · exact isLeast_instantOf_early hz he hs (not_le.mp h100) h

end LakiraBackend.Analytics
