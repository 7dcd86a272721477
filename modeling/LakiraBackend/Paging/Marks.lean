import LakiraBackend.Paging.Keyset

/-!
# Pages that start at a mark

A page may be followed from what is kept of its last row, `mark`, rather than from the key.  Over
rows that stand still, the pages are all the rows in order just where the mark of each page's last
row separates it from the next one (`pages_iff`).
-/

namespace LakiraBackend.Paging

variable {Row K : Type} [LinearOrder K] (key mark : Row → K) (rows : List Row) (limit : Nat)

/-- Page after page, each after the mark of the row before it. -/
inductive Pages : Option K → List Row → Prop
  | last {after : Option K} : (found key rows after).length ≤ limit →
      Pages after (found key rows after)
  | more {after : Option K} {r : Row} {out : List Row} : limit < (found key rows after).length →
      ((found key rows after).take limit).getLast? = some r → Pages (some (mark r)) out →
      Pages after ((found key rows after).take limit ++ out)

/-- Where a page ends, the mark of its last row is not before that row, and before the next. -/
def Separates (sorted : List Row) : Prop :=
  ∀ before r s rest, sorted = before ++ r :: s :: rest → limit ∣ before.length + 1 →
    key r ≤ mark r ∧ mark r < key s

variable {key mark rows limit} {after : Option K} {out : List Row}

theorem Pages.unique {out' : List Row} (h : Pages key mark rows limit after out)
    (h' : Pages key mark rows limit after out') : out = out' := by
  induction h generalizing out' with
  | last hlast =>
    cases h' with
    | last _ => rfl
    | more hmore _ _ => exact absurd hlast (Nat.not_le_of_lt hmore)
  | more hmore hr _ ih =>
    cases h' with
    | last hlast => exact absurd hlast (Nat.not_le_of_lt hmore)
    | more _ hr' hpages =>
      obtain rfl := Option.some.inj (hr.symm.trans hr')
      rw [ih hpages]

theorem Pages.mem (h : Pages key mark rows limit after out) {r : Row} (hr : r ∈ out) : r ∈ rows := by
  induction h with
  | last _ => exact (mem_found.mp hr).1
  | more _ _ _ ih =>
    rcases List.mem_append.mp hr with hr | hr
    · exact (mem_found.mp (List.mem_of_mem_take hr)).1
    · exact ih hr

/-- The pages start with the first row that is found. -/
theorem Pages.head? (hlimit : 0 < limit) (h : Pages key mark rows limit after out) :
    out.head? = (found key rows after).head? := by
  cases h with
  | last _ => rfl
  | more hmore hr _ =>
    cases hfound : found key rows after with
    | nil =>
      rw [hfound] at hmore
      cases hmore
    | cons r rest =>
      obtain ⟨n, rfl⟩ : ∃ n, limit = n + 1 := ⟨limit - 1, by omega⟩
      rfl

/-- The rows after a position that splits them. -/
theorem found_of_split (hkeys : (rows.map key).Nodup) {before rest : List Row} {k : K}
    (hsorted : found key rows none = before ++ rest) (hbefore : ∀ r ∈ before, key r ≤ k)
    (hrest : ∀ r ∈ rest, k < key r) : found key rows (some k) = rest := by
  have hpair := pairwise_found none hkeys
  rw [hsorted, List.pairwise_append] at hpair
  have hasymm : ∀ a b : Row, a ∈ found key rows (some k) → b ∈ rest → key a < key b →
      key b < key a → a = b := fun a b _ _ h h' => absurd h' (lt_asymm h)
  refine List.Perm.eq_of_pairwise hasymm (pairwise_found _ hkeys) hpair.2.1 ?_
  have hnodup : (found key rows (some k)).Nodup := by
    refine (pairwise_found _ hkeys).imp fun h heq => ?_
    exact ne_of_lt h (congrArg key heq)
  have hnodup' : rest.Nodup := hpair.2.1.imp fun h heq => ne_of_lt h (congrArg key heq)
  refine (List.perm_ext_iff_of_nodup hnodup hnodup').mpr fun r => ?_
  rw [mem_found, follows, decide_eq_true_eq]
  have hmem : r ∈ rows ↔ r ∈ before ++ rest := by
    rw [← hsorted, mem_found]
    exact ⟨fun h => ⟨h, rfl⟩, fun h => h.1⟩
  constructor
  · rintro ⟨hr, hlt⟩
    rcases List.mem_append.mp (hmem.mp hr) with hr | hr
    · exact absurd hlt (not_lt_of_ge (hbefore r hr))
    · exact hr
  · exact fun hr => ⟨hmem.mpr (List.mem_append_right _ hr), hrest r hr⟩

/-- A first page that is not the last one: its last row, and the one after it. -/
theorem exists_boundary {l : List Row} (hlimit : 0 < limit) (hmore : limit < l.length) :
    ∃ init r s rest, l.take limit = init ++ [r] ∧ l.drop limit = s :: rest ∧
      l = init ++ r :: s :: rest ∧ init.length + 1 = limit := by
  have htake : l.take limit ≠ [] := by
    intro h
    have := congrArg List.length h
    rw [List.length_take, List.length_nil] at this
    omega
  have hdrop : l.drop limit ≠ [] := by
    intro h
    have := List.drop_eq_nil_iff.mp h
    omega
  obtain ⟨init, r, hinit⟩ := (List.eq_nil_or_concat (l.take limit)).resolve_left htake
  obtain ⟨s, rest, hrest⟩ := List.exists_cons_of_ne_nil hdrop
  rw [List.concat_eq_append] at hinit
  refine ⟨init, r, s, rest, hinit, hrest, ?_, ?_⟩
  · rw [← List.take_append_drop limit l, hinit, hrest, List.append_assoc]
    rfl
  · have := congrArg List.length hinit
    rw [List.length_take, List.length_append, List.length_singleton] at this
    omega

/-- A row after a boundary, and the rows before it, on either side of a mark between. -/
theorem found_of_boundary (hkeys : (rows.map key).Nodup) {init rest : List Row} {r s : Row} {k : K}
    (hsorted : found key rows none = init ++ r :: s :: rest) (hle : key r ≤ k) (hlt : k < key s) :
    found key rows (some k) = s :: rest := by
  have hpair := pairwise_found none hkeys
  rw [hsorted, List.pairwise_append, List.pairwise_cons, List.pairwise_cons] at hpair
  obtain ⟨-, ⟨-, hrest, -⟩, hinit⟩ := hpair
  have hsplit : found key rows none = (init ++ [r]) ++ s :: rest := by
    rw [hsorted, List.append_assoc]
    rfl
  refine found_of_split hkeys hsplit ?_ ?_
  · intro x hx
    rcases List.mem_append.mp hx with hx | hx
    · exact le_trans (le_of_lt (hinit x hx r List.mem_cons_self)) hle
    · rw [List.mem_singleton.mp hx]
      exact hle
  · exact List.forall_mem_cons.mpr ⟨hlt, fun x hx => lt_trans hlt (hrest x hx)⟩

/-- Where the marks separate the pages, these are the rows in order, -/
theorem pages_of_separates (hkeys : (rows.map key).Nodup) (hlimit : 0 < limit)
    (hsep : Separates key mark limit (found key rows none)) {rest : List Row} :
    ∀ {before : List Row} {after : Option K}, found key rows after = rest →
      found key rows none = before ++ rest → limit ∣ before.length →
      Pages key mark rows limit after rest := by
  induction hn : rest.length using Nat.strongRecOn generalizing rest with
  | ind n ih =>
    rintro before after rfl hsorted hdvd
    by_cases hmore : limit < (found key rows after).length
    · obtain ⟨init, r, s, rest, htake, hdrop, heq, hlength⟩ := exists_boundary hlimit hmore
      have hwhole : found key rows none = (before ++ init) ++ r :: s :: rest := by
        rw [hsorted, heq, List.append_assoc]
      have hend : limit ∣ (before ++ init).length + 1 := by
        rw [List.length_append, Nat.add_assoc, hlength]
        exact Nat.dvd_add hdvd (Nat.dvd_refl limit)
      obtain ⟨hle, hlt⟩ := hsep _ r s rest hwhole hend
      have hpages := ih (s :: rest).length (by rw [← hn, heq]; simp; omega) rfl
        (found_of_boundary hkeys hwhole hle hlt)
        (show found key rows none = (before ++ init ++ [r]) ++ s :: rest by rw [hwhole]; simp)
        (by rwa [List.length_append, List.length_singleton])
      rw [← List.take_append_drop limit (found key rows after), hdrop]
      exact .more hmore (by rw [htake, List.getLast?_concat]) hpages
    · exact .last (Nat.not_lt.mp hmore)

/-- and where the pages are the rows in order, the marks separate them. -/
theorem separates_of_pages (hkeys : (rows.map key).Nodup) (hlimit : 0 < limit)
    (h : Pages key mark rows limit after out) : ∀ {before : List Row}, found key rows after = out →
      found key rows none = before ++ out → limit ∣ before.length →
      Separates key mark limit out := by
  induction h with
  | last hlast =>
    intro before _ _ _ init r s rest heq hdvd
    rw [heq, List.length_append, List.length_cons, List.length_cons] at hlast
    have := Nat.le_of_dvd (Nat.succ_pos _) hdvd
    omega
  | @more after r out hmore hr hpages ih =>
    intro before hout hsorted hdvd
    obtain ⟨init, r', s, rest, htake, hdrop, heq, hlength⟩ := exists_boundary hlimit hmore
    obtain rfl : r' = r := by
      rw [htake, List.getLast?_concat] at hr
      exact Option.some.inj hr
    have hout' : out = s :: rest := by
      have hsplit := (List.take_append_drop limit (found key rows after)).trans hout
      exact (List.append_cancel_left hsplit).symm.trans hdrop
    subst hout'
    have hwhole : found key rows none = (before ++ init) ++ r' :: s :: rest := by
      rw [hsorted, htake, List.append_assoc, List.append_assoc]
      rfl
    have hpair := pairwise_found none hkeys
    rw [hwhole, List.pairwise_append, List.pairwise_cons] at hpair
    have hnext : key r' < key s := hpair.2.1.1 s List.mem_cons_self
    have hhead := hpages.head? hlimit
    rw [List.head?_cons] at hhead
    -- the next page starts with what comes first after the mark
    have hlt : mark r' < key s :=
      of_decide_eq_true (mem_found.mp (List.mem_of_mem_head? hhead.symm)).2
    have hle : key r' ≤ mark r' := by
      by_contra hnot
      have hmem : r' ∈ found key rows (some (mark r')) := by
        refine mem_found.mpr ⟨?_, decide_eq_true (not_le.mp hnot)⟩
        exact (mem_found.mp (hwhole ▸ List.mem_append_right _ List.mem_cons_self)).1
      obtain ⟨tail, htail⟩ := List.head?_eq_some_iff.mp hhead.symm
      have hfirst := pairwise_found (some (mark r')) hkeys
      rw [htail, List.pairwise_cons] at hfirst
      rw [htail] at hmem
      rcases List.mem_cons.mp hmem with heq | hmem
      · exact absurd (congrArg key heq) (ne_of_lt hnext)
      · exact lt_asymm hnext (hfirst.1 r' hmem)
    have hend : limit ∣ (before ++ init ++ [r']).length := by
      rw [List.length_append, List.length_append, List.length_singleton, Nat.add_assoc, hlength]
      exact Nat.dvd_add hdvd (Nat.dvd_refl limit)
    have hsplit : found key rows none = (before ++ init ++ [r']) ++ s :: rest := by
      rw [hwhole, List.append_assoc _ [r']]
      rfl
    have hsep := ih (found_of_boundary hkeys hwhole hle hlt) hsplit hend
    intro init' x y rest' heq' hdvd'
    rw [htake, List.append_assoc, List.singleton_append] at heq'
    by_cases hfirst : init'.length + 1 = limit
    · obtain ⟨-, hcons⟩ := List.append_inj heq' (by omega)
      obtain ⟨rfl, htail⟩ := List.cons.inj hcons
      obtain ⟨rfl, -⟩ := List.cons.inj htail
      exact ⟨hle, hlt⟩
    · have hge : limit ≤ init'.length := by
        have := Nat.le_of_dvd (Nat.succ_pos _) hdvd'
        omega
      have hlater := congrArg (List.drop limit) heq'
      have hfront : (init ++ r' :: s :: rest).drop limit = s :: rest := by
        rw [← heq, hdrop]
      rw [hfront, List.drop_append_of_le_length hge] at hlater
      refine hsep _ x y rest' hlater ?_
      rw [List.length_drop, show init'.length - limit + 1 = init'.length + 1 - limit by omega]
      exact Nat.dvd_sub hdvd' (Nat.dvd_refl limit)

/-- **The pages are the rows in order just where the marks separate them.** -/
theorem pages_iff (hkeys : (rows.map key).Nodup) (hlimit : 0 < limit) :
    Pages key mark rows limit none (found key rows none) ↔
      Separates key mark limit (found key rows none) :=
  ⟨fun h => separates_of_pages hkeys hlimit h rfl (List.nil_append _).symm (Nat.dvd_zero limit),
    fun h => pages_of_separates hkeys hlimit h rfl (List.nil_append _).symm (Nat.dvd_zero limit)⟩

/-- The keys themselves do. -/
theorem separates_key (hkeys : (rows.map key).Nodup) :
    Separates key key limit (found key rows none) := by
  intro before r s rest hsorted _
  have hpair := pairwise_found none hkeys
  rw [hsorted, List.pairwise_append, List.pairwise_cons] at hpair
  exact ⟨le_refl _, hpair.2.1.1 s List.mem_cons_self⟩

end LakiraBackend.Paging
