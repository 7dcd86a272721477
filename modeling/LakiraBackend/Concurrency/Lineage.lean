import Mathlib.Data.List.Pairwise
import Mathlib.Data.List.Nodup
import Mathlib.Logic.Relation

/-!
# Families of rows that replace one another

A table whose rows come in families.  A row is live or retired, and a retired
row may name the row that replaced it.  `Lineage.Wf` says that every family is
one chain with at most one live row, and the three ways such a table grows keep
it: a new family (`Wf.root`), a live row replaced by a new one (`Wf.extend`), and
rows retired (`Wf.retire`).

The rows are in the order they were added.  A row is older than the one that
replaced it, and so no chain comes back to where it started (`Wf.acyclic`).
-/

namespace LakiraBackend.Concurrency

structure Lineage (ρ ι φ υ : Type) where
  id : ρ → ι
  family : ρ → φ
  owner : ρ → υ
  live : ρ → Bool
  /-- The row that replaced this one. -/
  next : ρ → Option ι

namespace Lineage

variable {ρ ι φ υ : Type} (L : Lineage ρ ι φ υ)

structure Wf (rows : List ρ) : Prop where
  nodup : (rows.map L.id).Nodup
  owner_eq : ∀ a ∈ rows, ∀ b ∈ rows, L.family a = L.family b → L.owner a = L.owner b
  live_unique : ∀ a ∈ rows, ∀ b ∈ rows, L.live a = true → L.live b = true →
    L.family a = L.family b → a = b
  next_retired : ∀ a ∈ rows, L.next a ≠ none → L.live a = false
  next_mem : ∀ a ∈ rows, ∀ x, L.next a = some x →
    ∃ b ∈ rows, L.id b = x ∧ L.family b = L.family a
  next_inj : ∀ a ∈ rows, ∀ b ∈ rows, L.next a = L.next b → L.next a ≠ none → a = b
  next_ne : ∀ a ∈ rows, L.next a ≠ some (L.id a)
  forward : rows.Pairwise fun a b => L.next b ≠ some (L.id a)
  root_unique : ∀ a ∈ rows, ∀ b ∈ rows, L.family a = L.family b →
    (∀ c ∈ rows, L.next c ≠ some (L.id a)) → (∀ c ∈ rows, L.next c ≠ some (L.id b)) → a = b

/-- `b` replaced `a`. -/
def Replaced (rows : List ρ) (a b : ρ) : Prop := a ∈ rows ∧ b ∈ rows ∧ L.next a = some (L.id b)

variable {L} {rows : List ρ}

theorem Wf.nil : L.Wf [] where
  nodup := List.nodup_nil
  owner_eq := fun _ h => nomatch h
  live_unique := fun _ h => nomatch h
  next_retired := fun _ h => nomatch h
  next_mem := fun _ h => nomatch h
  next_inj := fun _ h => nomatch h
  next_ne := fun _ h => nomatch h
  forward := List.Pairwise.nil
  root_unique := fun _ h => nomatch h

theorem Wf.eq_of_id (h : L.Wf rows) {a b : ρ} (ha : a ∈ rows) (hb : b ∈ rows)
    (hid : L.id a = L.id b) : a = b :=
  List.inj_on_of_nodup_map h.nodup ha hb hid

theorem Wf.getElem_idxOf [DecidableEq ι] (h : L.Wf rows) {a : ρ} (ha : a ∈ rows) :
    ∃ hi : (rows.map L.id).idxOf (L.id a) < rows.length,
      rows[(rows.map L.id).idxOf (L.id a)] = a := by
  have hlt := List.idxOf_lt_length_of_mem (List.mem_map_of_mem (f := L.id) ha)
  have hi : (rows.map L.id).idxOf (L.id a) < rows.length := by simpa using hlt
  refine ⟨hi, h.eq_of_id (List.getElem_mem hi) ha ?_⟩
  rw [← List.getElem_map L.id (h := hlt), List.getElem_idxOf]

/-- A row is before the one that replaced it. -/
theorem Wf.idxOf_lt [DecidableEq ι] (h : L.Wf rows) {a b : ρ} (hr : L.Replaced rows a b) :
    (rows.map L.id).idxOf (L.id a) < (rows.map L.id).idxOf (L.id b) := by
  obtain ⟨ha, hb, hn⟩ := hr
  obtain ⟨hia, hga⟩ := h.getElem_idxOf ha
  obtain ⟨hib, hgb⟩ := h.getElem_idxOf hb
  rcases Nat.lt_trichotomy ((rows.map L.id).idxOf (L.id a)) ((rows.map L.id).idxOf (L.id b))
    with hlt | heq | hgt
  · exact hlt
  · have hab : a = b := by rw [← hga, ← hgb]; simp only [heq]
    exact absurd (hab ▸ hn) (h.next_ne b hb)
  · have hp := List.pairwise_iff_getElem.mp h.forward _ _ hib hia hgt
    rw [hga, hgb] at hp
    exact absurd hn hp

/-- **No chain comes back to where it started.** -/
theorem Wf.acyclic [DecidableEq ι] (h : L.Wf rows) (a : ρ) :
    ¬ Relation.TransGen (L.Replaced rows) a a := by
  have hlt : ∀ {a b}, Relation.TransGen (L.Replaced rows) a b →
      (rows.map L.id).idxOf (L.id a) < (rows.map L.id).idxOf (L.id b) := by
    intro a b hab
    induction hab with
    | single hr => exact h.idxOf_lt hr
    | tail _ hr ih => exact Nat.lt_trans ih (h.idxOf_lt hr)
  exact fun haa => Nat.lt_irrefl _ (hlt haa)

/-! ### How the table grows -/

/-- **A new family.** -/
theorem Wf.root (h : L.Wf rows) {r : ρ} (hid : ∀ a ∈ rows, L.id a ≠ L.id r)
    (hfam : ∀ a ∈ rows, L.family a ≠ L.family r) (hnext : L.next r = none) :
    L.Wf (rows ++ [r]) := by
  have hno : ∀ c ∈ rows ++ [r], L.next c ≠ some (L.id r) := by
    intro c hc hcn
    rcases List.mem_append.mp hc with hc | hc
    · obtain ⟨b, hb, hbid, _⟩ := h.next_mem c hc _ hcn
      exact hid b hb hbid
    · rw [List.mem_singleton.mp hc, hnext] at hcn
      cases hcn
  constructor
  case nodup =>
    rw [List.map_append, List.nodup_append]
    refine ⟨h.nodup, by simp, fun x hx y hy => ?_⟩
    obtain ⟨a, ha, rfl⟩ := List.mem_map.mp hx
    obtain ⟨b, hb, rfl⟩ := List.mem_map.mp hy
    rw [List.mem_singleton.mp hb]
    exact hid a ha
  case owner_eq =>
    intro a ha b hb hf
    rcases List.mem_append.mp ha with ha | ha <;> rcases List.mem_append.mp hb with hb | hb
    · exact h.owner_eq a ha b hb hf
    · rw [List.mem_singleton.mp hb] at hf; exact absurd hf (hfam a ha)
    · rw [List.mem_singleton.mp ha] at hf; exact absurd hf.symm (hfam b hb)
    · rw [List.mem_singleton.mp ha, List.mem_singleton.mp hb]
  case live_unique =>
    intro a ha b hb hla hlb hf
    rcases List.mem_append.mp ha with ha | ha <;> rcases List.mem_append.mp hb with hb | hb
    · exact h.live_unique a ha b hb hla hlb hf
    · rw [List.mem_singleton.mp hb] at hf; exact absurd hf (hfam a ha)
    · rw [List.mem_singleton.mp ha] at hf; exact absurd hf.symm (hfam b hb)
    · rw [List.mem_singleton.mp ha, List.mem_singleton.mp hb]
  case next_retired =>
    intro a ha hn
    rcases List.mem_append.mp ha with ha | ha
    · exact h.next_retired a ha hn
    · rw [List.mem_singleton.mp ha] at hn; exact absurd hnext hn
  case next_mem =>
    intro a ha x hx
    rcases List.mem_append.mp ha with ha | ha
    · obtain ⟨b, hb, hbx⟩ := h.next_mem a ha x hx
      exact ⟨b, List.mem_append_left _ hb, hbx⟩
    · rw [List.mem_singleton.mp ha, hnext] at hx; cases hx
  case next_inj =>
    intro a ha b hb hn hne
    rcases List.mem_append.mp ha with ha | ha <;> rcases List.mem_append.mp hb with hb | hb
    · exact h.next_inj a ha b hb hn hne
    · rw [List.mem_singleton.mp hb, hnext] at hn; exact absurd hn hne
    · rw [List.mem_singleton.mp ha] at hne; exact absurd hnext hne
    · rw [List.mem_singleton.mp ha, List.mem_singleton.mp hb]
  case next_ne =>
    intro a ha hn
    rcases List.mem_append.mp ha with ha' | ha'
    · exact h.next_ne a ha' hn
    · rw [List.mem_singleton.mp ha', hnext] at hn; cases hn
  case forward =>
    rw [List.pairwise_append]
    refine ⟨h.forward, List.pairwise_singleton _ _, fun a _ b hb => ?_⟩
    rw [List.mem_singleton.mp hb, hnext]
    exact fun hn => nomatch hn
  case root_unique =>
    intro a ha b hb hf hna hnb
    rcases List.mem_append.mp ha with ha | ha <;> rcases List.mem_append.mp hb with hb | hb
    · exact h.root_unique a ha b hb hf (fun c hc => hna c (List.mem_append_left _ hc))
        fun c hc => hnb c (List.mem_append_left _ hc)
    · rw [List.mem_singleton.mp hb] at hf; exact absurd hf (hfam a ha)
    · rw [List.mem_singleton.mp ha] at hf; exact absurd hf.symm (hfam b hb)
    · rw [List.mem_singleton.mp ha, List.mem_singleton.mp hb]

/-- **Rows retired.**  A map that changes no row but to retire it. -/
theorem Wf.retire (h : L.Wf rows) {f : ρ → ρ} (hid : ∀ a, L.id (f a) = L.id a)
    (hfam : ∀ a, L.family (f a) = L.family a) (hown : ∀ a, L.owner (f a) = L.owner a)
    (hnext : ∀ a, L.next (f a) = L.next a) (hlive : ∀ a, L.live (f a) = true → f a = a) :
    L.Wf (rows.map f) := by
  constructor
  case nodup =>
    have : (rows.map f).map L.id = rows.map L.id := by
      rw [List.map_map]
      exact List.map_congr_left fun a _ => hid a
    rw [this]
    exact h.nodup
  case owner_eq =>
    intro a' ha' b' hb' hf
    obtain ⟨a, ha, rfl⟩ := List.mem_map.mp ha'
    obtain ⟨b, hb, rfl⟩ := List.mem_map.mp hb'
    rw [hown, hown]
    exact h.owner_eq a ha b hb (by rwa [hfam, hfam] at hf)
  case live_unique =>
    intro a' ha' b' hb' hla hlb hf
    obtain ⟨a, ha, rfl⟩ := List.mem_map.mp ha'
    obtain ⟨b, hb, rfl⟩ := List.mem_map.mp hb'
    have hfa := hlive a hla
    have hfb := hlive b hlb
    rw [hfa] at hla hf ⊢
    rw [hfb] at hlb hf ⊢
    exact h.live_unique a ha b hb hla hlb hf
  case next_retired =>
    intro a' ha' hn
    obtain ⟨a, ha, rfl⟩ := List.mem_map.mp ha'
    cases hl : L.live (f a) with
    | false => rfl
    | true =>
      have hold := h.next_retired a ha (by rwa [hnext] at hn)
      have hfa := hlive a hl
      rw [hfa, hold] at hl
      cases hl
  case next_mem =>
    intro a' ha' x hx
    obtain ⟨a, ha, rfl⟩ := List.mem_map.mp ha'
    rw [hnext] at hx
    obtain ⟨b, hb, hbx, hbf⟩ := h.next_mem a ha x hx
    exact ⟨f b, List.mem_map_of_mem hb, by rw [hid, hbx], by rw [hfam, hfam, hbf]⟩
  case next_inj =>
    intro a' ha' b' hb' hn hne
    obtain ⟨a, ha, rfl⟩ := List.mem_map.mp ha'
    obtain ⟨b, hb, rfl⟩ := List.mem_map.mp hb'
    rw [hnext, hnext] at hn
    rw [hnext] at hne
    rw [h.next_inj a ha b hb hn hne]
  case next_ne =>
    intro a' ha'
    obtain ⟨a, ha, rfl⟩ := List.mem_map.mp ha'
    rw [hnext, hid]
    exact h.next_ne a ha
  case forward =>
    rw [List.pairwise_map]
    exact h.forward.imp fun hab => by rwa [hnext, hid]
  case root_unique =>
    intro a' ha' b' hb' hf hna hnb
    obtain ⟨a, ha, rfl⟩ := List.mem_map.mp ha'
    obtain ⟨b, hb, rfl⟩ := List.mem_map.mp hb'
    have hold : ∀ x, (∀ c ∈ rows.map f, L.next c ≠ some (L.id (f x))) →
        ∀ c ∈ rows, L.next c ≠ some (L.id x) := by
      intro x hx c hc
      rw [← hnext c, ← hid x]
      exact hx (f c) (List.mem_map_of_mem hc)
    rw [h.root_unique a ha b hb (by rwa [hfam, hfam] at hf) (hold a hna) (hold b hnb)]

/-- What `e` is replaced by, in place. -/
def replaceBy [DecidableEq ι] (L : Lineage ρ ι φ υ) (e' : ρ) (a : ρ) : ρ :=
  if L.id a = L.id e' then e' else a

/-- **A live row replaced by a new one.**  `e` becomes `e'`, retired and naming `r`,
and `r` is added. -/
theorem Wf.extend [DecidableEq ι] (h : L.Wf rows) {e e' r : ρ} (he : e ∈ rows)
    (hlive : L.live e = true) (hid : L.id e' = L.id e) (hfam : L.family e' = L.family e)
    (hown : L.owner e' = L.owner e) (hret : L.live e' = false) (hnext : L.next e' = some (L.id r))
    (hrid : ∀ a ∈ rows, L.id a ≠ L.id r) (hrfam : L.family r = L.family e)
    (hrown : L.owner r = L.owner e) (hrnext : L.next r = none) :
    L.Wf (rows.map (L.replaceBy e') ++ [r]) := by
  have hnone : L.next e = none := by
    by_contra hn
    have := h.next_retired e he hn
    rw [hlive] at this
    cases this
  -- a row of the new table is an old one, `e'` in the place of `e`, or `r`
  have hmem : ∀ c, c ∈ rows.map (L.replaceBy e') ++ [r] →
      (c ∈ rows ∧ L.id c ≠ L.id e) ∨ c = e' ∨ c = r := by
    intro c hc
    rcases List.mem_append.mp hc with hc | hc
    · obtain ⟨a, ha, rfl⟩ := List.mem_map.mp hc
      unfold replaceBy
      split
      · exact .inr (.inl rfl)
      · rename_i hne
        exact .inl ⟨ha, fun hae => hne (hae.trans hid.symm)⟩
    · exact .inr (.inr (List.mem_singleton.mp hc))
  have hold : ∀ c ∈ rows, L.id c ≠ L.id e → c ∈ rows.map (L.replaceBy e') ++ [r] := by
    intro c hc hce
    refine List.mem_append_left _ (List.mem_map.mpr ⟨c, hc, if_neg ?_⟩)
    rwa [hid]
  have hmem_e' : e' ∈ rows.map (L.replaceBy e') ++ [r] :=
    List.mem_append_left _ (List.mem_map.mpr ⟨e, he, if_pos hid.symm⟩)
  have hmem_r : r ∈ rows.map (L.replaceBy e') ++ [r] :=
    List.mem_append_right _ (List.mem_singleton_self r)
  have hfresh : ∀ a ∈ rows, L.next a ≠ some (L.id r) := by
    intro a ha hn
    obtain ⟨b, hb, hbr, _⟩ := h.next_mem a ha _ hn
    exact hrid b hb hbr
  have hids : ∀ a, L.id (L.replaceBy e' a) = L.id a := by
    intro a
    unfold replaceBy
    split
    · rename_i ha; exact ha.symm
    · rfl
  -- nothing named the place of `e`, so everything that is not named is still not named
  have hroot : ∀ a ∈ rows, (∀ c ∈ rows.map (L.replaceBy e') ++ [r], L.next c ≠ some (L.id a)) →
      ∀ c ∈ rows, L.next c ≠ some (L.id a) := by
    intro a ha hna c hc hn
    by_cases hce : L.id c = L.id e
    · rw [h.eq_of_id hc he hce, hnone] at hn
      cases hn
    · exact hna c (hold c hc hce) hn
  constructor
  case nodup =>
    rw [List.map_append, List.map_map, List.nodup_append]
    have hmap : rows.map (L.id ∘ L.replaceBy e') = rows.map L.id :=
      List.map_congr_left fun a _ => hids a
    rw [hmap]
    refine ⟨h.nodup, by simp, fun x hx y hy => ?_⟩
    obtain ⟨a, ha, rfl⟩ := List.mem_map.mp hx
    obtain ⟨b, hb, rfl⟩ := List.mem_map.mp hy
    rw [List.mem_singleton.mp hb]
    exact hrid a ha
  case owner_eq =>
    -- each row of the new table has the family and the owner of an old one
    have hrep : ∀ c ∈ rows.map (L.replaceBy e') ++ [r],
        ∃ a ∈ rows, L.family c = L.family a ∧ L.owner c = L.owner a := by
      intro c hc
      rcases hmem c hc with ⟨hc, _⟩ | rfl | rfl
      · exact ⟨c, hc, rfl, rfl⟩
      · exact ⟨e, he, hfam, hown⟩
      · exact ⟨e, he, hrfam, hrown⟩
    intro a ha b hb hf
    obtain ⟨a₀, ha₀, hfa, hoa⟩ := hrep a ha
    obtain ⟨b₀, hb₀, hfb, hob⟩ := hrep b hb
    rw [hoa, hob]
    exact h.owner_eq a₀ ha₀ b₀ hb₀ (hfa.symm.trans (hf.trans hfb))
  case live_unique =>
    intro a ha b hb hla hlb hf
    -- a live old row in the family of `e` is `e`
    have hcase : ∀ c ∈ rows, L.id c ≠ L.id e → L.live c = true → L.family c ≠ L.family r := by
      intro c hc hce hlc hfc
      exact hce (congrArg L.id (h.live_unique c hc e he hlc hlive (hfc.trans hrfam)))
    rcases hmem a ha with ⟨ha₀, hae⟩ | rfl | rfl
    · rcases hmem b hb with ⟨hb₀, _⟩ | rfl | rfl
      · exact h.live_unique a ha₀ b hb₀ hla hlb hf
      · rw [hret] at hlb; cases hlb
      · exact absurd hf (hcase a ha₀ hae hla)
    · rw [hret] at hla; cases hla
    · rcases hmem b hb with ⟨hb, hbe⟩ | rfl | rfl
      · exact absurd hf.symm (hcase b hb hbe hlb)
      · rw [hret] at hlb; cases hlb
      · rfl
  case next_retired =>
    intro a ha hn
    rcases hmem a ha with ⟨ha, _⟩ | rfl | rfl
    · exact h.next_retired a ha hn
    · exact hret
    · exact absurd hrnext hn
  case next_mem =>
    intro a ha x hx
    rcases hmem a ha with ⟨ha, _⟩ | rfl | rfl
    · obtain ⟨b, hb, hbx, hbf⟩ := h.next_mem a ha x hx
      by_cases hbe : L.id b = L.id e
      · exact ⟨e', hmem_e', by rw [hid, ← hbe, hbx],
          by rw [hfam, ← hbf, h.eq_of_id hb he hbe]⟩
      · exact ⟨b, hold b hb hbe, hbx, hbf⟩
    · rw [hnext] at hx
      exact ⟨r, hmem_r, Option.some.inj hx, by rw [hfam, hrfam]⟩
    · rw [hrnext] at hx; cases hx
  case next_inj =>
    intro a ha b hb hn hne
    rcases hmem a ha with ⟨ha₀, _⟩ | rfl | rfl
    · rcases hmem b hb with ⟨hb₀, _⟩ | rfl | rfl
      · exact h.next_inj a ha₀ b hb₀ hn hne
      · exact absurd (hn.trans hnext) (hfresh a ha₀)
      · exact absurd (hn.trans hrnext) hne
    · rcases hmem b hb with ⟨hb, _⟩ | rfl | rfl
      · exact absurd (hn.symm.trans hnext) (hfresh b hb)
      · rfl
      · exact absurd (hn.trans hrnext) hne
    · exact absurd hrnext hne
  case next_ne =>
    intro a ha hn
    rcases hmem a ha with ⟨ha, _⟩ | rfl | rfl
    · exact h.next_ne a ha hn
    · rw [hnext, hid] at hn
      exact hrid e he (Option.some.inj hn).symm
    · rw [hrnext] at hn; cases hn
  case forward =>
    rw [List.pairwise_append]
    refine ⟨?_, List.pairwise_singleton _ _, fun a _ b hb => ?_⟩
    · rw [List.pairwise_map]
      refine h.forward.imp_of_mem fun {a b} ha _ hab => ?_
      rw [hids]
      unfold replaceBy
      split
      · rw [hnext]
        exact fun hn => hrid a ha (Option.some.inj hn).symm
      · exact hab
    · rw [List.mem_singleton.mp hb, hrnext]
      exact fun hn => nomatch hn
  case root_unique =>
    -- `r` is named by `e'`
    have hr : ¬ ∀ c ∈ rows.map (L.replaceBy e') ++ [r], L.next c ≠ some (L.id r) :=
      fun hno => hno e' hmem_e' hnext
    intro a ha b hb hf hna hnb
    rcases hmem a ha with ⟨ha₀, hae⟩ | rfl | rfl
    · rcases hmem b hb with ⟨hb₀, _⟩ | rfl | rfl
      · exact h.root_unique a ha₀ b hb₀ hf (hroot a ha₀ hna) (hroot b hb₀ hnb)
      · have := h.root_unique a ha₀ e he (hf.trans hfam) (hroot a ha₀ hna)
          (hroot e he (by rwa [hid] at hnb))
        exact absurd (congrArg L.id this) hae
      · exact absurd hnb hr
    · rcases hmem b hb with ⟨hb, hbe⟩ | rfl | rfl
      · have := h.root_unique e he b hb (hfam.symm.trans hf)
          (hroot e he (by rwa [hid] at hna)) (hroot b hb hnb)
        exact absurd (congrArg L.id this.symm) hbe
      · rfl
      · exact absurd hnb hr
    · exact absurd hna hr

end Lineage

end LakiraBackend.Concurrency
