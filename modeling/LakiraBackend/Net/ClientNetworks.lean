import LakiraBackend.Net.ClientIpKey

/-!
# The networks a limiter counts by

An IPv4 address is keyed by its text, an IPv6 address by its first four groups, and an IPv4-mapped
one by the dotted text of what it maps, so the keys are those of networks (`clientIpKey_networks`).
-/

namespace LakiraBackend.Net

open LakiraBackend.JavaScript
open RegExp (isDigit matchAt search)

/-! ### IPv4 -/

theorem decimalDigit_of_isDigit {c : Nat} (h : isDigit c = true) :
    decimalDigit c = some (c - 48) ∧ 48 ≤ c ∧ c - 48 < 10 := by
  have hrange : 48 ≤ c ∧ c ≤ 57 := by simpa [isDigit, RegExp.isRange] using h
  exact ⟨if_pos h, hrange.1, by omega⟩

/-- The digits of a number that does not start with a zero. -/
theorem ofNumber_of_ofDigits {w : Text} {n : Nat} (hw : w ≠ [])
    (hdigits : ∀ c ∈ w, isDigit c = true) (hzero : w.head? ≠ some '0'.toNat) (h : ofDigits 10 decimalDigit 0 w = some n) :
    0 < n ∧ Text.ofNumber 10 n = w := by
  induction w using List.reverseRecOn generalizing n with
  | nil => exact absurd rfl hw
  | append_singleton w c ih =>
    obtain ⟨hdigit, hleast, hmost⟩ := decimalDigit_of_isDigit (hdigits c (by simp))
    rw [ofDigits_concat, hdigit] at h
    obtain ⟨m, hm, h⟩ := Option.bind_eq_some_iff.mp h
    obtain rfl : m * 10 + (c - 48) = n := Option.some_inj.mp h
    have hchar : (Nat.digitChar (c - 48)).toNat = c := by
      rw [Nat.toNat_digitChar_of_lt_ten hmost]
      omega
    by_cases hnil : w = []
    · subst hnil
      cases hm
      have hne : c ≠ 48 := fun heq => hzero (by rw [heq]; rfl)
      refine ⟨by omega, ?_⟩
      rw [Nat.zero_mul, Nat.zero_add, Text.ofNumber, Nat.toDigits_of_lt_base hmost,
        List.map_singleton, hchar]
      rfl
    · have hhead : w.head? ≠ some '0'.toNat := by
        rwa [List.head?_append_of_ne_nil _ hnil] at hzero
      obtain ⟨hpos, hwritten⟩ :=
        ih hnil (fun d hd => hdigits d (List.mem_append_left _ hd)) hhead hm
      rw [Text.ofNumber] at hwritten
      have hdiv : (m * 10 + (c - 48)) / 10 = m := by omega
      have hmod : (m * 10 + (c - 48)) % 10 = c - 48 := by omega
      refine ⟨by omega, ?_⟩
      rw [Text.ofNumber, Nat.toDigits_of_base_le (by decide) (by omega), hdiv, hmod,
        List.map_append, hwritten, List.map_singleton, hchar]

/-- A number up to 255 has one text. -/
theorem eq_ofNumber_of_octet {w : Text} {n : Nat} (h : octet w = some n) :
    w = Text.ofNumber 10 n := by
  obtain ⟨⟨hdigits, hleast, -⟩, hvalue, -, hshape⟩ := octet_eq_some h
  have hw : w ≠ [] := List.ne_nil_of_length_pos hleast
  by_cases hzero : w.head? = some '0'.toNat
  · obtain ⟨c, w, rfl⟩ := List.exists_cons_of_ne_nil hw
    have hc := Option.some_inj.mp hzero
    have hnil : w = [] := by
      by_contra hne
      exact hshape ⟨by simpa using List.length_pos_of_ne_nil hne, hzero⟩
    subst hnil
    rw [hc] at hvalue ⊢
    cases hvalue
    rfl
  · exact (ofNumber_of_ofDigits hw hdigits hzero hvalue).2.symm

/-- The dotted text of an address. -/
theorem eq_intercalate_of_octets {s : Text} {ns : List Nat} (h : octets s = some ns) :
    s = (text ".").intercalate (ns.map (Text.ofNumber 10)) := by
  obtain ⟨w, x, y, z, a, b, c, d, rfl, rfl, -, ha, hb, hc, hd⟩ := octets_eq_some h
  rw [eq_ofNumber_of_octet ha, eq_ofNumber_of_octet hb, eq_ofNumber_of_octet hc,
    eq_ofNumber_of_octet hd, text_dot]
  simp [List.intercalate, dotted]

theorem not_mem_of_octets {s : Text} {ns : List Nat} (h : octets s = some ns) {c : Nat}
    (hdigit : isDigit c = false) (hdot : c ≠ '.'.toNat) : c ∉ s := by
  intro hmem
  obtain ⟨w, x, y, z, a, b, d, e, rfl, -, -, ha, hb, hd, he⟩ := octets_eq_some h
  have hnone : matchAt DOTTED_TAIL [] _ = none :=
    matchAt_dotted_none (.inr ⟨c, hmem, hdigit, hdot⟩)
  rw [matchAt_dotted (octet_eq_some ha).1 (octet_eq_some hb).1 (octet_eq_some hd).1
    (octet_eq_some he).1] at hnone
  cases hnone

/-- **The key of an IPv4 address** is its text. -/
theorem clientIpKey_of_octets {s : Text} {ns : List Nat} (h : octets s = some ns) :
    clientIpKey (some s) = s := by
  have hpercent := not_mem_of_octets h (c := '%'.toNat) (by decide) (by decide)
  have hcolon := not_mem_of_octets h (c := ':'.toNat) (by decide) (by decide)
  have hne : s ≠ [] := by
    rintro rfl
    cases h
  have hsearch : search ZONE [] s = none := by
    refine RegExp.search_eq_none fun u v huv => matchAt_zone_none fun hhead => hpercent ?_
    rw [huv]
    exact List.mem_append_right _ (List.mem_of_head? hhead)
  have hgroups : groups s = none := by
    obtain ⟨w, x, y, z, a, b, c, d, -, rfl, -⟩ := octets_eq_some h
    rw [groups, splitCompressed_none_of_colon_not_mem hcolon, parts, if_neg hne,
      List.splitOn_eq_singleton hcolon, lastGroupsOf, h]
    rfl
  have hnot : isIPv6 s = false := by
    have hdrop : s.dropWhile (· != '%'.toNat) = [] :=
      List.dropWhile_eq_nil_iff.mpr fun c hc => by
        exact bne_iff_ne.mpr fun heq => hpercent (heq ▸ hc)
    rw [isIPv6, hdrop, hgroups]
    rfl
  have hnone : ipv6Groups s = none := by
    rw [ipv6Groups, RegExp.replaceFirst, hsearch]
    dsimp only
    rw [hnot]
    rfl
  obtain ⟨c, s, rfl⟩ := List.exists_cons_of_ne_nil hne
  rw [clientIpKey, hnone]
  exact hne

/-! ### IPv6 -/

theorem HexAddress.length {hex : Text} {gs : List Nat} (h : HexAddress hex gs) : gs.length = 8 := by
  cases h with
  | whole _ _ hlength => exact hlength
  | compressed _ _ _ hlength =>
    simp only [List.length_append, List.length_replicate]
    omega

theorem length_of_address6 {s : Text} {gs : List Nat} (h : address6 s = some gs) :
    gs.length = 8 := by
  rw [address6] at h
  split at h
  · obtain ⟨q, x, hbare, hcolon, hq⟩ := exists_last_part (s.takeWhile (· != '%'.toNat))
    rw [hbare] at h
    exact (hexAddress_of_groups hq hcolon h).1.length
  · cases h

/-- **The key of an IPv6 address** is that of its groups. -/
theorem clientIpKey_of_address6 {s : Text} {gs : List Nat} (h : address6 s = some gs) :
    clientIpKey (some s) = groupsKey (gs.map some) := by
  cases s with
  | nil => cases h
  | cons c s => rw [clientIpKey, ipv6Groups_eq h]; simp

/-- An IPv4-mapped address. -/
def IsMapped (gs : List Nat) : Prop := ∃ x y, gs = [0, 0, 0, 0, 0, 0xffff, x, y]

theorem groupsKey_of_mapped (x y : Nat) :
    groupsKey ([0, 0, 0, 0, 0, 0xffff, x, y].map some) =
      (text ".").intercalate ([x / 256, x % 256, y / 256, y % 256].map (Text.ofNumber 10)) := by
  have hlow : ∀ n : Nat, n &&& 0xff = n % 256 := fun n => Nat.and_two_pow_sub_one_eq_mod n 8
  have hhigh : ∀ n : Nat, n >>> 8 = n / 256 := fun n => Nat.shiftRight_eq_div_pow n 8
  have hx : groupAt ([0, 0, 0, 0, 0, 0xffff, x, y].map some) 6 = x := rfl
  have hy : groupAt ([0, 0, 0, 0, 0, 0xffff, x, y].map some) 7 = y := rfl
  rw [groupsKey, if_pos (by rfl), hx, hy, hlow, hlow, hhigh, hhigh]

theorem groupsKey_of_not_mapped {gs : List Nat} (hlength : gs.length = 8) (h : ¬ IsMapped gs) :
    groupsKey (gs.map some) =
      (text ":").intercalate ((gs.take 4).map (Text.ofNumber 16)) ++ text "::/64" := by
  have htext : ((gs.map some).take 4).map groupText = (gs.take 4).map (Text.ofNumber 16) := by
    rw [← List.map_take, List.map_map]
    rfl
  rw [groupsKey, if_neg, htext]
  intro hmapped
  obtain ⟨a, b, c, d, e, f, x, y, rfl⟩ : ∃ a b c d e f x y, gs = [a, b, c, d, e, f, x, y] := by
    match gs, hlength with
    | [a, b, c, d, e, f, x, y], _ => exact ⟨a, b, c, d, e, f, x, y, rfl⟩
  simp at hmapped
  obtain ⟨⟨rfl, rfl, rfl, rfl, rfl⟩, rfl⟩ := hmapped
  exact h ⟨x, y, rfl⟩

theorem ofNumber_injective : Function.Injective (Text.ofNumber 16) := by
  intro m n h
  have hm := ofDigits_ofNumber m
  rw [h, ofDigits_ofNumber] at hm
  exact (Option.some_inj.mp hm).symm

theorem colon_not_mem_ofNumber (n : Nat) : ':'.toNat ∉ Text.ofNumber 16 n := by
  intro hmem
  have hdigit := isSome_of_ofDigits (ofDigits_ofNumber n) _ hmem
  exact absurd hdigit (by decide)

/-- The texts of the first groups tell them apart. -/
theorem intercalate_injective {gs hs : List Nat} (hgs : gs ≠ []) (hhs : hs ≠ [])
    (h : (text ":").intercalate (gs.map (Text.ofNumber 16)) =
      (text ":").intercalate (hs.map (Text.ofNumber 16))) : gs = hs := by
  have hparts : ∀ {gs : List Nat}, gs ≠ [] →
      ((text ":").intercalate (gs.map (Text.ofNumber 16))).splitOn ':'.toNat =
        gs.map (Text.ofNumber 16) := by
    intro gs hgs
    rw [text_colon]
    refine List.splitOn_intercalate ':'.toNat (fun part hpart => ?_) (by simpa using hgs)
    obtain ⟨g, -, rfl⟩ := List.mem_map.mp hpart
    exact colon_not_mem_ofNumber g
  have hsplit := congrArg (List.splitOn ':'.toNat) h
  rw [hparts hgs, hparts hhs] at hsplit
  exact List.map_injective_iff.mpr ofNumber_injective hsplit

/-! ### The keys -/

/-- Whether a key of addresses tells networks apart, and nothing else. -/
structure KeysNetworks (key : Text → Text) : Prop where
  /-- Two texts of the same address have the same key. -/
  same6 : ∀ s t gs, address6 s = some gs → address6 t = some gs → key s = key t
  same4 : ∀ s t ns, octets s = some ns → octets t = some ns → key s = key t
  /-- An IPv6 address is keyed by its first 64 bits. -/
  network : ∀ s t gs hs, address6 s = some gs → address6 t = some hs → ¬ IsMapped gs →
    ¬ IsMapped hs → (key s = key t ↔ gs.take 4 = hs.take 4)
  /-- An IPv4-mapped address has the key of its dotted form. -/
  mapped : ∀ s t a b c d, address6 s = some [0, 0, 0, 0, 0, 0xffff, a * 256 + b, c * 256 + d] →
    octets t = some [a, b, c, d] → key s = key t
  /-- No IPv4 key is one of an IPv6 network. -/
  apart : ∀ s t ns gs, octets s = some ns → address6 t = some gs → ¬ IsMapped gs → key s ≠ key t

/-- **The keys are those of networks.** -/
theorem clientIpKey_networks : KeysNetworks fun ip => clientIpKey (some ip) where
  same6 s t gs hs ht := by rw [clientIpKey_of_address6 hs, clientIpKey_of_address6 ht]
  same4 s t ns hs ht := by
    rw [clientIpKey_of_octets hs, clientIpKey_of_octets ht, eq_intercalate_of_octets hs,
      eq_intercalate_of_octets ht]
  network s t gs hs hgs hhs hplain hplain' := by
    have hlength := length_of_address6 hgs
    have hlength' := length_of_address6 hhs
    rw [clientIpKey_of_address6 hgs, clientIpKey_of_address6 hhs,
      groupsKey_of_not_mapped hlength hplain, groupsKey_of_not_mapped hlength' hplain']
    constructor
    · intro h
      refine intercalate_injective ?_ ?_ (List.append_cancel_right h)
      · exact List.ne_nil_of_length_pos (by rw [List.length_take]; omega)
      · exact List.ne_nil_of_length_pos (by rw [List.length_take]; omega)
    · intro h
      rw [h]
  mapped s t a b c d hs ht := by
    obtain ⟨_, _, _, _, _, _, _, _, -, heq, -, ha, hb, hc, hd⟩ := octets_eq_some ht
    cases heq
    have hb := (octet_eq_some hb).2.2.1
    have hd := (octet_eq_some hd).2.2.1
    have hhigh : ∀ m n : Nat, n ≤ 255 → (m * 256 + n) / 256 = m ∧ (m * 256 + n) % 256 = n := by
      omega
    rw [clientIpKey_of_address6 hs, groupsKey_of_mapped, clientIpKey_of_octets ht,
      (hhigh a b hb).1, (hhigh a b hb).2, (hhigh c d hd).1, (hhigh c d hd).2]
    exact (eq_intercalate_of_octets ht).symm
  apart s t ns gs hs ht hplain := by
    rw [clientIpKey_of_octets hs, clientIpKey_of_address6 ht,
      groupsKey_of_not_mapped (length_of_address6 ht) hplain]
    rintro rfl
    refine not_mem_of_octets hs (c := ':'.toNat) (by decide) (by decide)
      (List.mem_append_right _ (by decide))

end LakiraBackend.Net
