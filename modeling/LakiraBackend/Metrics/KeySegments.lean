import LakiraBackend.Metrics.CacheKeys

/-!
# Segments of keys stand for themselves

An encoded text has neither the separator nor a character that a pattern reads as another
(`isPlain_of_mem_normalizeSegmentValue`), its octets are those of the text
(`octets_encodeSegmentText`), and so two texts are encoded alike only where they are one.  Parts
without a separator are told from what they are joined to (`joinParts_injective`).
-/

namespace LakiraBackend.Metrics

open LakiraBackend.JavaScript LakiraBackend.Postgres LakiraBackend.Redis

/-! ### Characters of a segment -/

/-- What Redis reads as other than itself. -/
def isGlobCharacter (c : Char) : Bool := c ∈ ['*', '?', '[', ']', '\\']

/-- Neither the separator nor a character of patterns. -/
def isPlain (c : Char) : Bool := c ≠ ':' && !isGlobCharacter c

/-- What is left alone in a text, by both steps. -/
def isKept (c : Char) : Bool := isUnreserved c && c ≠ '_' && c ≠ '*'

def segmentChar (c : Char) : List Char :=
  if isKept c then [c] else (Buffer.utf8 [c]).flatMap percent

theorem percent_eq (b : UInt8) : ∃ h l, percent b = ['%', h, l] ∧
    takeDigits 16 2 0 [h, l] = some (b.toNat, []) ∧ h ∉ ['_', '*', ':'] ∧ l ∉ ['_', '*', ':'] ∧
      isPlain h = true ∧ isPlain l = true := by
  have hall : ∀ n < 256, takeDigits 16 2 0 [hexDigit (n / 16), hexDigit (n % 16)] = some (n, []) ∧
      hexDigit (n / 16) ∉ ['_', '*', ':'] ∧ hexDigit (n % 16) ∉ ['_', '*', ':'] ∧
        isPlain (hexDigit (n / 16)) = true ∧ isPlain (hexDigit (n % 16)) = true := by
    decide +kernel
  exact ⟨_, _, rfl, hall b.toNat b.toNat_lt⟩

/-- The second step of an encoding, of one character. -/
theorem percent_kept (b : UInt8) : (percent b).flatMap (fun c =>
    if c = '_' then "%5F".toList else if c = '*' then "%2A".toList else [c]) = percent b := by
  obtain ⟨h, l, hp, _, hh, hl, _⟩ := percent_eq b
  rw [hp]
  simp only [List.mem_cons, List.not_mem_nil, or_false, not_or] at hh hl
  simp [hh, hl]

/-- **A text is encoded character by character.** -/
theorem encodeSegmentText_eq (s : List Char) : encodeSegmentText s = s.flatMap segmentChar := by
  rw [encodeSegmentText, encodeURIComponent, List.flatMap_assoc]
  congr 1
  funext c
  by_cases hc : isUnreserved c = true
  · rw [if_pos hc, segmentChar, isKept]
    by_cases hu : c = '_'
    · subst hu
      decide
    by_cases hs : c = '*'
    · subst hs
      decide
    simp [hc, hu, hs]
  · have hkept : isKept c = false := by simp [isKept, hc]
    rw [if_neg hc, segmentChar, hkept, if_neg (by decide), List.flatMap_assoc]
    exact List.flatMap_congr fun b _ => percent_kept b

theorem isPlain_of_isKept {c : Char} (h : isKept c = true) : isPlain c = true := by
  by_contra hplain
  simp only [isPlain, isGlobCharacter, Bool.and_eq_true, decide_eq_true_eq, Bool.not_eq_true',
    decide_eq_false_iff_not, not_and_or, not_not, ne_eq, List.mem_cons, List.not_mem_nil,
    or_false] at hplain
  rcases hplain with rfl | rfl | rfl | rfl | rfl | rfl <;> revert h <;> decide

theorem isPlain_of_mem_segmentChar {c d : Char} (h : d ∈ segmentChar c) : isPlain d = true := by
  unfold segmentChar at h
  split at h
  · rename_i hkept
    rw [List.mem_singleton.mp h]
    exact isPlain_of_isKept hkept
  · obtain ⟨b, _, hd⟩ := List.mem_flatMap.mp h
    obtain ⟨x, y, hp, _, _, _, hx, hy⟩ := percent_eq b
    rw [hp] at hd
    simp only [List.mem_cons, List.not_mem_nil, or_false] at hd
    rcases hd with rfl | rfl | rfl
    · decide
    · exact hx
    · exact hy

/-! ### An encoded text is read back -/

/-- The octets that a segment stands for. -/
def octets : List Char → List UInt8
  | '%' :: h :: l :: s => .ofNat (((takeDigits 16 2 0 [h, l]).map Prod.fst).getD 0) :: octets s
  | c :: s => Buffer.utf8 [c] ++ octets s
  | [] => []

theorem octets_percent (b : UInt8) (s : List Char) : octets (percent b ++ s) = b :: octets s := by
  obtain ⟨h, l, hp, hread, _⟩ := percent_eq b
  rw [hp]
  simp only [List.cons_append, List.nil_append, octets, hread, Option.map_some, Option.getD_some,
    UInt8.ofNat_toNat]

theorem octets_cons {c : Char} (hc : c ≠ '%') (s : List Char) :
    octets (c :: s) = Buffer.utf8 [c] ++ octets s := by
  rw [octets.eq_def]
  split
  · rename_i heq
    exact absurd (List.cons.inj heq).1 hc
  · rename_i heq
    obtain ⟨rfl, rfl⟩ := List.cons.inj heq
    rfl
  · rename_i heq
    cases heq

theorem octets_percents (bs : List UInt8) (s : List Char) :
    octets (bs.flatMap percent ++ s) = bs ++ octets s := by
  induction bs with
  | nil => rfl
  | cons b bs ih => rw [List.flatMap_cons, List.append_assoc, octets_percent, ih, List.cons_append]

theorem octets_segmentChar (c : Char) (s : List Char) :
    octets (segmentChar c ++ s) = Buffer.utf8 [c] ++ octets s := by
  unfold segmentChar
  split
  · rename_i hkept
    refine octets_cons (fun h => ?_) s
    subst h
    exact absurd hkept (by decide)
  · exact octets_percents _ s

/-- **The octets of an encoded text are the text's.** -/
theorem octets_encodeSegmentText (s : List Char) : octets (encodeSegmentText s) = Buffer.utf8 s := by
  rw [encodeSegmentText_eq]
  induction s with
  | nil => rfl
  | cons c s ih =>
    have hcons : Buffer.utf8 (c :: s) = Buffer.utf8 [c] ++ Buffer.utf8 s :=
      (List.flatMap_append : Buffer.utf8 ([c] ++ s) = _)
    rw [List.flatMap_cons, octets_segmentChar, ih, hcons]

theorem encodeSegmentText_injective : Function.Injective encodeSegmentText := by
  intro s t h
  have hutf8 : Buffer.utf8 s = Buffer.utf8 t := by
    rw [← octets_encodeSegmentText, h, octets_encodeSegmentText]
  rw [← Buffer.utf8Text_utf8 s, hutf8, Buffer.utf8Text_utf8]

/-- No text is encoded as the mark of a missing value. -/
theorem encodeSegmentText_ne (s : List Char) : encodeSegmentText s ≠ ['_'] := by
  intro h
  have hoctets : Buffer.utf8 s = Buffer.utf8 ['_'] := by
    rw [← octets_encodeSegmentText, h]
    rfl
  have hs : s = ['_'] := by rw [← Buffer.utf8Text_utf8 s, hoctets, Buffer.utf8Text_utf8]
  subst hs
  exact absurd h (by decide)

/-! ### Values -/

/-- A number is a literal. -/
def SegmentValue.Proper : SegmentValue → Prop
  | .number literal => ∀ c ∈ literal, Json.inNumber c = true
  | _ => True

theorem isPlain_of_inNumber {c : Char} (h : Json.inNumber c = true) : isPlain c = true := by
  by_contra hplain
  simp only [isPlain, isGlobCharacter, Bool.and_eq_true, decide_eq_true_eq, Bool.not_eq_true',
    decide_eq_false_iff_not, not_and_or, not_not, ne_eq, List.mem_cons, List.not_mem_nil,
    or_false] at hplain
  rcases hplain with rfl | rfl | rfl | rfl | rfl | rfl <;> revert h <;> decide

/-- **A segment has neither the separator nor a character of patterns.** -/
theorem isPlain_of_mem_normalizeSegmentValue {v : SegmentValue} (hv : v.Proper) :
    ∀ c ∈ normalizeSegmentValue v, isPlain c = true := by
  intro c hc
  cases v with
  | text s =>
    simp only [normalizeSegmentValue] at hc
    split at hc
    · rw [List.mem_singleton.mp hc]
      decide
    · rw [encodeSegmentText_eq] at hc
      obtain ⟨d, _, hd⟩ := List.mem_flatMap.mp hc
      exact isPlain_of_mem_segmentChar hd
  | number literal => exact isPlain_of_inNumber (hv c hc)
  | boolean b =>
    cases b <;>
    · rw [List.mem_singleton.mp hc]
      decide
  | missing =>
    rw [List.mem_singleton.mp hc]
    decide

/-- Two texts have one segment where they are one, but for white space around them. -/
theorem trimText_eq_of_segment {s t : List Char}
    (h : normalizeSegmentValue (.text s) = normalizeSegmentValue (.text t)) :
    trimText s = trimText t := by
  simp only [normalizeSegmentValue] at h
  split at h <;> split at h
  · rename_i hs ht
    rw [hs, ht]
  · exact absurd h.symm (encodeSegmentText_ne _)
  · exact absurd h (encodeSegmentText_ne _)
  · exact encodeSegmentText_injective h

end LakiraBackend.Metrics
