import LakiraBackend.JavaScript.RegExp
import LakiraBackend.JavaScript.Uri

/-!
# Well-formed UTF-16

A text is well formed where it is the code units of some characters.  That is so exactly when
none of its code points is a surrogate (`wellFormed_iff`), and to trim such a text is to trim
the characters (`trim_encode`).
-/

namespace LakiraBackend.JavaScript

/-- A string of the language, by what its code units are. -/
def ofUnits (s : List UInt16) : Text := s.map UInt16.toNat

theorem ofUnits_lt {units : List UInt16} : ∀ u ∈ ofUnits units, u < 0x10000 := by
  intro u hu
  obtain ⟨w, _, rfl⟩ := List.mem_map.mp hu
  exact w.toNat_lt

namespace Text

/-- `[\uD800-\uDBFF]`. -/
def isHigh (c : Nat) : Bool := 0xD800 ≤ c && c ≤ 0xDBFF

/-- `[\uDC00-\uDFFF]`. -/
def isLow (c : Nat) : Bool := 0xDC00 ≤ c && c ≤ 0xDFFF

/-- The code units of characters. -/
def encode (cs : List Char) : Text := cs.flatMap fun c => utf16 c.toNat

def WellFormed (s : Text) : Prop := ∃ cs, s = encode cs

/-- `String.prototype.trim`. -/
def trim (s : Text) : Text :=
  ((s.dropWhile RegExp.isSpace).reverse.dropWhile RegExp.isSpace).reverse

variable {s t : Text} {c u v : Nat}

@[simp] theorem encode_nil : encode [] = [] := rfl

@[simp] theorem encode_cons (c : Char) (cs : List Char) :
    encode (c :: cs) = utf16 c.toNat ++ encode cs := rfl

theorem encode_append (cs ds : List Char) : encode (cs ++ ds) = encode cs ++ encode ds :=
  List.flatMap_append

/-! ### Code points -/

theorem mem_codePoints_pair (huv : 0xD800 ≤ u ∧ u < 0xDC00 ∧ 0xDC00 ≤ v ∧ v < 0xE000) :
    codePoints (u :: v :: s) = (0x10000 + (u - 0xD800) * 0x400 + (v - 0xDC00)) :: codePoints s := by
  rw [codePoints, if_pos huv]

theorem codePoints_cons_of_not_isHigh (hu : ¬ (0xD800 ≤ u ∧ u < 0xDC00)) (s : Text) :
    codePoints (u :: s) = u :: codePoints s := by
  cases s with
  | nil => rfl
  | cons v s => rw [codePoints, if_neg fun h => hu ⟨h.1, h.2.1⟩]

/-- The code points of a character. -/
theorem codePoints_utf16_append (c : Char) (s : Text) :
    codePoints (utf16 c.toNat ++ s) = c.toNat :: codePoints s := by
  have hc : c.toNat < 0xD800 ∨ 0xDFFF < c.toNat ∧ c.toNat < 0x110000 := c.valid
  unfold utf16
  split
  · exact codePoints_cons_of_not_isHigh (by omega) s
  · change codePoints (_ :: _ :: s) = _
    rw [mem_codePoints_pair (by omega), List.cons.injEq]
    refine ⟨?_, rfl⟩
    omega

theorem codePoints_encode (cs : List Char) : codePoints (encode cs) = cs.map Char.toNat := by
  induction cs with
  | nil => rfl
  | cons c cs ih => rw [encode_cons, codePoints_utf16_append, ih, List.map_cons]

/-- **A text is the code units of its code points.** -/
theorem ofCodePoints_codePoints (h : ∀ u ∈ s, u < 0x10000) : ofCodePoints (codePoints s) = s := by
  induction s using codePoints.induct with
  | case1 => rfl
  | case2 u =>
      have hu := h u List.mem_cons_self
      simp [codePoints, ofCodePoints, utf16, hu]
  | case3 u v s huv ih =>
      have hs : ∀ w ∈ s, w < 0x10000 := fun w hw =>
        h w (List.mem_cons_of_mem _ (List.mem_cons_of_mem _ hw))
      have hsplit : utf16 (0x10000 + (u - 0xD800) * 0x400 + (v - 0xDC00)) = [u, v] := by
        rw [utf16, if_neg (by omega), List.cons.injEq, List.cons.injEq]
        refine ⟨?_, ?_, rfl⟩ <;> omega
      rw [mem_codePoints_pair huv, ofCodePoints, List.flatMap_cons, hsplit]
      change u :: v :: ofCodePoints (codePoints s) = _
      rw [ih hs]
  | case4 u v s huv ih =>
      have hu := h u List.mem_cons_self
      have hs : ∀ w ∈ v :: s, w < 0x10000 := fun w hw => h w (List.mem_cons_of_mem _ hw)
      rw [codePoints, if_neg huv, ofCodePoints, List.flatMap_cons, utf16, if_pos hu]
      change u :: ofCodePoints (codePoints (v :: s)) = _
      rw [ih hs]

theorem lt_of_mem_codePoints (h : ∀ u ∈ s, u < 0x10000) (hc : c ∈ codePoints s) : c < 0x110000 := by
  induction s using codePoints.induct with
  | case1 => cases hc
  | case2 u =>
      obtain rfl := List.mem_singleton.mp hc
      have hc := h c List.mem_cons_self
      omega
  | case3 u v s huv ih =>
      rw [mem_codePoints_pair huv] at hc
      rcases List.mem_cons.mp hc with hcu | hc
      · omega
      · exact ih (fun w hw => h w (List.mem_cons_of_mem _ (List.mem_cons_of_mem _ hw))) hc
  | case4 u v s huv ih =>
      rw [codePoints, if_neg huv] at hc
      rcases List.mem_cons.mp hc with rfl | hc
      · have hc := h c List.mem_cons_self
        omega
      · exact ih (fun w hw => h w (List.mem_cons_of_mem _ hw)) hc

/-- **A text is well formed exactly when none of its code points is a surrogate.** -/
theorem wellFormed_iff (h : ∀ u ∈ s, u < 0x10000) :
    WellFormed s ↔ ∀ c ∈ codePoints s, isHigh c = false ∧ isLow c = false := by
  constructor
  · rintro ⟨cs, rfl⟩ c hc
    rw [codePoints_encode] at hc
    obtain ⟨d, _, rfl⟩ := List.mem_map.mp hc
    have hd : d.toNat < 0xD800 ∨ 0xDFFF < d.toNat ∧ d.toNat < 0x110000 := d.valid
    simp only [isHigh, isLow, Bool.and_eq_false_iff, decide_eq_false_iff_not]
    omega
  · intro hall
    refine ⟨(codePoints s).map Char.ofNat, ?_⟩
    have hback : ∀ c ∈ codePoints s, utf16 (Char.ofNat c).toNat = utf16 c := by
      intro c hc
      have hlt := lt_of_mem_codePoints h hc
      have hns := hall c hc
      simp only [isHigh, isLow, Bool.and_eq_false_iff, decide_eq_false_iff_not] at hns
      have hvalid : c.isValidChar := by
        unfold Nat.isValidChar
        omega
      rw [Char.ofNat, dif_pos hvalid]
      rfl
    rw [encode, List.flatMap_map]
    calc s = ofCodePoints (codePoints s) := (ofCodePoints_codePoints h).symm
      _ = (codePoints s).flatMap fun c => utf16 (Char.ofNat c).toNat :=
        (List.flatMap_congr hback).symm

/-- The code point after a high surrogate is no low one: the two would be one. -/
theorem not_isLow_of_isHigh {before after : List Nat} {c d : Nat}
    (h : codePoints s = before ++ c :: d :: after) (hc : isHigh c = true) : isLow d = false := by
  simp only [isHigh, Bool.and_eq_true, decide_eq_true_eq] at hc
  induction s using codePoints.induct generalizing before with
  | case1 => simp [codePoints] at h
  | case2 u =>
      have hlen := congrArg List.length h
      simp [codePoints] at hlen
      omega
  | case3 u v s huv ih =>
      rw [mem_codePoints_pair huv] at h
      cases before with
      | nil =>
          have hu := (List.cons.inj h).1
          omega
      | cons _ before => exact ih (List.cons.inj h).2
  | case4 u v s huv ih =>
      rw [codePoints, if_neg huv] at h
      cases before with
      | nil =>
          obtain ⟨rfl, htail⟩ := List.cons.inj h
          cases hd : isLow d with
          | false => rfl
          | true =>
              simp only [isLow, Bool.and_eq_true, decide_eq_true_eq] at hd
              -- `d` is the unit `v`, as a pair would be past all surrogates
              have hv : v = d := by
                cases s with
                | nil =>
                    rw [codePoints] at htail
                    exact (List.cons.inj htail).1
                | cons w s =>
                    rw [codePoints] at htail
                    split at htail
                    · have := (List.cons.inj htail).1
                      omega
                    · exact (List.cons.inj htail).1
              omega
      | cons _ before => exact ih (List.cons.inj h).2

/-! ### Trimming -/

theorem isSpace_iff_isWhiteSpace (c : Char) : RegExp.isSpace c.toNat = isWhiteSpace c := by
  rw [Bool.eq_iff_iff]
  simp only [RegExp.isSpace, isWhiteSpace, Bool.or_eq_true, Bool.and_eq_true, decide_eq_true_eq,
    beq_iff_eq, List.mem_cons, List.not_mem_nil, or_false]
  omega

/-- White space is one code unit. -/
theorem utf16_of_isWhiteSpace {c : Char} (h : isWhiteSpace c = true) :
    utf16 c.toNat = [c.toNat] := by
  simp only [isWhiteSpace, Bool.or_eq_true, Bool.and_eq_true, decide_eq_true_eq, List.mem_cons,
    List.not_mem_nil, or_false] at h
  rw [utf16, if_pos (by omega)]

/-- Any other character begins and ends with a code unit that is no white space. -/
theorem utf16_of_not_isWhiteSpace {c : Char} (h : isWhiteSpace c = false) :
    (∃ u rest, utf16 c.toNat = u :: rest ∧ RegExp.isSpace u = false) ∧
      ∃ front v, utf16 c.toNat = front ++ [v] ∧ RegExp.isSpace v = false := by
  have hspace : RegExp.isSpace c.toNat = false := (isSpace_iff_isWhiteSpace c).trans h
  have hc : c.toNat < 0xD800 ∨ 0xDFFF < c.toNat ∧ c.toNat < 0x110000 := c.valid
  unfold utf16
  split
  · exact ⟨⟨_, [], rfl, hspace⟩, [], _, rfl, hspace⟩
  · refine ⟨⟨_, _, rfl, ?_⟩, [_], _, rfl, ?_⟩ <;>
      simp only [RegExp.isSpace, Bool.or_eq_false_iff, Bool.and_eq_false_iff,
        decide_eq_false_iff_not, beq_eq_false_iff_ne] <;> omega

theorem dropWhile_encode (cs : List Char) :
    (encode cs).dropWhile RegExp.isSpace = encode (cs.dropWhile isWhiteSpace) := by
  induction cs with
  | nil => rfl
  | cons c cs ih =>
      rw [encode_cons]
      cases hc : isWhiteSpace c with
      | true =>
          rw [utf16_of_isWhiteSpace hc, List.dropWhile_cons_of_pos hc, ← ih, List.singleton_append,
            List.dropWhile_cons_of_pos ((isSpace_iff_isWhiteSpace c).trans hc)]
      | false =>
          obtain ⟨u, rest, hu, hspace⟩ := (utf16_of_not_isWhiteSpace hc).1
          rw [List.dropWhile_cons_of_neg (Bool.eq_false_iff.mp hc), encode_cons, hu,
            List.cons_append, List.dropWhile_cons_of_neg (Bool.eq_false_iff.mp hspace)]

theorem rdropWhile_encode (cs : List Char) :
    (encode cs).rdropWhile RegExp.isSpace = encode (cs.rdropWhile isWhiteSpace) := by
  induction cs using List.reverseRecOn with
  | nil => rfl
  | append_singleton cs c ih =>
      rw [encode_append, encode_cons, encode_nil, List.append_nil]
      cases hc : isWhiteSpace c with
      | true =>
          rw [utf16_of_isWhiteSpace hc, List.rdropWhile_concat_pos _ _ _ hc, ← ih,
            List.rdropWhile_concat_pos _ _ _ ((isSpace_iff_isWhiteSpace c).trans hc)]
      | false =>
          obtain ⟨front, v, hv, hspace⟩ := (utf16_of_not_isWhiteSpace hc).2
          rw [List.rdropWhile_concat_neg _ _ _ (Bool.eq_false_iff.mp hc), encode_append,
            encode_cons, encode_nil, List.append_nil, hv, ← List.append_assoc,
            List.rdropWhile_concat_neg _ _ _ (Bool.eq_false_iff.mp hspace)]

/-- **To trim a text is to trim its characters.** -/
theorem trim_encode (cs : List Char) : trim (encode cs) = encode (trimText cs) := by
  rw [trim, dropWhile_encode]
  exact rdropWhile_encode (cs.dropWhile isWhiteSpace)

theorem WellFormed.trim (h : WellFormed s) : WellFormed s.trim := by
  obtain ⟨cs, rfl⟩ := h
  exact ⟨trimText cs, trim_encode cs⟩

/-- A text that is trimmed is left alone. -/
theorem WellFormed.trim_trim (h : WellFormed s) : s.trim.trim = s.trim := by
  obtain ⟨cs, rfl⟩ := h
  rw [trim_encode, trim_encode, trimText_trimText]

/-- What is left of a trimmed text was there before. -/
theorem mem_of_mem_trim (h : u ∈ s.trim) : u ∈ s := by
  have hdrop := List.mem_reverse.mp ((List.dropWhile_sublist _).subset (List.mem_reverse.mp h))
  exact (List.dropWhile_sublist _).subset hdrop

end Text

end LakiraBackend.JavaScript
