import LakiraBackend.JavaScript.Digits

/-!
# Node's `Buffer`, between texts and bytes

`utf8` and `utf8Text` are `Buffer.from(text)` and `toString("utf8")`; `base64url` and
`fromBase64url` are `toString("base64url")` and `Buffer.from(text, "base64url")`, which
takes both alphabets, skips what is in neither and stops at a padding.  Bytes that are
written are read back (`fromBase64url_base64url`), and so are texts (`utf8Text_utf8`).
-/

namespace LakiraBackend.JavaScript.Buffer

/-! ### UTF-8 -/

def utf8 (s : List Char) : List UInt8 := s.flatMap String.utf8EncodeChar

/-- The character of a sequence of `n` bytes after the first, whose bits are `acc`. -/
def sequence : Nat → Nat → List UInt8 → Option (Nat × List UInt8)
  | 0, acc, bs => some (acc, bs)
  | _ + 1, _, [] => none
  | n + 1, acc, b :: bs =>
    if b.toNat / 64 = 2 then sequence n (acc * 64 + b.toNat % 64) bs else none

/-- One character, with what is left; bytes that are none stand for U+FFFD. -/
def utf8Char (b : UInt8) (bs : List UInt8) : Char × List UInt8 :=
  let n := b.toNat
  let (length, bits, least) :=
    if n < 0x80 then (0, n, 0)
    else if n / 32 = 6 then (1, n % 32, 0x80)
    else if n / 16 = 14 then (2, n % 16, 0x800)
    else if n / 8 = 30 then (3, n % 8, 0x10000)
    else (0, 0xFFFD, 0)
  match sequence length bits bs with
  | some (v, rest) => if least ≤ v ∧ v.isValidChar then (Char.ofNat v, rest) else ('\uFFFD', bs)
  | none => ('\uFFFD', bs)

def utf8Texts : Nat → List UInt8 → List Char
  | 0, _ => []
  | _ + 1, [] => []
  | n + 1, b :: bs => (utf8Char b bs).1 :: utf8Texts n (utf8Char b bs).2

def utf8Text (bs : List UInt8) : List Char := utf8Texts bs.length bs

theorem utf8Char_of_ascii {c : Char} (h : c.toNat < 0x80) (bs : List UInt8) :
    utf8Char (UInt8.ofNat c.toNat) bs = (c, bs) := by
  have hn : (UInt8.ofNat c.toNat).toNat = c.toNat := by
    rw [UInt8.toNat_ofNat']
    omega
  have hvalid : c.toNat.isValidChar := c.valid
  have hback : Char.ofNat c.toNat = c := Char.ofNat_toNat c
  simp only [utf8Char, hn, if_pos h, sequence, Nat.zero_le, true_and, if_pos hvalid, hback]

theorem toNat_ofNat {n : Nat} (h : n < 256) : (UInt8.ofNat n).toNat = n := by
  rw [UInt8.toNat_ofNat', Nat.mod_eq_of_lt h]

/-- A continuation byte adds its six bits. -/
theorem sequence_tail (n acc v : Nat) (bs : List UInt8) :
    sequence (n + 1) acc (UInt8.ofNat (v % 64 + 128) :: bs) = sequence n (acc * 64 + v % 64) bs := by
  have htail : (UInt8.ofNat (v % 64 + 128)).toNat = v % 64 + 128 := toNat_ofNat (by omega)
  rw [sequence, htail, if_pos (by omega)]
  congr 1
  omega

/-- A first byte, with how many bytes follow, its bits and the least they may stand for. -/
inductive Leads (n : Nat) : Nat × Nat × Nat → Prop
  | one : n < 0x80 → Leads n (0, n, 0)
  | two : n / 32 = 6 → Leads n (1, n % 32, 0x80)
  | three : n / 16 = 14 → Leads n (2, n % 16, 0x800)
  | four : n / 8 = 30 → Leads n (3, n % 8, 0x10000)

theorem utf8Char_of_leads {c : Char} {b : UInt8} {bs rest : List UInt8} {length bits least : Nat}
    (h : Leads b.toNat (length, bits, least))
    (hseq : sequence length bits bs = some (c.toNat, rest)) (hleast : least ≤ c.toNat) :
    utf8Char b bs = (c, rest) := by
  have hvalid : c.toNat.isValidChar := c.valid
  have hlead : (if b.toNat < 0x80 then (0, b.toNat, 0)
      else if b.toNat / 32 = 6 then (1, b.toNat % 32, 0x80)
      else if b.toNat / 16 = 14 then (2, b.toNat % 16, 0x800)
      else if b.toNat / 8 = 30 then (3, b.toNat % 8, 0x10000)
      else (0, 0xFFFD, 0)) = (length, bits, least) := by
    cases h with
    | one h => exact if_pos h
    | two h => rw [if_neg (by omega), if_pos h]
    | three h => rw [if_neg (by omega), if_neg (by omega), if_pos h]
    | four h => rw [if_neg (by omega), if_neg (by omega), if_neg (by omega), if_pos h]
  simp only [utf8Char, hlead, hseq, if_pos (And.intro hleast hvalid), Char.ofNat_toNat]

/-- A character is read from the bytes it is written with. -/
theorem utf8Char_encode (c : Char) (bs : List UInt8) :
    ∃ b rest, String.utf8EncodeChar c = b :: rest ∧ utf8Char b (rest ++ bs) = (c, bs) := by
  have hlt : c.toNat < 0x110000 := by
    rcases c.valid with h | ⟨-, h⟩ <;> (have : c.toNat = c.val.toNat := rfl; omega)
  have hval : c.val.toNat = c.toNat := rfl
  have hchar : ∀ (n : Nat) (rest : List UInt8), n = c.toNat →
      some (n, rest) = some (c.toNat, rest) := fun n rest h => by rw [h]
  unfold String.utf8EncodeChar
  simp only [hval]
  split
  · refine ⟨_, _, rfl, utf8Char_of_leads (.one ?_) ?_ (Nat.zero_le _)⟩ <;>
      rw [toNat_ofNat (by omega)]
    · omega
    · rfl
  split
  · refine ⟨_, _, rfl, utf8Char_of_leads (.two ?_) ?_ (by omega)⟩ <;> rw [toNat_ofNat (by omega)]
    · omega
    · rw [List.cons_append, sequence_tail]
      exact hchar _ _ (by omega)
  split
  · refine ⟨_, _, rfl, utf8Char_of_leads (.three ?_) ?_ (by omega)⟩ <;> rw [toNat_ofNat (by omega)]
    · omega
    · rw [List.cons_append, sequence_tail, List.cons_append, sequence_tail]
      exact hchar _ _ (by omega)
  · refine ⟨_, _, rfl, utf8Char_of_leads (.four ?_) ?_ (by omega)⟩ <;> rw [toNat_ofNat (by omega)]
    · omega
    · rw [List.cons_append, sequence_tail, List.cons_append, sequence_tail, List.cons_append,
        sequence_tail]
      exact hchar _ _ (by omega)

theorem utf8Texts_utf8 {n : Nat} {s : List Char} (hn : (utf8 s).length ≤ n) :
    utf8Texts n (utf8 s) = s := by
  induction s generalizing n with
  | nil => cases n <;> rfl
  | cons c s ih =>
    obtain ⟨b, rest, hencode, hread⟩ := utf8Char_encode c (utf8 s)
    have hcons : utf8 (c :: s) = b :: (rest ++ utf8 s) := by
      rw [utf8, List.flatMap_cons, hencode]
      rfl
    rw [hcons, List.length_cons, List.length_append] at hn
    obtain ⟨m, rfl⟩ : ∃ m, n = m + 1 := ⟨n - 1, by omega⟩
    rw [hcons, utf8Texts, hread]
    exact congrArg (c :: ·) (ih (by omega))

/-- **A text is read back.** -/
theorem utf8Text_utf8 (s : List Char) : utf8Text (utf8 s) = s := utf8Texts_utf8 (Nat.le_refl _)

/-- Only continuation bytes are taken. -/
theorem sequence_eq_some {n acc v : Nat} {bs rest : List UInt8}
    (h : sequence n acc bs = some (v, rest)) :
    ∃ taken, bs = taken ++ rest ∧ ∀ b ∈ taken, b.toNat / 64 = 2 := by
  induction n generalizing acc bs with
  | zero =>
    rw [sequence] at h
    cases h
    exact ⟨[], rfl, nofun⟩
  | succ n ih =>
    cases bs with
    | nil => cases h
    | cons b bs =>
      rw [sequence] at h
      split at h
      · rename_i hb
        obtain ⟨taken, rfl, htaken⟩ := ih h
        exact ⟨b :: taken, rfl, List.forall_mem_cons.mpr ⟨hb, htaken⟩⟩
      · cases h

theorem mem_of_sequence {x : UInt8} (hx : x.toNat / 64 ≠ 2) {n acc v : Nat}
    {bs rest : List UInt8} (h : sequence n acc bs = some (v, rest)) (hmem : x ∈ bs) : x ∈ rest := by
  obtain ⟨taken, rfl, htaken⟩ := sequence_eq_some h
  exact (List.mem_append.mp hmem).resolve_left fun hx' => hx (htaken x hx')

theorem length_of_sequence {n acc v : Nat} {bs rest : List UInt8}
    (h : sequence n acc bs = some (v, rest)) : rest.length ≤ bs.length := by
  obtain ⟨taken, rfl, _⟩ := sequence_eq_some h
  rw [List.length_append]
  exact Nat.le_add_left _ _

/-- What is left after a character: all of it, or what is left after continuation bytes. -/
theorem utf8Char_snd (b : UInt8) (bs : List UInt8) :
    (utf8Char b bs).2 = bs ∨
      ∃ n acc v, sequence n acc bs = some (v, (utf8Char b bs).2) := by
  rw [utf8Char]
  split
  rename_i length bits least _
  cases hseq : sequence length bits bs with
  | none => exact .inl rfl
  | some read =>
    simp only
    split
    · exact .inr ⟨length, bits, read.1, hseq⟩
    · exact .inl rfl

/-- The byte of an ASCII character is read as that character, wherever it is. -/
theorem mem_utf8Texts {c : Char} (hc : c.toNat < 0x80) {n : Nat} {bs : List UInt8}
    (hn : bs.length ≤ n) (h : UInt8.ofNat c.toNat ∈ bs) : c ∈ utf8Texts n bs := by
  have hx : (UInt8.ofNat c.toNat).toNat / 64 ≠ 2 := by
    rw [UInt8.toNat_ofNat']
    omega
  induction n generalizing bs with
  | zero =>
    rw [List.length_eq_zero_iff.mp (Nat.le_zero.mp hn)] at h
    cases h
  | succ n ih =>
    cases bs with
    | nil => cases h
    | cons b bs =>
      rw [utf8Texts]
      have hlen : bs.length ≤ n := Nat.le_of_succ_le_succ hn
      rcases List.mem_cons.mp h with rfl | h
      · rw [utf8Char_of_ascii hc]
        exact List.mem_cons_self
      · refine List.mem_cons_of_mem _ ?_
        rcases utf8Char_snd b bs with hall | ⟨m, acc, v, hseq⟩
        · rw [hall]
          exact ih hlen h
        · exact ih (Nat.le_trans (length_of_sequence hseq) hlen) (mem_of_sequence hx hseq h)

theorem mem_utf8Text {c : Char} (hc : c.toNat < 0x80) {bs : List UInt8}
    (h : UInt8.ofNat c.toNat ∈ bs) : c ∈ utf8Text bs :=
  mem_utf8Texts hc (Nat.le_refl _) h

/-- Characters that are not ASCII have no byte of one that is. -/
theorem eq_of_mem_utf8EncodeChar {c d : Char} (hc : c.toNat < 0x80)
    (h : UInt8.ofNat c.toNat ∈ String.utf8EncodeChar d) : c = d := by
  have hbyte : ∀ n : Nat, UInt8.ofNat c.toNat = UInt8.ofNat n → n % 256 = c.toNat := by
    intro n heq
    have := congrArg UInt8.toNat heq
    rw [UInt8.toNat_ofNat', UInt8.toNat_ofNat'] at this
    omega
  have hvalue : d.val.toNat = d.toNat := rfl
  unfold String.utf8EncodeChar at h
  extract_lets v at h
  split at h
  · have hn := hbyte _ (List.mem_singleton.mp h)
    exact Char.toNat_inj.mp (by omega)
  · exfalso
    split_ifs at h <;> simp only [List.mem_cons, List.not_mem_nil, or_false] at h
    · rcases h with h | h <;> have := hbyte _ h <;> omega
    · rcases h with h | h | h <;> have := hbyte _ h <;> omega
    · rcases h with h | h | h | h <;> have := hbyte _ h <;> omega

theorem mem_of_mem_utf8 {c : Char} (hc : c.toNat < 0x80) {s : List Char}
    (h : UInt8.ofNat c.toNat ∈ utf8 s) : c ∈ s := by
  obtain ⟨d, hd, h⟩ := List.mem_flatMap.mp h
  exact eq_of_mem_utf8EncodeChar hc h ▸ hd

/-! ### Base64 -/

/-- The digit of the last six bits. -/
def digit (n : Nat) : Char :=
  let v := n % 64
  if v < 26 then Char.ofNat ('A'.toNat + v)
  else if v < 52 then Char.ofNat ('a'.toNat + (v - 26))
  else if v < 62 then Char.ofNat ('0'.toNat + (v - 52))
  else if v = 62 then '-' else '_'

/-- The six bits of a digit, of either alphabet. -/
def sextet (c : Char) : Option Nat :=
  if 'A' ≤ c ∧ c ≤ 'Z' then some (c.toNat - 'A'.toNat)
  else if 'a' ≤ c ∧ c ≤ 'z' then some (c.toNat - 'a'.toNat + 26)
  else if '0' ≤ c ∧ c ≤ '9' then some (c.toNat - '0'.toNat + 52)
  else if c = '-' ∨ c = '+' then some 62
  else if c = '_' ∨ c = '/' then some 63
  else none

def base64url : List UInt8 → List Char
  | a :: b :: c :: bs =>
    let n := a.toNat * 65536 + b.toNat * 256 + c.toNat
    digit (n / 262144) :: digit (n / 4096) :: digit (n / 64) :: digit n :: base64url bs
  | [a, b] =>
    let n := a.toNat * 1024 + b.toNat * 4
    [digit (n / 4096), digit (n / 64), digit n]
  | [a] => [digit (a.toNat * 16 / 64), digit (a.toNat * 16)]
  | [] => []

/-- The bytes of sextets; one alone is none. -/
def bytes : List Nat → List UInt8
  | p :: q :: r :: s :: ns =>
    let n := p * 262144 + q * 4096 + r * 64 + s
    .ofNat (n / 65536) :: .ofNat (n / 256) :: .ofNat n :: bytes ns
  | [p, q, r] =>
    let n := p * 4096 + q * 64 + r
    [.ofNat (n / 1024), .ofNat (n / 4)]
  | [p, q] => [.ofNat ((p * 64 + q) / 16)]
  | _ => []

def fromBase64url (s : List Char) : List UInt8 :=
  bytes ((s.takeWhile fun c => c ≠ '=').filterMap sextet)

theorem sextet_digit (n : Nat) : sextet (digit n) = some (n % 64) ∧ digit n ≠ '=' := by
  have hall : ∀ m < 64, sextet (digit m) = some m ∧ digit m ≠ '=' := by decide +kernel
  have h := hall (n % 64) (Nat.mod_lt n (by decide))
  have hmod : digit (n % 64) = digit n := by rw [digit, digit, Nat.mod_mod]
  rwa [hmod] at h

/-- Digits are read one by one. -/
theorem sextets_cons (n : Nat) (s : List Char) :
    ((digit n :: s).takeWhile fun c => c ≠ '=').filterMap sextet =
      n % 64 :: (s.takeWhile fun c => c ≠ '=').filterMap sextet := by
  obtain ⟨hs, hne⟩ := sextet_digit n
  rw [List.takeWhile_cons_of_pos (by simpa using hne), List.filterMap_cons_some hs]

theorem ofNat_of_toNat {b : UInt8} {n : Nat} (h : n % 256 = b.toNat) : UInt8.ofNat n = b := by
  apply UInt8.toNat_inj.mp
  rw [UInt8.toNat_ofNat', ← h]

/-- **Bytes that are written are read back.** -/
theorem fromBase64url_base64url (bs : List UInt8) : fromBase64url (base64url bs) = bs := by
  induction bs using base64url.induct with
  | case1 a b c bs ih =>
    have ha := a.toNat_lt
    have hb := b.toNat_lt
    have hc := c.toNat_lt
    rw [fromBase64url, base64url]
    simp only [sextets_cons, bytes]
    rw [← fromBase64url, ih]
    rw [ofNat_of_toNat (b := a) (by omega), ofNat_of_toNat (b := b) (by omega),
      ofNat_of_toNat (b := c) (by omega)]
  | case2 a b =>
    have ha := a.toNat_lt
    have hb := b.toNat_lt
    rw [fromBase64url, base64url]
    simp only [sextets_cons, List.takeWhile_nil, List.filterMap_nil, bytes]
    rw [ofNat_of_toNat (b := a) (by omega), ofNat_of_toNat (b := b) (by omega)]
  | case3 a =>
    have ha := a.toNat_lt
    rw [fromBase64url, base64url]
    simp only [sextets_cons, List.takeWhile_nil, List.filterMap_nil, bytes]
    rw [ofNat_of_toNat (b := a) (by omega)]
  | case4 => rfl

end LakiraBackend.JavaScript.Buffer
