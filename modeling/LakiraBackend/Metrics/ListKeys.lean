import LakiraBackend.Metrics.ListQueries

/-!
# The keys of list pages are told apart

The parts of a key are read off it (`parts_key`): an id is a part of itself
(`normalizeSegmentValue_uuid`), and a part that a segment is made of tells the segment's text
(`eq_of_optionalText`).  The white space around a cursor is not told, and does not matter to what
it decodes to (`decodeCursor_eq`).
-/

namespace LakiraBackend.Metrics

open LakiraBackend.JavaScript LakiraBackend.Postgres LakiraBackend.Redis

/-! ### Parts -/

theorem joinParts_cons_cons (a b : List Char) (rest : List (List Char)) :
    joinParts (a :: b :: rest) = a ++ ':' :: joinParts (b :: rest) := by
  rw [joinParts, joinParts, List.intercalate_cons_cons, List.append_assoc]
  rfl

theorem joinParts_singleton (a : List Char) : joinParts [a] = a := List.intercalate_singleton

theorem joinParts_pair (a b : List Char) : joinParts [a, b] = a ++ ':' :: b := by
  rw [joinParts_cons_cons, joinParts_singleton]

theorem head_joinParts {c : Char} {label : List Char} {parts : List (List Char)}
    (h : ∃ rest, label = c :: rest) : ∃ rest, joinParts (label :: parts) = c :: rest := by
  obtain ⟨part, rfl⟩ := h
  cases parts with
  | nil => exact ⟨part, joinParts_singleton _⟩
  | cons q parts => exact ⟨_, joinParts_cons_cons _ _ _⟩

theorem joinParts_append {xs ys : List (List Char)} (hxs : xs ≠ []) (hys : ys ≠ []) :
    joinParts (xs ++ ys) = joinParts xs ++ ':' :: joinParts ys := by
  induction xs with
  | nil => exact absurd rfl hxs
  | cons x xs ih =>
    cases xs with
    | nil =>
      obtain ⟨y, ys, rfl⟩ := List.exists_cons_of_ne_nil hys
      rw [joinParts_singleton, List.cons_append, List.nil_append, joinParts_cons_cons]
    | cons x' xs =>
      have hrest := ih (List.cons_ne_nil x' xs)
      rw [List.cons_append] at hrest
      rw [List.cons_append, List.cons_append, joinParts_cons_cons, joinParts_cons_cons, hrest,
        List.append_assoc, List.cons_append]

/-- **Parts that are joined of parts.** -/
theorem joinParts_flatten {groups : List (List (List Char))} (h : ∀ g ∈ groups, g ≠ []) :
    joinParts (groups.map joinParts) = joinParts groups.flatten := by
  induction groups with
  | nil => rfl
  | cons g groups ih =>
    obtain ⟨hg, hrest⟩ := List.forall_mem_cons.mp h
    cases groups with
    | nil => rw [List.map_singleton, joinParts_singleton, List.flatten_singleton]
    | cons g' groups =>
      have hne : (g' :: groups).flatten ≠ [] := by
        have hg' := hrest g' List.mem_cons_self
        simp [hg']
      have hmap : (g' :: groups).map joinParts ≠ [] := List.cons_ne_nil _ _
      rw [List.map_cons, List.flatten_cons, joinParts_append hg hne, ← ih hrest]
      have hjoin : joinParts ([joinParts g] ++ (g' :: groups).map joinParts) =
          joinParts [joinParts g] ++ ':' :: joinParts ((g' :: groups).map joinParts) :=
        joinParts_append (List.cons_ne_nil _ _) hmap
      rw [joinParts_singleton] at hjoin
      exact hjoin

/-- The labels and values of segments, one after another. -/
def flatParts (segments : List (List Char × SegmentValue)) : List (List Char) :=
  segments.flatMap fun s => [s.1, normalizeSegmentValue s.2]

/-- The parts of a list's key. -/
def keyParts (feature : List Char) (userId organizationId : Uuid)
    (segments : List (List Char × SegmentValue)) : List (List Char) :=
  "cursor".toList :: feature :: "v4".toList :: normalizeSegmentValue (.text userId.text) ::
    "org".toList :: normalizeSegmentValue (.text organizationId.text) :: flatParts segments

theorem joinParts_key (ns org feature u o : List Char)
    (segments : List (List Char × SegmentValue))
    (hns : ns = joinParts ["cursor".toList, feature, "v4".toList])
    (horg : org = joinParts ["org".toList, o]) :
    joinParts ([ns, u, org] ++ segments.map fun s => s.1 ++ ':' :: normalizeSegmentValue s.2) =
      joinParts ("cursor".toList :: feature :: "v4".toList :: u :: "org".toList :: o ::
        flatParts segments) := by
  have hsegments : (segments.map fun s => s.1 ++ ':' :: normalizeSegmentValue s.2) =
      (segments.map fun s => [s.1, normalizeSegmentValue s.2]).map joinParts := by
    rw [List.map_map]
    exact List.map_congr_left fun s _ => (joinParts_pair _ _).symm
  have hgroups : ∀ g ∈ (["cursor".toList, feature, "v4".toList] :: [u] :: ["org".toList, o] ::
      segments.map fun s => [s.1, normalizeSegmentValue s.2]), g ≠ [] := by
    intro g hg
    simp only [List.mem_cons, List.mem_map] at hg
    rcases hg with rfl | rfl | rfl | ⟨s, _, rfl⟩ <;> exact List.cons_ne_nil _ _
  have hflatten := joinParts_flatten hgroups
  rw [List.map_cons, List.map_cons, List.map_cons, ← hsegments, ← hns, ← horg,
    joinParts_singleton] at hflatten
  exact hflatten

theorem cursorCacheNamespace_eq (feature : List Char) : cursorCacheNamespace feature ['4'] =
    joinParts ["cursor".toList, feature, "v4".toList] := by
  have hcursor : "cursor:".toList = "cursor".toList ++ [':'] := by decide
  have hcolon : ":v".toList = [':', 'v'] := by decide
  have hversion : "v4".toList = 'v' :: ['4'] := by decide
  unfold cursorCacheNamespace
  rw [joinParts_cons_cons, joinParts_pair, hcursor, hcolon, hversion, List.append_assoc]
  rfl

theorem organizationPart_eq (o : List Char) : "org:".toList ++ o = joinParts ["org".toList, o] := by
  have horg : "org:".toList = "org".toList ++ [':'] := by decide
  rw [joinParts_pair, horg, List.append_assoc]
  rfl

/-- **A key is its parts, joined.** -/
theorem buildCursorCacheKey_eq (feature : List Char) (userId organizationId : Uuid)
    (segments : List (List Char × SegmentValue)) :
    buildCursorCacheKey feature userId organizationId segments =
      joinParts (keyParts feature userId organizationId segments) :=
  joinParts_key _ _ feature _ _ segments (cursorCacheNamespace_eq feature) (organizationPart_eq _)

/-! ### The text of an id -/

theorem mem_text {c : Char} {u : Uuid} (h : c ∈ u.text) :
    c = '-' ∨ ∃ d < 16, c = Nat.digitChar d := by
  have hpad : ∀ {k n : Nat}, c ∈ pad 16 k n → ∃ d < 16, c = Nat.digitChar d :=
    fun hc => mem_pad (by decide) hc
  simp only [Uuid.text, List.mem_append, List.mem_cons] at h
  rcases h with h | h | h | h | h | h | h | h | h
  · exact .inr (hpad h)
  · exact .inl h
  · exact .inr (hpad h)
  · exact .inl h
  · exact .inr (hpad h)
  · exact .inl h
  · exact .inr (hpad h)
  · exact .inl h
  · exact .inr (hpad h)

theorem length_text (u : Uuid) : u.text.length = 36 := by
  simp only [Uuid.text, List.length_append, List.length_cons, length_pad]

theorem dash_mem_text (u : Uuid) : '-' ∈ u.text := by
  rw [Uuid.text]
  exact List.mem_append_right _ List.mem_cons_self

theorem isKept_of_mem_text {c : Char} {u : Uuid} (h : c ∈ u.text) : isKept c = true := by
  have hall : ∀ d < 16, isKept (Nat.digitChar d) = true := by decide
  rcases mem_text h with rfl | ⟨d, hd, rfl⟩
  · decide
  · exact hall d hd

theorem not_isWhiteSpace_of_mem_text {c : Char} {u : Uuid} (h : c ∈ u.text) :
    isWhiteSpace c = false := by
  have hall : ∀ d < 16, isWhiteSpace (Nat.digitChar d) = false := by decide
  rcases mem_text h with rfl | ⟨d, hd, rfl⟩
  · decide
  · exact hall d hd

theorem trimText_uuid (u : Uuid) : trimText u.text = u.text :=
  trimText_of_not_isWhiteSpace fun _ => not_isWhiteSpace_of_mem_text

/-- **An id is left alone.** -/
theorem normalizeSegmentValue_uuid (u : Uuid) : normalizeSegmentValue (.text u.text) = u.text := by
  have hne : u.text ≠ [] := List.ne_nil_of_mem (dash_mem_text u)
  have hkept : ∀ s : List Char, (∀ c ∈ s, isKept c = true) → s.flatMap segmentChar = s := by
    intro s
    induction s with
    | nil => exact fun _ => rfl
    | cons c s ih =>
      intro hs
      obtain ⟨hc, hs⟩ := List.forall_mem_cons.mp hs
      rw [List.flatMap_cons, ih hs, segmentChar, if_pos hc]
      rfl
  simp only [normalizeSegmentValue, trimText_uuid, if_neg hne, encodeSegmentText_eq]
  exact hkept _ fun _ => isKept_of_mem_text

/-! ### Parts are read off a key -/

theorem joinParts_injective {xs ys : List (List Char)} (hxs : ∀ p ∈ xs, ':' ∉ p)
    (hys : ∀ p ∈ ys, ':' ∉ p) (hxs' : xs ≠ []) (hys' : ys ≠ [])
    (h : joinParts xs = joinParts ys) : xs = ys := by
  have hsplit := congrArg (List.splitOn ':') h
  rwa [joinParts, joinParts, List.splitOn_intercalate ':' hxs hxs',
    List.splitOn_intercalate ':' hys hys'] at hsplit

/-- Labels and values without a separator. -/
def SegmentsPlain (segments : List (List Char × SegmentValue)) : Prop :=
  ∀ s ∈ segments, ':' ∉ s.1 ∧ s.2.Proper

theorem not_mem_normalizeSegmentValue {v : SegmentValue} (hv : v.Proper) :
    ':' ∉ normalizeSegmentValue v :=
  fun h => absurd (isPlain_of_mem_normalizeSegmentValue hv ':' h) (by decide)

theorem not_mem_flatParts {segments : List (List Char × SegmentValue)}
    (h : SegmentsPlain segments) : ∀ p ∈ flatParts segments, ':' ∉ p := by
  intro p hp
  obtain ⟨s, hs, hp⟩ := List.mem_flatMap.mp hp
  simp only [List.mem_cons, List.not_mem_nil, or_false] at hp
  rcases hp with rfl | rfl
  · exact (h s hs).1
  · exact not_mem_normalizeSegmentValue (h s hs).2

theorem not_mem_keyParts {feature : List Char} {segments : List (List Char × SegmentValue)}
    (hfeature : ':' ∉ feature) (h : SegmentsPlain segments) (userId organizationId : Uuid) :
    ∀ p ∈ keyParts feature userId organizationId segments, ':' ∉ p := by
  intro p hp
  simp only [keyParts, List.mem_cons] at hp
  rcases hp with rfl | rfl | rfl | rfl | rfl | rfl | hp
  · decide
  · exact hfeature
  · decide
  · exact not_mem_normalizeSegmentValue trivial
  · decide
  · exact not_mem_normalizeSegmentValue trivial
  · exact not_mem_flatParts h p hp

/-- **The parts of a key are read off it.** -/
theorem parts_key {feature feature' : List Char}
    {segments segments' : List (List Char × SegmentValue)} {u u' o o' : Uuid}
    (hfeature : ':' ∉ feature) (hfeature' : ':' ∉ feature') (h : SegmentsPlain segments)
    (h' : SegmentsPlain segments')
    (heq : buildCursorCacheKey feature u o segments = buildCursorCacheKey feature' u' o' segments') :
    feature = feature' ∧ u = u' ∧ o = o' ∧ flatParts segments = flatParts segments' := by
  rw [buildCursorCacheKey_eq, buildCursorCacheKey_eq] at heq
  have hparts := joinParts_injective (not_mem_keyParts hfeature h u o)
    (not_mem_keyParts hfeature' h' u' o') (List.cons_ne_nil _ _) (List.cons_ne_nil _ _) heq
  simp only [keyParts, normalizeSegmentValue_uuid, List.cons.injEq, true_and] at hparts
  obtain ⟨hf, hu, ho, hsegments⟩ := hparts
  exact ⟨hf, Uuid.text_injective hu, Uuid.text_injective ho, hsegments⟩

/-! ### White space around a cursor -/

/-- The codes of white space. -/
def whiteSpaceCodes : List Nat :=
  [0x09, 0x0A, 0x0B, 0x0C, 0x0D, 0x20, 0xA0, 0x1680, 0x2028, 0x2029, 0x202F, 0x205F, 0x3000, 0xFEFF,
    0x2000, 0x2001, 0x2002, 0x2003, 0x2004, 0x2005, 0x2006, 0x2007, 0x2008, 0x2009, 0x200A]

theorem of_isWhiteSpace {P : Char → Prop} (hall : ∀ n ∈ whiteSpaceCodes, P (Char.ofNat n))
    {c : Char} (h : isWhiteSpace c = true) : P c := by
  have hcode : c.toNat ∈ whiteSpaceCodes := by
    simp only [isWhiteSpace, Bool.or_eq_true, decide_eq_true_eq, Bool.and_eq_true, List.mem_cons,
      List.not_mem_nil, or_false] at h
    simp only [whiteSpaceCodes, List.mem_cons, List.not_mem_nil, or_false]
    omega
  have hc := hall c.toNat hcode
  rwa [Char.ofNat_toNat] at hc

theorem sextet_of_isWhiteSpace {c : Char} (h : isWhiteSpace c = true) :
    Buffer.sextet c = none ∧ c ≠ '=' :=
  of_isWhiteSpace (P := fun c => Buffer.sextet c = none ∧ c ≠ '=') (by decide) h

theorem trimText_split (s : List Char) : ∃ front back, s = front ++ (trimText s ++ back) ∧
    (∀ c ∈ front, isWhiteSpace c = true) ∧ ∀ c ∈ back, isWhiteSpace c = true := by
  let t := s.dropWhile isWhiteSpace
  refine ⟨s.takeWhile isWhiteSpace, (t.reverse.takeWhile isWhiteSpace).reverse, ?_, ?_, ?_⟩
  · have hback : trimText s ++ (t.reverse.takeWhile isWhiteSpace).reverse = t := by
      rw [trimText, ← List.reverse_append, List.takeWhile_append_dropWhile, List.reverse_reverse]
    rw [hback, List.takeWhile_append_dropWhile]
  · exact fun c hc => List.mem_takeWhile_imp hc
  · exact fun c hc => List.mem_takeWhile_imp (List.mem_reverse.mp hc)

/-- A decoder skips white space. -/
theorem fromBase64url_trimText (s : List Char) :
    Buffer.fromBase64url (trimText s) = Buffer.fromBase64url s := by
  have hfront : ∀ front t : List Char, (∀ c ∈ front, isWhiteSpace c = true) →
      ((front ++ t).takeWhile fun c => c ≠ '=').filterMap Buffer.sextet =
        (t.takeWhile fun c => c ≠ '=').filterMap Buffer.sextet := by
    intro front t hws
    induction front with
    | nil => rfl
    | cons c front ih =>
      obtain ⟨hc, hrest⟩ := List.forall_mem_cons.mp hws
      obtain ⟨hnone, hne⟩ := sextet_of_isWhiteSpace hc
      rw [List.cons_append, List.takeWhile_cons_of_pos (by simpa using hne),
        List.filterMap_cons_none hnone, ih hrest]
  have hback : ∀ t back : List Char, (∀ c ∈ back, isWhiteSpace c = true) →
      ((t ++ back).takeWhile fun c => c ≠ '=').filterMap Buffer.sextet =
        (t.takeWhile fun c => c ≠ '=').filterMap Buffer.sextet := by
    intro t back hws
    induction t with
    | nil => simpa using hfront back [] hws
    | cons c t ih =>
      by_cases hc : c = '='
      · simp [hc]
      · rw [List.cons_append, List.takeWhile_cons_of_pos (by simpa using hc),
          List.takeWhile_cons_of_pos (by simpa using hc), List.filterMap_cons, List.filterMap_cons,
          ih]
  obtain ⟨front, back, hs, hf, hb⟩ := trimText_split s
  conv_rhs => rw [hs]
  rw [Buffer.fromBase64url, Buffer.fromBase64url, hfront _ _ hf, hback _ _ hb]

theorem decodeCursor_eq (after : Option (List Char)) :
    decodeCursor after = Json.ofBase64url (trimText (after.getD [])) := by
  cases after with
  | none => rfl
  | some s =>
    rw [Option.getD_some, Json.ofBase64url, fromBase64url_trimText]
    cases s <;> rfl

/-! ### What is sent is read off the segments -/

/-- No list without its white space, and none is empty. -/
def SentTrimmed {α : Type} (f : α → List Char) (a : Option α) : Prop :=
  ∀ x ∈ a, trimText (f x) = f x ∧ f x ≠ []

theorem eq_of_optionalText {α : Type} {f : α → List Char} (hf : Function.Injective f)
    {a a' : Option α} (ha : SentTrimmed f a) (ha' : SentTrimmed f a')
    (h : normalizeSegmentValue (optionalText (a.map f)) =
      normalizeSegmentValue (optionalText (a'.map f))) : a = a' := by
  have htrim := trimText_eq_of_segment h
  cases a with
  | none =>
    cases a' with
    | none => rfl
    | some x' =>
      obtain ⟨heq, hne⟩ := ha' x' rfl
      exact absurd (heq.symm.trans htrim.symm) hne
  | some x =>
    obtain ⟨heq, hne⟩ := ha x rfl
    cases a' with
    | none => exact absurd (heq.symm.trans htrim) hne
    | some x' =>
      have hx : f x = f x' := heq.symm.trans (htrim.trans (ha' x' rfl).1)
      rw [hf hx]

theorem toList_injective : Function.Injective String.toList := fun _ _ => String.toList_inj.mp

theorem trimmed_of_normalizedSearchParam {q q' : Option String}
    (h : normalizedSearchParam q = some q') : SentTrimmed String.toList q' := by
  obtain ⟨rfl, hne⟩ := normalizedSearchParam_eq_some h
  intro s hs
  obtain ⟨t, ht, rfl⟩ := Option.map_eq_some_iff.mp hs
  refine ⟨?_, fun hnil => hne t ht (String.toList_inj.mp hnil)⟩
  rw [trim, String.toList_ofList, trimText_trimText]

theorem SentTrimmed.orElse {α : Type} {f : α → List Char} {a b : Option α} (ha : SentTrimmed f a)
    (hb : SentTrimmed f b) : SentTrimmed f (a <|> b) := by
  cases a with
  | none => exact hb
  | some x => exact ha

theorem digits_of_takeDigits {k acc n : Nat} {s t : List Char}
    (h : takeDigits 16 k acc s = some (n, t)) :
    ∃ digits, s = digits ++ t ∧ ∀ c ∈ digits, (digitValue 16 c).isSome = true := by
  induction k generalizing acc s with
  | zero =>
    obtain ⟨_, rfl⟩ := Prod.mk.inj (Option.some.inj h)
    exact ⟨[], rfl, fun c hc => nomatch hc⟩
  | succ k ih =>
    cases s with
    | nil => cases h
    | cons c s =>
      obtain ⟨d, hd, h⟩ := Option.bind_eq_some_iff.mp h
      obtain ⟨digits, rfl, hdigits⟩ := ih h
      refine ⟨c :: digits, rfl, List.forall_mem_cons.mpr ⟨?_, hdigits⟩⟩
      rw [hd]
      rfl

theorem not_isWhiteSpace_of_digitValue {c : Char} (h : (digitValue 16 c).isSome = true) :
    isWhiteSpace c = false := by
  by_contra hws
  have hnone := of_isWhiteSpace (P := fun c => digitValue 16 c = none) (by decide)
    (Bool.of_not_eq_false hws)
  rw [hnone] at h
  cases h

theorem digits_of_group {k acc n : Nat} {s t : List Char} (h : Uuid.group k acc s = some (n, t)) :
    ∃ digits, s = digits ++ '-' :: t ∧ ∀ c ∈ digits, (digitValue 16 c).isSome = true := by
  obtain ⟨⟨m, r⟩, hp, hdash⟩ := Option.bind_eq_some_iff.mp h
  obtain ⟨digits, rfl, hdigits⟩ := digits_of_takeDigits hp
  split at hdash
  · rename_i r' hr
    obtain ⟨_, rfl⟩ := Prod.mk.inj (Option.some.inj hdash)
    exact ⟨digits, congrArg (digits ++ ·) hr, hdigits⟩
  · cases hdash

/-- **An id is sent as digits and dashes.** -/
theorem digits_of_ofText {s : List Char} {id : Uuid} (h : Uuid.ofText s = some id) :
    s ≠ [] ∧ ∀ c ∈ s, c = '-' ∨ (digitValue 16 c).isSome = true := by
  obtain ⟨⟨a, s₁⟩, h₁, h⟩ := Option.bind_eq_some_iff.mp h
  obtain ⟨⟨b, s₂⟩, h₂, h⟩ := Option.bind_eq_some_iff.mp h
  obtain ⟨⟨c, s₃⟩, h₃, h⟩ := Option.bind_eq_some_iff.mp h
  obtain ⟨⟨d, s₄⟩, h₄, h⟩ := Option.bind_eq_some_iff.mp h
  obtain ⟨⟨n, s₅⟩, h₅, hend⟩ := Option.bind_eq_some_iff.mp h
  obtain ⟨d₁, rfl, hd₁⟩ := digits_of_group h₁
  obtain ⟨d₂, rfl, hd₂⟩ := digits_of_group h₂
  obtain ⟨d₃, rfl, hd₃⟩ := digits_of_group h₃
  obtain ⟨d₄, rfl, hd₄⟩ := digits_of_group h₄
  obtain ⟨d₅, rfl, hd₅⟩ := digits_of_takeDigits h₅
  have hnil : s₅ = [] := by
    by_contra hne
    have hnone : (if h : n < 2 ^ 128 ∧ s₅ = [] then some (⟨n, h.1⟩ : Uuid) else none) = none :=
      dif_neg fun hn => hne hn.2
    exact Option.some_ne_none id (hend.symm.trans hnone)
  subst hnil
  refine ⟨fun hnil => ?_, ?_⟩
  · have hlength := congrArg List.length hnil
    simp at hlength
  · simp only [List.append_nil, List.forall_mem_append, List.forall_mem_cons]
    exact ⟨fun c hc => .inr (hd₁ c hc), .inl trivial, fun c hc => .inr (hd₂ c hc), .inl trivial,
      fun c hc => .inr (hd₃ c hc), .inl trivial, fun c hc => .inr (hd₄ c hc), .inl trivial,
      fun c hc => .inr (hd₅ c hc)⟩

theorem not_isWhiteSpace_of_ofText {s : List Char} {id : Uuid} (h : Uuid.ofText s = some id) :
    s ≠ [] ∧ ∀ c ∈ s, isWhiteSpace c = false := by
  refine ⟨(digits_of_ofText h).1, fun c hc => ?_⟩
  rcases (digits_of_ofText h).2 c hc with rfl | hdigit
  · decide
  · exact not_isWhiteSpace_of_digitValue hdigit

theorem not_mem_idText (i : IdText) : ':' ∉ i.text := by
  intro hmem
  rcases (digits_of_ofText i.spells).2 _ hmem with hdash | hdigit
  · cases hdash
  · cases hdigit

theorem trimmed_id (id : Option IdText) : SentTrimmed IdText.text id := fun i _ =>
  ⟨trimText_of_not_isWhiteSpace (not_isWhiteSpace_of_ofText i.spells).2,
    (not_isWhiteSpace_of_ofText i.spells).1⟩

theorem idText_injective : Function.Injective IdText.text := by
  rintro ⟨s, id, h⟩ ⟨s', id', h'⟩ (rfl : s = s')
  obtain rfl := Option.some.inj (h.symm.trans h')
  rfl

end LakiraBackend.Metrics
