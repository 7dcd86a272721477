import LakiraBackend.Logging.SentryScrub

/-!
# The addresses in `extra` and `contexts`

`redactObject` and `maskAddressesDeep` both stop five levels down, but the first still writes the
summary of an error it meets there, which the second does not enter.  The second masks the strings
whose path has at most five steps (`leaves_maskAddressesDeep`), and the first leaves others only in
errors (`mem_escapes`).  So every string is masked exactly when what is kept of those errors
holds no address (`addresses_masked_iff`).
-/

namespace LakiraBackend.Logging.Sentry

open LakiraBackend.JavaScript

/-! ### Leaves -/

/-- A string in a value: the keys and the indices that lead to it, and its text. -/
abbrev Leaf : Type := List (String ⊕ Nat) × Text

def Leaf.under (step : String ⊕ Nat) (l : Leaf) : Leaf := (step :: l.1, l.2)

mutual

/-- The strings in a value, at any depth. -/
def leaves : Value → List Leaf
  | .string s => [([], s)]
  | .array items => itemLeaves 0 items
  | .object fields => fieldLeaves fields
  | .error _ _ fields _ => fieldLeaves fields
  | _ => []

def itemLeaves : Nat → List Value → List Leaf
  | _, [] => []
  | i, v :: items => (leaves v).map (Leaf.under (.inr i)) ++ itemLeaves (i + 1) items

def fieldLeaves : List (String × Value) → List Leaf
  | [] => []
  | (key, v) :: fields => (leaves v).map (Leaf.under (.inl key)) ++ fieldLeaves fields

end

def maskLeaf (l : Leaf) : Leaf := (l.1, maskAddresses l.2)

theorem itemLeaves_pos {l : Leaf} {items : List Value} {i : Nat} (h : l ∈ itemLeaves i items) :
    0 < l.1.length := by
  induction items generalizing i with
  | nil => cases h
  | cons v items ih =>
    rw [itemLeaves] at h
    rcases List.mem_append.mp h with h | h
    · obtain ⟨l', _, rfl⟩ := List.mem_map.mp h
      exact Nat.succ_pos _
    · exact ih h

theorem fieldLeaves_pos {l : Leaf} {fields : List (String × Value)} (h : l ∈ fieldLeaves fields) :
    0 < l.1.length := by
  induction fields with
  | nil => cases h
  | cons f fields ih =>
    rw [fieldLeaves] at h
    rcases List.mem_append.mp h with h | h
    · obtain ⟨l', _, rfl⟩ := List.mem_map.mp h
      exact Nat.succ_pos _
    · exact ih h

/-! ### The masking walk -/

/-- What the walk makes of a string, from a place at some depth. -/
def maskNear (depth : Nat) (l : Leaf) : Leaf :=
  if depth + l.1.length ≤ MAX_DEPTH then maskLeaf l else l

theorem map_maskNear_of_deep {ls : List Leaf} {depth : Nat} (hdepth : MAX_DEPTH ≤ depth)
    (h : ∀ l ∈ ls, 0 < l.1.length) : ls.map (maskNear depth) = ls := by
  refine (List.map_congr_left fun l hl => ?_).trans (List.map_id ls)
  have := h l hl
  exact if_neg (by omega)

theorem map_under_maskNear (step : String ⊕ Nat) (depth : Nat) (ls : List Leaf) :
    (ls.map (maskNear (depth + 1))).map (Leaf.under step) =
      (ls.map (Leaf.under step)).map (maskNear depth) := by
  rw [List.map_map, List.map_map]
  refine List.map_congr_left fun l _ => ?_
  have hlength : (Leaf.under step l).1.length = l.1.length + 1 := rfl
  show Leaf.under step (maskNear (depth + 1) l) = maskNear depth (Leaf.under step l)
  by_cases h : depth + 1 + l.1.length ≤ MAX_DEPTH
  · rw [maskNear, maskNear, if_pos h, if_pos (by omega)]
    rfl
  · rw [maskNear, maskNear, if_neg h, if_neg (by omega)]

mutual

/-- **The walk masks the strings that are near.** -/
theorem leaves_maskAddressesDeep (v : Value) {depth : Nat} (hdepth : depth ≤ MAX_DEPTH) :
    leaves (maskAddressesDeep v depth) = (leaves v).map (maskNear depth) := by
  cases v with
  | string s =>
    rw [maskAddressesDeep, leaves, leaves, List.map_singleton, maskNear,
      if_pos (by simpa using hdepth)]
    rfl
  | array items =>
    rw [maskAddressesDeep]
    split
    · rename_i hdeep
      rw [leaves, map_maskNear_of_deep hdeep fun l hl => itemLeaves_pos hl]
    · rw [leaves, leaves, itemLeaves_maskItems items 0 (by omega)]
  | object fields =>
    rw [maskAddressesDeep]
    split
    · rename_i hdeep
      rw [leaves, map_maskNear_of_deep hdeep fun l hl => fieldLeaves_pos hl]
    · rw [leaves, leaves, fieldLeaves_maskFields fields (by omega)]
  | error name message fields hidden =>
    rw [maskAddressesDeep]
    split
    · rename_i hdeep
      rw [leaves, map_maskNear_of_deep hdeep fun l hl => fieldLeaves_pos hl]
    · rw [leaves, leaves, fieldLeaves_maskFields fields (by omega)]
  | date time =>
    rw [maskAddressesDeep]
    split <;> rfl
  | _ => rfl

theorem itemLeaves_maskItems (items : List Value) (i : Nat) {depth : Nat}
    (hdepth : depth + 1 ≤ MAX_DEPTH) :
    itemLeaves i (maskItems items (depth + 1)) = (itemLeaves i items).map (maskNear depth) := by
  cases items with
  | nil => rfl
  | cons v items =>
    rw [maskItems, itemLeaves, itemLeaves, List.map_append, leaves_maskAddressesDeep v hdepth,
      map_under_maskNear, itemLeaves_maskItems items (i + 1) hdepth]

theorem fieldLeaves_maskFields (fields : List (String × Value)) {depth : Nat}
    (hdepth : depth + 1 ≤ MAX_DEPTH) :
    fieldLeaves (maskFields fields (depth + 1)) = (fieldLeaves fields).map (maskNear depth) := by
  cases fields with
  | nil => rfl
  | cons f fields =>
    obtain ⟨key, v⟩ := f
    rw [maskFields, fieldLeaves, fieldLeaves, List.map_append, leaves_maskAddressesDeep v hdepth,
      map_under_maskNear, fieldLeaves_maskFields fields hdepth]

end

/-- Of the strings on some paths, the walk masks all exactly when those that are too far hold no
address. -/
theorem masked_iff (v : Value) (kept : List (String ⊕ Nat) → Bool) :
    (leaves (maskAddressesDeep v 0)).filter (fun l => kept l.1) =
        ((leaves v).filter fun l => kept l.1).map maskLeaf ↔
      ∀ l ∈ leaves v, kept l.1 = true → MAX_DEPTH < l.1.length → maskAddresses l.2 = l.2 := by
  have hkept : ∀ l : Leaf, kept (maskNear 0 l).1 = kept l.1 := by
    intro l
    unfold maskNear
    split <;> rfl
  rw [leaves_maskAddressesDeep v (Nat.zero_le _), List.filter_map]
  have hcomp : (fun l : Leaf => kept l.1) ∘ maskNear 0 = fun l => kept l.1 := funext hkept
  rw [hcomp, List.map_inj_left]
  constructor
  · intro h l hl hk hfar
    have hl' := h l (List.mem_filter.mpr ⟨hl, hk⟩)
    rw [maskNear, if_neg (by omega)] at hl'
    exact (congrArg Prod.snd hl').symm
  · intro h l hl
    obtain ⟨hmem, hk⟩ := List.mem_filter.mp hl
    by_cases hnear : 0 + l.1.length ≤ MAX_DEPTH
    · exact if_pos hnear
    · rw [maskNear, if_neg hnear]
      exact Prod.ext rfl (h l hmem hk (by omega)).symm

/-! ### What the redaction leaves too deep -/

/-- Both walks stop at the same depth. -/
theorem maxDepth_eq : Logging.MAX_DEPTH = MAX_DEPTH :=
  rfl

mutual

/-- The strings kept of the errors in a value that lie deeper than the walk goes.  Of a key that
comes twice, the last counts. -/
def escapes : Value → Nat → List Leaf
  | .error name message fields hidden, depth =>
    (fieldLeaves (redactError name message fields
      ((Value.error name message fields hidden).get "original"))).filter
        fun l => MAX_DEPTH < depth + l.1.length
  | .array items, depth => if MAX_DEPTH ≤ depth then [] else itemEscapes 0 items (depth + 1)
  | .object fields, depth => if MAX_DEPTH ≤ depth then [] else fieldEscapes fields (depth + 1)
  | _, _ => []

def itemEscapes : Nat → List Value → Nat → List Leaf
  | _, [], _ => []
  | i, v :: items, depth =>
    (escapes v depth).map (Leaf.under (.inr i)) ++ itemEscapes (i + 1) items depth

def fieldEscapes : List (String × Value) → Nat → List Leaf
  | [], _ => []
  | (key, v) :: fields, depth =>
    if isSensitiveKey key || key = "__proto__" || fields.any fun f => f.1 = key then
      fieldEscapes fields depth
    else (escapes v depth).map (Leaf.under (.inl key)) ++ fieldEscapes fields depth

end

theorem fieldLeaves_cons (f : String × Value) (fields : List (String × Value)) :
    fieldLeaves (f :: fields) =
      (leaves f.2).map (Leaf.under (.inl f.1)) ++ fieldLeaves fields :=
  rfl

theorem fieldLeaves_append (fields fields' : List (String × Value)) :
    fieldLeaves (fields ++ fields') = fieldLeaves fields ++ fieldLeaves fields' := by
  induction fields with
  | nil => rfl
  | cons f fields ih =>
    obtain ⟨key, v⟩ := f
    rw [List.cons_append, fieldLeaves, fieldLeaves, ih, List.append_assoc]

/-- A leaf among properties is one of a property. -/
theorem mem_fieldLeaves {l : Leaf} {fields : List (String × Value)} :
    l ∈ fieldLeaves fields ↔ ∃ f ∈ fields, l ∈ (leaves f.2).map (Leaf.under (.inl f.1)) := by
  induction fields with
  | nil => simp [fieldLeaves]
  | cons f fields ih =>
    rw [fieldLeaves_cons, List.mem_append, ih]
    simp only [List.mem_cons, exists_eq_or_imp]

/-- The key a leaf is under. -/
def Leaf.isUnder (key : String) (l : Leaf) : Prop := l.1.head? = some (.inl key)

theorem isUnder_of_mem {l : Leaf} {key : String} {ls : List Leaf}
    (h : l ∈ ls.map (Leaf.under (.inl key))) (key' : String) : l.isUnder key' ↔ key = key' := by
  obtain ⟨l', _, rfl⟩ := List.mem_map.mp h
  simp [Leaf.isUnder, Leaf.under]

/-- What a property that is set leaves. -/
theorem mem_fieldLeaves_assign {l : Leaf} {record : List (String × Value)} {key : String}
    (value : Value) (hkey : key ≠ "__proto__") :
    l ∈ fieldLeaves (assign record key value) ↔
      l ∈ (leaves value).map (Leaf.under (.inl key)) ∨
        l ∈ fieldLeaves record ∧ ¬ l.isUnder key := by
  rw [assign, if_neg hkey]
  split
  · rename_i hany
    obtain ⟨f, hf, hfkey⟩ := List.any_eq_true.mp hany
    rw [mem_fieldLeaves, mem_fieldLeaves]
    constructor
    · rintro ⟨g, hg, hl⟩
      obtain ⟨g, hmem, rfl⟩ := List.mem_map.mp hg
      split at hl
      · exact .inl hl
      · rename_i hne
        exact .inr ⟨⟨g, hmem, hl⟩, fun hunder => hne ((isUnder_of_mem hl key).mp hunder)⟩
    · rintro (hl | ⟨⟨g, hg, hl⟩, hunder⟩)
      · exact ⟨(key, value), List.mem_map.mpr ⟨f, hf, if_pos (of_decide_eq_true hfkey)⟩, hl⟩
      · have hne : g.1 ≠ key := fun heq => hunder ((isUnder_of_mem hl key).mpr heq)
        exact ⟨g, List.mem_map.mpr ⟨g, hg, if_neg hne⟩, hl⟩
  · rename_i hany
    have hother : l ∈ fieldLeaves record → ¬ l.isUnder key := by
      intro hl hunder
      obtain ⟨g, hg, hl⟩ := mem_fieldLeaves.mp hl
      exact hany (List.any_eq_true.mpr
        ⟨g, hg, decide_eq_true ((isUnder_of_mem hl key).mp hunder)⟩)
    rw [fieldLeaves_append, List.mem_append]
    simp only [fieldLeaves, List.append_nil]
    constructor
    · rintro (hl | hl)
      · exact .inr ⟨hl, hother hl⟩
      · exact .inl hl
    · rintro (hl | ⟨hl, _⟩)
      · exact .inr hl
      · exact .inl hl

/-- Under a step, the leaves that lie too deep are those that lay too deep one level down. -/
theorem mem_map_under_far {es ls : List Leaf} {depth : Nat}
    (h : ∀ l, l ∈ es ↔ l ∈ ls ∧ MAX_DEPTH < depth + 1 + l.1.length) (step : String ⊕ Nat)
    (l : Leaf) :
    l ∈ es.map (Leaf.under step) ↔
      l ∈ ls.map (Leaf.under step) ∧ MAX_DEPTH < depth + l.1.length := by
  rw [List.mem_map, List.mem_map]
  constructor
  · rintro ⟨l', hl, rfl⟩
    obtain ⟨hl, hfar⟩ := (h l').mp hl
    exact ⟨⟨l', hl, rfl⟩, by simp only [Leaf.under, List.length_cons]; omega⟩
  · rintro ⟨⟨l', hl, rfl⟩, hfar⟩
    simp only [Leaf.under, List.length_cons] at hfar
    exact ⟨l', (h l').mpr ⟨hl, by omega⟩, rfl⟩

theorem mem_fieldEscapes_cons {l : Leaf} {key : String} (v : Value) (fields : List (String × Value))
    (depth : Nat) (hproto : key ≠ "__proto__") :
    l ∈ fieldEscapes ((key, v) :: fields) depth ↔
      l ∈ fieldEscapes fields depth ∨ isSensitiveKey key = false ∧ (∀ f ∈ fields, f.1 ≠ key) ∧
        l ∈ (escapes v depth).map (Leaf.under (.inl key)) := by
  have hany : (fields.any fun f => f.1 = key) = false ↔ ∀ f ∈ fields, f.1 ≠ key := by
    rw [List.any_eq_false]
    simp
  rw [fieldEscapes, decide_eq_false hproto, Bool.or_false, ← hany]
  cases isSensitiveKey key <;> cases fields.any fun f => f.1 = key <;> simp [or_comm]

mutual

/-- **Only errors leave strings too deep.** -/
theorem mem_escapes (v : Value) {depth : Nat} (hdepth : depth ≤ MAX_DEPTH) (l : Leaf) :
    l ∈ escapes v depth ↔
      l ∈ leaves (redactObject v depth) ∧ MAX_DEPTH < depth + l.1.length := by
  have hnear : ∀ s : Text, ¬ (l ∈ [(([] : List (String ⊕ Nat)), s)] ∧
      MAX_DEPTH < depth + l.1.length) := by
    rintro s ⟨hl, hfar⟩
    rw [List.mem_singleton.mp hl] at hfar
    exact absurd hdepth (by simpa using hfar)
  cases v with
  | error name message fields hidden =>
    rw [escapes, redactObject, leaves, List.mem_filter, decide_eq_true_eq]
  | array items =>
    rw [escapes, redactObject, maxDepth_eq]
    by_cases hdeep : MAX_DEPTH ≤ depth
    · rw [if_pos hdeep, if_pos hdeep]
      exact iff_of_false List.not_mem_nil (hnear TRUNCATED)
    · rw [if_neg hdeep, if_neg hdeep, leaves]
      exact mem_itemEscapes items 0 (by omega) l
  | object fields =>
    rw [escapes, redactObject, maxDepth_eq]
    by_cases hdeep : MAX_DEPTH ≤ depth
    · rw [if_pos hdeep, if_pos hdeep]
      exact iff_of_false List.not_mem_nil (hnear TRUNCATED)
    · rw [if_neg hdeep, if_neg hdeep, leaves, mem_redactFields fields [] (by omega) l]
      simp [fieldLeaves]
  | string s => exact iff_of_false List.not_mem_nil (hnear s)
  | _ => exact iff_of_false List.not_mem_nil fun h => List.not_mem_nil h.1

theorem mem_itemEscapes (items : List Value) (i : Nat) {depth : Nat}
    (hdepth : depth + 1 ≤ MAX_DEPTH) (l : Leaf) :
    l ∈ itemEscapes i items (depth + 1) ↔
      l ∈ itemLeaves i (redactItems items (depth + 1)) ∧ MAX_DEPTH < depth + l.1.length := by
  cases items with
  | nil => exact iff_of_false List.not_mem_nil fun h => List.not_mem_nil h.1
  | cons v items =>
    rw [itemEscapes, redactItems, itemLeaves, List.mem_append, List.mem_append,
      mem_itemEscapes items (i + 1) hdepth l,
      mem_map_under_far (fun l => mem_escapes v hdepth l) (.inr i) l, or_and_right]

/-- What the loop over the keys leaves too deep: what comes of the keys that are still to come, and
what was built under keys that do not come again. -/
theorem mem_redactFields (fields result : List (String × Value)) {depth : Nat}
    (hdepth : depth + 1 ≤ MAX_DEPTH) (l : Leaf) :
    l ∈ fieldLeaves (redactFields fields (depth + 1) result) ∧ MAX_DEPTH < depth + l.1.length ↔
      l ∈ fieldEscapes fields (depth + 1) ∨
        (l ∈ fieldLeaves result ∧ MAX_DEPTH < depth + l.1.length) ∧
          ∀ f ∈ fields, f.1 ≠ "__proto__" → ¬ l.isUnder f.1 := by
  cases fields with
  | nil => simp [redactFields, fieldEscapes]
  | cons f fields =>
    obtain ⟨key, v⟩ := f
    rw [redactFields, mem_redactFields fields _ hdepth l, List.forall_mem_cons]
    by_cases hproto : key = "__proto__"
    · simp [hproto, assign, fieldEscapes]
    rw [mem_fieldLeaves_assign _ hproto, mem_fieldEscapes_cons v fields _ hproto]
    -- what of this value stays: all that lies too deep, unless the key comes again
    have hvalue : (isSensitiveKey key = false ∧ (∀ f ∈ fields, f.1 ≠ key) ∧
          l ∈ (escapes v (depth + 1)).map (Leaf.under (.inl key))) ↔
        (l ∈ (leaves (if isSensitiveKey key then .string REDACTED
            else redactObject v (depth + 1))).map (Leaf.under (.inl key)) ∧
          MAX_DEPTH < depth + l.1.length) ∧
          ∀ f ∈ fields, f.1 ≠ "__proto__" → ¬ l.isUnder f.1 := by
      rw [mem_map_under_far (fun l => mem_escapes v hdepth l) (.inl key) l]
      by_cases hsensitive : isSensitiveKey key = true
      · rw [if_pos hsensitive]
        refine iff_of_false (fun h => absurd h.1 (by rw [hsensitive]; decide)) ?_
        rintro ⟨⟨hl, hfar⟩, -⟩
        obtain ⟨l', hl', rfl⟩ := List.mem_map.mp hl
        rw [List.mem_singleton.mp hl'] at hfar
        exact absurd hdepth (by simpa [Leaf.under] using hfar)
      · rw [if_neg hsensitive]
        constructor
        · rintro ⟨-, hagain, hl, hfar⟩
          exact ⟨⟨hl, hfar⟩, fun f hf _ hunder =>
            hagain f hf ((isUnder_of_mem hl f.1).mp hunder).symm⟩
        · rintro ⟨⟨hl, hfar⟩, hrest⟩
          refine ⟨Bool.eq_false_iff.mpr hsensitive, ?_, hl, hfar⟩
          rintro f hf rfl
          exact hrest f hf hproto ((isUnder_of_mem hl f.1).mpr rfl)
    rw [hvalue]
    tauto

end

/-! ### What leaves -/

/-- Whether a path leads outside the attributes of the root span. -/
def outsideTraceData (path : List (String ⊕ Nat)) : Bool :=
  decide ¬ [.inl "trace", .inl "data"] <+: path

/-- The strings of a value on some paths are masked exactly when those that the redaction leaves too
deep hold no address. -/
theorem redacted_masked_iff (v : Value) (kept : List (String ⊕ Nat) → Bool) :
    (leaves (maskAddressesDeep (redactObject v 0) 0)).filter (fun l => kept l.1) =
        ((leaves (redactObject v 0)).filter fun l => kept l.1).map maskLeaf ↔
      ∀ l ∈ escapes v 0, kept l.1 = true → maskAddresses l.2 = l.2 := by
  rw [masked_iff]
  constructor
  · intro h l hl hk
    obtain ⟨hl, hfar⟩ := (mem_escapes v (Nat.zero_le _) l).mp hl
    exact h l hl hk (by omega)
  · intro h l hl hk hfar
    exact h l ((mem_escapes v (Nat.zero_le _) l).mpr ⟨hl, by omega⟩) hk

theorem maskAddresses_nil : maskAddresses [] = [] := by
  decide +kernel

/-- What is not walked holds nothing to mask. -/
theorem leaves_of_not_truthy {v : Value} (h : truthy v = false) :
    leaves v = (leaves (redactObject v 0)).map maskLeaf ∧ escapes v 0 = [] := by
  cases v with
  | string s =>
    cases s with
    | nil =>
      have hredacted : redactObject (.string []) 0 = .string [] := rfl
      refine ⟨?_, rfl⟩
      rw [hredacted, leaves, List.map_singleton, maskLeaf, maskAddresses_nil]
    | cons c s => exact absurd h (by simp [truthy])
  | array items => exact absurd h (by simp [truthy])
  | object fields => exact absurd h (by simp [truthy])
  | error name message fields hidden => exact absurd h (by simp [truthy])
  | _ => exact ⟨rfl, rfl⟩

/-- The leaves under a property are none of the others. -/
theorem filter_isUnder_map (key : String) (ls : List Leaf) :
    (ls.map (Leaf.under (.inl key))).filter (fun l => l.1.head? ≠ some (.inl key)) = [] := by
  rw [List.filter_eq_nil_iff]
  intro l hl
  obtain ⟨l', _, rfl⟩ := List.mem_map.mp hl
  simp [Leaf.under]

/-- Setting a property changes no string under the others. -/
theorem fieldLeaves_assign_others (record : List (String × Value)) (key : String) (value : Value) :
    (fieldLeaves (assign record key value)).filter (fun l => l.1.head? ≠ some (.inl key)) =
      (fieldLeaves record).filter fun l => l.1.head? ≠ some (.inl key) := by
  unfold assign
  split
  · rfl
  split
  · rename_i hany
    clear hany
    induction record with
    | nil => rfl
    | cons f record ih =>
      rw [List.map_cons, fieldLeaves_cons, fieldLeaves_cons, List.filter_append, List.filter_append]
      by_cases hk : f.1 = key
      · rw [if_pos hk, filter_isUnder_map, hk, filter_isUnder_map, ih]
      · rw [if_neg hk, ih]
  · rw [fieldLeaves_append, List.filter_append]
    simp only [fieldLeaves, List.append_nil]
    rw [filter_isUnder_map, List.append_nil]

/-- Setting the attributes of the root span changes no other string. -/
theorem leaves_setTraceData (data : List (String × Value)) (v : Value) :
    (leaves (setTraceData data v)).filter (fun l => outsideTraceData l.1) =
      (leaves v).filter fun l => outsideTraceData l.1 := by
  have htrace : ∀ l : Leaf, outsideTraceData (Leaf.under (.inl "trace") l).1 =
      decide (l.1.head? ≠ some (.inl "data")) := by
    rintro ⟨path, s⟩
    refine decide_eq_decide.mpr (not_congr (List.prefix_cons_inj _ |>.trans ?_))
    rcases path with - | ⟨step, path⟩
    · simp
    · rw [List.cons_prefix_cons, List.head?_cons, Option.some_inj, eq_comm]
      exact and_iff_left (List.nil_prefix)
  cases v with
  | object contexts =>
    rw [setTraceData, leaves, leaves]
    induction contexts with
    | nil => rfl
    | cons f contexts ih =>
      rw [List.map_cons, fieldLeaves_cons, fieldLeaves_cons, List.filter_append,
        List.filter_append, ih]
      congr 1
      split
      · rename_i trace hkey hvalue
        rw [hkey, hvalue, leaves, leaves, List.filter_map, List.filter_map]
        simp only [Function.comp_def, htrace]
        rw [fieldLeaves_assign_others]
      · rfl
  | _ => rfl

theorem extra_masked_iff (extra : Value) :
    leaves (scrubExtra extra) = (leaves (redactObject extra 0)).map maskLeaf ↔
      ∀ l ∈ escapes extra 0, maskAddresses l.2 = l.2 := by
  rw [scrubExtra]
  by_cases htruthy : truthy extra = true
  · rw [if_pos htruthy]
    simpa using redacted_masked_iff extra fun _ => true
  · obtain ⟨hleaves, hescapes⟩ := leaves_of_not_truthy (Bool.eq_false_iff.mpr htruthy)
    rw [if_neg htruthy, ← hleaves, hescapes]
    exact iff_of_true rfl fun l hl => absurd hl List.not_mem_nil

theorem contexts_masked_iff (U : Unicode) (contexts : Value) :
    (leaves (scrubContexts U contexts)).filter (fun l => outsideTraceData l.1) =
        ((leaves (redactObject contexts 0)).filter fun l => outsideTraceData l.1).map maskLeaf ↔
      ∀ l ∈ escapes contexts 0, outsideTraceData l.1 = true → maskAddresses l.2 = l.2 := by
  rw [scrubContexts]
  by_cases htruthy : truthy contexts = true
  · rw [if_pos htruthy, ← redacted_masked_iff contexts outsideTraceData]
    dsimp only
    split
    · rw [leaves_setTraceData]
    · rfl
  · obtain ⟨hleaves, hescapes⟩ := leaves_of_not_truthy (Bool.eq_false_iff.mpr htruthy)
    rw [if_neg htruthy, hleaves, hescapes, List.filter_map]
    exact iff_of_true rfl fun l hl => absurd hl List.not_mem_nil

/-- Every string that the redaction lets through leaves with its addresses masked: in `extra`, and
in `contexts` outside the attributes of the root span. -/
def AddressesMasked (U : Unicode) (event : ScrubbableEvent) : Prop :=
  leaves (scrubSentryEvent U event).extra = (leaves (redactObject event.extra 0)).map maskLeaf ∧
  (leaves (scrubSentryEvent U event).contexts).filter (fun l => outsideTraceData l.1) =
    ((leaves (redactObject event.contexts 0)).filter fun l => outsideTraceData l.1).map maskLeaf

/-- **The addresses are masked but in errors that lie too deep.** -/
theorem addresses_masked_iff (U : Unicode) (event : ScrubbableEvent) :
    AddressesMasked U event ↔
      (∀ l ∈ escapes event.extra 0, maskAddresses l.2 = l.2) ∧
        ∀ l ∈ escapes event.contexts 0, outsideTraceData l.1 = true →
          maskAddresses l.2 = l.2 :=
  and_congr (extra_masked_iff event.extra) (contexts_masked_iff U event.contexts)

/-- A socket's error five levels down in `extra`. -/
def deepError : ScrubbableEvent where
  message := .undefined
  transaction := .undefined
  tags := .undefined
  logentry := none
  request := none
  user := none
  breadcrumbs := []
  exception := []
  extra := .object [("a", .object [("b", .object [("c", .object [("d", .object [("e",
    .error (text "Error") (text "connect ECONNREFUSED 203.0.113.9:5000") [] [])])])])])]
  contexts := .undefined

theorem deepError_unmasked :
    ¬ ∀ (U : Unicode) (event : ScrubbableEvent), AddressesMasked U event := by
  intro h
  have hextra := (extra_masked_iff deepError.extra).mp
    (h .ascii deepError).1
  have hkept : escapes deepError.extra 0 =
      [([.inl "a", .inl "b", .inl "c", .inl "d", .inl "e", .inl "name"], text "Error"),
        ([.inl "a", .inl "b", .inl "c", .inl "d", .inl "e", .inl "message"],
          text "connect ECONNREFUSED 203.0.113.9:5000")] := by
    decide +kernel
  have hmasked : maskAddresses (text "connect ECONNREFUSED 203.0.113.9:5000") ≠
      text "connect ECONNREFUSED 203.0.113.9:5000" := by
    decide +kernel
  rw [hkept] at hextra
  exact hmasked (hextra _ (.tail _ (.head _)))

end LakiraBackend.Logging.Sentry
