import LakiraBackend.Logging.Redaction

/-!
# What a log record cannot tell

Two values that differ only in parts the redaction leaves out are redacted to the same
(`redactObject_eq_of_alike`): by induction on how they are alike, with one case for each kind of
value.
-/

namespace LakiraBackend.Logging

open LakiraBackend.JavaScript

/-! ### Values that are alike -/

/-- Two texts that agree up to the first double quote, and from the last one on. -/
inductive QuotedAlike : Text → Text → Prop
  | intro {before after quoted quoted' : Text} : quote ∉ before → quote ∉ after →
      QuotedAlike (before ++ quote :: (quoted ++ quote :: after))
        (before ++ quote :: (quoted' ++ quote :: after))

/-- The codes and names of two originals are the same. -/
def SameCodes (original original' : Value) : Prop :=
  ∀ f ∈ DB_ERROR_FIELDS, original.get f = original'.get f

/-- The messages of two errors, with those of their originals: the same, or both quote values of a
database error, and agree outside the quotes. -/
def MessagesAlike (message message' : Text) (original original' : Value) : Prop :=
  message = message' ∧ original.get "message" = original'.get "message" ∨
  original.get "message" = .string message ∧ original'.get "message" = .string message' ∧
    QuotedAlike message message'

/-- The properties of an error on the allow-list, name apart. -/
def allowed (fields : List (String × Value)) : List (String × Value) :=
  fields.filter fun f => ERROR_FIELD_ALLOWLIST.contains f.1

mutual

/-- Two values that are equal but for sensitive keys, what is at the depth limit, and the fields of
errors that are not on the allow-list.  `Agree` is what the originals of two errors have in
common besides their codes. -/
inductive Alike (Agree : Value → Value → Prop) : Nat → Value → Value → Prop
  | refl (depth : Nat) (v : Value) : Alike Agree depth v v
  | deepArray {depth : Nat} (items items' : List Value) : MAX_DEPTH ≤ depth →
      Alike Agree depth (.array items) (.array items')
  | deepObject {depth : Nat} (fields fields' : List (String × Value)) : MAX_DEPTH ≤ depth →
      Alike Agree depth (.object fields) (.object fields')
  | array {depth : Nat} {items items' : List Value} : AlikeItems Agree (depth + 1) items items' →
      Alike Agree depth (.array items) (.array items')
  | object {depth : Nat} {fields fields' : List (String × Value)} :
      AlikeFields Agree (depth + 1) fields fields' →
      Alike Agree depth (.object fields) (.object fields')
  | error {depth : Nat} {name message message' : Text}
      {fields fields' hidden hidden' : List (String × Value)} {original original' : Value} :
      original = (Value.error name message fields hidden).get "original" →
      original' = (Value.error name message' fields' hidden').get "original" →
      AlikeFields Agree (depth + 1) (allowed fields) (allowed fields') →
      SameCodes original original' → MessagesAlike message message' original original' →
      Agree original original' →
      Alike Agree depth (.error name message fields hidden) (.error name message' fields' hidden')

inductive AlikeItems (Agree : Value → Value → Prop) : Nat → List Value → List Value → Prop
  | nil {depth : Nat} : AlikeItems Agree depth [] []
  | cons {depth : Nat} {v v' : Value} {items items' : List Value} : Alike Agree depth v v' →
      AlikeItems Agree depth items items' → AlikeItems Agree depth (v :: items) (v' :: items')

inductive AlikeFields (Agree : Value → Value → Prop) :
    Nat → List (String × Value) → List (String × Value) → Prop
  | nil {depth : Nat} : AlikeFields Agree depth [] []
  | sensitive {depth : Nat} {key : String} {v v' : Value} {fields fields' : List (String × Value)} :
      isSensitiveKey key = true → AlikeFields Agree depth fields fields' →
      AlikeFields Agree depth ((key, v) :: fields) ((key, v') :: fields')
  | cons {depth : Nat} {key : String} {v v' : Value} {fields fields' : List (String × Value)} :
      Alike Agree depth v v' → AlikeFields Agree depth fields fields' →
      AlikeFields Agree depth ((key, v) :: fields) ((key, v') :: fields')

end

/-! ### Masks -/

section Masks

variable {before after quoted : Text}

theorem idxOf_quoted (hbefore : quote ∉ before) (rest : Text) :
    (before ++ quote :: rest).idxOf quote = before.length := by
  rw [List.idxOf_append_of_notMem hbefore, List.idxOf_cons_self, Nat.add_zero]

theorem lastIndexOf_quoted (hafter : quote ∉ after) (front : Text) :
    Text.lastIndexOf quote (front ++ quote :: after) = front.length := by
  have hreverse : (front ++ quote :: after).reverse = after.reverse ++ quote :: front.reverse := by
    simp
  rw [Text.lastIndexOf, hreverse, idxOf_quoted (by simpa using hafter)]
  simp only [List.length_append, List.length_cons, List.length_reverse]
  omega

/-- **The mask** keeps what is outside the first and the last quote. -/
theorem maskQuotedValues_quoted (hbefore : quote ∉ before) (hafter : quote ∉ after) :
    maskQuotedValues (before ++ quote :: (quoted ++ quote :: after)) =
      before ++ text "\"[value]\"" ++ after := by
  have hlast : Text.lastIndexOf quote (before ++ quote :: (quoted ++ quote :: after)) =
      (before ++ quote :: quoted).length := by
    have hassoc : before ++ quote :: (quoted ++ quote :: after) =
        (before ++ quote :: quoted) ++ quote :: after := by simp
    rw [hassoc, lastIndexOf_quoted hafter]
  have hdrop : (before ++ quote :: (quoted ++ quote :: after)).drop
      ((before ++ quote :: quoted).length + 1) = after := by
    have hassoc : before ++ quote :: (quoted ++ quote :: after) =
        (before ++ quote :: quoted ++ [quote]) ++ after := by simp
    rw [hassoc]
    exact List.drop_left' (by simp only [List.length_append, List.length_cons, List.length_nil])
  simp only [maskQuotedValues, idxOf_quoted hbefore, hlast, hdrop]
  rw [if_neg (by simp), if_neg (by simp), List.take_left']
  rfl

theorem count_value : (text "\"[value]\"").count quote = 2 := by decide

/-- A masked message that still holds the message is the message. -/
theorem eq_of_infix_mask (hbefore : quote ∉ before) (hafter : quote ∉ after)
    (h : before ++ quote :: (quoted ++ quote :: after) <:+:
      before ++ text "\"[value]\"" ++ after) :
    before ++ quote :: (quoted ++ quote :: after) = before ++ text "\"[value]\"" ++ after := by
  obtain ⟨p, q, hpq⟩ := h
  -- the mask has two quotes, and the message has them all
  have hcount := congrArg (List.count quote) hpq
  simp only [List.count_append, List.count_cons_self, count_value,
    List.count_eq_zero_of_not_mem hbefore, List.count_eq_zero_of_not_mem hafter] at hcount
  have hp : quote ∉ p := List.count_eq_zero.mp (by omega)
  have hq : quote ∉ q := List.count_eq_zero.mp (by omega)
  have hvalue : text "\"[value]\"" = quote :: (text "[value]" ++ [quote]) := by decide
  have hfront := congrArg (List.idxOf quote) hpq
  have hback := congrArg (fun s => List.idxOf quote s.reverse) hpq
  rw [hvalue] at hfront hback hpq ⊢
  have hsplit : p ++ (before ++ quote :: (quoted ++ quote :: after)) ++ q =
      (p ++ before) ++ quote :: (quoted ++ quote :: (after ++ q)) := by simp
  have hmask : before ++ quote :: (text "[value]" ++ [quote]) ++ after =
      before ++ quote :: (text "[value]" ++ quote :: after) := by simp
  rw [hsplit, hmask, idxOf_quoted (by simp [hp, hbefore]), idxOf_quoted hbefore] at hfront
  have hreverse : ∀ front middle back : Text,
      (front ++ quote :: (middle ++ quote :: back)).reverse =
        back.reverse ++ quote :: (middle.reverse ++ quote :: front.reverse) := by simp
  rw [hsplit, hmask] at hback
  simp only [hreverse] at hback
  rw [idxOf_quoted (by simp [hq, hafter]), idxOf_quoted (by simpa using hafter)] at hback
  simp only [List.length_append, List.length_reverse] at hfront hback
  obtain rfl : p = [] := List.length_eq_zero_iff.mp (by omega)
  obtain rfl : q = [] := List.length_eq_zero_iff.mp (by omega)
  simpa using hpq

/-- A database error's message that its original repeats is masked as a whole. -/
theorem maskDbText_quoted {original : Value} (hbefore : quote ∉ before) (hafter : quote ∉ after)
    (horiginal : original.get "message" =
      .string (before ++ quote :: (quoted ++ quote :: after))) :
    maskDbText (before ++ quote :: (quoted ++ quote :: after))
      (before ++ quote :: (quoted ++ quote :: after)) original =
        before ++ text "\"[value]\"" ++ after := by
  have hobject : original.isObject = true := by
    cases original <;> first | rfl | cases horiginal
  have hne : before ++ quote :: (quoted ++ quote :: after) ≠ [] := by simp
  rw [maskDbText, if_pos hobject, horiginal]
  simp only [List.foldl_cons, List.foldl_nil, if_neg hne, Text.replaceEach_self hne,
    maskQuotedValues_quoted hbefore hafter]
  by_cases hcontains : before ++ quote :: (quoted ++ quote :: after) <:+:
      before ++ text "\"[value]\"" ++ after
  · rw [← eq_of_infix_mask hbefore hafter hcontains, Text.replaceEach_self hne]
  · exact Text.replaceEach_of_not_infix hcontains

end Masks

/-! ### Errors -/

section Errors

variable {Agree : Value → Value → Prop} {depth : Nat} {name message message' : Text}
  {fields fields' summary : List (String × Value)} {original original' v v' : Value}

/-- The originals of two errors are objects, or neither is. -/
def BothDatabase (original original' : Value) : Prop := original.isObject = original'.isObject

theorem maskDbText_alike (h : MessagesAlike message message' original original')
    (hboth : BothDatabase original original') :
    maskDbText message message original = maskDbText message' message' original' := by
  rcases h with ⟨rfl, hmessage⟩ | ⟨horiginal, horiginal', hquoted⟩
  · unfold maskDbText
    rw [hboth, hmessage]
  · cases hquoted with
    | intro hbefore hafter =>
      rw [maskDbText_quoted hbefore hafter horiginal, maskDbText_quoted hbefore hafter horiginal']

theorem describeDbError_alike (h : SameCodes original original')
    (hboth : BothDatabase original original') :
    describeDbError original = describeDbError original' := by
  have hfields : dbFields original = dbFields original' :=
    List.foldl_ext _ _ _ fun db f hf => by rw [h f hf]
  rw [describeDbError, describeDbError, hfields, hboth]

theorem not_sensitive_of_allowed {key : String} (h : key ∈ ERROR_FIELD_ALLOWLIST) :
    isSensitiveKey key = false := by
  have hall : ∀ key ∈ ERROR_FIELD_ALLOWLIST, isSensitiveKey key = false := by decide +kernel
  exact hall key h

theorem isScalar_alike (h : Alike Agree depth v v') :
    isScalar v = isScalar v' ∧ (isScalar v = true → v = v') := by
  cases h with
  | refl => exact ⟨rfl, fun _ => rfl⟩
  | _ => exact ⟨rfl, fun hs => nomatch hs⟩

/-- The loop over an error's own properties sees those on the list. -/
theorem foldl_allowed :
    fields.foldl (fun summary f =>
      if ERROR_FIELD_ALLOWLIST.contains f.1 && isScalar f.2 then assign summary f.1 f.2
      else summary) summary =
    (allowed fields).foldl (fun summary f =>
      if isScalar f.2 then assign summary f.1 f.2 else summary) summary := by
  induction fields generalizing summary with
  | nil => rfl
  | cons f fields ih =>
    by_cases hf : ERROR_FIELD_ALLOWLIST.contains f.1 = true
    · have hcons : allowed (f :: fields) = f :: allowed fields := List.filter_cons_of_pos hf
      rw [hcons, List.foldl_cons, List.foldl_cons, hf, Bool.true_and]
      exact ih
    · have hcons : allowed (f :: fields) = allowed fields := List.filter_cons_of_neg hf
      rw [hcons, List.foldl_cons, Bool.eq_false_iff.mpr hf, Bool.false_and]
      exact ih

theorem foldl_alikeFields (hallowed : ∀ f ∈ fields, f.1 ∈ ERROR_FIELD_ALLOWLIST)
    (h : AlikeFields Agree depth fields fields') :
    fields.foldl (fun summary f => if isScalar f.2 then assign summary f.1 f.2 else summary) summary =
      fields'.foldl (fun summary f => if isScalar f.2 then assign summary f.1 f.2 else summary)
        summary := by
  induction fields generalizing fields' summary with
  | nil =>
    cases h
    rfl
  | cons f fields ih =>
    have hrest := fun f' hf' => hallowed f' (List.mem_cons_of_mem f hf')
    cases h with
    | sensitive hkey h =>
      rw [not_sensitive_of_allowed (hallowed _ List.mem_cons_self)] at hkey
      cases hkey
    | @cons _ key v v' _ fields' hv h =>
      obtain ⟨hscalar, heq⟩ := isScalar_alike hv
      rw [List.foldl_cons, List.foldl_cons]
      by_cases hs : isScalar v = true
      · rw [heq hs]
        exact ih hrest h
      · rw [if_neg hs, if_neg (hscalar ▸ hs)]
        exact ih hrest h

theorem summarizeError_alike (h : AlikeFields Agree depth (allowed fields) (allowed fields'))
    (hcodes : SameCodes original original') (hboth : BothDatabase original original') :
    summarizeError name fields original = summarizeError name fields' original' := by
  have hall : ∀ f ∈ allowed fields, f.1 ∈ ERROR_FIELD_ALLOWLIST := fun f hf =>
    List.contains_iff_mem.mp (List.mem_filter.mp hf).2
  unfold summarizeError
  rw [foldl_allowed, foldl_allowed, foldl_alikeFields hall h, describeDbError_alike hcodes hboth]

/-- **Errors.** -/
theorem redactError_alike (h : AlikeFields Agree depth (allowed fields) (allowed fields'))
    (hcodes : SameCodes original original')
    (hmessages : MessagesAlike message message' original original')
    (hboth : BothDatabase original original') :
    redactError name message fields original = redactError name message' fields' original' := by
  unfold redactError
  rw [summarizeError_alike h hcodes hboth, maskDbText_alike hmessages hboth]

end Errors

/-! ### Values -/

mutual

/-- **The redaction does not interfere.**  Values that are alike, the originals of whose errors are
objects in both or in neither, are redacted to the same. -/
theorem redactObject_eq_of_alike {depth : Nat} {v v' : Value}
    (h : Alike BothDatabase depth v v') :
    redactObject v depth = redactObject v' depth := by
  cases h with
  | refl => rfl
  | deepArray items items' hdepth => rw [redactObject, redactObject, if_pos hdepth, if_pos hdepth]
  | deepObject fields fields' hdepth =>
    rw [redactObject, redactObject, if_pos hdepth, if_pos hdepth]
  | array h => rw [redactObject, redactObject, redactItems_eq_of_alike h]
  | object h => rw [redactObject, redactObject, redactFields_eq_of_alike h]
  | error horiginal horiginal' hallowed hcodes hmessages hboth =>
    rw [redactObject, redactObject, ← horiginal, ← horiginal',
      redactError_alike hallowed hcodes hmessages hboth]

theorem redactItems_eq_of_alike {depth : Nat} {items items' : List Value}
    (h : AlikeItems BothDatabase depth items items') :
    redactItems items depth = redactItems items' depth := by
  cases h with
  | nil => rfl
  | cons hv h =>
    rw [redactItems, redactItems, redactObject_eq_of_alike hv, redactItems_eq_of_alike h]

theorem redactFields_eq_of_alike {depth : Nat} {fields fields' result : List (String × Value)}
    (h : AlikeFields BothDatabase depth fields fields') :
    redactFields fields depth result = redactFields fields' depth result := by
  cases h with
  | nil => rfl
  | sensitive hkey h =>
    rw [redactFields, redactFields, if_pos hkey, if_pos hkey]
    exact redactFields_eq_of_alike h
  | cons hv h =>
    rw [redactFields, redactFields, redactObject_eq_of_alike hv]
    exact redactFields_eq_of_alike h

end

/-- **Log redaction is noninterfering**, at any depth it is called with. -/
theorem redaction_noninterfering {depth : Nat} {v v' : Value}
    (h : Alike BothDatabase depth v v') : redactObject v depth = redactObject v' depth :=
  redactObject_eq_of_alike h

/-! ### Runs -/

/-- A failure of the database that quotes a value, as the driver and the mapper over it report
it. -/
def invalid (value : Text) : Value :=
  let message := text "invalid: " ++ quote :: (value ++ quote :: [])
  .error (text "SequelizeDatabaseError") message
    [("code", .string (text "22P02")), ("sql", .string value),
      ("original", .error (text "error") message
        [("code", .string (text "22P02")), ("detail", .string value)] [])] []

def login (email password : Text) : Value :=
  .object [("password", .string password), ("errors", .array [invalid email])]

theorem sameCodes {original original' : Value} (hcode : original.get "code" = original'.get "code")
    (hconstraint : original.get "constraint" = original'.get "constraint")
    (htable : original.get "table" = original'.get "table")
    (hcolumn : original.get "column" = original'.get "column") :
    SameCodes original original' := by
  intro f hf
  simp only [DB_ERROR_FIELDS, List.mem_cons, List.not_mem_nil, or_false] at hf
  rcases hf with rfl | rfl | rfl | rfl
  exacts [hcode, hconstraint, htable, hcolumn]

/-- Two requests with other passwords, and other values in their database errors. -/
theorem redaction_noninterfering_login :
    redactObject (login (text "ann") (text "pw")) 0 =
      redactObject (login (text "bob") (text "secret")) 0 := by
  have hquoted : ∀ value value' : Text, QuotedAlike
      (text "invalid: " ++ quote :: (value ++ quote :: []))
      (text "invalid: " ++ quote :: (value' ++ quote :: [])) :=
    fun value value' => .intro (by decide) List.not_mem_nil
  have herror : ∀ value value' : Text, Alike BothDatabase 2 (invalid value) (invalid value') :=
    fun value value' => .error rfl rfl (.cons (.refl _ _) .nil) (sameCodes rfl rfl rfl rfl)
      (.inr ⟨rfl, rfl, hquoted value value'⟩) rfl
  exact redaction_noninterfering (.object (.sensitive (by decide +kernel)
    (.cons (.array (.cons (herror _ _) .nil)) .nil)))

/-- **Whether an error is a database error shows.**  Its `original` is not on the allow-list, and
decides whether its message is masked. -/
theorem original_shows :
    ¬ ∀ v v' : Value, Alike (fun _ _ => True) 0 v v' → redactObject v 0 = redactObject v' 0 := by
  intro h
  have halike : ∀ message : Text, Alike (fun _ _ => True) 0
      (.error (text "Error") message [("original", .object [])] [])
      (.error (text "Error") message [] []) := by
    intro message
    exact .error rfl rfl .nil (sameCodes rfl rfl rfl rfl) (.inl ⟨rfl, rfl⟩) trivial
  have hmessage := congrArg (Value.get "message") (h _ _ (halike (text "bad \"ann\"")))
  have hmasked : text "bad \"[value]\"" = text "bad \"ann\"" := by
    refine Eq.trans ?_ (Value.string.inj hmessage)
    decide +kernel
  exact absurd hmasked (by decide +kernel)

end LakiraBackend.Logging
