import LakiraBackend.Logging.SentryScrub

/-!
# The credentials of a URL in a text

Where `USERINFO_IN_TEXT` matches (`matchAt_userinfo`), and from it that `scrubText` tells nothing of
the credentials of a URL (`scrubText_hides_credentials`), as long as they hold no `@` and are not
where the text is cut.  The induction is on what is before the URL: a match that starts there ends
there, or takes the credentials as a whole (`match_in_url`).
-/

namespace LakiraBackend.Logging.Sentry

open LakiraBackend.JavaScript
open RegExp (Place isOneOf isLetter isWord isSpace results results_sequence flatMap_run run)

/-! ### The parts of a URL -/

/-- `:`, `/` and `@`. -/
def COLON : Nat := 58

def SLASH : Nat := 47

def AT : Nat := 64

/-- A scheme as the pattern has it. -/
structure Scheme : Type where
  first : Nat
  others : Text
  letter : isLetter first = true
  chars : ∀ c ∈ others, isSchemeChar c = true
  short : others.length ≤ 30

/-- A scheme as a URL has it, with the `://`. -/
def Scheme.written (scheme : Scheme) : Text :=
  scheme.first :: (scheme.others ++ [COLON, SLASH, SLASH])

/-- What the pattern takes for `user:password`. -/
structure IsUserinfo (u : Text) : Prop where
  pos : 1 ≤ u.length
  short : u.length ≤ 512
  chars : ∀ c ∈ u, isUserinfoChar c = true

theorem takeWhile_userinfo {u : Text} (hu : IsUserinfo u) (rest : Text) :
    (u ++ AT :: rest).takeWhile isUserinfoChar = u := by
  have hat : isUserinfoChar AT = false := by decide
  rw [List.takeWhile_append_of_pos hu.chars]
  simp [hat]

theorem dropWhile_userinfo {u : Text} (hu : IsUserinfo u) (rest : Text) :
    (u ++ AT :: rest).dropWhile isUserinfoChar = AT :: rest := by
  have hat : isUserinfoChar AT = false := by decide
  rw [List.dropWhile_append_of_pos hu.chars]
  simp [hat]

theorem text_separator : text "://" = [COLON, SLASH, SLASH] := by decide

theorem text_at : text "@" = [AT] := by decide

/-! ### Where the pattern matches -/

theorem results_separator (s : Place) : results (RegExp.literal "://") s =
    if [COLON, SLASH, SLASH] <+: s.right then [s.skip 3] else [] := by
  rw [RegExp.literal, text_separator]
  exact RegExp.results_literal [COLON, SLASH, SLASH] s

theorem results_at (s : Place) : results (RegExp.literal "@") s =
    if [AT] <+: s.right then [s.skip 1] else [] := by
  rw [RegExp.literal, text_at]
  exact RegExp.results_literal [AT] s

/-- A run of credentials, up to the `@`. -/
theorem results_credentials (s : Place) :
    (results (RegExp.several isUserinfoChar 1 512) s).flatMap (results (RegExp.literal "@")) =
      if 1 ≤ run isUserinfoChar s ∧ run isUserinfoChar s ≤ 512 then
        results (RegExp.literal "@") (s.skip (run isUserinfoChar s)) else [] := by
  refine flatMap_run fun t c right hright hc => ?_
  rw [results_at, if_neg]
  rintro hprefix
  rw [hright, List.cons_prefix_cons] at hprefix
  rw [← hprefix.1] at hc
  exact absurd hc (by decide)

/-- A run of a scheme, up to the `://`. -/
theorem results_scheme (K : Place → List Place) (s : Place) :
    (results (RegExp.several isSchemeChar 0 30) s).flatMap
        (fun t => (results (RegExp.literal "://") t).flatMap K) =
      if run isSchemeChar s ≤ 30 then
        (results (RegExp.literal "://") (s.skip (run isSchemeChar s))).flatMap K else [] := by
  have hrun : (results (.times (.one isSchemeChar) 0 30) s).flatMap
      (fun t => (results (RegExp.literal "://") t).flatMap K) = _ :=
    flatMap_run fun t c right hright hc => by
      rw [results_separator, if_neg]
      · rfl
      · rintro hprefix
        rw [hright, List.cons_prefix_cons] at hprefix
        rw [← hprefix.1] at hc
        exact absurd hc (by decide)
  simpa [RegExp.several] using hrun

/-- The rest of a scheme. -/
def schemeRest (xs : Text) : Text := xs.takeWhile isSchemeChar

/-- What is after a scheme and its `://`. -/
def authority (xs : Text) : Text := (xs.dropWhile isSchemeChar).drop 3

/-- The credentials in what is after a scheme. -/
def userinfo (xs : Text) : Text := (authority xs).takeWhile isUserinfoChar

/-- The credentials and the `@`, after a scheme. -/
theorem results_authority (left xs : Text) (captured : Option Text) :
    results (RegExp.sequence [RegExp.several isUserinfoChar 1 512, RegExp.literal "@"])
        ⟨left, authority xs, captured⟩ =
      if (1 ≤ (userinfo xs).length ∧ (userinfo xs).length ≤ 512) ∧
          [AT] <+: (authority xs).dropWhile isUserinfoChar then
        [⟨(userinfo xs ++ [AT]).reverse ++ left, ((authority xs).dropWhile isUserinfoChar).drop 1,
          captured⟩]
      else [] := by
  have hrun : run isUserinfoChar ⟨left, authority xs, captured⟩ = (userinfo xs).length := rfl
  have hlast : results (RegExp.sequence [RegExp.literal "@"]) = results (RegExp.literal "@") := rfl
  rw [results_sequence, hlast, results_credentials, RegExp.skip_run, hrun]
  by_cases hlength : 1 ≤ (userinfo xs).length ∧ (userinfo xs).length ≤ 512
  · rw [if_pos hlength, results_at]
    by_cases hat : [AT] <+: (authority xs).dropWhile isUserinfoChar
    · rw [if_pos hat, if_pos ⟨hlength, hat⟩]
      obtain ⟨rest, hrest⟩ := hat
      simp [Place.skip, userinfo, ← hrest]
    · rw [if_neg hat, if_neg fun h => hat h.2]
  · rw [if_neg hlength, if_neg fun h => hlength h.1]

/-- The scheme and the `://`, after its first letter. -/
theorem results_schemeRest (left xs : Text) (K : Place → List Place) :
    (results (RegExp.sequence [RegExp.several isSchemeChar 0 30, RegExp.literal "://"])
        ⟨left, xs, none⟩).flatMap K =
      if (schemeRest xs).length ≤ 30 ∧ [COLON, SLASH, SLASH] <+: xs.dropWhile isSchemeChar then
        K ⟨(schemeRest xs ++ [COLON, SLASH, SLASH]).reverse ++ left, authority xs, none⟩
      else [] := by
  have hrun : run isSchemeChar ⟨left, xs, none⟩ = (schemeRest xs).length := rfl
  have hlast : results (RegExp.sequence [RegExp.literal "://"]) = results (RegExp.literal "://") :=
    rfl
  rw [results_sequence, hlast, List.flatMap_assoc, results_scheme, RegExp.skip_run, hrun]
  by_cases hshort : (schemeRest xs).length ≤ 30
  · rw [if_pos hshort, results_separator]
    by_cases hseparator : [COLON, SLASH, SLASH] <+: xs.dropWhile isSchemeChar
    · rw [if_pos hseparator, if_pos ⟨hshort, hseparator⟩, List.flatMap_singleton]
      obtain ⟨rest, hrest⟩ := hseparator
      simp [Place.skip, authority, schemeRest, ← hrest]
    · rw [if_neg hseparator, if_neg fun h => hseparator h.2]
      rfl
  · rw [if_neg hshort, if_neg fun h => hshort h.1]

/-- The one match of the pattern at a place, if there is one. -/
theorem matchAt_eq (left : Text) (x : Nat) (xs : Text) :
    RegExp.matchAt USERINFO_IN_TEXT left (x :: xs) =
      if (left.head?.any isWord ≠ isWord x ∧ isLetter x = true) ∧
          ((schemeRest xs).length ≤ 30 ∧ [COLON, SLASH, SLASH] <+: xs.dropWhile isSchemeChar) ∧
          (1 ≤ (userinfo xs).length ∧ (userinfo xs).length ≤ 512) ∧
          [AT] <+: (authority xs).dropWhile isUserinfoChar then
        some (x :: (schemeRest xs ++ [COLON, SLASH, SLASH]) ++ (userinfo xs ++ [AT]),
          x :: (schemeRest xs ++ [COLON, SLASH, SLASH]))
      else none := by
  have hgroup : ∀ (r : RegExp) (s : Place) (K : Place → List Place),
      (results (.group r) s).flatMap K =
        (results r s).flatMap fun t => K { t with captured := some (s.upTo t) } := by
    intro r s K
    rw [results, List.flatMap_map]
  have hone : results (.one isLetter) ⟨left, x :: xs, none⟩ =
      if isLetter x = true then [⟨x :: left, xs, none⟩] else [] := rfl
  have hstart : results .boundary ⟨left, x :: xs, none⟩ =
      if left.head?.any isWord ≠ isWord x then [⟨left, x :: xs, none⟩] else [] := rfl
  rw [RegExp.matchAt, USERINFO_IN_TEXT, results_sequence, hstart]
  by_cases hword : left.head?.any isWord ≠ isWord x
  · rw [if_pos hword, List.flatMap_singleton, results_sequence, hgroup, results_sequence, hone]
    by_cases hletter : isLetter x = true
    · rw [if_pos hletter, List.flatMap_singleton, results_schemeRest]
      by_cases hscheme : (schemeRest xs).length ≤ 30 ∧
          [COLON, SLASH, SLASH] <+: xs.dropWhile isSchemeChar
      · have hleft : (schemeRest xs ++ [COLON, SLASH, SLASH]).reverse ++ x :: left =
            (x :: (schemeRest xs ++ [COLON, SLASH, SLASH])).reverse ++ left := by
          simp
        rw [if_pos hscheme, hleft, Place.upTo_append, results_authority]
        by_cases hauthority : (1 ≤ (userinfo xs).length ∧ (userinfo xs).length ≤ 512) ∧
            [AT] <+: (authority xs).dropWhile isUserinfoChar
        · rw [if_pos hauthority, if_pos ⟨⟨hword, hletter⟩, hscheme, hauthority⟩, List.head?_cons,
            Option.map_some, ← List.append_assoc, ← List.reverse_append, Place.upTo_append]
          rfl
        · rw [if_neg hauthority, if_neg fun h => hauthority h.2.2]
          rfl
      · rw [if_neg hscheme, if_neg fun h => hscheme h.2.1]
        rfl
    · rw [if_neg hletter, if_neg fun h => hletter h.1.2]
      rfl
  · rw [if_neg hword, if_neg fun h => hword h.1.1]
    rfl

theorem matchAt_nil (left : Text) : RegExp.matchAt USERINFO_IN_TEXT left [] = none := by
  have hstart : results .boundary ⟨left, [], none⟩ =
      if left.head?.any isWord ≠ false then [⟨left, [], none⟩] else [] := rfl
  rw [RegExp.matchAt, USERINFO_IN_TEXT, results_sequence, hstart]
  split <;> rfl

/-- **A match is a URL with credentials**, at a place where no word goes on. -/
theorem matchAt_userinfo {left right : Text} {m : Text × Text} :
    RegExp.matchAt USERINFO_IN_TEXT left right = some m ↔
      left.head?.any isWord = false ∧ ∃ (scheme : Scheme) (u rest : Text), IsUserinfo u ∧
        right = scheme.written ++ (u ++ AT :: rest) ∧
        m = (scheme.written ++ (u ++ [AT]), scheme.written) := by
  have hword : ∀ x, isLetter x = true → isWord x = true := by
    intro x hx
    simp [isWord, hx]
  constructor
  · intro h
    cases right with
    | nil => rw [matchAt_nil] at h; cases h
    | cons x xs =>
      rw [matchAt_eq] at h
      split at h
      · rename_i hm
        obtain ⟨⟨hboundary, hletter⟩, ⟨hshort, rest, hrest⟩, ⟨hpos, hmost⟩, rest', hrest'⟩ := hm
        rw [hword x hletter, ne_eq, Bool.not_eq_true] at hboundary
        have hauthority : authority xs = rest := by
          rw [authority, ← hrest]
          rfl
        refine ⟨hboundary,
          ⟨x, schemeRest xs, hletter, fun c hc => List.mem_takeWhile_imp hc, hshort⟩,
          userinfo xs, rest', ⟨hpos, hmost, fun c hc => List.mem_takeWhile_imp hc⟩, ?_,
          (Option.some_inj.mp h).symm⟩
        have hxs : xs = schemeRest xs ++ ([COLON, SLASH, SLASH] ++ authority xs) := by
          rw [hauthority, hrest]
          exact (List.takeWhile_append_dropWhile).symm
        have hcredentials : authority xs = userinfo xs ++ AT :: rest' := by
          rw [← List.singleton_append, hrest']
          exact (List.takeWhile_append_dropWhile).symm
        rw [Scheme.written, ← hcredentials, List.cons_append, List.append_assoc, ← hxs]
      · cases h
  · rintro ⟨hboundary, ⟨x, others, hletter, hchars, hshort⟩, u, rest, hu, rfl, rfl⟩
    have hcolon : isSchemeChar COLON = false := by decide
    have htake : schemeRest (others ++ [COLON, SLASH, SLASH] ++ (u ++ AT :: rest)) = others := by
      rw [schemeRest, List.append_assoc, List.takeWhile_append_of_pos hchars]
      simp [hcolon]
    have hdrop : (others ++ [COLON, SLASH, SLASH] ++ (u ++ AT :: rest)).dropWhile isSchemeChar =
        [COLON, SLASH, SLASH] ++ (u ++ AT :: rest) := by
      rw [List.append_assoc, List.dropWhile_append_of_pos hchars]
      simp [hcolon]
    have hauthority : authority (others ++ [COLON, SLASH, SLASH] ++ (u ++ AT :: rest)) =
        u ++ AT :: rest := by
      rw [authority, hdrop]
      rfl
    have huser : userinfo (others ++ [COLON, SLASH, SLASH] ++ (u ++ AT :: rest)) = u := by
      rw [userinfo, hauthority, takeWhile_userinfo hu]
    rw [Scheme.written, List.cons_append, matchAt_eq, htake, huser, hdrop, hauthority,
      dropWhile_userinfo hu, if_pos]
    refine ⟨⟨?_, hletter⟩, ⟨hshort, List.prefix_append _ _⟩, ⟨hu.pos, hu.short⟩, ⟨rest, rfl⟩⟩
    rw [hboundary, hword x hletter]
    decide

/-! ### A URL in a text -/

theorem slash_not_mem {u : Text} (hu : IsUserinfo u) : SLASH ∉ u := fun h =>
  absurd (hu.chars SLASH h) (by decide)

theorem at_not_mem_written (scheme : Scheme) : AT ∉ scheme.written := by
  intro h
  rcases List.mem_cons.mp h with h | h
  · exact absurd scheme.letter (by rw [← h]; decide)
  · rcases List.mem_append.mp h with h | h
    · exact absurd (scheme.chars AT h) (by decide)
    · exact absurd h (by decide)

/-- A scheme goes up to its `://`, so no other is longer. -/
theorem written_eq_append {before z : Text} {scheme scheme₁ : Scheme}
    (h : scheme₁.written = before ++ scheme.written ++ z) : z = [] := by
  have hcolon : COLON ∉ scheme₁.first :: scheme₁.others := by
    intro h
    rcases List.mem_cons.mp h with h | h
    · exact absurd scheme₁.letter (by rw [← h]; decide)
    · exact absurd (scheme₁.chars COLON h) (by decide)
  have hsplit : (scheme₁.first :: scheme₁.others) ++ [COLON, SLASH, SLASH] =
      (before ++ scheme.first :: scheme.others ++ [COLON]) ++ ([SLASH, SLASH] ++ z) := by
    have hwritten : scheme₁.written = (scheme₁.first :: scheme₁.others) ++ [COLON, SLASH, SLASH] :=
      rfl
    rw [← hwritten, h]
    simp [Scheme.written]
  rcases List.append_eq_append_iff.mp hsplit with ⟨e, he, hrest⟩ | ⟨e, he, hrest⟩
  · cases e with
    | nil =>
      rw [List.append_nil] at he
      exact absurd (by rw [← he]; simp) hcolon
    | cons c e =>
      have hlength := congrArg List.length hrest
      simp only [List.length_cons, List.length_append, List.length_nil] at hlength
      exact List.eq_nil_of_length_eq_zero (by omega)
  · exact absurd (by rw [he]; simp) hcolon

theorem slash_mem_of_append {before z : Text} {scheme scheme₁ : Scheme}
    (h : before ++ scheme.written = scheme₁.written ++ z) (hz : z ≠ []) : SLASH ∈ z := by
  have hlast : (before ++ scheme.written).getLast? = some SLASH := by
    have hwritten : before ++ scheme.written =
        before ++ (scheme.first :: scheme.others ++ [COLON, SLASH]) ++ [SLASH] := by
      simp [Scheme.written]
    rw [hwritten, List.getLast?_concat]
  rw [h, List.getLast?_append, List.getLast?_eq_some_getLast hz] at hlast
  exact Option.some_inj.mp hlast ▸ List.getLast_mem hz

/-- **A match before the credentials of a URL** ends before the URL, or is one with its credentials
as a whole. -/
theorem match_in_url {before u after u₁ rest : Text} {scheme scheme₁ : Scheme} (hu : IsUserinfo u)
    (hu₁ : IsUserinfo u₁)
    (h : scheme₁.written ++ (u₁ ++ AT :: rest) =
      before ++ (scheme.written ++ (u ++ AT :: after))) :
    (∃ between, before = scheme₁.written ++ (u₁ ++ [AT]) ++ between) ∨
      before ++ scheme.written = scheme₁.written ∧ u₁ = u ∧ rest = after := by
  have hsame : u₁ ++ AT :: rest = u ++ AT :: after → u₁ = u ∧ rest = after := by
    intro h
    have htake := congrArg (List.takeWhile isUserinfoChar) h
    have hdrop := congrArg (List.dropWhile isUserinfoChar) h
    rw [takeWhile_userinfo hu₁, takeWhile_userinfo hu] at htake
    rw [dropWhile_userinfo hu₁, dropWhile_userinfo hu] at hdrop
    exact ⟨htake, (List.cons.inj hdrop).2⟩
  rw [← List.append_assoc before] at h
  rcases List.append_eq_append_iff.mp h with ⟨z, hz, hrest⟩ | ⟨z, hz, hrest⟩
  · by_cases hnil : z = []
    · rw [hnil, List.append_nil] at hz
      rw [hnil, List.nil_append] at hrest
      exact .inr ⟨hz, hsame hrest⟩
    -- the match ends before the `//` of the URL
    have hslash := slash_mem_of_append hz hnil
    rcases List.append_eq_append_iff.mp hrest with ⟨e, he, hend⟩ | ⟨e, he, hend⟩
    · cases e with
      | nil =>
        rw [List.append_nil] at he
        exact absurd (he ▸ hslash) (slash_not_mem hu₁)
      | cons c e =>
        obtain ⟨rfl, -⟩ := List.cons.inj hend
        rw [he] at hz
        have hbefore : before ++ scheme.written = scheme₁.written ++ (u₁ ++ [AT]) ++ e := by
          rw [hz]
          simp
        rcases List.append_eq_append_iff.mp hbefore with ⟨f, hf, hwritten⟩ | ⟨f, hf, -⟩
        · rcases List.eq_nil_or_concat f with rfl | ⟨f, c, rfl⟩
          · exact .inl ⟨[], by rw [hf]; simp⟩
          · have hc : c = AT := by
              have hlast := congrArg List.getLast? hf
              simpa [← List.append_assoc] using hlast.symm
            exact absurd (by rw [hwritten, hc]; simp) (at_not_mem_written scheme)
        · exact .inl ⟨f, hf⟩
    · exact absurd (by rw [he]; exact List.mem_append_left _ hslash) (slash_not_mem hu₁)
  · have hnil := written_eq_append hz
    rw [hnil, List.append_nil] at hz
    rw [hnil, List.nil_append] at hrest
    exact .inr ⟨hz.symm, hsame hrest.symm⟩

/-! ### The text without the credentials -/

/-- What a URL's credentials are replaced by. -/
def credentialsMask (_ scheme : Text) : Text := scheme ++ text "[credentials]@"

/-- To the left of a place, only the end of a word counts. -/
theorem replaceFrom_congr_left {left left' : Text}
    (h : left.head?.any isWord = left'.head?.any isWord) (n : Nat) (right : Text) :
    RegExp.replaceFrom USERINFO_IN_TEXT credentialsMask n left right =
      RegExp.replaceFrom USERINFO_IN_TEXT credentialsMask n left' right := by
  induction right generalizing n left left' with
  | nil => cases n <;> rfl
  | cons c right ih =>
    have hnext : (c :: left).head?.any isWord = (c :: left').head?.any isWord := rfl
    cases n with
    | succ n => exact ih hnext n
    | zero =>
      have hmatch : RegExp.matchAt USERINFO_IN_TEXT left (c :: right) =
          RegExp.matchAt USERINFO_IN_TEXT left' (c :: right) := by
        rw [matchAt_eq, matchAt_eq, h]
      rw [RegExp.replaceFrom, RegExp.replaceFrom, hmatch]
      cases RegExp.matchAt USERINFO_IN_TEXT left' (c :: right) with
      | none => exact congrArg (c :: ·) (ih hnext 0)
      | some m => exact congrArg (credentialsMask m.1 m.2 ++ ·) (ih hnext _)

/-- The credentials of a URL are replaced as a whole, and what follows does not know them. -/
theorem replaceFrom_url (scheme : Scheme) {left u u' : Text} (hu : IsUserinfo u)
    (hu' : IsUserinfo u') (hleft : left.head?.any isWord = false) (after : Text) :
    RegExp.replaceFrom USERINFO_IN_TEXT credentialsMask 0 left
        (scheme.written ++ (u ++ AT :: after)) =
      RegExp.replaceFrom USERINFO_IN_TEXT credentialsMask 0 left
        (scheme.written ++ (u' ++ AT :: after)) := by
  have hreplaced : ∀ {u : Text}, IsUserinfo u →
      RegExp.replaceFrom USERINFO_IN_TEXT credentialsMask 0 left
          (scheme.written ++ (u ++ AT :: after)) =
        credentialsMask [] scheme.written ++
          RegExp.replaceFrom USERINFO_IN_TEXT credentialsMask 0 [AT] after := by
    intro u hu
    have hwhole : scheme.written ++ (u ++ AT :: after) =
        (scheme.written ++ (u ++ [AT])) ++ after := by
      simp
    have hmatch := matchAt_userinfo.mpr ⟨hleft, scheme, u, after, hu, rfl, rfl⟩
    rw [hwhole] at hmatch ⊢
    rw [RegExp.replaceFrom_match credentialsMask (by simp) hmatch]
    exact congrArg (credentialsMask [] scheme.written ++ ·)
      (replaceFrom_congr_left (by simp) 0 after)
  rw [hreplaced hu, hreplaced hu']

/-- A match before the URL does not know the credentials. -/
theorem matchAt_before {before left u u' after : Text} {scheme : Scheme} (hu : IsUserinfo u)
    (hwhole : ¬ ∃ scheme₁ : Scheme, before ++ scheme.written = scheme₁.written ∧
      left.head?.any isWord = false) {m : Text × Text}
    (hm : RegExp.matchAt USERINFO_IN_TEXT left
      (before ++ (scheme.written ++ (u ++ AT :: after))) = some m) :
    RegExp.matchAt USERINFO_IN_TEXT left
        (before ++ (scheme.written ++ (u' ++ AT :: after))) = some m ∧
      m.1.length ≤ before.length := by
  obtain ⟨hleft, scheme₁, u₁, rest, hu₁, hright, rfl⟩ := matchAt_userinfo.mp hm
  rcases match_in_url hu hu₁ hright.symm with ⟨between, hbetween⟩ | ⟨hsame, -, -⟩
  · refine ⟨matchAt_userinfo.mpr ⟨hleft, scheme₁, u₁,
      between ++ (scheme.written ++ (u' ++ AT :: after)), hu₁, ?_, rfl⟩, ?_⟩
    · rw [hbetween]
      simp only [List.append_assoc, List.cons_append, List.nil_append]
    · have hlength := congrArg List.length hbetween
      rw [List.length_append] at hlength
      exact hlength ▸ Nat.le_add_right _ _
  · exact absurd ⟨scheme₁, hsame, hleft⟩ hwhole

/-- **The replacement does not know the credentials**, whatever is before the URL. -/
theorem replaceFrom_before (scheme : Scheme) {u u' : Text} (hu : IsUserinfo u)
    (hu' : IsUserinfo u') (before left after : Text) (n : Nat) (hn : n ≤ before.length)
    (hleft : (before.reverse ++ left).head?.any isWord = false) :
    RegExp.replaceFrom USERINFO_IN_TEXT credentialsMask n left
        (before ++ (scheme.written ++ (u ++ AT :: after))) =
      RegExp.replaceFrom USERINFO_IN_TEXT credentialsMask n left
        (before ++ (scheme.written ++ (u' ++ AT :: after))) := by
  induction before generalizing n left with
  | nil =>
    obtain rfl : n = 0 := Nat.le_zero.mp hn
    exact replaceFrom_url scheme hu hu' hleft after
  | cons c before ih =>
    have hnext : (before.reverse ++ c :: left).head?.any isWord = false := by
      rw [← hleft, List.reverse_cons, List.append_assoc, List.singleton_append]
    cases n with
    | succ n => exact ih (c :: left) n (Nat.le_of_succ_le_succ hn) hnext
    | zero =>
      by_cases hwhole : ∃ scheme₁ : Scheme, (c :: before) ++ scheme.written = scheme₁.written ∧
          left.head?.any isWord = false
      · obtain ⟨scheme₁, hsame, hword⟩ := hwhole
        rw [← List.append_assoc (c :: before), ← List.append_assoc (c :: before), hsame]
        exact replaceFrom_url scheme₁ hu hu' hword after
      rw [List.cons_append, List.cons_append, RegExp.replaceFrom, RegExp.replaceFrom,
        ← List.cons_append, ← List.cons_append]
      cases hm : RegExp.matchAt USERINFO_IN_TEXT left
          ((c :: before) ++ (scheme.written ++ (u ++ AT :: after))) with
      | some m =>
        obtain ⟨hm', hlength⟩ := matchAt_before hu hwhole hm
        rw [hm']
        refine congrArg (credentialsMask m.1 m.2 ++ ·) (ih (c :: left) _ ?_ hnext)
        rw [List.length_cons] at hlength
        omega
      | none =>
        have hm' : RegExp.matchAt USERINFO_IN_TEXT left
            ((c :: before) ++ (scheme.written ++ (u' ++ AT :: after))) = none := by
          refine Option.eq_none_iff_forall_ne_some.mpr fun m hm' => ?_
          rw [(matchAt_before hu' hwhole hm').1] at hm
          cases hm
        rw [hm']
        exact congrArg (c :: ·) (ih (c :: left) 0 (Nat.zero_le _) hnext)

/-! ### Texts of any length -/

/-- The user and the password of a URL. -/
structure Credentials : Type where
  user : Text
  password : Text
  user_ne : user ≠ []
  password_ne : password ≠ []
  chars : ∀ c ∈ user ++ password, (isSpace c || isOneOf "/?#" c) = false
  short : user.length + 1 + password.length ≤ 512

/-- `user:password`. -/
def Credentials.written (c : Credentials) : Text := c.user ++ COLON :: c.password

/-- A text with a URL in it. -/
def withUrl (before : Text) (scheme : Scheme) (c : Credentials) (after : Text) : Text :=
  before ++ (scheme.written ++ (c.written ++ AT :: after))

theorem Credentials.length_written (c : Credentials) :
    c.written.length = c.user.length + 1 + c.password.length := by
  rw [Credentials.written, List.length_append, List.length_cons]
  omega

/-- Credentials without an `@` are what the pattern takes for some. -/
theorem Credentials.isUserinfo {c : Credentials} (h : AT ∉ c.written) : IsUserinfo c.written where
  pos := by
    rw [c.length_written]
    omega
  short := c.length_written.trans_le c.short
  chars := by
    intro d hd
    have hclass : isUserinfoChar d = !((isSpace d || isOneOf "/?#" d) || d == AT) := by
      have hwith : text "/?#@" = text "/?#" ++ [AT] := by decide
      rw [isUserinfoChar, isOneOf, hwith, List.contains_append, List.contains_cons,
        List.contains_nil, Bool.or_false, Bool.or_assoc]
      rfl
    have hat : (d == AT) = false := beq_false_of_ne fun heq => h (heq ▸ hd)
    rw [hclass, hat, Bool.or_false]
    rcases List.mem_append.mp hd with hd | hd
    · rw [c.chars d (List.mem_append_left _ hd)]
      rfl
    · rcases List.mem_cons.mp hd with rfl | hd
      · decide
      · rw [c.chars d (List.mem_append_right _ hd)]
        rfl

/-- The cut of a text that starts with one that is not cut. -/
theorem truncate_append {w s : Text} (h : w.length ≤ MAX_TEXT) :
    truncate (w ++ s) = w ++ if MAX_TEXT < w.length + s.length then
      s.take (MAX_TEXT - w.length) ++ text "[Truncated]" else s := by
  rw [truncate, List.length_append]
  split
  · rw [List.take_append, List.take_of_length_le h, List.append_assoc]
  · rfl

/-- Of two texts that are cut where they are still the same, the same is left. -/
theorem truncate_eq_of_cut {w s s' : Text} (h : MAX_TEXT ≤ w.length) (hs : s ≠ []) (hs' : s' ≠ []) :
    truncate (w ++ s) = truncate (w ++ s') := by
  have hlong : ∀ {s : Text}, s ≠ [] → MAX_TEXT < (w ++ s).length := by
    intro s hs
    have := List.length_pos_of_ne_nil hs
    rw [List.length_append]
    omega
  rw [truncate, truncate, if_pos (hlong hs), if_pos (hlong hs'), List.take_append_of_le_length h,
    List.take_append_of_le_length h]

/-- **The text tells nothing of the credentials of a URL in it**, if they hold no `@` and the text
is not cut in them. -/
theorem scrubText_hides_credentials (U : Unicode) {before : Text} (scheme : Scheme)
    {c c' : Credentials} (after : Text) (hword : before.getLast?.any isWord = false)
    (huser : c'.user.length = c.user.length) (hpassword : c'.password.length = c.password.length)
    (hclear : MAX_TEXT ≤ (before ++ scheme.written).length ∨
      (before ++ scheme.written ++ c.written ++ [AT]).length ≤ MAX_TEXT ∧
        AT ∉ c.written ∧ AT ∉ c'.written) :
    scrubText U (withUrl before scheme c after) = scrubText U (withUrl before scheme c' after) := by
  have hne : ∀ c : Credentials, c.written ++ AT :: after ≠ [] := by simp
  have hstripped : stripUserinfo (truncate (withUrl before scheme c after)) =
      stripUserinfo (truncate (withUrl before scheme c' after)) := by
    rcases hclear with hcut | ⟨hwhole, hat, hat'⟩
    · rw [withUrl, withUrl, ← List.append_assoc, ← List.append_assoc before,
        truncate_eq_of_cut hcut (hne c) (hne c')]
    · have hlength : (before ++ scheme.written ++ c'.written ++ [AT]).length =
          (before ++ scheme.written ++ c.written ++ [AT]).length := by
        simp only [List.length_append, c.length_written, c'.length_written, huser, hpassword]
      have hurl : ∀ (c : Credentials) (after : Text),
          before ++ scheme.written ++ c.written ++ [AT] ++ after =
            withUrl before scheme c after := by
        intro c after
        simp [withUrl]
      rw [← hurl, ← hurl, truncate_append hwhole, truncate_append (hlength ▸ hwhole), hlength, hurl,
        hurl]
      exact replaceFrom_before scheme (c.isUserinfo hat) (c'.isUserinfo hat') before [] _ 0
        (Nat.zero_le _) (by rw [List.append_nil, List.head?_reverse, hword])
  rw [scrubText, scrubText, hstripped]

/-- `postgres`. -/
def postgres : Scheme where
  first := 112
  others := text "ostgres"
  letter := by decide
  chars := by decide
  short := by decide

/-- The credentials of `app`. -/
def appWith (password : Text)
    (h : password ≠ [] ∧ (∀ c ∈ text "app" ++ password, (isSpace c || isOneOf "/?#" c) = false) ∧
      (text "app").length + 1 + password.length ≤ 512) : Credentials where
  user := text "app"
  password := password
  user_ne := by decide
  password_ne := h.1
  chars := h.2.1
  short := h.2.2

theorem scrubText_hides_credentials_postgres :
    scrubText .ascii (withUrl (text "connect failed ") postgres
        (appWith (text "s3cretpw") (by decide)) (text "db:5432/lakira")) =
      scrubText .ascii (withUrl (text "connect failed ") postgres
        (appWith (text "hunter22") (by decide)) (text "db:5432/lakira")) :=
  scrubText_hides_credentials .ascii postgres (text "db:5432/lakira") (by decide) (by decide)
    (by decide) (.inr ⟨by decide, by decide, by decide⟩)

/-- Of a password with an `@`, what is after it is left. -/
theorem password_with_at_shown :
    ¬ ∀ (U : Unicode) (before : Text) (scheme : Scheme) (c c' : Credentials) (after : Text),
      before.getLast?.any isWord = false → c'.user.length = c.user.length →
      c'.password.length = c.password.length →
      scrubText U (withUrl before scheme c after) =
        scrubText U (withUrl before scheme c' after) := by
  intro h
  have hsame := h .ascii [] postgres (appWith (text "p@ss") (by decide))
    (appWith (text "p@tt") (by decide)) (text "db") rfl (by decide) (by decide)
  have hshown : scrubText .ascii (withUrl [] postgres (appWith (text "p@ss") (by decide))
      (text "db")) = text "postgres://[credentials]@ss@db" := by
    decide +kernel
  have hshown' : scrubText .ascii (withUrl [] postgres (appWith (text "p@tt") (by decide))
      (text "db")) = text "postgres://[credentials]@tt@db" := by
    decide +kernel
  rw [hshown, hshown'] at hsame
  exact absurd hsame (by decide)

end LakiraBackend.Logging.Sentry
