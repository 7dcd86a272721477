import LakiraBackend.JavaScript.Text

/-!
# Regular expressions

What a pattern matches at a place, first choice first, as a backtracking matcher tries it
(`results`), and the replacement of its matches in a text.  A run of a class that is followed by
something outside of it has one choice that counts (`flatMap_run`).
-/

namespace LakiraBackend.JavaScript

inductive RegExp : Type
  /-- One character of a class. -/
  | one (p : Nat → Bool)
  | seq (r t : RegExp)
  | alt (r t : RegExp)
  /-- `r{least,most}`, as often as it goes. -/
  | times (r : RegExp) (least most : Nat)
  /-- `p{least,}`, for a class. -/
  | many (p : Nat → Bool) (least : Nat)
  /-- `(r)`: what it matches is kept. -/
  | group (r : RegExp)
  /-- `^`. -/
  | start
  /-- `$`. -/
  | stop
  /-- `\b`. -/
  | boundary

namespace RegExp

/-- A place in a text: what is to its left, the nearest first, what is to its right, and what the
group has matched. -/
structure Place : Type where
  left : Text
  right : Text
  captured : Option Text

/-- The place some characters further on. -/
def Place.skip (s : Place) (n : Nat) : Place :=
  ⟨(s.right.take n).reverse ++ s.left, s.right.drop n, s.captured⟩

/-- What is between a place and one further on. -/
def Place.upTo (s t : Place) : Text := (t.left.take (t.left.length - s.left.length)).reverse

theorem Place.upTo_append (left right right' w : Text) (captured captured' : Option Text) :
    Place.upTo ⟨left, right, captured⟩ ⟨w.reverse ++ left, right', captured'⟩ = w := by
  simp [Place.upTo]

/-! ### Classes -/

def isOneOf (s : String) (c : Nat) : Bool := (text s).contains c

def isRange (first last : Char) (c : Nat) : Bool := first.toNat ≤ c && c ≤ last.toNat

/-- `\d`. -/
def isDigit : Nat → Bool := isRange '0' '9'

/-- `[a-z]`, whatever the case. -/
def isLetter (c : Nat) : Bool := isRange 'a' 'z' c || isRange 'A' 'Z' c

/-- `\w`. -/
def isWord (c : Nat) : Bool := isLetter c || isDigit c || c == '_'.toNat

/-- `\s`. -/
def isSpace (c : Nat) : Bool :=
  (9 ≤ c && c ≤ 13) || c == 32 || c == 0xA0 || c == 0x1680 || (0x2000 ≤ c && c ≤ 0x200A) ||
    c == 0x2028 || c == 0x2029 || c == 0x202F || c == 0x205F || c == 0x3000 || c == 0xFEFF

/-- `.`: any character but the end of a line. -/
def isInLine (c : Nat) : Bool := !(c == 10 || c == 13 || c == 0x2028 || c == 0x2029)

/-- A letter of ASCII in lower case. -/
def fold (c : Nat) : Nat := if isRange 'A' 'Z' c then c + 32 else c

/-! ### Patterns -/

/-- The empty pattern. -/
def empty : RegExp := .times .start 0 0

/-- One pattern after the other. -/
def sequence : List RegExp → RegExp
  | [] => empty
  | [r] => r
  | r :: rs => .seq r (sequence rs)

/-- The first of some patterns that goes. -/
def choice : RegExp → List RegExp → RegExp
  | r, [] => r
  | r, t :: rs => .alt r (choice t rs)

/-- `r?`. -/
def optional (r : RegExp) : RegExp := .times r 0 1

/-- `[…]{least,most}`. -/
def several (p : Nat → Bool) (least most : Nat) : RegExp := .times (.one p) least most

/-- A text, as it is written. -/
def literal (s : String) : RegExp := sequence ((text s).map fun c => .one (· == c))

/-- A text in lower case, whatever the case. -/
def folded (s : String) : RegExp := sequence ((text s).map fun c => .one fun d => fold d == c)

/-! ### Matching -/

def repeatResults (step : Place → List Place) : Nat → Nat → Place → List Place
  | least, 0, s => if least = 0 then [s] else []
  | least, most + 1, s =>
    (step s).flatMap (repeatResults step (least - 1) most) ++ if least = 0 then [s] else []

/-- The places a run of a class leads to, over the text that is left. -/
def manyResults (p : Nat → Bool) (captured : Option Text) : Nat → Text → Text → List Place
  | least, left, [] => if least = 0 then [⟨left, [], captured⟩] else []
  | least, left, c :: right =>
    (if p c then manyResults p captured (least - 1) (c :: left) right else []) ++
      if least = 0 then [⟨left, c :: right, captured⟩] else []

def results : RegExp → Place → List Place
  | one p, s => match s.right with
    | [] => []
    | c :: right => if p c then [⟨c :: s.left, right, s.captured⟩] else []
  | seq r t, s => (results r s).flatMap (results t)
  | alt r t, s => results r s ++ results t s
  | times r least most, s => repeatResults (results r) least most s
  | many p least, s => manyResults p s.captured least s.left s.right
  | group r, s => (results r s).map fun t => { t with captured := some (s.upTo t) }
  | start, s => if s.left = [] then [s] else []
  | stop, s => if s.right = [] then [s] else []
  | boundary, s => if s.left.head?.any isWord ≠ s.right.head?.any isWord then [s] else []

/-- What a pattern matches at a place: all of it, and its group. -/
def matchAt (r : RegExp) (left right : Text) : Option (Text × Text) :=
  (results r ⟨left, right, none⟩).head?.map fun t =>
    (Place.upTo ⟨left, right, none⟩ t, t.captured.getD [])

/-- The first match: what is before it, the match, its group, and what is after it. -/
def search (r : RegExp) (left : Text) : Text → Option (Text × Text × Text × Text)
  | [] => (matchAt r left []).map fun m => ([], m.1, m.2, [])
  | c :: right => match matchAt r left (c :: right) with
    | some m => some ([], m.1, m.2, (c :: right).drop m.1.length)
    | none => (search r (c :: left) right).map fun m => (c :: m.1, m.2)

/-- `r.test(s)`. -/
def test (r : RegExp) (s : Text) : Bool := (search r [] s).isSome

/-- `s.replace(r, by)`, of the first match. -/
def replaceFirst (r : RegExp) (value : Text → Text → Text) (s : Text) : Text :=
  match search r [] s with
  | some (before, whole, captured, after) => before ++ value whole captured ++ after
  | none => s

/-- The replacement of every match from a place on, for a pattern that does not match the empty
text.  The number is how much of the last match is still to be passed over. -/
def replaceFrom (r : RegExp) (value : Text → Text → Text) : Nat → Text → Text → Text
  | _, _, [] => []
  | skip + 1, left, c :: right => replaceFrom r value skip (c :: left) right
  | 0, left, c :: right => match matchAt r left (c :: right) with
    | some m => value m.1 m.2 ++ replaceFrom r value (m.1.length - 1) (c :: left) right
    | none => c :: replaceFrom r value 0 (c :: left) right

/-- `s.replace(r, by)`, of every match. -/
def replaceAll (r : RegExp) (value : Text → Text → Text) (s : Text) : Text :=
  replaceFrom r value 0 [] s

/-! ### Runs of a class -/

section Runs

variable {p q : Nat → Bool} {s : Place} {least most : Nat} {K : Place → List Place}

@[simp] theorem Place.skip_zero : s.skip 0 = s := rfl

/-- How far a class goes. -/
def run (p : Nat → Bool) (s : Place) : Nat := (s.right.takeWhile p).length

theorem skip_run (p : Nat → Bool) (s : Place) :
    s.skip (run p s) =
      ⟨(s.right.takeWhile p).reverse ++ s.left, s.right.dropWhile p, s.captured⟩ := by
  have htake : s.right.take (run p s) = s.right.takeWhile p :=
    (List.prefix_iff_eq_take.mp (List.takeWhile_prefix p)).symm
  have hdrop : s.right.drop (run p s) = s.right.dropWhile p := by
    have h := congrArg (List.drop (run p s))
      (List.takeWhile_append_dropWhile (p := p) (l := s.right))
    rw [run, List.drop_left] at h
    exact h.symm
  rw [Place.skip, htake, hdrop]

/-- **A run ends where its class ends**, if what follows cannot start inside of the class. -/
theorem flatMap_run (hK : ∀ (s : Place) c right, s.right = c :: right → p c = true → K s = []) :
    (results (.times (.one p) least most) s).flatMap K =
      if least ≤ run p s ∧ run p s ≤ most then K (s.skip (run p s)) else [] := by
  rw [results]
  induction most generalizing least s with
  | zero =>
    rw [repeatResults]
    cases hright : s.right with
    | nil =>
      have hrun : run p s = 0 := by simp [run, hright]
      rw [hrun]
      by_cases hleast : least = 0 <;> simp [hleast]
    | cons c right =>
      by_cases hc : p c = true
      · have hrun : 0 < run p s := by simp [run, hright, hc]
        have hlong : ¬ (least ≤ run p s ∧ run p s ≤ 0) := by omega
        rw [if_neg hlong]
        split
        · simp [hK s c right hright hc]
        · rfl
      · have hrun : run p s = 0 := by simp [run, hright, hc]
        rw [hrun]
        by_cases hleast : least = 0 <;> simp [hleast]
  | succ most ih =>
    rw [repeatResults, List.flatMap_append]
    cases hright : s.right with
    | nil =>
      have hrun : run p s = 0 := by simp [run, hright]
      have hone : results (.one p) s = [] := by simp [results, hright]
      rw [hone, hrun]
      by_cases hleast : least = 0 <;> simp [hleast]
    | cons c right =>
      by_cases hc : p c = true
      · have hone : results (.one p) s = [s.skip 1] := by simp [results, hright, hc, Place.skip]
        have hrun : run p s = run p (s.skip 1) + 1 := by
          simp [run, hright, hc, Place.skip]
        have hskip : (s.skip 1).skip (run p (s.skip 1)) = s.skip (run p (s.skip 1) + 1) := by
          simp [Place.skip, hright]
        have hend : (if least = 0 then [s] else []).flatMap K = [] := by
          split
          · simp [hK s c right hright hc]
          · rfl
        rw [hone, List.flatMap_singleton, ih, hskip, hrun, hend, List.append_nil]
        congr 1
        exact propext ⟨fun h => ⟨by omega, by omega⟩, fun h => ⟨by omega, by omega⟩⟩
      · have hone : results (.one p) s = [] := by simp [results, hright, hc]
        have hrun : run p s = 0 := by simp [run, hright, hc]
        rw [hone, hrun]
        by_cases hleast : least = 0 <;> simp [hleast]

end Runs

/-! ### Texts as they are written -/

theorem results_sequence (r t : RegExp) (rs : List RegExp) (s : Place) :
    results (sequence (r :: t :: rs)) s = (results r s).flatMap (results (sequence (t :: rs))) :=
  rfl

/-- A text matches itself. -/
theorem results_literal (w : Text) (s : Place) :
    results (sequence (w.map fun c => .one (· == c))) s =
      if w <+: s.right then [s.skip w.length] else [] := by
  induction w generalizing s with
  | nil => exact (if_pos List.nil_prefix).symm
  | cons c w ih =>
    have hcons : results (sequence ((c :: w).map fun c => .one (· == c))) s =
        (results (.one (· == c)) s).flatMap
          (results (sequence (w.map fun c => .one (· == c)))) := by
      cases w with
      | nil =>
        rw [List.map_nil]
        exact (List.flatMap_singleton' _).symm
      | cons d w => rfl
    rw [hcons]
    cases hright : s.right with
    | nil =>
      rw [if_neg (by simp)]
      simp [results, hright]
    | cons d right =>
      by_cases hd : d = c
      · have hone : results (.one (· == c)) s = [s.skip 1] := by
          simp [results, hright, hd, Place.skip]
        have hskip : (s.skip 1).right = right := by simp [Place.skip, hright]
        have hboth : (s.skip 1).skip w.length = s.skip (c :: w).length := by
          simp [Place.skip, hright]
        rw [hone, List.flatMap_singleton, ih, hskip, hboth, hd]
        exact if_congr (List.prefix_cons_inj c).symm rfl rfl
      · have hone : results (.one (· == c)) s = [] := by simp [results, hright, hd]
        rw [hone, if_neg fun h => hd (List.cons_prefix_cons.mp h).1.symm]
        rfl

/-! ### What a pattern leads to -/

theorem mem_results_seq {r r' : RegExp} {s t : Place} :
    t ∈ results (.seq r r') s ↔ ∃ u ∈ results r s, t ∈ results r' u :=
  List.mem_flatMap

theorem mem_results_stop {s t : Place} : t ∈ results .stop s ↔ s.right = [] ∧ t = s := by
  rw [results]
  split <;> simp [*]

theorem mem_results_one {p : Nat → Bool} {s t : Place} :
    t ∈ results (.one p) s ↔ ∃ c rest, s.right = c :: rest ∧ p c = true ∧
      t = ⟨c :: s.left, rest, s.captured⟩ := by
  rw [results]
  cases hright : s.right with
  | nil => simp
  | cons c rest => by_cases hc : p c = true <;> simp [hc]

/-- As many characters of a class as the pattern allows. -/
theorem mem_results_several {p : Nat → Bool} {least most : Nat} {s t : Place} :
    t ∈ results (several p least most) s ↔ ∃ w rest, s.right = w ++ rest ∧
      (∀ c ∈ w, p c = true) ∧ least ≤ w.length ∧ w.length ≤ most ∧
      t = ⟨w.reverse ++ s.left, rest, s.captured⟩ := by
  rw [several, results]
  induction most generalizing least s with
  | zero =>
    rw [repeatResults]
    constructor
    · intro h
      split at h
      · rename_i hleast
        rw [List.mem_singleton.mp h]
        exact ⟨[], s.right, rfl, by simp, by simp [hleast], Nat.le_refl 0, rfl⟩
      · cases h
    · rintro ⟨w, rest, hright, -, hleast, hmost, rfl⟩
      obtain rfl := List.eq_nil_of_length_eq_zero (Nat.le_zero.mp hmost)
      rw [if_pos (Nat.le_zero.mp hleast), List.nil_append, List.reverse_nil, List.nil_append] at *
      rw [← hright]
      exact List.mem_singleton.mpr rfl
  | succ most ih =>
    rw [repeatResults, List.mem_append, List.mem_flatMap]
    constructor
    · rintro (⟨u, hu, ht⟩ | h)
      · obtain ⟨c, rest, hright, hc, rfl⟩ := mem_results_one.mp hu
        obtain ⟨w, rest', hright', hw, hleast, hmost, rfl⟩ := ih.mp ht
        refine ⟨c :: w, rest', ?_, ?_, ?_, Nat.succ_le_succ hmost, ?_⟩
        · rw [hright, List.cons_append, ← hright']
        · exact List.forall_mem_cons.mpr ⟨hc, hw⟩
        · rw [List.length_cons]
          omega
        · simp
      · split at h
        · rename_i hleast
          rw [List.mem_singleton.mp h]
          exact ⟨[], s.right, rfl, by simp, by simp [hleast], Nat.zero_le _, rfl⟩
        · cases h
    · rintro ⟨w, rest, hright, hw, hleast, hmost, rfl⟩
      cases w with
      | nil =>
        rw [List.nil_append] at hright
        rw [if_pos (Nat.le_zero.mp hleast), ← hright]
        exact .inr (List.mem_singleton.mpr rfl)
      | cons c w =>
        obtain ⟨hc, hw⟩ := List.forall_mem_cons.mp hw
        refine .inl ⟨⟨c :: s.left, w ++ rest, s.captured⟩,
          mem_results_one.mpr ⟨c, w ++ rest, hright, hc, rfl⟩,
          ih.mpr ⟨w, rest, rfl, hw, ?_, ?_, ?_⟩⟩
        · rw [List.length_cons] at hleast
          omega
        · exact Nat.le_of_succ_le_succ hmost
        · simp

/-- All that is left, if it is of the class. -/
theorem flatMap_many_stop {p : Nat → Bool} {captured : Option Text} {left right : Text} :
    (manyResults p captured 0 left right).flatMap (results .stop) =
      if ∀ c ∈ right, p c = true then [⟨right.reverse ++ left, [], captured⟩] else [] := by
  induction right generalizing left with
  | nil => rfl
  | cons c right ih =>
    rw [manyResults, List.flatMap_append]
    have hhere : (if 0 = 0 then [(⟨left, c :: right, captured⟩ : Place)] else []).flatMap
        (results .stop) = [] := rfl
    rw [hhere, List.append_nil]
    by_cases hc : p c = true
    · rw [if_pos hc, ih]
      simp [hc]
    · rw [if_neg hc, if_neg fun h => hc (h c (List.mem_cons_self))]
      rfl

theorem matchAt_eq_none {r : RegExp} {left right : Text} :
    matchAt r left right = none ↔ ∀ t, t ∉ results r ⟨left, right, none⟩ := by
  rw [matchAt, Option.map_eq_none_iff, List.head?_eq_none_iff]
  exact List.eq_nil_iff_forall_not_mem

/-! ### The first match -/

theorem search_of_match {r : RegExp} {left right : Text} {m : Text × Text}
    (h : matchAt r left right = some m) :
    search r left right = some ([], m.1, m.2, right.drop m.1.length) := by
  cases right with
  | nil =>
    rw [search, h, List.drop_nil]
    rfl
  | cons c right => rw [search, h]

/-- What is before the first match is passed. -/
theorem search_append {r : RegExp} {left w right : Text}
    (h : ∀ u v, w = u ++ v → v ≠ [] → matchAt r (u.reverse ++ left) (v ++ right) = none) :
    search r left (w ++ right) =
      (search r (w.reverse ++ left) right).map fun m => (w ++ m.1, m.2) := by
  induction w generalizing left with
  | nil => simp
  | cons c w ih =>
    have hhere : matchAt r left (c :: (w ++ right)) = none := h [] (c :: w) rfl (by simp)
    rw [List.cons_append, search, hhere]
    dsimp only
    rw [ih, List.reverse_cons, List.append_assoc, List.singleton_append, Option.map_map]
    · rfl
    · intro u v huv hv
      have hnext := h (c :: u) v (by rw [huv]; rfl) hv
      rwa [List.reverse_cons, List.append_assoc, List.singleton_append] at hnext

theorem search_eq_none {r : RegExp} {left right : Text}
    (h : ∀ u v, right = u ++ v → matchAt r (u.reverse ++ left) v = none) :
    search r left right = none := by
  have hend := h right [] (List.append_nil right).symm
  rw [← List.append_nil right, search_append fun u v huv _ => by
    rw [List.append_nil]
    exact h u v huv, search, hend]
  rfl

/-! ### Places of a replacement -/

/-- What is passed over is not written. -/
theorem replaceFrom_skip (r : RegExp) (value : Text → Text → Text) (w left right : Text) :
    replaceFrom r value w.length left (w ++ right) =
      replaceFrom r value 0 (w.reverse ++ left) right := by
  induction w generalizing left with
  | nil => rfl
  | cons c w ih =>
    rw [List.length_cons, List.cons_append, replaceFrom, ih, List.reverse_cons, List.append_assoc]
    rfl

/-- A match at a place is replaced, and what follows it goes on. -/
theorem replaceFrom_match {r : RegExp} (value : Text → Text → Text) {left w right captured : Text}
    (hw : w ≠ []) (h : matchAt r left (w ++ right) = some (w, captured)) :
    replaceFrom r value 0 left (w ++ right) =
      value w captured ++ replaceFrom r value 0 (w.reverse ++ left) right := by
  cases w with
  | nil => exact absurd rfl hw
  | cons c w =>
    rw [List.cons_append] at h ⊢
    rw [replaceFrom, h]
    dsimp only
    rw [List.length_cons, Nat.add_sub_cancel, replaceFrom_skip, List.reverse_cons,
      List.append_assoc, List.singleton_append]

end RegExp

end LakiraBackend.JavaScript
