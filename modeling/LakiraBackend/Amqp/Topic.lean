import Mathlib.Data.List.Infix

/-!
# Topic patterns

A topic exchange reads a routing key as words between dots.  In the pattern of a binding `*` stands
for one word and `#` for any number of them.

A pattern without wildcards takes its own key and no other (`topicMatches_iff`), and `#` takes every
key (`topicMatches_hash`).
-/

namespace LakiraBackend.Amqp

inductive Word : Type
  | literal (w : List Char)
  /-- `*`. -/
  | star
  /-- `#`. -/
  | hash
  deriving DecidableEq, Repr

/-- The words between the dots; the empty key has none. -/
def words (key : List Char) : List (List Char) := if key = [] then [] else key.splitOn '.'

def Word.read (w : List Char) : Word :=
  if w = ['*'] then .star else if w = ['#'] then .hash else .literal w

def wordsMatch : List Word → List (List Char) → Bool
  | [], s => s.isEmpty
  | .literal w :: p, v :: s => w = v && wordsMatch p s
  | .star :: p, _ :: s => wordsMatch p s
  | .hash :: p, s => s.tails.any (wordsMatch p)
  | _ :: _, [] => false

def topicMatches (pattern key : String) : Bool :=
  wordsMatch ((words pattern.toList).map Word.read) (words key.toList)

/-- It has no wildcard. -/
def Literal (pattern : String) : Prop := '*' ∉ pattern.toList ∧ '#' ∉ pattern.toList

instance {pattern : String} : Decidable (Literal pattern) := inferInstanceAs (Decidable (_ ∧ _))

/-! ### Words -/

theorem words_injective : Function.Injective words := by
  intro s t h
  unfold words at h
  split at h <;> split at h
  · rename_i hs ht
    rw [hs, ht]
  · exact absurd h.symm (List.splitOn_ne_nil _ _)
  · exact absurd h (List.splitOn_ne_nil _ _)
  · calc s = ['.'].intercalate (s.splitOn '.') := (List.intercalate_splitOn '.').symm
      _ = ['.'].intercalate (t.splitOn '.') := by rw [h]
      _ = t := List.intercalate_splitOn '.'

theorem mem_of_mem_splitOn {key w : List Char} {sep c : Char} (hw : w ∈ key.splitOn sep)
    (hc : c ∈ w) : c ∈ key := by
  induction key generalizing w with
  | nil =>
    rw [List.splitOn_nil, List.mem_singleton] at hw
    rw [hw] at hc
    cases hc
  | cons d key ih =>
    rw [List.splitOn_cons_eq_if_modifyHead] at hw
    split at hw
    · rcases List.mem_cons.mp hw with rfl | hw
      · cases hc
      · exact List.mem_cons_of_mem _ (ih hw hc)
    · cases hsplit : key.splitOn sep with
      | nil => exact absurd hsplit (List.splitOn_ne_nil _ _)
      | cons v rest =>
        rw [hsplit] at hw ih
        rcases List.mem_cons.mp hw with rfl | hw
        · rcases List.mem_cons.mp hc with rfl | hc
          · exact List.mem_cons_self
          · exact List.mem_cons_of_mem _ (ih List.mem_cons_self hc)
        · exact List.mem_cons_of_mem _ (ih (List.mem_cons_of_mem _ hw) hc)

/-- What is in a word is in the key. -/
theorem mem_of_mem_words {key w : List Char} {c : Char} (hw : w ∈ words key) (hc : c ∈ w) :
    c ∈ key := by
  unfold words at hw
  split at hw
  · cases hw
  · exact mem_of_mem_splitOn hw hc

theorem read_words {pattern : String} (h : Literal pattern) :
    (words pattern.toList).map Word.read = (words pattern.toList).map Word.literal := by
  refine List.map_congr_left fun w hw => ?_
  have hstar : w ≠ ['*'] := by
    rintro rfl
    exact h.1 (mem_of_mem_words hw (List.mem_singleton.mpr rfl))
  have hhash : w ≠ ['#'] := by
    rintro rfl
    exact h.2 (mem_of_mem_words hw (List.mem_singleton.mpr rfl))
  rw [Word.read, if_neg hstar, if_neg hhash]

/-! ### Matching -/

theorem wordsMatch_literal_iff {p s : List (List Char)} :
    wordsMatch (p.map Word.literal) s = true ↔ p = s := by
  induction p generalizing s with
  | nil => cases s <;> simp [wordsMatch]
  | cons w p ih =>
    cases s with
    | nil => simp [wordsMatch]
    | cons v s => simp [wordsMatch, ih]

theorem wordsMatch_hash (s : List (List Char)) : wordsMatch [.hash] s = true := by
  have hend : [] ∈ s.tails := (List.mem_tails _ _).mpr (List.nil_suffix)
  rw [wordsMatch]
  exact List.any_eq_true.mpr ⟨[], hend, rfl⟩

/-- **A pattern without wildcards takes its own key alone.** -/
theorem topicMatches_iff {pattern key : String} (h : Literal pattern) :
    topicMatches pattern key = true ↔ pattern = key := by
  rw [topicMatches, read_words h, wordsMatch_literal_iff, words_injective.eq_iff]
  exact String.toList_inj

/-- **`#` takes every key.** -/
theorem topicMatches_hash (key : String) : topicMatches "#" key = true := by
  have hread : (words "#".toList).map Word.read = [.hash] := by decide
  rw [topicMatches, hread]
  exact wordsMatch_hash _

example : topicMatches "auth.*.#" "auth.email.retry.5" = true := by decide

end LakiraBackend.Amqp
