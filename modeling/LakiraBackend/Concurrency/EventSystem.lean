import Mathlib.Data.List.Induction

/-!
# Event systems

An object that changes only when an event comes to it: a state to begin with, and what each
event makes of a state, `none` where the event cannot come there.  A run is a list of events,
in the order they came.

`Always` speaks of every state of a run, `Meets` of every step.  A property that follows from
an invariant holds `Always` in a run that `Meets` what the invariant needs of its steps; and
where a step that does otherwise breaks the property, only in those runs.
-/

namespace LakiraBackend.Concurrency

/-! ### One entry of a list changes -/

section Entries

variable {α : Type} {l : List α} {i j : Nat} {a b x : α}

theorem getElem?_set_of_some (hi : l[i]? = some a) (b : α) (j : Nat) :
    (l.set i b)[j]? = if i = j then some b else l[j]? := by
  have hlt : i < l.length := (List.getElem?_eq_some_iff.mp hi).1
  rw [List.getElem?_set, if_pos hlt]

/-- An entry of the changed list is the new one, or was there at another place. -/
theorem of_getElem?_set (hi : l[i]? = some a) (hj : (l.set i b)[j]? = some x) :
    j = i ∧ x = b ∨ j ≠ i ∧ l[j]? = some x := by
  rw [getElem?_set_of_some hi] at hj
  split at hj
  · rename_i hij
    exact Or.inl ⟨hij.symm, (Option.some.inj hj).symm⟩
  · rename_i hij
    exact Or.inr ⟨fun h => hij h.symm, hj⟩

theorem getElem?_concat_of_some (hi : l[i]? = some a) (b : α) : (l ++ [b])[i]? = some a := by
  rw [List.getElem?_append_left (List.getElem?_eq_some_iff.mp hi).1, hi]

/-- An entry of a list with one more is an old one, or the last. -/
theorem of_getElem?_concat (hj : (l ++ [b])[j]? = some x) :
    l[j]? = some x ∨ j = l.length ∧ x = b := by
  rcases Nat.lt_trichotomy j l.length with hlt | rfl | hgt
  · rw [List.getElem?_append_left hlt] at hj
    exact Or.inl hj
  · rw [List.getElem?_concat_length] at hj
    exact Or.inr ⟨rfl, (Option.some.inj hj).symm⟩
  · rw [List.getElem?_eq_none (by rw [List.length_append, List.length_singleton]; omega)] at hj
    cases hj

end Entries

/-! ### Systems and their runs -/

structure EventSystem (σ ε : Type) : Type where
  init : σ
  step : σ → ε → Option σ

namespace EventSystem

variable {σ ε : Type} (S : EventSystem σ ε)

/-- The state after the events; `none` where one of them could not come. -/
def run (events : List ε) : Option σ := events.foldlM S.step S.init

/-- Every state of the run has the property. -/
def Always (P : σ → Prop) (events : List ε) : Prop :=
  ∀ past rest s, events = past ++ rest → S.run past = some s → P s

/-- Every step of the run is of the kind. -/
def Meets (ok : σ → ε → Prop) (events : List ε) : Prop :=
  ∀ past e rest s t, events = past ++ e :: rest → S.run past = some s → S.step s e = some t → ok s e

/-- Whether every step of the run from a state is of the kind. -/
def meetsFrom (ok : σ → ε → Prop) [∀ s e, Decidable (ok s e)] : σ → List ε → Bool
  | _, [] => true
  | s, e :: events =>
    match S.step s e with
    | some t => decide (ok s e) && meetsFrom ok t events
    | none => true

@[simp] theorem run_nil : S.run [] = some S.init := rfl

theorem run_concat (past : List ε) (e : ε) :
    S.run (past ++ [e]) = (S.run past).bind fun s => S.step s e := by
  simp only [run, List.foldlM_append, List.foldlM_cons, List.foldlM_nil, bind_pure]
  rfl

variable {S} {P I : σ → Prop} {ok : σ → ε → Prop} {events past rest : List ε} {s t : σ}

theorem run_concat_eq_some {e : ε} :
    S.run (past ++ [e]) = some t ↔ ∃ s, S.run past = some s ∧ S.step s e = some t := by
  rw [run_concat, Option.bind_eq_some_iff]

theorem Always.last (h : S.Always P events) (hs : S.run events = some s) : P s :=
  h events [] s (List.append_nil _).symm hs

theorem Meets.of_append (h : S.Meets ok (past ++ rest)) : S.Meets ok past := by
  intro p e r s t he hs ht
  exact h p e (r ++ rest) s t (by rw [he, List.append_assoc, List.cons_append]) hs ht

theorem meets_of_meetsFrom [∀ s e, Decidable (ok s e)] (h : S.meetsFrom ok S.init events = true) :
    S.Meets ok events := by
  intro past e rest s t he hs ht
  subst he
  unfold run at hs
  generalize S.init = s₀ at h hs
  induction past generalizing s₀ with
  | nil =>
      cases hs
      simp only [List.nil_append, meetsFrom, ht, Bool.and_eq_true, decide_eq_true_eq] at h
      exact h.1
  | cons e' past ih =>
      obtain ⟨t', ht', hs⟩ := Option.bind_eq_some_iff.mp (List.foldlM_cons.symm.trans hs)
      simp only [List.cons_append, meetsFrom, ht', Bool.and_eq_true] at h
      exact ih t' h.2 hs

/-- **The invariant rule.** -/
theorem Meets.invariant (hinit : I S.init)
    (hstep : ∀ s e t, I s → ok s e → S.step s e = some t → I t) (h : S.Meets ok events)
    (hs : S.run events = some s) : I s := by
  induction events using List.reverseRecOn generalizing s with
  | nil =>
      cases hs
      exact hinit
  | append_singleton past e ih =>
      obtain ⟨r, hr, hrs⟩ := run_concat_eq_some.mp hs
      exact hstep r e s (ih h.of_append hr) (h past e [] r s rfl hr hrs) hrs

theorem Meets.always (hinit : I S.init)
    (hstep : ∀ s e t, I s → ok s e → S.step s e = some t → I t) (hIP : ∀ s, I s → P s)
    (h : S.Meets ok events) : S.Always P events := by
  intro past rest s he hs
  subst he
  exact hIP s (h.of_append.invariant hinit hstep hs)

/-- The invariant rule, where no step can break the invariant. -/
theorem always (hinit : I S.init) (hstep : ∀ s e t, I s → S.step s e = some t → I t)
    (hIP : ∀ s, I s → P s) (events : List ε) : S.Always P events :=
  Meets.always hinit (fun s e t hI (_ : True) ht => hstep s e t hI ht) hIP
    fun _ _ _ _ _ _ _ _ => trivial

/-- Where each step of another kind leads out of the property, a run that never leaves the
property has no such step. -/
theorem Always.meets (hinit : I S.init)
    (hstep : ∀ s e t, I s → ok s e → S.step s e = some t → I t)
    (hok : ∀ s e t, I s → S.step s e = some t → P t → ok s e) (h : S.Always P events) :
    S.Meets ok events := by
  induction events using List.reverseRecOn with
  | nil =>
      intro past e rest s t he
      exact absurd he (by simp)
  | append_singleton events last ih =>
      have hmeets : S.Meets ok events :=
        ih fun past rest s he hs => h past (rest ++ [last]) s (by rw [he, List.append_assoc]) hs
      intro past e rest s t he hs ht
      induction rest using List.reverseRecOn with
      | nil =>
          obtain ⟨rfl, hl⟩ := List.append_inj' he rfl
          obtain rfl : last = e := by simpa using hl
          exact hok s last t (hmeets.invariant hinit hstep hs) ht
            (h.last (run_concat_eq_some.mpr ⟨s, hs, ht⟩))
      | append_singleton rest final _ =>
          have he' : events ++ [last] = (past ++ e :: rest) ++ [final] := by
            rw [he, List.append_assoc, List.cons_append]
          obtain ⟨hevents, _⟩ := List.append_inj' he' rfl
          exact hmeets past e rest s t hevents hs ht

/-- **The property holds in every state of a run exactly when every step of the run is of the
kind.** -/
theorem always_iff_meets (hinit : I S.init)
    (hstep : ∀ s e t, I s → ok s e → S.step s e = some t → I t) (hIP : ∀ s, I s → P s)
    (hok : ∀ s e t, I s → S.step s e = some t → P t → ok s e) (events : List ε) :
    S.Always P events ↔ S.Meets ok events :=
  ⟨Always.meets hinit hstep hok, Meets.always hinit hstep hIP⟩

end EventSystem

end LakiraBackend.Concurrency
