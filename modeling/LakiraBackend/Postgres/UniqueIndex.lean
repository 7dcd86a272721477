import LakiraBackend.Postgres.Table

/-!
# A unique index

An index gives each row a key, or none where the row is not in it.  `Unique` is that no two rows
have one key, and `Free` that a row which is to be written has no other row's.
-/

namespace LakiraBackend.Postgres

variable {Row K : Type} {id : Row → Uuid}

def Unique (key : Row → Option K) (t : Table id) : Prop :=
  ∀ r ∈ t.rows, ∀ s ∈ t.rows, ∀ k, key r = some k → key s = some k → r = s

/-- No other row has the key of this one. -/
def Free (key : Row → Option K) (t : Table id) (r : Row) : Prop :=
  ∀ s ∈ t.rows, id s ≠ id r → ∀ k, key r = some k → key s ≠ some k

variable {key : Row → Option K} {t : Table id} {r s : Row}

theorem unique_empty : Unique key (Table.empty : Table id) := fun _ hr => absurd hr List.not_mem_nil

/-- A row that has the id and the key of one that is there is as free. -/
theorem Unique.free (h : Unique key t) (hr : r ∈ t.rows) (hid : id s = id r)
    (hkey : key s = key r) : Free key t s := by
  intro s' hs' hne k hk hk'
  rw [h s' hs' r hr k hk' (hkey ▸ hk)] at hne
  exact hne hid.symm

theorem Free.of_none (h : key r = none) : Free key t r := by
  intro s _ _ k hk
  rw [h] at hk
  cases hk

theorem Unique.insert (h : Unique key t) (hfree : Free key t r) : Unique key (t.insert r) := by
  by_cases hid : id r ∈ t.rows.map id
  · have hsame : t.insert r = t := dif_neg (not_not.mpr hid)
    rwa [hsame]
  have hne : ∀ s ∈ t.rows, id s ≠ id r := fun s hs heq => hid (heq ▸ List.mem_map_of_mem hs)
  intro a ha b hb k hka hkb
  rcases Table.mem_insert ha with rfl | ha'
  · rcases Table.mem_insert hb with rfl | hb'
    · rfl
    · exact absurd hkb (hfree b hb' (hne b hb') k hka)
  · rcases Table.mem_insert hb with rfl | hb'
    · exact absurd hka (hfree a ha' (hne a ha') k hkb)
    · exact h a ha' b hb' k hka hkb

variable {p : Row → Bool} {f : Row → Row}

/-- An UPDATE of the row of an id keeps the index, where it leaves the row free. -/
theorem Unique.updateWhere {x : Uuid} (h : Unique key t) (hf : ∀ r, id (f r) = id r)
    (hp : ∀ r, p r = true → id r = x)
    (hfree : ∀ r ∈ t.rows, p r = true → Free key t (f r)) :
    Unique key (t.updateWhere p f hf) := by
  have hclash : ∀ a ∈ t.rows, p a = true → ∀ b ∈ t.rows, p b = false → ∀ k,
      key (f a) = some k → key b ≠ some k := by
    intro a ha hpa b hb hpb k hk
    refine hfree a ha hpa b hb (fun hid => ?_) k hk
    rw [hf] at hid
    rw [t.eq_of_id hb ha hid, hpa] at hpb
    cases hpb
  intro a ha b hb k hka hkb
  rcases Table.mem_updateWhere.mp ha with ⟨a', ha', hpa, rfl⟩ | ⟨ha', hpa⟩
  · rcases Table.mem_updateWhere.mp hb with ⟨b', hb', hpb, rfl⟩ | ⟨hb', hpb⟩
    · rw [t.eq_of_id ha' hb' ((hp a' hpa).trans (hp b' hpb).symm)]
    · exact absurd hkb (hclash a' ha' hpa b hb' hpb k hka)
  · rcases Table.mem_updateWhere.mp hb with ⟨b', hb', hpb, rfl⟩ | ⟨hb', hpb⟩
    · exact absurd hka (hclash b' hb' hpb a ha' hpa k hkb)
    · exact h a ha' b hb' k hka hkb

end LakiraBackend.Postgres
