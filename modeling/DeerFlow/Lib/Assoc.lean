import DeerFlow.Lib.KeyedTable

/-! Values under distinct keys, in insertion order: tables whose rows are pairs. -/

namespace DeerFlow

abbrev Assoc (κ α : Type*) := Table (Prod.fst : κ × α → κ)

namespace Assoc
variable {κ α : Type*} [DecidableEq κ]

def find (d : Assoc κ α) (k : κ) : Option α := (d.get k).map Prod.snd

def set (d : Assoc κ α) (k : κ) (v : α) : Assoc κ α := d.put (k, v)

/-- The value under `k` is replaced; a key that is not there stays away. -/
def alter (d : Assoc κ α) (k : κ) (v : α) : Assoc κ α := if (d.find k).isSome then d.set k v else d

@[simp] theorem find_empty (k : κ) : find (Table.empty : Assoc κ α) k = none := rfl

@[simp] theorem find_set (d : Assoc κ α) (k k' : κ) (v : α) :
    (d.set k v).find k' = if k' = k then some v else d.find k' := by
  unfold find set
  rw [Table.get_put]
  split_ifs <;> rfl

@[simp] theorem find_erase (d : Assoc κ α) (k k' : κ) :
    find (d.erase k) k' = if k' = k then none else d.find k' := by
  unfold find
  rw [Table.get_erase]
  split_ifs <;> rfl

@[simp] theorem find_alter (d : Assoc κ α) (k k' : κ) (v : α) :
    (d.alter k v).find k' = if k' = k then (d.find k).map fun _ => v else d.find k' := by
  unfold alter
  rcases hk : d.find k with _ | w
  · by_cases hkk : k' = k
    · simp [hkk, hk]
    · simp [hkk]
  · simp

theorem mem_rows {d : Assoc κ α} {k : κ} {v : α} : (k, v) ∈ d.rows ↔ d.find k = some v := by
  rw [Table.mem_rows]
  unfold find
  constructor
  · intro h
    rw [h]
    rfl
  · intro h
    obtain ⟨⟨k', w⟩, hr, rfl⟩ := Option.map_eq_some_iff.mp h
    have hkey : k' = k := Table.key_of_get hr
    rw [← hkey]
    rw [← hkey] at hr
    exact hr

theorem isSome_find {d : Assoc κ α} {k : κ} :
    (d.find k).isSome = true ↔ k ∈ d.rows.map Prod.fst := by
  rw [find, Option.isSome_map, Table.isSome_get]

@[simp] theorem find_keep (d : Assoc κ α) (p : κ × α → Bool) (k : κ) :
    find (d.keep p) k = (d.find k).filter fun v => p (k, v) := by
  apply Option.ext
  intro v
  rw [← mem_rows, Table.mem_keep, mem_rows, Option.filter_eq_some_iff]

end Assoc

end DeerFlow
