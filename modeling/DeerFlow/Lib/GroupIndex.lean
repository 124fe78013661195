import DeerFlow.Lib.KeyedTable

/-! A secondary index: for each group the keys of its rows, in the order in which
the rows were inserted. Groups without rows have no bucket. -/

namespace DeerFlow

section Rows
variable {γ κ ρ : Type*} [DecidableEq γ] (g : ρ → γ)

/-- The keys of the rows in group `c`. -/
def groupKeys (rows : List (κ × ρ)) (c : γ) : List κ :=
  (rows.filter fun r => g r.2 = c).map Prod.fst

variable {g}

theorem groupKeys_concat (rows : List (κ × ρ)) (k : κ) (r : ρ) (c : γ) :
    groupKeys g (rows ++ [(k, r)]) c =
      if c = g r then groupKeys g rows c ++ [k] else groupKeys g rows c := by
  unfold groupKeys
  by_cases h : c = g r
  · simp [h]
  · have hne : g r ≠ c := fun he => h he.symm
    simp [h, hne]

theorem groupKeys_erase [DecidableEq κ] {rows : List (κ × ρ)} (hrows : (rows.map Prod.fst).Nodup)
    {k : κ} {r : ρ} (hr : (k, r) ∈ rows) (c : γ) :
    groupKeys g (rows.filter fun x => x.1 ≠ k) c =
      if c = g r then (groupKeys g rows c).filter (· ≠ k) else groupKeys g rows c := by
  have hswap : groupKeys g (rows.filter fun x => x.1 ≠ k) c =
      (groupKeys g rows c).filter (· ≠ k) := by
    unfold groupKeys
    rw [List.filter_map, List.filter_filter, List.filter_filter]
    simp [Bool.and_comm]
  rw [hswap]
  split_ifs with h
  · rfl
  · -- the key names `r` only, which is in another group
    rw [List.filter_eq_self]
    intro j hj
    obtain ⟨x, hx, rfl⟩ := List.mem_map.mp hj
    obtain ⟨hxr, hxc⟩ := List.mem_filter.mp hx
    have hne : x.1 ≠ k := by
      intro hk
      have hxr' : x = (k, r) := List.inj_on_of_nodup_map hrows hxr hr hk
      rw [hxr'] at hxc
      exact h (of_decide_eq_true hxc).symm
    simpa using hne

theorem groupKeys_congr {rows rows' : List (κ × ρ)}
    (h : rows.map (fun x => (x.1, g x.2)) = rows'.map fun x => (x.1, g x.2)) (c : γ) :
    groupKeys g rows c = groupKeys g rows' c := by
  have hview : ∀ xs : List (κ × ρ), groupKeys g xs c =
      ((xs.map fun x => (x.1, g x.2)).filter fun y => y.2 = c).map Prod.fst := by
    intro xs
    unfold groupKeys
    rw [List.filter_map, List.map_map]
    rfl
  rw [hview, hview, h]

end Rows

abbrev GroupIndex (γ κ : Type*) := List (γ × List κ)

namespace GroupIndex
variable {γ κ ρ : Type*} [DecidableEq γ] {g : ρ → γ}

def bucket? (idx : GroupIndex γ κ) (c : γ) : Option (List κ) :=
  (idx.find? fun x => x.1 = c).map Prod.snd

theorem bucket?_upsert (idx : GroupIndex γ κ) (c d : γ) (keys : List κ) :
    bucket? (upsert Prod.fst (c, keys) idx) d = if d = c then some keys else idx.bucket? d := by
  unfold bucket?
  rw [find?_upsert Prod.fst (c, keys) idx d]
  split_ifs <;> rfl

theorem bucket?_filter (idx : GroupIndex γ κ) (c d : γ) :
    bucket? (idx.filter fun x => x.1 ≠ c) d = if d = c then none else idx.bucket? d := by
  unfold bucket?
  rw [List.find?_filter]
  split_ifs with h
  · subst h
    simp
  · congr 2
    funext x
    by_cases hx : x.1 = d
    · simp [hx, h]
    · simp [hx]

/-- `idx` is the index of `rows` by `g`. -/
structure Indexes (g : ρ → γ) (rows : List (κ × ρ)) (idx : GroupIndex γ κ) : Prop where
  nodup : (idx.map Prod.fst).Nodup
  bucket : ∀ c, idx.bucket? c =
    if groupKeys g rows c = [] then none else some (groupKeys g rows c)

variable {rows : List (κ × ρ)} {idx : GroupIndex γ κ}

theorem Indexes.keys (h : Indexes g rows idx) (c : γ) :
    (idx.bucket? c).getD [] = groupKeys g rows c := by
  rw [h.bucket]
  split_ifs with hc
  · rw [hc, Option.getD_none]
  · rw [Option.getD_some]

theorem Indexes.ne_nil (h : Indexes g rows idx) {x : γ × List κ} (hx : x ∈ idx) : x.2 ≠ [] := by
  have hget : idx.bucket? x.1 = some x.2 := by
    have hfind : idx.find? (fun y => y.1 = x.1) = some x := by
      have hmem := (Table.mem_rows (t := ⟨idx, h.nodup⟩) (r := x)).mp hx
      exact hmem
    unfold bucket?
    rw [hfind, Option.map_some]
  rw [h.bucket] at hget
  split_ifs at hget with hc
  rw [← Option.some.inj hget]
  exact hc

theorem Indexes.congr (h : Indexes g rows idx) {rows' : List (κ × ρ)}
    (hrows : rows'.map (fun x => (x.1, g x.2)) = rows.map fun x => (x.1, g x.2)) :
    Indexes g rows' idx :=
  ⟨h.nodup, fun c => by rw [groupKeys_congr hrows c]; exact h.bucket c⟩

variable [DecidableEq κ]

/-- Add `k` to the ordered set of group `c`. -/
def add (idx : GroupIndex γ κ) (c : γ) (k : κ) : GroupIndex γ κ :=
  let keys := (idx.bucket? c).getD []
  upsert Prod.fst (c, if k ∈ keys then keys else keys ++ [k]) idx

/-- Take `k` out of group `c`, and the group out of the index when it was the last key. -/
def remove (idx : GroupIndex γ κ) (c : γ) (k : κ) : GroupIndex γ κ :=
  match idx.bucket? c with
  | none => idx
  | some keys =>
    let keys := keys.filter (· ≠ k)
    if keys.isEmpty then idx.filter fun x => x.1 ≠ c else upsert Prod.fst (c, keys) idx

theorem Indexes.add (h : Indexes g rows idx) {k : κ} (hk : k ∉ rows.map Prod.fst) (r : ρ) :
    Indexes g (rows ++ [(k, r)]) (idx.add (g r) k) := by
  have hnew : k ∉ groupKeys g rows (g r) := by
    intro hmem
    obtain ⟨x, hx, rfl⟩ := List.mem_map.mp hmem
    exact hk (List.mem_map_of_mem (List.mem_filter.mp hx).1)
  have hadd : idx.add (g r) k =
      upsert Prod.fst (g r, groupKeys g rows (g r) ++ [k]) idx := by
    unfold GroupIndex.add
    simp only [h.keys, if_neg hnew]
  rw [hadd]
  refine ⟨nodup_upsert Prod.fst h.nodup, fun c => ?_⟩
  rw [bucket?_upsert, groupKeys_concat]
  split_ifs with hc hnil hnil
  · simp at hnil
  · rw [hc]
  · rw [h.bucket, if_pos hnil]
  · rw [h.bucket, if_neg hnil]

theorem Indexes.remove (h : Indexes g rows idx) (hrows : (rows.map Prod.fst).Nodup) {k : κ} {r : ρ}
    (hr : (k, r) ∈ rows) :
    Indexes g (rows.filter fun x => x.1 ≠ k) (idx.remove (g r) k) := by
  have hmem : k ∈ groupKeys g rows (g r) :=
    List.mem_map.mpr ⟨(k, r), List.mem_filter.mpr ⟨hr, by simp⟩, rfl⟩
  have hbucket : idx.bucket? (g r) = some (groupKeys g rows (g r)) := by
    rw [h.bucket, if_neg (List.ne_nil_of_mem hmem)]
  unfold GroupIndex.remove
  rw [hbucket]
  simp only
  split_ifs with hempty
  · refine ⟨h.nodup.sublist (List.filter_sublist.map _), fun c => ?_⟩
    rw [bucket?_filter, groupKeys_erase hrows hr]
    split_ifs with hc hnil hnil
    · rfl
    · rw [hc] at hnil
      exact absurd (List.isEmpty_iff.mp hempty) hnil
    · rw [h.bucket, if_pos hnil]
    · rw [h.bucket, if_neg hnil]
  · refine ⟨nodup_upsert Prod.fst h.nodup, fun c => ?_⟩
    rw [bucket?_upsert, groupKeys_erase hrows hr]
    split_ifs with hc hnil hnil
    · rw [hc] at hnil
      exact absurd (List.isEmpty_iff.mpr hnil) hempty
    · rw [hc]
    · rw [h.bucket, if_pos hnil]
    · rw [h.bucket, if_neg hnil]

theorem Indexes.remove_add (h : Indexes g rows idx) {c : γ} {k : κ}
    (hk : k ∉ groupKeys g rows c) : (idx.add c k).remove c k = idx := by
  have hadd : idx.add c k = upsert Prod.fst (c, groupKeys g rows c ++ [k]) idx := by
    unfold GroupIndex.add
    simp only [h.keys, if_neg hk]
  have hfilter : (groupKeys g rows c ++ [k]).filter (· ≠ k) = groupKeys g rows c := by
    have hself : (groupKeys g rows c).filter (· ≠ k) = groupKeys g rows c := by
      rw [List.filter_eq_self]
      intro j hj
      have hne : j ≠ k := fun he => hk (he ▸ hj)
      simpa using hne
    rw [List.filter_append, hself]
    simp
  rw [hadd]
  unfold GroupIndex.remove
  rw [bucket?_upsert, if_pos rfl]
  simp only [hfilter]
  have hbucket := h.bucket c
  split_ifs with hempty
  · -- the bucket was made for the key
    rw [List.isEmpty_iff] at hempty
    rw [if_pos hempty] at hbucket
    have hnone : idx.find? (fun x => x.1 = c) = none := by
      simpa [bucket?] using hbucket
    rw [upsert_of_find?_none Prod.fst hnone, List.filter_append]
    have hall : idx.filter (fun x => x.1 ≠ c) = idx := by
      rw [List.filter_eq_self]
      intro x hx
      have hne := List.find?_eq_none.mp hnone x hx
      simpa using hne
    rw [hall]
    simp
  · rw [List.isEmpty_iff] at hempty
    rw [if_neg hempty] at hbucket
    obtain ⟨x, hx, hkeys⟩ := Option.map_eq_some_iff.mp hbucket
    have hc : x.1 = c := by simpa using List.find?_some hx
    obtain rfl : x = (c, groupKeys g rows c) := Prod.ext hc hkeys
    have hsame : Prod.fst (c, groupKeys g rows c ++ [k]) = Prod.fst (c, groupKeys g rows c) := rfl
    rw [upsert_upsert Prod.fst hsame]
    exact upsert_of_find? Prod.fst hx

end GroupIndex

end DeerFlow
