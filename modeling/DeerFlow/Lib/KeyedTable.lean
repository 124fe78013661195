import DeerFlow.Lib.Lists

/-! Tables with a primary key. A table is a list of rows in insertion order
whose keys are distinct, so a key names at most one row. -/

namespace DeerFlow

section Rows
variable {κ ρ : Type*} [DecidableEq κ] (key : ρ → κ)

/-- Replace the row with `r`'s key by `r`, or append `r`. -/
@[grind =]
def upsert (r : ρ) : List ρ → List ρ
  | [] => [r]
  | x :: xs => if key x = key r then r :: xs else x :: upsert r xs

theorem mem_upsert_key {r : ρ} {xs : List ρ} {k : κ} :
    k ∈ (upsert key r xs).map key ↔ k = key r ∨ k ∈ xs.map key := by
  induction xs with
  | nil => simp [upsert]
  | cons x xs ih =>
    unfold upsert
    split_ifs with h
    · simp [h]
    · rw [List.map_cons, List.mem_cons, ih, List.map_cons, List.mem_cons]
      tauto

theorem mem_upsert {r x : ρ} {xs : List ρ} (h : x ∈ upsert key r xs) : x = r ∨ x ∈ xs := by
  induction xs with
  | nil => exact .inl (List.mem_singleton.mp h)
  | cons y ys ih =>
    unfold upsert at h
    split_ifs at h
    · rcases List.mem_cons.mp h with rfl | h
      · exact .inl rfl
      · exact .inr (List.mem_cons_of_mem _ h)
    · rcases List.mem_cons.mp h with rfl | h
      · exact .inr (List.mem_cons_self ..)
      · exact (ih h).imp_right fun hy => List.mem_cons_of_mem _ hy

theorem nodup_upsert {r : ρ} {xs : List ρ} (h : (xs.map key).Nodup) :
    ((upsert key r xs).map key).Nodup := by
  induction xs with
  | nil => simp [upsert]
  | cons x xs ih =>
    rw [List.map_cons, List.nodup_cons] at h
    unfold upsert
    split_ifs with hk
    · rw [List.map_cons, List.nodup_cons, ← hk]
      exact h
    · rw [List.map_cons, List.nodup_cons, mem_upsert_key]
      refine ⟨?_, ih h.2⟩
      rintro (he | he)
      · exact hk he
      · exact h.1 he

theorem find?_upsert (r : ρ) (xs : List ρ) (k : κ) :
    (upsert key r xs).find? (fun x => key x = k) =
      if k = key r then some r else xs.find? (fun x => key x = k) := by
  induction xs with
  | nil =>
    by_cases h : k = key r
    · simp [upsert, h]
    · simp [upsert, h, Ne.symm h]
  | cons x xs ih =>
    unfold upsert
    split_ifs with hx hk hk
    · simp [hk]
    · have hxk : key x ≠ k := fun h => hk (h ▸ hx)
      simp [Ne.symm hk, hxk]
    · have hxk : key x ≠ k := fun h => hx (h.trans hk)
      rw [List.find?_cons_of_neg (by simpa using hxk), ih, if_pos hk]
    · by_cases hxk : key x = k
      · rw [List.find?_cons_of_pos (by simpa using hxk),
          List.find?_cons_of_pos (by simpa using hxk)]
      · rw [List.find?_cons_of_neg (by simpa using hxk), ih, if_neg hk,
          List.find?_cons_of_neg (by simpa using hxk)]

theorem upsert_upsert {r r' : ρ} (h : key r' = key r) (xs : List ρ) :
    upsert key r (upsert key r' xs) = upsert key r xs := by
  induction xs with
  | nil => simp [upsert, h]
  | cons x xs ih =>
    by_cases hx : key x = key r
    · simp [upsert, h, hx]
    · simp [upsert, h, hx, ih]

theorem upsert_of_find? {r : ρ} {xs : List ρ}
    (h : xs.find? (fun x => key x = key r) = some r) : upsert key r xs = xs := by
  induction xs with
  | nil => cases h
  | cons x xs ih =>
    by_cases hx : key x = key r
    · rw [List.find?_cons_of_pos (by simpa using hx)] at h
      simp [upsert, Option.some.inj h]
    · rw [List.find?_cons_of_neg (by simpa using hx)] at h
      simp [upsert, hx, ih h]

theorem upsert_of_find?_none {r : ρ} {xs : List ρ}
    (h : xs.find? (fun x => key x = key r) = none) : upsert key r xs = xs ++ [r] := by
  induction xs with
  | nil => rfl
  | cons x xs ih =>
    by_cases hx : key x = key r
    · rw [List.find?_cons_of_pos (by simpa using hx)] at h
      cases h
    · rw [List.find?_cons_of_neg (by simpa using hx)] at h
      simp [upsert, hx, ih h]

theorem length_filter_upsert_le (p : ρ → Bool) (r : ρ) (xs : List ρ) :
    ((upsert key r xs).filter p).length ≤ (xs.filter p).length + if p r then 1 else 0 := by
  induction xs with
  | nil =>
    by_cases hr : p r = true
    · simp [upsert, hr]
    · simp [upsert, hr]
  | cons x xs ih =>
    unfold upsert
    split_ifs with hx hr hr
    · rw [List.filter_cons_of_pos hr, List.length_cons]
      by_cases hp : p x = true
      · simp [hp]
      · simp [hp]
    · rw [List.filter_cons_of_neg hr]
      by_cases hp : p x = true
      · simp [hp]
      · simp [hp]
    · rw [if_pos hr] at ih
      by_cases hp : p x = true
      · simp only [List.filter_cons_of_pos hp, List.length_cons]
        omega
      · rw [List.filter_cons_of_neg hp, List.filter_cons_of_neg hp]
        exact ih
    · rw [if_neg hr] at ih
      by_cases hp : p x = true
      · simp only [List.filter_cons_of_pos hp, List.length_cons]
        omega
      · rw [List.filter_cons_of_neg hp, List.filter_cons_of_neg hp]
        exact ih

theorem map_upsert {σ : Type*} (key' : σ → κ) {f : ρ → σ} (hf : ∀ r, key' (f r) = key r) (r : ρ)
    (xs : List ρ) : (upsert key r xs).map f = upsert key' (f r) (xs.map f) := by
  induction xs with
  | nil => rfl
  | cons x xs ih =>
    rw [List.map_cons, upsert, upsert, hf, hf]
    split_ifs with hx
    · rw [List.map_cons]
    · rw [List.map_cons, ih]

end Rows

structure Table {κ ρ : Type*} (key : ρ → κ) where
  rows : List ρ
  nodup : (rows.map key).Nodup

namespace Table
variable {κ ρ : Type*} {key : ρ → κ}

theorem eq_of_rows {t t' : Table key} (h : t.rows = t'.rows) : t = t' := by
  cases t
  cases t'
  exact (Table.mk.injEq ..).mpr h

def empty : Table key := ⟨[], List.nodup_nil⟩

variable [DecidableEq κ]

def get (t : Table key) (k : κ) : Option ρ := t.rows.find? fun r => key r = k

def put (t : Table key) (r : ρ) : Table key := ⟨upsert key r t.rows, nodup_upsert key t.nodup⟩

/-- Rewrite the row under `k`, if there is one. -/
def update (t : Table key) (k : κ) (f : ρ → ρ) : Table key :=
  match t.get k with
  | none => t
  | some r => t.put (f r)

theorem get_put (t : Table key) (r : ρ) (k : κ) :
    (t.put r).get k = if k = key r then some r else t.get k := find?_upsert key r t.rows k

theorem key_of_get {t : Table key} {k : κ} {r : ρ} (h : t.get k = some r) : key r = k := by
  simpa using List.find?_some h

theorem get_update {t : Table key} {f : ρ → ρ} (hf : ∀ r, key (f r) = key r) (k k' : κ) :
    (t.update k f).get k' = if k' = k then (t.get k).map f else t.get k' := by
  unfold update
  rcases h : t.get k with _ | r
  · by_cases hk : k' = k
    · subst hk
      simp [h]
    · simp [hk]
  · rw [get_put, hf, key_of_get h]
    rfl

theorem mem_rows {t : Table key} {r : ρ} : r ∈ t.rows ↔ t.get (key r) = some r := by
  constructor
  · intro h
    obtain ⟨x, hx⟩ := Option.isSome_iff_exists.mp
      (List.find?_isSome.mpr ⟨r, h, decide_eq_true rfl⟩ :
        (t.rows.find? fun x => key x = key r).isSome)
    have hxr : x = r := List.inj_on_of_nodup_map t.nodup (List.mem_of_find?_eq_some hx) h
      (key_of_get hx)
    exact hxr ▸ hx
  · intro h
    exact List.mem_of_find?_eq_some h

theorem mem_of_get {t : Table key} {k : κ} {r : ρ} (h : t.get k = some r) : r ∈ t.rows :=
  List.mem_of_find?_eq_some h

def erase (t : Table key) (k : κ) : Table key :=
  ⟨t.rows.filter fun r => key r ≠ k, t.nodup.sublist (List.filter_sublist.map key)⟩

theorem get_erase (t : Table key) (k k' : κ) :
    (t.erase k).get k' = if k' = k then none else t.get k' := by
  unfold get erase
  rw [List.find?_filter]
  split_ifs with hk
  · rw [List.find?_eq_none]
    intro r _ hr
    simp_all
  · congr 1
    funext r
    by_cases hr : key r = k'
    · simp [hr, hk]
    · simp [hr]

/-- Rewrite every row, each under its own key. -/
def mapRows (t : Table key) (f : ρ → ρ) (hf : ∀ r, key (f r) = key r) : Table key :=
  ⟨t.rows.map f, by
    rw [List.map_map, show key ∘ f = key from funext hf]
    exact t.nodup⟩

theorem get_mapRows (t : Table key) {f : ρ → ρ} (hf : ∀ r, key (f r) = key r) (k : κ) :
    (t.mapRows f hf).get k = (t.get k).map f := by
  unfold get mapRows
  rw [List.find?_map]
  simp only [Function.comp_def, hf]

theorem mem_put {t : Table key} {r x : ρ} (h : x ∈ (t.put r).rows) : x = r ∨ x ∈ t.rows :=
  mem_upsert key h

theorem mem_update {t : Table key} {k : κ} {f : ρ → ρ} {x : ρ} (h : x ∈ (t.update k f).rows) :
    x ∈ t.rows ∨ ∃ r ∈ t.rows, key r = k ∧ x = f r := by
  unfold update at h
  split at h
  · exact .inl h
  · next r hr =>
    rcases mem_put h with rfl | h
    · exact .inr ⟨r, mem_of_get hr, key_of_get hr, rfl⟩
    · exact .inl h

theorem rows_update {t : Table key} {f : ρ → ρ} (hf : ∀ r, key (f r) = key r) (k : κ) :
    (t.update k f).rows = t.rows.map fun r => if key r = k then f r else r := by
  have hupsert (xs : List ρ) (r : ρ) (hnodup : (xs.map key).Nodup) (hr : r ∈ xs) :
      upsert key (f r) xs = xs.map fun x => if key x = key r then f x else x := by
    induction xs with
    | nil => cases hr
    | cons x xs ih =>
      rw [List.map_cons, List.nodup_cons] at hnodup
      unfold upsert
      rw [hf]
      rcases List.mem_cons.mp hr with rfl | hr
      · have hrest : ∀ y ∈ xs, (if key y = key r then f y else y) = y := by
          intro y hy
          apply if_neg
          intro he
          rw [← he] at hnodup
          exact hnodup.1 (List.mem_map_of_mem hy)
        rw [if_pos rfl, List.map_cons, if_pos rfl, List.map_congr_left hrest, List.map_id']
      · have hne : key x ≠ key r := by
          intro he
          rw [he] at hnodup
          exact hnodup.1 (List.mem_map_of_mem hr)
        rw [if_neg hne, List.map_cons, if_neg hne, ih hnodup.2 hr]
  unfold update
  split
  · next hnone =>
    have hrest : ∀ r ∈ t.rows, (if key r = k then f r else r) = r := by
      intro r hr
      apply if_neg
      rintro rfl
      rw [mem_rows.mp hr] at hnone
      cases hnone
    rw [List.map_congr_left hrest, List.map_id']
  · next r hr =>
    rw [← key_of_get hr]
    exact hupsert t.rows r t.nodup (mem_of_get hr)

theorem rows_put_of_get {t : Table key} {r x : ρ} (h : t.get (key r) = some x) :
    (t.put r).rows = t.rows.map fun y => if key y = key r then r else y := by
  have hkey : ∀ y, key (if key y = key r then r else y) = key y := by
    intro y
    split_ifs with hy
    · exact hy.symm
    · rfl
  have hupdate : t.put r = t.update (key r) fun y => if key y = key r then r else y := by
    rw [update, h]
    exact congrArg t.put (if_pos (key_of_get h)).symm
  rw [hupdate, rows_update hkey]
  apply List.map_congr_left
  intro y _
  split_ifs <;> rfl

theorem mem_erase {t : Table key} {k : κ} {x : ρ} (h : x ∈ (t.erase k).rows) : x ∈ t.rows :=
  List.mem_of_mem_filter h

theorem get_eq_none {t : Table key} {k : κ} (h : ∀ r ∈ t.rows, key r ≠ k) : t.get k = none := by
  unfold get
  rw [List.find?_eq_none]
  intro r hr
  simpa using h r hr

theorem get_eq_some_iff {t : Table key} {k : κ} {r : ρ} :
    t.get k = some r ↔ r ∈ t.rows ∧ key r = k := by
  constructor
  · intro h
    exact ⟨mem_of_get h, key_of_get h⟩
  · rintro ⟨hr, rfl⟩
    exact mem_rows.mp hr

section Order

/-- The rows that `p` keeps, in their order. -/
def keep (t : Table key) (p : ρ → Bool) : Table key :=
  ⟨t.rows.filter p, t.nodup.sublist (List.filter_sublist.map key)⟩

omit [DecidableEq κ] in
theorem mem_keep {t : Table key} {p : ρ → Bool} {r : ρ} :
    r ∈ (t.keep p).rows ↔ r ∈ t.rows ∧ p r = true := List.mem_filter

/-- Forget the `n` rows that were inserted first. -/
def dropOldest (t : Table key) (n : Nat) : Table key :=
  ⟨t.rows.drop n, t.nodup.sublist ((List.drop_sublist n t.rows).map key)⟩

theorem get_dropOldest (t : Table key) (n : Nat) (k : κ) :
    (t.dropOldest n).get k = if k ∈ (t.rows.take n).map key then none else t.get k := by
  have hsplit : (t.rows.take n).map key ++ (t.rows.drop n).map key = t.rows.map key := by
    rw [← List.map_append, List.take_append_drop]
  have hnodup := t.nodup
  rw [← hsplit] at hnodup
  have hapart := List.disjoint_of_nodup_append hnodup
  split_ifs with hk
  · apply get_eq_none
    intro r hr hrk
    exact hapart hk (hrk ▸ List.mem_map_of_mem hr)
  · unfold get dropOldest
    conv_rhs => rw [← List.take_append_drop n t.rows]
    have hnone : (t.rows.take n).find? (fun r => decide (key r = k)) = none := by
      rw [List.find?_eq_none]
      intro r hr hrk
      have hkey : key r = k := by simpa using hrk
      exact hk (hkey ▸ List.mem_map_of_mem hr)
    rw [List.find?_append, hnone, Option.none_or]

/-- The row under `k` becomes the last one. -/
def moveToEnd (t : Table key) (k : κ) : Table key :=
  match t.get k with
  | none => t
  | some r => (t.erase k).put r

theorem rows_put_of_get_none {t : Table key} {r : ρ} (h : t.get (key r) = none) :
    (t.put r).rows = t.rows ++ [r] := upsert_of_find?_none key h

theorem get_moveToEnd (t : Table key) (k k' : κ) : (t.moveToEnd k).get k' = t.get k' := by
  unfold moveToEnd
  split
  · rfl
  · next r hr =>
    have hkey := key_of_get hr
    rw [get_put, get_erase]
    by_cases hk : k' = k
    · subst hk
      simp [hkey, hr]
    · simp [hk, hkey]

theorem length_put {t : Table key} {r r' : ρ} (h : t.get (key r) = some r') :
    (t.put r).rows.length = t.rows.length := by
  have hlength (xs : List ρ) (hx : (xs.find? fun x => decide (key x = key r)).isSome) :
      (upsert key r xs).length = xs.length := by
    induction xs with
    | nil => simp at hx
    | cons x xs ih =>
      by_cases hxr : key x = key r
      · simp [upsert, hxr]
      · rw [List.find?_cons_of_neg (by simpa using hxr)] at hx
        simp [upsert, hxr, ih hx]
  exact hlength t.rows (Option.isSome_iff_exists.mpr ⟨r', h⟩)

theorem length_update {t : Table key} {f : ρ → ρ} (hf : ∀ r, key (f r) = key r) (k : κ) :
    (t.update k f).rows.length = t.rows.length := by
  unfold update
  split
  · rfl
  · next r hr =>
    have hkey : t.get (key (f r)) = some r := by rw [hf, key_of_get hr, hr]
    exact length_put hkey

theorem length_erase_lt {t : Table key} {k : κ} {r : ρ} (h : t.get k = some r) :
    (t.erase k).rows.length + 1 ≤ t.rows.length := by
  have hlt := List.length_filter_lt_length_iff_exists (p := fun r => decide (key r ≠ k))
    (l := t.rows) |>.mpr ⟨r, mem_of_get h, by simp [key_of_get h]⟩
  exact hlt

theorem length_moveToEnd (t : Table key) (k : κ) :
    (t.moveToEnd k).rows.length ≤ t.rows.length := by
  unfold moveToEnd
  split
  · exact Nat.le_refl _
  · next r hr =>
    have hgone : (t.erase k).get (key r) = none := by rw [get_erase, key_of_get hr, if_pos rfl]
    rw [rows_put_of_get_none hgone, List.length_append]
    exact length_erase_lt hr

end Order

section PutAll

def putAll (t : Table key) (rs : List ρ) : Table key := rs.foldl put t

theorem rows_put_of_rows_eq {t : Table key} {pre post : List ρ} {x r : ρ}
    (hrows : t.rows = pre ++ x :: post) (hkey : key r = key x) :
    (t.put r).rows = pre ++ r :: post := by
  have hnodup := t.nodup
  rw [hrows] at hnodup
  change upsert key r t.rows = _
  rw [hrows]
  clear hrows
  induction pre with
  | nil => simp [upsert, hkey]
  | cons y pre ih =>
    rw [List.cons_append, List.map_cons, List.nodup_cons] at hnodup
    have hne : key y ≠ key r := by
      intro he
      apply hnodup.1
      rw [he, hkey]
      exact List.mem_map_of_mem (List.mem_append_right _ (List.mem_cons_self ..))
    rw [List.cons_append, upsert, if_neg hne, ih hnodup.2, List.cons_append]

theorem isSome_get {t : Table key} {k : κ} : (t.get k).isSome = true ↔ k ∈ t.rows.map key := by
  rw [Option.isSome_iff_exists, List.mem_map]
  simp only [get_eq_some_iff]

theorem keys_put (t : Table key) (r : ρ) :
    (t.put r).rows.map key =
      t.rows.map key ++ if (t.get (key r)).isSome then [] else [key r] := by
  have hkeys (xs : List ρ) : (upsert key r xs).map key =
      xs.map key ++ if (xs.find? fun x => decide (key x = key r)).isSome then [] else [key r] := by
    induction xs with
    | nil => rfl
    | cons x xs ih =>
      unfold upsert
      by_cases hx : key x = key r
      · simp [hx]
      · rw [if_neg hx, List.map_cons, ih, List.map_cons, List.cons_append,
          List.find?_cons_of_neg (by simpa using hx)]
  exact hkeys t.rows

section Fold
variable {f : Table key → ρ → Table key} {g : Option ρ → ρ → ρ}

/-- Keys that are there keep their places, and the others follow in order. -/
theorem keys_foldl (hkeys : ∀ t r, (f t r).rows.map key =
      t.rows.map key ++ if (t.get (key r)).isSome then [] else [key r])
    (hget : ∀ t r k, (f t r).get k = if k = key r then some (g (t.get k) r) else t.get k)
    (t : Table key) {rs : List ρ} (hrs : (rs.map key).Nodup) :
    (rs.foldl f t).rows.map key =
      t.rows.map key ++ (rs.map key).filter fun k => (t.get k).isNone := by
  induction rs generalizing t with
  | nil => simp
  | cons r rs ih =>
    rw [List.map_cons, List.nodup_cons] at hrs
    have hsame : (rs.map key).filter (fun k => ((f t r).get k).isNone) =
        (rs.map key).filter fun k => (t.get k).isNone := by
      apply List.filter_congr
      intro k hk
      have hne : k ≠ key r := fun he => hrs.1 (he ▸ hk)
      rw [hget, if_neg hne]
    rw [List.foldl_cons, ih (f t r) hrs.2, hsame, hkeys, List.map_cons, List.append_assoc]
    rcases hr : t.get (key r) with _ | x
    · simp [hr]
    · simp [hr]

/-- With keys that repeat, the keys stand in the order in which they were first met. -/
theorem keys_foldl_eraseDups [BEq κ] [LawfulBEq κ] (hkeys : ∀ t r, (f t r).rows.map key =
      t.rows.map key ++ if (t.get (key r)).isSome then [] else [key r])
    (t : Table key) (rs : List ρ) :
    (rs.foldl f t).rows.map key = (t.rows.map key ++ rs.map key).eraseDups := by
  induction rs generalizing t with
  | nil => rw [List.foldl_nil, List.map_nil, List.append_nil, eraseDups_of_nodup t.nodup]
  | cons r rs ih =>
    rw [List.foldl_cons, ih, hkeys, List.map_cons]
    by_cases hr : key r ∈ t.rows.map key
    · rw [if_pos (isSome_get.mpr hr), List.append_nil, ← List.singleton_append,
        eraseDups_append_append_of_subset (by simpa using hr)]
    · rw [if_neg (isSome_get.not.mpr hr), List.append_assoc, List.singleton_append]

theorem get_foldl
    (hf : ∀ t r k, (f t r).get k = if k = key r then some (g (t.get k) r) else t.get k)
    (t : Table key) (rs : List ρ) (k : κ) :
    (rs.foldl f t).get k =
      (rs.filter fun r => key r = k).foldl (fun x r => some (g x r)) (t.get k) := by
  induction rs generalizing t with
  | nil => rfl
  | cons r rs ih =>
    rw [List.foldl_cons, ih, hf]
    by_cases hr : key r = k
    · rw [if_pos hr.symm, List.filter_cons_of_pos (by simpa using hr), List.foldl_cons]
    · rw [if_neg (Ne.symm hr), List.filter_cons_of_neg (by simpa using hr)]

theorem get_foldl_of_notMem
    (hf : ∀ t r k, (f t r).get k = if k = key r then some (g (t.get k) r) else t.get k)
    (t : Table key) {rs : List ρ} {k : κ} (hk : k ∉ rs.map key) :
    (rs.foldl f t).get k = t.get k := by
  induction rs generalizing t with
  | nil => rfl
  | cons r rs ih =>
    rw [List.map_cons, List.mem_cons, not_or] at hk
    rw [List.foldl_cons, ih (f t r) hk.2, hf, if_neg hk.1]

theorem get_foldl_of_mem
    (hf : ∀ t r k, (f t r).get k = if k = key r then some (g (t.get k) r) else t.get k)
    (t : Table key) {rs : List ρ} (hrs : (rs.map key).Nodup) {r : ρ} (hr : r ∈ rs) :
    (rs.foldl f t).get (key r) = some (g (t.get (key r)) r) := by
  induction rs generalizing t with
  | nil => cases hr
  | cons x rs ih =>
    rw [List.map_cons, List.nodup_cons] at hrs
    rcases List.mem_cons.mp hr with rfl | hr
    · rw [List.foldl_cons, get_foldl_of_notMem hf _ hrs.1, hf, if_pos rfl]
    · have hne : key r ≠ key x := fun he => hrs.1 (he ▸ List.mem_map_of_mem hr)
      rw [List.foldl_cons, ih (f t x) hrs.2 hr, hf, if_neg hne]

end Fold

theorem keys_putAll (t : Table key) {rs : List ρ} (hrs : (rs.map key).Nodup) :
    (t.putAll rs).rows.map key =
      t.rows.map key ++ (rs.map key).filter fun k => (t.get k).isNone :=
  keys_foldl (g := fun _ r => r) keys_put get_put t hrs

theorem get_putAll_of_notMem (t : Table key) {rs : List ρ} {k : κ} (hk : k ∉ rs.map key) :
    (t.putAll rs).get k = t.get k :=
  get_foldl_of_notMem (g := fun _ r => r) get_put t hk

theorem rows_putAll_of_new (t : Table key) {rs : List ρ} (hrs : (rs.map key).Nodup)
    (hnew : ∀ r ∈ rs, t.get (key r) = none) : (t.putAll rs).rows = t.rows ++ rs := by
  induction rs generalizing t with
  | nil => simp [putAll]
  | cons r rs ih =>
    rw [List.map_cons, List.nodup_cons] at hrs
    have hnew' : ∀ x ∈ rs, (t.put r).get (key x) = none := by
      intro x hx
      have hne : key x ≠ key r := fun he => hrs.1 (he ▸ List.mem_map_of_mem hx)
      rw [get_put, if_neg hne]
      exact hnew x (List.mem_cons_of_mem _ hx)
    change ((t.put r).putAll rs).rows = _
    rw [ih (t.put r) hrs.2 hnew', rows_put_of_get_none (hnew r (List.mem_cons_self ..)),
      List.append_assoc, List.singleton_append]

end PutAll

end Table

end DeerFlow
