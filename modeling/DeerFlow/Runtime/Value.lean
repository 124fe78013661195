import DeerFlow.Lib.KeyedTable

/-! Python values as they arrive from JSON, and dictionaries over them. A
dictionary is its list of items in insertion order; assignment keeps the place
of a key that is already there. Floats are the finite ones. -/

namespace DeerFlow

abbrev Dict (β : Type*) := List (String × β)

namespace Dict
variable {β : Type*}

def get (d : Dict β) (k : String) : Option β := (d.find? fun p => p.1 = k).map Prod.snd

def contains (d : Dict β) (k : String) : Bool := (d.get k).isSome

def set (d : Dict β) (k : String) (v : β) : Dict β := upsert Prod.fst (k, v) d

def setdefault (d : Dict β) (k : String) (v : β) : Dict β :=
  if d.contains k then d else d.set k v

def pop (d : Dict β) (k : String) : Dict β := d.filter fun p => p.1 ≠ k

def keys (d : Dict β) : List String := d.map Prod.fst

/-- `d.update(e)`: for each key `k` of `e`, `d[k] = e[k]`. -/
def update (d e : Dict β) : Dict β :=
  e.keys.foldl (fun d k => match e.get k with | some v => d.set k v | none => d) d

def values (d : Dict β) : List β := d.map Prod.snd

@[simp] theorem get_nil (k : String) : get ([] : Dict β) k = none := rfl

theorem get_set (d : Dict β) (k k' : String) (v : β) :
    (d.set k v).get k' = if k' = k then some v else d.get k' := by
  unfold get set
  rw [find?_upsert Prod.fst (k, v) d k']
  split_ifs <;> rfl

@[simp] theorem get_set_self (d : Dict β) (k : String) (v : β) : (d.set k v).get k = some v := by
  rw [get_set, if_pos rfl]

theorem get_set_ne {d : Dict β} {k k' : String} {v : β} (h : k' ≠ k) :
    (d.set k v).get k' = d.get k' := by rw [get_set, if_neg h]

theorem get_setdefault_ne {d : Dict β} {k k' : String} {v : β} (h : k' ≠ k) :
    (d.setdefault k v).get k' = d.get k' := by
  unfold setdefault
  split_ifs
  · rfl
  · exact get_set_ne h

theorem get_setdefault (d : Dict β) (k k' : String) (v : β) :
    (d.setdefault k v).get k' = if k' = k then some ((d.get k).getD v) else d.get k' := by
  by_cases h : k' = k
  · subst h
    unfold setdefault contains
    rcases hd : d.get k' with _ | w
    · simp
    · simp [hd]
  · rw [get_setdefault_ne h, if_neg h]

theorem get_cons (d : Dict β) (p : String × β) (k : String) :
    get (p :: d) k = if p.1 = k then some p.2 else d.get k := by
  unfold get
  by_cases h : p.1 = k
  · simp [h]
  · simp [h]

theorem get_pop_ne {d : Dict β} {k k' : String} (h : k' ≠ k) : (d.pop k).get k' = d.get k' := by
  induction d with
  | nil => rfl
  | cons p d ih =>
    unfold pop at ih ⊢
    by_cases hp : p.1 = k
    · have hpk : p.1 ≠ k' := fun he => h (he.symm.trans hp)
      rw [List.filter_cons_of_neg (by simpa using hp), ih, get_cons, if_neg hpk]
    · rw [List.filter_cons_of_pos (by simpa using hp), get_cons, get_cons, ih]

theorem get_filter (d : Dict β) (p : String → Bool) (k : String) :
    get (d.filter fun x => p x.1) k = if p k then d.get k else none := by
  induction d with
  | nil => simp
  | cons x d ih =>
    by_cases hx : p x.1
    · rw [List.filter_cons_of_pos (by simpa using hx), get_cons, get_cons, ih]
      by_cases hk : x.1 = k
      · simp [hk, hk ▸ hx]
      · simp [hk]
    · rw [List.filter_cons_of_neg (by simpa using hx), ih, get_cons]
      by_cases hk : x.1 = k
      · simp [hk ▸ hx]
      · simp [hk]

theorem mem_keys {d : Dict β} {k : String} : k ∈ d.keys ↔ (d.get k).isSome := by
  induction d with
  | nil => simp [keys]
  | cons p d ih =>
    rw [keys, List.map_cons, List.mem_cons, get_cons]
    by_cases h : p.1 = k
    · simp [h]
    · rw [if_neg h, ← ih]
      exact ⟨fun hk => hk.resolve_left (Ne.symm h), .inr⟩

theorem get_of_mem {d : Dict β} (hd : d.keys.Nodup) {x : String × β} (hx : x ∈ d) :
    d.get x.1 = some x.2 := by
  induction d with
  | nil => cases hx
  | cons p d ih =>
    rw [keys, List.map_cons, List.nodup_cons] at hd
    rw [get_cons]
    rcases List.mem_cons.mp hx with rfl | hx
    · rw [if_pos rfl]
    · have hne : p.1 ≠ x.1 := fun he => hd.1 (he ▸ List.mem_map_of_mem hx)
      rw [if_neg hne, ih hd.2 hx]

theorem mem_of_get {d : Dict β} {k : String} {v : β} (h : d.get k = some v) : (k, v) ∈ d := by
  obtain ⟨x, hx, rfl⟩ := Option.map_eq_some_iff.mp h
  have hk : x.1 = k := by simpa using List.find?_some hx
  rw [← hk]
  exact List.mem_of_find?_eq_some hx

theorem filterMap_get {d : Dict β} (hd : d.keys.Nodup) {xs : Dict β} (hxs : ∀ x ∈ xs, x ∈ d) :
    xs.keys.filterMap d.get = xs.values := by
  unfold keys values
  rw [List.filterMap_map, ← List.filterMap_eq_map]
  refine List.filterMap_congr fun x hx => ?_
  exact get_of_mem hd (hxs x hx)

theorem set_of_get_none {d : Dict β} {k : String} (h : d.get k = none) (v : β) :
    d.set k v = d ++ [(k, v)] := by
  unfold set
  rw [upsert_of_find?_none Prod.fst]
  simpa [get] using h

/-- A key that is there keeps its place, and a view of the items that sees no difference
between the old value and the new one stays the same. -/
theorem map_set_of_get {α : Type*} {d : Dict β} {k : String} {v w : β} {f : String × β → α}
    (h : d.get k = some v) (hf : f (k, w) = f (k, v)) : (d.set k w).map f = d.map f := by
  induction d with
  | nil => cases h
  | cons p d ih =>
    rw [get_cons] at h
    unfold set upsert
    split_ifs at h with hp
    · have hpv : p = (k, v) := Prod.ext hp (Option.some.inj h)
      rw [if_pos hp, hpv, List.map_cons, List.map_cons, hf]
    · rw [if_neg hp, List.map_cons, List.map_cons]
      exact congrArg (f p :: ·) (ih h)

theorem keys_set_of_get {d : Dict β} {k : String} {v w : β} (h : d.get k = some v) :
    (d.set k w).keys = d.keys := map_set_of_get h rfl

theorem nodup_keys_set {d : Dict β} (hd : d.keys.Nodup) (k : String) (v : β) :
    (d.set k v).keys.Nodup := nodup_upsert Prod.fst hd

/-- `d.setdefault(k, []).append(x)`. -/
def append (d : Dict (List β)) (k : String) (x : β) : Dict (List β) :=
  d.set k ((d.get k).getD [] ++ [x])

/-- The values of each key, in order. -/
def gather (xs : List (String × β)) : Dict (List β) := xs.foldl (fun d x => d.append x.1 x.2) []

theorem gather_concat (xs : List (String × β)) (x : String × β) :
    gather (xs ++ [x]) = (gather xs).append x.1 x.2 :=
  List.foldl_concat _ _ _ _

/-- The values that stand under `k` in a list of pairs. -/
def valuesOf (xs : List (String × β)) (k : String) : List β :=
  xs.filterMap fun x => if x.1 = k then some x.2 else none

theorem valuesOf_concat (xs : List (String × β)) (x : String × β) (k : String) :
    valuesOf (xs ++ [x]) k = valuesOf xs k ++ if x.1 = k then [x.2] else [] := by
  unfold valuesOf
  rw [List.filterMap_append]
  by_cases h : x.1 = k
  · simp [h]
  · simp [h]

theorem get_gather (xs : List (String × β)) (k : String) :
    (gather xs).get k = if valuesOf xs k = [] then none else some (valuesOf xs k) := by
  induction xs using List.reverseRecOn with
  | nil => rfl
  | append_singleton xs x ih =>
    rw [gather_concat, append, get_set, valuesOf_concat]
    by_cases hk : k = x.1
    · subst hk
      rw [if_pos rfl, if_pos rfl, if_neg (List.append_ne_nil_of_right_ne_nil _ (List.cons_ne_nil _ _)),
        ih]
      split_ifs with hnil
      · rw [hnil, Option.getD_none]
      · rw [Option.getD_some]
    · have hne : x.1 ≠ k := fun he => hk he.symm
      rw [if_neg hk, if_neg hne, List.append_nil, ih]

theorem nodup_keys_gather (xs : List (String × β)) : (gather xs).keys.Nodup := by
  induction xs using List.reverseRecOn with
  | nil => exact List.nodup_nil
  | append_singleton xs x ih =>
    rw [gather_concat]
    exact nodup_keys_set ih _ _

theorem get_update (d e : Dict β) (k : String) :
    (d.update e).get k = (e.get k).or (d.get k) := by
  have hfold : ∀ (ks : List String) (d : Dict β),
      get (ks.foldl (fun d k => match e.get k with | some v => d.set k v | none => d) d) k =
        if k ∈ ks then (e.get k).or (d.get k) else d.get k := by
    intro ks
    induction ks with
    | nil => simp
    | cons j ks ih =>
      intro d
      rw [List.foldl_cons, ih]
      by_cases hj : k = j
      · subst hj
        rcases he : e.get k with _ | v
        · simp
        · simp
      · have hstep : get (match e.get j with | some v => d.set j v | none => d) k = d.get k := by
          rcases e.get j with _ | v
          · rfl
          · exact get_set_ne hj
        simp [hstep, hj]
  unfold update
  rw [hfold]
  split_ifs with hk
  · rfl
  · rw [mem_keys, Bool.not_eq_true, Option.isSome_eq_false_iff, Option.isNone_iff_eq_none] at hk
    rw [hk, Option.none_or]

section Total

/-- The sum of what the values of a dictionary measure. -/
def total (f : β → Nat) (d : Dict β) : Nat := (d.values.map f).sum

theorem total_cons (f : β → Nat) (x : String × β) (d : Dict β) :
    total f (x :: d) = f x.2 + d.total f := by
  simp [total, values]

/-- An assignment replaces what the key measured before. -/
theorem total_set (f : β → Nat) (d : Dict β) (k : String) (v : β) :
    (d.set k v).total f + ((d.get k).map f).getD 0 = d.total f + f v := by
  induction d with
  | nil => simp [set, upsert, total, values]
  | cons x d ih =>
    have hset : Dict.set (x :: d) k v =
        if x.1 = k then (k, v) :: d else x :: Dict.set d k v := rfl
    rw [get_cons, hset]
    by_cases hx : x.1 = k
    · rw [if_pos hx, if_pos hx, total_cons, total_cons, Option.map_some, Option.getD_some]
      dsimp only
      omega
    · rw [if_neg hx, if_neg hx, total_cons, total_cons]
      omega

theorem le_total_of_get {f : β → Nat} {d : Dict β} {k : String} {v : β} (h : d.get k = some v) :
    f v ≤ d.total f := by
  induction d with
  | nil => cases h
  | cons x d ih =>
    rw [get_cons] at h
    rw [total_cons]
    split_ifs at h
    · rw [Option.some.inj h]
      omega
    · have hrest := ih h
      omega

end Total

end Dict

inductive Value where
  | none
  | bool (b : Bool)
  | int (n : Int)
  | float (q : Rat)
  | str (s : String)
  | list (xs : List Value)
  | dict (items : List (String × Value))
  deriving Inhabited

namespace Value

section
variable {x y : Value} {xs ys : List Value} {k l : String} {d e : List (String × Value)}

private def decEqCons (h : Decidable (x = y)) (hs : Decidable (xs = ys)) :
    Decidable (x :: xs = y :: ys) :=
  decidable_of_iff (x = y ∧ xs = ys) (by simp)

private def decEqItem (h : Decidable (x = y)) (hs : Decidable (d = e)) :
    Decidable ((k, x) :: d = (l, y) :: e) :=
  decidable_of_iff (k = l ∧ x = y ∧ d = e) (by simp [and_assoc])

end

mutual

def decEq : (v w : Value) → Decidable (v = w)
  | .none, w => match w with
    | .none => isTrue rfl
    | .bool _ | .int _ | .float _ | .str _ | .list _ | .dict _ => isFalse nofun
  | .bool b, w => match w with
    | .bool c => decidable_of_iff (b = c) (by simp)
    | .none | .int _ | .float _ | .str _ | .list _ | .dict _ => isFalse nofun
  | .int n, w => match w with
    | .int m => decidable_of_iff (n = m) (by simp)
    | .none | .bool _ | .float _ | .str _ | .list _ | .dict _ => isFalse nofun
  | .float q, w => match w with
    | .float r => decidable_of_iff (q = r) (by simp)
    | .none | .bool _ | .int _ | .str _ | .list _ | .dict _ => isFalse nofun
  | .str s, w => match w with
    | .str t => decidable_of_iff (s = t) (by simp)
    | .none | .bool _ | .int _ | .float _ | .list _ | .dict _ => isFalse nofun
  | .list xs, w => match w with
    | .list ys => @decidable_of_iff _ (xs = ys) (by simp) (decEqList xs ys)
    | .none | .bool _ | .int _ | .float _ | .str _ | .dict _ => isFalse nofun
  | .dict xs, w => match w with
    | .dict ys => @decidable_of_iff _ (xs = ys) (by simp) (decEqItems xs ys)
    | .none | .bool _ | .int _ | .float _ | .str _ | .list _ => isFalse nofun

def decEqList : (xs ys : List Value) → Decidable (xs = ys)
  | [], [] => isTrue rfl
  | [], _ :: _ => isFalse nofun
  | _ :: _, [] => isFalse nofun
  | x :: xs, y :: ys => decEqCons (decEq x y) (decEqList xs ys)

def decEqItems : (xs ys : List (String × Value)) → Decidable (xs = ys)
  | [], [] => isTrue rfl
  | [], _ :: _ => isFalse nofun
  | _ :: _, [] => isFalse nofun
  | (_, x) :: xs, (_, y) :: ys => decEqItem (decEq x y) (decEqItems xs ys)

end

instance : DecidableEq Value := decEq

/-- The number a value stands for in a comparison; `True` is `1`. -/
def number? : Value → Option Rat
  | .bool b => some (if b then 1 else 0)
  | .int n => some n
  | .float q => some q
  | _ => Option.none

mutual

/-- Python's `==`: numbers by value, lists in order, dictionaries by their items in any order. -/
def eq : Value → Value → Bool
  | .none, .none => true
  | .str s, .str t => s = t
  | .list xs, .list ys => eqList xs ys
  | .dict xs, .dict ys => xs.length = ys.length && eqItems xs ys
  | .bool b, w => w.number? = some (if b then 1 else 0)
  | .int n, w => w.number? = some (n : Rat)
  | .float q, w => w.number? = some q
  | _, _ => false

def eqList : List Value → List Value → Bool
  | [], [] => true
  | x :: xs, y :: ys => eq x y && eqList xs ys
  | _, _ => false

def eqItems : List (String × Value) → List (String × Value) → Bool
  | [], _ => true
  | (k, v) :: xs, ys => (match Dict.get ys k with
    | some w => eq v w
    | Option.none => false) && eqItems xs ys

end

/-- `bool(v)`. -/
def truthy : Value → Bool
  | .none => false
  | .bool b => b
  | .int n => n ≠ 0
  | .float q => q ≠ 0
  | .str s => s ≠ ""
  | .list xs => !xs.isEmpty
  | .dict xs => !xs.isEmpty

end Value

end DeerFlow
