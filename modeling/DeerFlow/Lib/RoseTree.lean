import Mathlib

/-! Finitely branching trees: the node at a path, the locations of a tree in
breadth-first order, relabelling, and replacing nodes one after another while
the replaced ones and what is below them drop out of the tree. -/

namespace DeerFlow

inductive RoseTree (α : Type*) where
  | node (label : α) (children : List (RoseTree α))

/-- The child numbers that lead from the root to a node. -/
abbrev NodePath := List Nat

namespace RoseTree
variable {α : Type*}

abbrev leaf (a : α) : RoseTree α := node a []

def label : RoseTree α → α
  | node a _ => a

def children : RoseTree α → List (RoseTree α)
  | node _ cs => cs

theorem induct {motive : RoseTree α → Prop}
    (node : ∀ a cs, (∀ c ∈ cs, motive c) → motive (node a cs)) : ∀ t, motive t
  | .node a cs => node a cs fun c _ => induct node c

def get? : RoseTree α → NodePath → Option (RoseTree α)
  | t, [] => some t
  | t, i :: p => t.children[i]?.bind fun c => get? c p

def modifyAt (f : RoseTree α → RoseTree α) : NodePath → RoseTree α → RoseTree α
  | [], t => f t
  | i :: p, t => node t.label (t.children.modify i (modifyAt f p))

mutual

def height : RoseTree α → Nat
  | node _ cs => forestHeight cs + 1

def forestHeight : List (RoseTree α) → Nat
  | [] => 0
  | c :: cs => max (height c) (forestHeight cs)

end

mutual

def map (g : α → α) : RoseTree α → RoseTree α
  | node a cs => node (g a) (mapForest g cs)

def mapForest (g : α → α) : List (RoseTree α) → List (RoseTree α)
  | [] => []
  | c :: cs => map g c :: mapForest g cs

end

@[simp] theorem get?_nil (t : RoseTree α) : t.get? [] = some t := by rw [get?]

theorem get?_cons (t : RoseTree α) (i : Nat) (p : NodePath) :
    t.get? (i :: p) = t.children[i]?.bind fun c => c.get? p := by rw [get?]

theorem get?_append (t : RoseTree α) (p q : NodePath) :
    t.get? (p ++ q) = (t.get? p).bind fun c => c.get? q := by
  induction p generalizing t with
  | nil => simp
  | cons i p ih =>
    rw [List.cons_append, get?_cons, get?_cons, Option.bind_assoc]
    simp only [ih]

theorem height_le_forestHeight {c : RoseTree α} {cs : List (RoseTree α)} (h : c ∈ cs) :
    c.height ≤ forestHeight cs := by
  induction cs with
  | nil => cases h
  | cons d cs ih =>
    rw [forestHeight]
    rcases List.mem_cons.mp h with rfl | h
    · exact le_max_left _ _
    · exact (ih h).trans (le_max_right _ _)

theorem length_lt_height {t n : RoseTree α} {p : NodePath} (h : t.get? p = some n) :
    p.length < t.height := by
  induction p generalizing t with
  | nil =>
    cases t
    simp [height]
  | cons i p ih =>
    obtain ⟨a, cs⟩ := t
    rw [get?_cons] at h
    obtain ⟨c, hc, h⟩ := Option.bind_eq_some_iff.mp h
    have hle := height_le_forestHeight (List.mem_of_getElem? hc)
    have hlt := ih h
    rw [height, List.length_cons]
    exact Nat.succ_lt_succ (hlt.trans_le hle)

theorem mapForest_eq_map (g : α → α) (cs : List (RoseTree α)) : mapForest g cs = cs.map (map g) := by
  induction cs with
  | nil => rfl
  | cons c cs ih => rw [mapForest, ih, List.map_cons]

theorem children_map (g : α → α) (t : RoseTree α) :
    (t.map g).children = t.children.map (map g) := by
  obtain ⟨a, cs⟩ := t
  rw [map, children, children, mapForest_eq_map]

@[simp] theorem label_map (g : α → α) (t : RoseTree α) : (t.map g).label = g t.label := by
  obtain ⟨a, cs⟩ := t
  rw [map, label, label]

theorem get?_map (g : α → α) (t : RoseTree α) (p : NodePath) :
    (t.map g).get? p = (t.get? p).map (map g) := by
  induction p generalizing t with
  | nil => simp
  | cons i p ih =>
    rw [get?_cons, get?_cons, children_map, List.getElem?_map]
    rcases t.children[i]? with _ | c
    · rfl
    · simpa using ih c

/-- A node of a tree together with its parents, the nearest first; each parent comes with the
number of the child that is on the way. -/
structure Loc (α : Type*) where
  above : List (RoseTree α × Nat)
  focus : RoseTree α

namespace Loc
variable {l l' : Loc α}

def path (l : Loc α) : NodePath := (l.above.map Prod.snd).reverse

def down (l : Loc α) : List (Loc α) :=
  l.focus.children.zipIdx.map fun c => ⟨(l.focus, c.2) :: l.above, c.1⟩

def level : Nat → Loc α → List (Loc α)
  | 0, l => [l]
  | d + 1, l => l.down.flatMap (level d)

def follow : Loc α → NodePath → Option (Loc α)
  | l, [] => some l
  | l, i :: p => l.down[i]?.bind fun c => follow c p

theorem getElem?_down (l : Loc α) (i : Nat) :
    l.down[i]? = l.focus.children[i]?.map fun c => ⟨(l.focus, i) :: l.above, c⟩ := by
  rw [down, List.getElem?_map, List.getElem?_zipIdx, Option.map_map]
  simp [Function.comp_def]

theorem follow_spec {p : NodePath} (h : l.follow p = some l') :
    l'.path = l.path ++ p ∧ l.focus.get? p = some l'.focus := by
  induction p generalizing l with
  | nil =>
    cases h
    simp
  | cons i p ih =>
    obtain ⟨m, hm, h⟩ := Option.bind_eq_some_iff.mp h
    rw [getElem?_down] at hm
    obtain ⟨c, hc, rfl⟩ := Option.map_eq_some_iff.mp hm
    obtain ⟨hpath, hget⟩ := ih h
    refine ⟨by rw [hpath]; simp [path], ?_⟩
    rw [get?_cons, hc]
    exact hget

theorem exists_follow {p : NodePath} {n : RoseTree α} (h : l.focus.get? p = some n) :
    ∃ l', l.follow p = some l' ∧ l'.focus = n := by
  induction p generalizing l with
  | nil => exact ⟨l, rfl, Option.some.inj (by simpa using h)⟩
  | cons i p ih =>
    rw [get?_cons] at h
    obtain ⟨c, hc, h⟩ := Option.bind_eq_some_iff.mp h
    obtain ⟨l', hl', hn⟩ := ih (l := ⟨(l.focus, i) :: l.above, c⟩) h
    refine ⟨l', ?_, hn⟩
    rw [follow, getElem?_down, hc]
    exact hl'

theorem mem_level {d : Nat} : l' ∈ l.level d ↔ ∃ p : NodePath, p.length = d ∧ l.follow p = some l' := by
  induction d generalizing l with
  | zero =>
    constructor
    · intro h
      exact ⟨[], rfl, by rw [List.mem_singleton.mp h, follow]⟩
    · rintro ⟨p, hp, h⟩
      obtain rfl := List.length_eq_zero_iff.mp hp
      exact List.mem_singleton.mpr (Option.some.inj h).symm
  | succ d ih =>
    rw [level, List.mem_flatMap]
    constructor
    · rintro ⟨m, hm, h⟩
      obtain ⟨i, hi⟩ := List.mem_iff_getElem?.mp hm
      obtain ⟨p, hp, h⟩ := ih.mp h
      exact ⟨i :: p, by simp [hp], by rw [follow, hi]; exact h⟩
    · rintro ⟨p, hp, h⟩
      obtain ⟨i, p, rfl⟩ := List.exists_cons_of_length_eq_add_one hp
      obtain ⟨m, hm, h⟩ := Option.bind_eq_some_iff.mp h
      exact ⟨m, List.mem_of_getElem? hm, ih.mpr ⟨p, by simpa using hp, h⟩⟩

theorem path_ne_of_mem_level {d : Nat} : (l.level d).Pairwise fun a b => a.path ≠ b.path := by
  induction d generalizing l with
  | zero => exact List.pairwise_singleton _ _
  | succ d ih =>
    rw [level, List.pairwise_flatMap, down]
    refine ⟨fun m _ => ih, ?_⟩
    have hidx : (l.focus.children.zipIdx.map Prod.snd).Nodup := by
      rw [List.zipIdx_map_snd]
      exact List.nodup_range'
    refine (List.pairwise_map.mpr ((List.pairwise_map.mp hidx).imp ?_))
    intro x y hxy a ha b hb hab
    obtain ⟨p, -, ha⟩ := mem_level.1 ha
    obtain ⟨q, -, hb⟩ := mem_level.1 hb
    rw [(follow_spec ha).1, (follow_spec hb).1] at hab
    simp only [path, List.map_cons, List.reverse_cons, List.append_assoc, List.cons_append,
      List.nil_append, List.append_cancel_left_eq, List.cons.injEq] at hab
    exact hxy hab.1

end Loc

def root (t : RoseTree α) : Loc α := ⟨[], t⟩

/-- All locations, level by level and each level from left to right. -/
def walk (t : RoseTree α) : List (Loc α) := (List.range t.height).flatMap fun d => t.root.level d

section Walk
variable {t n : RoseTree α} {l : Loc α} {p : NodePath}

theorem mem_walk : l ∈ t.walk ↔ t.root.follow l.path = some l := by
  rw [walk, List.mem_flatMap]
  constructor
  · rintro ⟨d, -, h⟩
    obtain ⟨p, -, h⟩ := Loc.mem_level.1 h
    have hpath : l.path = p := (Loc.follow_spec h).1
    rwa [hpath]
  · intro h
    have hlt : l.path.length < t.height := length_lt_height (Loc.follow_spec h).2
    exact ⟨_, List.mem_range.mpr hlt, Loc.mem_level.2 ⟨_, rfl, h⟩⟩

theorem get?_of_mem_walk (h : l ∈ t.walk) : t.get? l.path = some l.focus :=
  (Loc.follow_spec (mem_walk.1 h)).2

theorem exists_mem_walk (h : t.get? p = some n) : ∃ l ∈ t.walk, l.path = p ∧ l.focus = n := by
  obtain ⟨l, hl, hn⟩ := Loc.exists_follow (l := t.root) h
  have hpath : l.path = p := (Loc.follow_spec hl).1
  exact ⟨l, mem_walk.2 (hpath ▸ hl), hpath, hn⟩

theorem forall_mem_walk {motive : RoseTree α → Prop} :
    (∀ l ∈ t.walk, motive l.focus) ↔ ∀ p n, t.get? p = some n → motive n := by
  refine ⟨fun h p n hn => ?_, fun h l hl => h l.path l.focus (get?_of_mem_walk hl)⟩
  obtain ⟨l, hl, -, rfl⟩ := exists_mem_walk hn
  exact h l hl

theorem length_path_of_mem_level {d : Nat} (h : l ∈ t.root.level d) : l.path.length = d := by
  obtain ⟨p, hp, h⟩ := Loc.mem_level.1 h
  rw [(Loc.follow_spec h).1]
  exact hp

/-- A parent is visited before its children. -/
theorem pairwise_walk (t : RoseTree α) : t.walk.Pairwise fun a b => ¬ b.path <+: a.path := by
  rw [walk, List.pairwise_flatMap]
  refine ⟨fun d _ => ?_, List.pairwise_lt_range.imp ?_⟩
  · refine Loc.path_ne_of_mem_level.imp_of_mem fun ha hb hne hpre => ?_
    have hlen := (length_path_of_mem_level hb).trans (length_path_of_mem_level ha).symm
    exact hne (hpre.eq_of_length hlen).symm
  · intro d e hde a ha b hb hpre
    have hlen := hpre.length_le
    rw [length_path_of_mem_level ha, length_path_of_mem_level hb] at hlen
    omega

end Walk

/-- What is put in the place of the node at a path, if anything. -/
abbrev Rewriting (α : Type*) := NodePath → Option (RoseTree α → RoseTree α)

mutual

/-- Top down: a node that is replaced is replaced as a whole, and nothing below it is. -/
def rewrite (σ : Rewriting α) : NodePath → RoseTree α → RoseTree α
  | p, node a cs => match σ p with
    | some f => f (node a cs)
    | none => node a (rewriteForest σ p 0 cs)

def rewriteForest (σ : Rewriting α) : NodePath → Nat → List (RoseTree α) → List (RoseTree α)
  | _, _, [] => []
  | p, i, c :: cs => rewrite σ (p ++ [i]) c :: rewriteForest σ p (i + 1) cs

end

section Rewrite
variable {σ τ : Rewriting α} {p q r : NodePath} {t n : RoseTree α} {f : RoseTree α → RoseTree α}

theorem getElem?_rewriteForest (cs : List (RoseTree α)) (k i : Nat) :
    (rewriteForest σ p k cs)[i]? = cs[i]?.map (rewrite σ (p ++ [k + i])) := by
  induction cs generalizing k i with
  | nil => simp [rewriteForest]
  | cons c cs ih =>
    rw [rewriteForest]
    cases i with
    | zero => simp
    | succ i =>
      rw [List.getElem?_cons_succ, List.getElem?_cons_succ, ih]
      congr 4
      omega

theorem rewrite_some (h : σ p = some f) (t : RoseTree α) : rewrite σ p t = f t := by
  obtain ⟨a, cs⟩ := t
  rw [rewrite, h]

theorem rewrite_none (h : σ p = none) (t : RoseTree α) :
    rewrite σ p t = node t.label (rewriteForest σ p 0 t.children) := by
  obtain ⟨a, cs⟩ := t
  rw [rewrite, h, label, children]

theorem rewriteForest_ext {cs ds : List (RoseTree α)}
    (h : ∀ i, cs[i]?.map (rewrite σ (p ++ [i])) = ds[i]?) : rewriteForest σ p 0 cs = ds := by
  refine List.ext_getElem? fun i => ?_
  rw [getElem?_rewriteForest, Nat.zero_add, h]

theorem rewrite_congr (h : ∀ q, p <+: q → σ q = τ q) : rewrite σ p t = rewrite τ p t := by
  induction t using induct generalizing p with
  | node a cs ih =>
    rcases hp : σ p with _ | f
    · rw [rewrite_none hp, rewrite_none ((h p List.prefix_rfl).symm.trans hp)]
      congr 1
      refine rewriteForest_ext fun i => ?_
      rw [getElem?_rewriteForest, Nat.zero_add]
      refine Option.map_congr fun c hc => ih c (List.mem_of_getElem? hc) fun q hq => ?_
      exact h q ((List.prefix_append p [i]).trans hq)
    · rw [rewrite_some hp, rewrite_some ((h p List.prefix_rfl).symm.trans hp)]

theorem rewrite_eq_self (h : ∀ q, p <+: q → σ q = none) : rewrite σ p t = t := by
  induction t using induct generalizing p with
  | node a cs ih =>
    rw [rewrite_none (h p List.prefix_rfl)]
    congr 1
    refine rewriteForest_ext fun i => ?_
    rcases hc : (node a cs).children[i]? with _ | c
    · exact hc.symm
    · rw [Option.map_some, ih c (List.mem_of_getElem? hc)]
      · exact hc.symm
      · exact fun q hq => h q ((List.prefix_append p [i]).trans hq)

theorem get?_rewrite (h : ∀ q, q <+: r → q ≠ r → σ (p ++ q) = none) :
    (rewrite σ p t).get? r = (t.get? r).map (rewrite σ (p ++ r)) := by
  induction r generalizing p t with
  | nil => simp
  | cons i r ih =>
    have hp : σ p = none := by simpa using h [] (List.nil_prefix) (by simp)
    rw [rewrite_none hp, get?_cons, get?_cons, children, getElem?_rewriteForest, Nat.zero_add]
    rcases t.children[i]? with _ | c
    · rfl
    · have hih : (rewrite σ (p ++ [i]) c).get? r =
          (c.get? r).map (rewrite σ (p ++ [i] ++ r)) := by
        refine ih fun q hq hne => ?_
        rw [List.append_assoc]
        exact h (i :: q) (List.prefix_cons_inj i |>.mpr hq) (by simpa using hne)
      simpa using hih

/-- If something on the way to `r` is replaced, there is a first such node. -/
theorem exists_first_replaced (h : (σ q).isSome) (hq : q <+: r) :
    ∃ q, q <+: r ∧ (σ q).isSome ∧ ∀ q', q' <+: q → q' ≠ q → σ q' = none := by
  induction hn : q.length using Nat.strong_induction_on generalizing q with
  | _ n ih =>
    by_cases hfirst : ∀ q', q' <+: q → q' ≠ q → σ q' = none
    · exact ⟨q, hq, h, hfirst⟩
    · push Not at hfirst
      obtain ⟨q', hpre, hne, hsome⟩ := hfirst
      have hlt : q'.length < n :=
        hn ▸ lt_of_le_of_ne hpre.length_le fun he => hne (hpre.eq_of_length he)
      exact ih _ hlt (Option.isSome_iff_ne_none.mpr hsome) (hpre.trans hq) rfl

/-- A replacement that meets no other, above or below, may be made afterwards. -/
theorem modifyAt_rewrite (h : ∀ q, q <+: p ++ r ∨ p ++ r <+: q → σ q = none) :
    modifyAt f r (rewrite σ p t) = rewrite (Function.update σ (p ++ r) (some f)) p t := by
  induction r generalizing p t with
  | nil =>
    rw [List.append_nil] at h ⊢
    rw [rewrite_eq_self fun q hq => h q (.inr hq), rewrite_some (Function.update_self ..),
      modifyAt]
  | cons i r ih =>
    have hp : σ p = none := h p (.inl (List.prefix_append ..))
    have hp' : Function.update σ (p ++ i :: r) (some f) p = none := by
      rw [Function.update_of_ne (by simp), hp]
    rw [rewrite_none hp, rewrite_none hp', modifyAt, label, children]
    congr 1
    refine (rewriteForest_ext fun j => ?_).symm
    rw [List.getElem?_modify, getElem?_rewriteForest, Nat.zero_add, Option.map_eq_map,
      Option.map_map]
    refine Option.map_congr fun c _ => ?_
    by_cases hij : i = j
    · subst hij
      rw [Function.comp_apply, if_pos rfl, ih (by simpa using h), List.append_assoc,
        List.singleton_append]
    · rw [Function.comp_apply, if_neg hij]
      refine (rewrite_congr fun q hq => ?_).symm
      refine (Function.update_of_ne ?_ _ _).symm
      rintro rfl
      simp [List.prefix_append_right_inj, Ne.symm hij] at hq

theorem rewrite_update_below (h : (σ q).isSome) (hq : q <+: r) (hne : q ≠ r) (hp : p <+: q) :
    rewrite (Function.update σ r (some f)) p t = rewrite σ p t := by
  induction t using induct generalizing p with
  | node a cs ih =>
    have hpr : p ≠ r := by
      rintro rfl
      exact hne (hq.eq_of_length (le_antisymm hq.length_le hp.length_le))
    rcases hσ : σ p with _ | g
    · rw [rewrite_none hσ, rewrite_none (by rw [Function.update_of_ne hpr, hσ])]
      congr 1
      refine rewriteForest_ext fun i => ?_
      rw [getElem?_rewriteForest, Nat.zero_add]
      refine Option.map_congr fun c hc => ?_
      by_cases hpi : p ++ [i] <+: q
      · exact ih c (List.mem_of_getElem? hc) hpi
      · refine rewrite_congr fun s hs => Function.update_of_ne ?_ _ _
        rintro rfl
        -- `q` lies between `p` and `s`, and is not `p`
        obtain ⟨u, rfl⟩ := hp
        obtain ⟨v, rfl⟩ := hs
        cases u with
        | nil => simp [hσ] at h
        | cons j u =>
          simp only [List.append_assoc, List.prefix_append_right_inj, List.cons_append,
            List.nil_append, List.cons_prefix_cons, List.nil_prefix, and_true] at hq hpi
          exact hpi hq.1.symm
    · rw [rewrite_some hσ, rewrite_some (by rw [Function.update_of_ne hpr, hσ])]

/-- The tree and the paths of the nodes replaced so far. A node drops out of the tree with any node
above it, and what is done to it then leaves the tree alone. -/
def replaceNode (f : RoseTree α → RoseTree α) (p : NodePath)
    (s : RoseTree α × List NodePath) : RoseTree α × List NodePath :=
  (if s.2.any (·.isPrefixOf p) then s.1 else modifyAt f p s.1, p :: s.2)

theorem replaceNode_rewrite {seen : List NodePath} (hseen : ∀ q, q ∈ seen ↔ (σ q).isSome)
    (hafter : ∀ q ∈ seen, ¬ p <+: q) :
    replaceNode f p (rewrite σ [] t, seen) =
      (rewrite (Function.update σ p (some f)) [] t, p :: seen) := by
  unfold replaceNode
  congr 1
  split_ifs with h
  · simp only [List.any_eq_true, List.isPrefixOf_iff_prefix] at h
    obtain ⟨q, hq, hpre⟩ := h
    have hne : q ≠ p := by
      rintro rfl
      exact hafter q hq List.prefix_rfl
    exact (rewrite_update_below ((hseen q).mp hq) hpre hne List.nil_prefix).symm
  · simp only [List.any_eq_true, List.isPrefixOf_iff_prefix, not_exists, not_and] at h
    refine modifyAt_rewrite fun q hq => ?_
    by_contra hne
    have hmem := (hseen q).mpr (Option.isSome_iff_ne_none.mpr hne)
    exact hq.elim (h q hmem) (hafter q hmem)

end Rewrite

end RoseTree

end DeerFlow
