import DeerFlow.Lib.RoseTree

/-! The labels of a tree, a node before its children and these from left to right. What is read
off the labels does not change when nodes are replaced by trees with the same reading. -/

namespace DeerFlow.RoseTree
variable {α β : Type*}

mutual

def labels : RoseTree α → List α
  | node a cs => a :: labelsForest cs

def labelsForest : List (RoseTree α) → List α
  | [] => []
  | c :: cs => labels c ++ labelsForest cs

end

section Labels
variable {t : RoseTree α} {g : α → Option β} {a : α} {σ : Rewriting α} {p : NodePath}

theorem labelsForest_eq (cs : List (RoseTree α)) : labelsForest cs = cs.flatMap labels := by
  induction cs with
  | nil => rfl
  | cons c cs ih => rw [labelsForest, ih, List.flatMap_cons]

theorem labels_node (a : α) (cs : List (RoseTree α)) :
    labels (node a cs) = a :: cs.flatMap labels := by
  rw [labels, labelsForest_eq]

theorem labels_eq (t : RoseTree α) : t.labels = t.label :: t.children.flatMap labels := by
  obtain ⟨a, cs⟩ := t
  exact labels_node a cs

theorem labels_map (f : α → α) (t : RoseTree α) : (t.map f).labels = t.labels.map f := by
  induction t using induct with
  | node a cs ih =>
    rw [labels_eq, label_map, children_map, labels_node, List.map_cons, List.map_flatMap,
      List.flatMap_map]
    exact congrArg _ (List.flatMap_congr ih)

theorem map_eq_self {f : α → α} (h : ∀ a ∈ t.labels, f a = a) : t.map f = t := by
  induction t using induct with
  | node a cs ih =>
    rw [labels_node] at h
    obtain ⟨ha, hcs⟩ := List.forall_mem_cons.mp h
    rw [map, mapForest_eq_map, ha]
    congr 1
    refine (List.map_congr_left fun c hc => ?_).trans (List.map_id cs)
    exact ih c hc fun b hb => hcs b (List.mem_flatMap.mpr ⟨c, hc, hb⟩)

theorem mem_labels : a ∈ t.labels ↔ ∃ l ∈ t.walk, l.focus.label = a := by
  have hpath : a ∈ t.labels ↔ ∃ p n, t.get? p = some n ∧ n.label = a := by
    induction t using induct with
    | node b cs ih =>
      rw [labels_node, List.mem_cons, List.mem_flatMap]
      constructor
      · rintro (rfl | ⟨c, hc, ha⟩)
        · exact ⟨[], _, get?_nil _, rfl⟩
        · obtain ⟨i, hi⟩ := List.mem_iff_getElem?.mp hc
          obtain ⟨p, n, hn, ha⟩ := (ih c hc).mp ha
          refine ⟨i :: p, n, ?_, ha⟩
          rw [get?_cons, children, hi]
          exact hn
      · rintro ⟨p, n, hn, ha⟩
        cases p with
        | nil =>
          obtain rfl := Option.some.inj (by simpa using hn)
          exact .inl ha.symm
        | cons i p =>
          rw [get?_cons] at hn
          obtain ⟨c, hc, hn⟩ := Option.bind_eq_some_iff.mp hn
          have hmem := List.mem_of_getElem? hc
          exact .inr ⟨c, hmem, (ih c hmem).mpr ⟨p, n, hn, ha⟩⟩
  rw [hpath]
  constructor
  · rintro ⟨p, n, hn, ha⟩
    obtain ⟨l, hl, -, rfl⟩ := exists_mem_walk hn
    exact ⟨l, hl, ha⟩
  · rintro ⟨l, hl, ha⟩
    exact ⟨l.path, l.focus, get?_of_mem_walk hl, ha⟩

theorem filterMap_labels_rewriteForest {cs : List (RoseTree α)} (k : Nat)
    (h : ∀ c ∈ cs, ∀ i, (rewrite σ (p ++ [i]) c).labels.filterMap g = c.labels.filterMap g) :
    ((rewriteForest σ p k cs).flatMap labels).filterMap g = (cs.flatMap labels).filterMap g := by
  induction cs generalizing k with
  | nil => rfl
  | cons c cs ih =>
    obtain ⟨hc, hcs⟩ := List.forall_mem_cons.mp h
    rw [rewriteForest, List.flatMap_cons, List.flatMap_cons, List.filterMap_append,
      List.filterMap_append, hc k, ih (k + 1) hcs]

theorem filterMap_labels_rewrite
    (h : ∀ q f, σ q = some f → ∀ n, (f n).labels.filterMap g = n.labels.filterMap g) :
    (rewrite σ p t).labels.filterMap g = t.labels.filterMap g := by
  induction t using induct generalizing p with
  | node a cs ih =>
    cases hp : σ p with
    | some f =>
      rw [rewrite_some hp]
      exact h p f hp _
    | none =>
      rw [rewrite_none hp, labels_node, labels_node]
      have hforest := filterMap_labels_rewriteForest (g := g) 0 fun c hc i => ih c hc (p := p ++ [i])
      simp only [label, children, List.filterMap_cons, hforest]

end Labels

end DeerFlow.RoseTree
