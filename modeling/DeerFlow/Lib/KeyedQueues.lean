import Mathlib

/-! Items sorted into one queue for each key, and requests that take the head of
the queue of their key. Requests in the order of the items get the items back. -/

namespace DeerFlow.KeyedQueues
variable {κ β : Type*} [DecidableEq κ] {key : β → κ} {q : κ → List β} {k : κ} {x : β}

def gather (key : β → κ) (xs : List β) (k : κ) : List β := xs.filter fun x => key x = k

def take (q : κ → List β) (k : κ) : κ → List β := Function.update q k (q k).tail

/-- Each request takes the head of its queue, if there is one. -/
@[grind =]
def serve : (κ → List β) → List κ → (κ → List β) × List (Option β)
  | q, [] => (q, [])
  | q, k :: ks =>
    let (q', served) := serve (take q k) ks
    (q', (q k).head? :: served)

def Sorted (key : β → κ) (q : κ → List β) : Prop := ∀ k, ∀ x ∈ q k, key x = k

theorem sorted_gather (xs : List β) : Sorted key (gather key xs) := by
  intro k x hx
  simpa using (List.mem_filter.mp hx).2

theorem Sorted.take (h : Sorted key q) (k : κ) : Sorted key (take q k) := by
  intro k' x hx
  unfold KeyedQueues.take at hx
  by_cases hk : k' = k
  · subst hk
    rw [Function.update_self] at hx
    exact h k' x (List.mem_of_mem_tail hx)
  · rw [Function.update_of_ne hk] at hx
    exact h k' x hx

theorem Sorted.serve (h : Sorted key q) (ks : List κ) :
    Sorted key (KeyedQueues.serve q ks).1 := by
  induction ks generalizing q with
  | nil => exact h
  | cons k ks ih => exact ih (h.take k)

theorem Sorted.key_served (h : Sorted key q) (ks : List κ) :
    List.Forall₂ (fun k x => ∀ y ∈ x, key y = k) ks (KeyedQueues.serve q ks).2 := by
  induction ks generalizing q with
  | nil => exact .nil
  | cons k ks ih =>
    refine .cons ?_ (ih (h.take k))
    intro y hy
    exact h k y (List.mem_of_mem_head? hy)

theorem length_served (q : κ → List β) (ks : List κ) : (serve q ks).2.length = ks.length := by
  induction ks generalizing q with
  | nil => rfl
  | cons k ks ih =>
    have htail := ih (take q k)
    simp [serve, htail]

theorem serve_congr {q' : κ → List β} {S : Set κ} (h : ∀ k ∈ S, q k = q' k) {ks : List κ}
    (hks : ∀ k ∈ ks, k ∈ S) :
    (∀ k ∈ S, (serve q ks).1 k = (serve q' ks).1 k) ∧ (serve q ks).2 = (serve q' ks).2 := by
  induction ks generalizing q q' with
  | nil => exact ⟨h, rfl⟩
  | cons k ks ih =>
    have hk : q k = q' k := h k (hks k List.mem_cons_self)
    have htake : ∀ j ∈ S, take q k j = take q' k j := by
      intro j hj
      unfold take
      by_cases hjk : j = k
      · simp [hjk, hk]
      · simp [hjk, h j hj]
    have hrest := ih htake fun j hj => hks j (List.mem_cons_of_mem k hj)
    refine ⟨hrest.1, ?_⟩
    simp [serve, hk, hrest.2]

theorem take_gather (x : β) (xs : List β) :
    take (gather key (x :: xs)) (key x) = gather key xs := by
  funext k
  unfold take gather
  by_cases hk : k = key x
  · subst hk
    rw [Function.update_self, List.filter_cons_of_pos (by simp), List.tail_cons]
  · rw [Function.update_of_ne hk, List.filter_cons_of_neg]
    simpa using Ne.symm hk

/-- Requests in the order of the items get them, and leave what comes after. -/
theorem serve_gather (xs rest : List β) :
    serve (gather key (xs ++ rest)) (xs.map key) = (gather key rest, xs.map some) := by
  induction xs with
  | nil => rfl
  | cons x xs ih =>
    have hhead : (gather key (x :: (xs ++ rest)) (key x)).head? = some x := by
      unfold gather
      rw [List.filter_cons_of_pos (by simp), List.head?_cons]
    rw [List.map_cons, List.cons_append, serve, take_gather, ih, hhead]
    rfl

end DeerFlow.KeyedQueues
