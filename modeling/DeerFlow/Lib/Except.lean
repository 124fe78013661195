import DeerFlow.Lib.Lists

/-! Taking apart computations that may raise, and the loops over them. Where the state outlives a
raise, a run has two ends: one that holds of the state when it raises, and one of the result and
the state when it returns. -/

namespace DeerFlow

theorem bind_eq_ok {ε α β : Type} {x : Except ε α} {f : α → Except ε β} {b : β} :
    x >>= f = .ok b ↔ ∃ a, x = .ok a ∧ f a = .ok b := by
  cases x with
  | error e => exact ⟨nofun, nofun⟩
  | ok a => exact ⟨fun h => ⟨a, rfl, h⟩, fun ⟨_, h, hf⟩ => Except.ok.inj h ▸ hf⟩

theorem exists_eq_ok {ε α : Type*} {x : Except ε α} (h : x.isOk = true) : ∃ a, x = .ok a := by
  cases x with
  | error e => cases h
  | ok a => exact ⟨a, rfl⟩

theorem map_eq_ok {ε α β : Type*} {x : Except ε α} {f : α → β} {b : β} :
    x.map f = .ok b ↔ ∃ a, x = .ok a ∧ f a = b := by
  cases x with
  | error e => exact ⟨nofun, nofun⟩
  | ok a => simp [Except.map]

theorem map_snd_eq_ok {ε α β : Type*} {x : Except ε (α × β)} {b : β} :
    x.map Prod.snd = .ok b ↔ ∃ a, x = .ok (a, b) := by
  rw [map_eq_ok]
  exact ⟨fun ⟨⟨a, _⟩, h, hb⟩ => ⟨a, hb ▸ h⟩, fun ⟨a, h⟩ => ⟨(a, b), h, rfl⟩⟩

section Loops
variable {ε α β σ : Type} {xs : List α}

theorem forM_eq_ok {f : α → Except ε Unit} :
    forM xs f = .ok () ↔ ∀ x ∈ xs, f x = .ok () := by
  induction xs with
  | nil => simp [pure, Except.pure]
  | cons x xs ih =>
    rw [List.forM_cons, bind_eq_ok, List.forall_mem_cons, ← ih]
    exact ⟨fun ⟨_, hx, hxs⟩ => ⟨hx, hxs⟩, fun ⟨hx, hxs⟩ => ⟨(), hx, hxs⟩⟩

theorem mapM_eq_ok {f : α → Except ε β} {ys : List β} :
    xs.mapM f = .ok ys ↔ List.Forall₂ (fun x y => f x = .ok y) xs ys := by
  induction xs generalizing ys with
  | nil =>
    rw [List.mapM_nil, List.forall₂_nil_left_iff]
    exact ⟨fun h => (Except.ok.inj h).symm, fun h => h ▸ rfl⟩
  | cons x xs ih =>
    rw [List.mapM_cons, bind_eq_ok, List.forall₂_cons_left_iff]
    constructor
    · rintro ⟨y, hy, h⟩
      obtain ⟨ys, hys, h⟩ := bind_eq_ok.mp h
      exact ⟨y, ys, hy, ih.mp hys, (Except.ok.inj h).symm⟩
    · rintro ⟨y, ys, hy, hys, rfl⟩
      exact ⟨y, hy, bind_eq_ok.mpr ⟨ys, ih.mpr hys, rfl⟩⟩

theorem exists_of_mem_mapM {f : α → Except ε β} {ys : List β} {y : β} (h : xs.mapM f = .ok ys)
    (hy : y ∈ ys) : ∃ x ∈ xs, f x = .ok y := by
  have hmem := exists_of_forall₂_right (mapM_eq_ok.mp h) hy
  exact hmem

theorem mem_mapM {g : α → Option β} {ys : List β} (h : xs.mapM g = some ys) {y : β} (hy : y ∈ ys) :
    ∃ x ∈ xs, g x = some y := by
  induction xs generalizing ys with
  | nil =>
    cases h
    cases hy
  | cons x xs ih =>
    rw [List.mapM_cons] at h
    obtain ⟨z, hz, h⟩ := Option.bind_eq_some_iff.mp h
    obtain ⟨zs, hzs, h⟩ := Option.bind_eq_some_iff.mp h
    cases h
    rcases List.mem_cons.mp hy with rfl | hy
    · exact ⟨x, List.mem_cons_self .., hz⟩
    · obtain ⟨w, hw, hgw⟩ := ih hzs hy
      exact ⟨w, List.mem_cons_of_mem _ hw, hgw⟩

theorem exists_mapM_eq_ok {f : α → Except ε β} {P : α → β → Prop}
    (h : ∀ x ∈ xs, ∃ y, f x = .ok y ∧ P x y) : ∃ ys, xs.mapM f = .ok ys ∧ List.Forall₂ P xs ys := by
  induction xs with
  | nil => exact ⟨[], rfl, .nil⟩
  | cons x xs ih =>
    obtain ⟨y, hy, hp⟩ := h x List.mem_cons_self
    obtain ⟨ys, hys, hps⟩ := ih fun z hz => h z (List.mem_cons_of_mem x hz)
    refine ⟨y :: ys, ?_, .cons hp hps⟩
    rw [List.mapM_cons, hy, hys]
    rfl

theorem mapM_map {f : α → Except ε β} {γ : Type} (g : β → γ) :
    xs.mapM (fun x => (f x).map g) = (xs.mapM f).map (List.map g) := by
  induction xs with
  | nil => rfl
  | cons x xs ih =>
    rw [List.mapM_cons, List.mapM_cons, ih]
    cases f x with
    | error e => rfl
    | ok y =>
      cases xs.mapM f with
      | error e | ok ys => rfl

/-- What holds before the loop and is kept by each of its rounds holds after it. -/
theorem foldlM_invariant {f : σ → α → Except ε σ} {s s' : σ} {motive : List α → σ → Prop}
    (init : motive [] s)
    (step : ∀ done x t t', done ++ [x] <+: xs → motive done t → f t x = .ok t' →
      motive (done ++ [x]) t')
    (h : xs.foldlM f s = .ok s') : motive xs s' := by
  have hrest : ∀ rest done t, done ++ rest = xs → motive done t → rest.foldlM f t = .ok s' →
      motive xs s' := by
    intro rest
    induction rest with
    | nil =>
      rintro done t rfl hm h
      cases h
      simpa using hm
    | cons x rest ih =>
      intro done t hxs hm h
      rw [List.foldlM_cons] at h
      obtain ⟨t', ht, h⟩ := bind_eq_ok.mp h
      refine ih (done ++ [x]) t' (by simpa using hxs) (step done x t t' ?_ hm ht) h
      exact ⟨rest, by simpa using hxs⟩
  exact hrest xs [] s rfl init h

end Loops

abbrev Fallible (σ ε α : Type) := ExceptT ε (StateM σ) α

def EndsIn {σ ε α : Type} (m : Fallible σ ε α) (s : σ) (raised : σ → Prop)
    (returned : α → σ → Prop) : Prop :=
  match m.run.run s with
  | (.ok a, s') => returned a s'
  | (.error _, s') => raised s'

namespace EndsIn
variable {σ ε ε' α β : Type} {s : σ} {m : Fallible σ ε α} {raised raised' : σ → Prop}
  {returned returned' : α → σ → Prop}

theorem pure {a : α} (h : returned a s) : EndsIn (pure a : Fallible σ ε α) s raised returned := h

theorem throw {e : ε} (h : raised s) : EndsIn (throw e : Fallible σ ε α) s raised returned := h

theorem modify {f : σ → σ} {returned : Unit → σ → Prop} (h : returned () (f s)) :
    EndsIn (modify f : Fallible σ ε Unit) s raised returned := h

theorem bind {f : α → Fallible σ ε β} {returned' : β → σ → Prop} (h : EndsIn m s raised returned)
    (hf : ∀ a s', returned a s' → EndsIn (f a) s' raised returned') :
    EndsIn (m >>= f) s raised returned' := by
  unfold EndsIn at h ⊢
  have hrun : (m >>= f).run.run s = match m.run.run s with
      | (.ok a, s') => (f a).run.run s'
      | (.error e, s') => (.error e, s') := by
    show (ExceptT.bindCont f (m.run.run s).1 : StateM σ (Except ε β)) (m.run.run s).2 = _
    rcases m.run.run s with ⟨_ | _, _⟩ <;> rfl
  rw [hrun]
  rcases hm : m.run.run s with ⟨e | a, s'⟩
  · rw [hm] at h
    exact h
  · rw [hm] at h
    exact hf a s' h

theorem get_bind {f : σ → Fallible σ ε β} {returned : β → σ → Prop}
    (h : EndsIn (f s) s raised returned) : EndsIn (get >>= f) s raised returned := h

theorem mono (h : EndsIn m s raised returned) (hraised : ∀ s', raised s' → raised' s')
    (hreturned : ∀ a s', returned a s' → returned' a s') : EndsIn m s raised' returned' := by
  unfold EndsIn at h ⊢
  rcases hm : m.run.run s with ⟨e | a, s'⟩
  · rw [hm] at h
    exact hraised s' h
  · rw [hm] at h
    exact hreturned a s' h

theorem always (h : EndsIn m s raised returned) (hreturned : ∀ a s', returned a s' → raised s') :
    raised (m.run.run s).2 := by
  unfold EndsIn at h
  rcases hm : m.run.run s with ⟨e | a, s'⟩
  · rw [hm] at h
    exact h
  · rw [hm] at h
    exact hreturned a s' h

theorem of_ok (h : EndsIn m s raised returned) {a : α} (hok : (m.run.run s).1 = .ok a) :
    returned a (m.run.run s).2 := by
  unfold EndsIn at h
  rcases hm : m.run.run s with ⟨e | b, s'⟩
  · rw [hm] at hok
    cases hok
  · rw [hm] at h hok
    cases hok
    exact h

theorem adapt (f : ε → ε') (h : EndsIn m s raised returned) :
    EndsIn (m.adapt f : Fallible σ ε' α) s raised returned := by
  unfold EndsIn at h ⊢
  have hrun : (m.adapt f : Fallible σ ε' α).run.run s =
      ((m.run.run s).1.mapError f, (m.run.run s).2) := rfl
  rw [hrun]
  rcases hm : m.run.run s with ⟨e | a, s'⟩
  · rw [hm] at h
    exact h
  · rw [hm] at h
    exact h

theorem foldlM {γ : Type} {f : β → γ → Fallible σ ε β} (inv : List γ → β → σ → Prop) {xs : List γ}
    (hstep : ∀ done x b s, x ∈ xs → inv done b s → EndsIn (f b x) s raised (inv (done ++ [x])))
    {b : β} (h : inv [] b s) : EndsIn (xs.foldlM f b) s raised (inv xs) := by
  -- the loop may start anywhere in the list
  have hrest : ∀ (rest done : List γ) b s, rest ⊆ xs → inv done b s →
      EndsIn (rest.foldlM f b) s raised (inv (done ++ rest)) := by
    intro rest
    induction rest with
    | nil =>
      intro done b s _ h
      rw [List.append_nil]
      exact pure h
    | cons x rest ih =>
      intro done b s hsub h
      rw [List.foldlM_cons]
      refine bind (hstep done x b s (hsub List.mem_cons_self) h) fun b' s' h' => ?_
      have hlast := ih (done ++ [x]) b' s' (fun y hy => hsub (List.mem_cons_of_mem x hy)) h'
      rwa [List.append_assoc] at hlast
  exact hrest xs [] b s (List.Subset.refl xs) h

end EndsIn
end DeerFlow
