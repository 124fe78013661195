import Mathlib

/-! Keys that were seen lately. A key is kept for a time and until more than `cap` keys are there,
and it is let go when it is released; both ends of the window are read off what was done since. -/

namespace DeerFlow.SlidingWindow

section Definitions
variable {κ τ : Type*} [DecidableEq κ] [AddCommGroup τ] [LinearOrder τ]

def expire (ttl now : τ) (recent : List (κ × τ)) : List (κ × τ) :=
  recent.dropWhile fun e => ttl < now - e.2

def evict (cap : Nat) (recent : List (κ × τ)) : List (κ × τ) := recent.drop (recent.length - cap)

/-- Whether a key is there; it is recorded when it is not. -/
def check (ttl : τ) (cap : Nat) (now : τ) (k : κ) (recent : List (κ × τ)) :
    Bool × List (κ × τ) :=
  let live := evict cap (expire ttl now recent)
  if live.any fun e => e.1 = k then (true, live) else (false, live ++ [(k, now)])

def release (k : κ) (recent : List (κ × τ)) : List (κ × τ) := recent.filter fun e => e.1 ≠ k

/-- What a call did. -/
inductive Mark (κ τ : Type*) where
  | recorded (k : κ) (time : τ)
  | refused (k : κ) (time : τ)
  | released (k : κ)

def Mark.ofCheck (k : κ) (time : τ) : Bool → Mark κ τ
  | true => .refused k time
  | false => .recorded k time

def Mark.time : Mark κ τ → Option τ
  | .recorded _ time | .refused _ time => some time
  | .released _ => none

def Mark.stand (keys : List κ) : Mark κ τ → List κ
  | .recorded k _ => keys ++ [k]
  | .refused .. => keys
  | .released k => keys.filter (· ≠ k)

/-- The keys that were recorded and not released since, whatever was let go. -/
def standing (marks : List (Mark κ τ)) : List κ := marks.foldl Mark.stand []

/-- At no check were `cap` keys standing. -/
def Uncrowded (cap : Nat) (marks : List (Mark κ τ)) : Prop :=
  ∀ p m q, marks = p ++ m :: q → m.time.isSome → (standing p).length < cap

/-- The marks of some calls at non-decreasing times, and the keys that are there after them. -/
inductive Replay (ttl : τ) (cap : Nat) : List (Mark κ τ) → List (κ × τ) → Prop
  | nil : Replay ttl cap [] []
  | check {marks : List (Mark κ τ)} {recent : List (κ × τ)} (h : Replay ttl cap marks recent)
    {now : τ} (hnow : ∀ m ∈ marks, ∀ time ∈ m.time, time ≤ now) (k : κ) :
    Replay ttl cap (marks ++ [.ofCheck k now (check ttl cap now k recent).1])
      (check ttl cap now k recent).2
  | release {marks : List (Mark κ τ)} {recent : List (κ × τ)} (h : Replay ttl cap marks recent)
    (k : κ) : Replay ttl cap (marks ++ [.released k]) (release k recent)

end Definitions

section Standing
variable {κ τ : Type*} {marks : List (Mark κ τ)} {m : Mark κ τ} {cap : Nat} {k : κ} {t : τ}
  {newer : List κ}

@[simp] theorem time_ofCheck (k : κ) (t : τ) (seen : Bool) :
    (Mark.ofCheck k t seen).time = some t := by
  cases seen with
  | true | false => rfl

theorem concat_eq_split {pre post : List (Mark κ τ)} (h : marks ++ [m] = pre ++ .recorded k t :: post) :
    (post = [] ∧ m = .recorded k t) ∨
      ∃ rest, post = rest ++ [m] ∧ marks = pre ++ .recorded k t :: rest := by
  rcases List.eq_nil_or_concat post with rfl | ⟨rest, m', rfl⟩
  · obtain ⟨-, hm⟩ := List.append_inj' h rfl
    exact .inl ⟨rfl, List.singleton_inj.mp hm⟩
  · rw [List.concat_eq_append, ← List.cons_append, ← List.append_assoc] at h
    obtain ⟨hmarks, hm⟩ := List.append_inj' h rfl
    obtain rfl := List.singleton_inj.mp hm
    exact .inr ⟨rest, List.concat_eq_append .., hmarks⟩

variable [DecidableEq κ]

theorem stand_ofCheck (k : κ) (t : τ) (seen : Bool) (keys : List κ) :
    (Mark.ofCheck k t seen).stand keys = keys ++ bif seen then [] else [k] := by
  cases seen with
  | true => exact (List.append_nil _).symm
  | false => rfl

theorem standing_concat (marks : List (Mark κ τ)) (m : Mark κ τ) :
    standing (marks ++ [m]) = m.stand (standing marks) := by
  unfold standing
  rw [List.foldl_append]
  rfl

theorem uncrowded_nil : Uncrowded cap ([] : List (Mark κ τ)) := by
  intro p m q h
  exact absurd h.symm (List.append_ne_nil_of_right_ne_nil _ (List.cons_ne_nil _ _))

theorem uncrowded_concat : Uncrowded cap (marks ++ [m]) ↔
    Uncrowded cap marks ∧ (m.time.isSome → (standing marks).length < cap) := by
  constructor
  · intro h
    refine ⟨fun p m' q heq hm' => h p m' (q ++ [m]) ?_ hm', fun hm => h marks m [] rfl hm⟩
    rw [heq, List.append_assoc]
    rfl
  · rintro ⟨hmarks, hlast⟩ p m' q heq hm'
    rcases List.eq_nil_or_concat q with rfl | ⟨q, m'', rfl⟩
    · obtain ⟨rfl, hm⟩ := List.append_inj' heq rfl
      obtain rfl := List.singleton_inj.mp hm
      exact hlast hm'
    · have hsplit : marks ++ [m] = (p ++ m' :: q) ++ [m''] := by
        rw [heq, List.append_assoc, List.concat_eq_append]
        rfl
      obtain ⟨hinit, -⟩ := List.append_inj' hsplit rfl
      exact hmarks p m' q hinit hm'

/-- A key is there since it was recorded: it was not released, and what stands behind it is what
was recorded since, for which there always was room. -/
def Since (cap : Nat) (marks : List (Mark κ τ)) (k : κ) (t : τ) (newer : List κ) : Prop :=
  ∃ pre post, marks = pre ++ .recorded k t :: post ∧ .released k ∉ post ∧ standing post = newer ∧
    Uncrowded cap post

theorem since_concat (h : Since cap marks k t newer)
    (hm : m ≠ .released k) (hroom : m.time.isSome → newer.length < cap) :
    Since cap (marks ++ [m]) k t (m.stand newer) := by
  obtain ⟨pre, post, rfl, hreleased, rfl, huncrowded⟩ := h
  refine ⟨pre, post ++ [m], by rw [List.append_assoc]; rfl, ?_, standing_concat post m, ?_⟩
  · rw [List.mem_append, List.mem_singleton, not_or]
    exact ⟨hreleased, hm.symm⟩
  · exact uncrowded_concat.mpr ⟨huncrowded, hroom⟩

end Standing

section Ends
variable {κ τ : Type*}

theorem length_evict_le (cap : Nat) (recent : List (κ × τ)) :
    (evict cap recent).length ≤ cap := by
  unfold evict
  rw [List.length_drop]
  omega

variable [AddCommGroup τ] [LinearOrder τ] {ttl now t : τ} {cap : Nat} {k : κ}
  {recent older newer : List (κ × τ)}

theorem suffix_evict_expire (ttl now : τ) (cap : Nat) (recent : List (κ × τ)) :
    evict cap (expire ttl now recent) <:+ recent :=
  (List.drop_suffix _ _).trans (List.dropWhile_suffix _)

/-- A key that has neither run out of time nor of room is let go with none of the newer ones. -/
theorem evict_expire_split (k : κ) (older : List (κ × τ)) (htime : now - t ≤ ttl)
    (hroom : newer.length < cap) :
    ∃ older', evict cap (expire ttl now (older ++ (k, t) :: newer)) =
      older' ++ (k, t) :: newer := by
  have hexpire : ∃ older', expire ttl now (older ++ (k, t) :: newer) =
      older' ++ (k, t) :: newer := by
    unfold expire
    induction older with
    | nil =>
      refine ⟨[], List.dropWhile_cons_of_neg ?_⟩
      rw [decide_eq_true_eq, not_lt]
      exact htime
    | cons e older ih =>
      rw [List.cons_append, List.dropWhile_cons]
      split_ifs with he
      · exact ih
      · exact ⟨e :: older, rfl⟩
  obtain ⟨older', heq⟩ := hexpire
  refine ⟨older'.drop ((older' ++ (k, t) :: newer).length - cap), ?_⟩
  rw [heq, evict, List.drop_append_of_le_length]
  rw [List.length_append, List.length_cons]
  omega

theorem live_of_mem [IsOrderedAddMonoid τ] (hsorted : (recent.map Prod.snd).Pairwise (· ≤ ·))
    {e : κ × τ} (he : e ∈ evict cap (expire ttl now recent)) : now - e.2 ≤ ttl := by
  have hmem : e ∈ expire ttl now recent := List.mem_of_mem_drop he
  clear he
  unfold expire at hmem
  induction recent with
  | nil => cases hmem
  | cons e' recent ih =>
    rw [List.map_cons, List.pairwise_cons] at hsorted
    rw [List.dropWhile_cons] at hmem
    split_ifs at hmem with hexpired
    · exact ih hsorted.2 hmem
    · rw [decide_eq_true_eq, not_lt] at hexpired
      rcases List.mem_cons.mp hmem with rfl | hmem
      · exact hexpired
      · have hle := hsorted.1 e.2 (List.mem_map_of_mem hmem)
        exact (sub_le_sub_left hle now).trans hexpired

end Ends

section Window
variable {κ τ : Type*} [DecidableEq κ] [AddCommGroup τ] [LinearOrder τ]
  {ttl now t : τ} {cap : Nat} {k k' : κ} {recent older newer : List (κ × τ)}
  {marks pre post : List (Mark κ τ)}

theorem check_fst : (check ttl cap now k recent).1 = true ↔
    ∃ t, (k, t) ∈ evict cap (expire ttl now recent) := by
  have hany : ((evict cap (expire ttl now recent)).any fun e => e.1 = k) = true ↔
      ∃ t, (k, t) ∈ evict cap (expire ttl now recent) := by
    simp [List.any_eq_true, Prod.exists]
  unfold check
  simp only
  split_ifs with h
  · exact ⟨fun _ => hany.mp h, fun _ => rfl⟩
  · exact ⟨nofun, fun hex => absurd (hany.mpr hex) h⟩

theorem check_nil (ttl now : τ) (cap : Nat) (k : κ) :
    check ttl cap now k [] = (false, [(k, now)]) := by
  unfold check evict expire
  rw [List.dropWhile_nil, List.drop_nil]
  rfl

theorem check_snd : (check ttl cap now k recent).2 = evict cap (expire ttl now recent) ++
    bif (check ttl cap now k recent).1 then [] else [(k, now)] := by
  unfold check
  simp only
  split_ifs
  · exact (List.append_nil _).symm
  · rfl

/-- What is left stands in the order in which it was recorded, and no later than the marks. -/
theorem Replay.sorted (h : Replay ttl cap marks recent) :
    (recent.map Prod.snd).Pairwise (· ≤ ·) ∧
      ∀ e ∈ recent, ∃ m ∈ marks, e.2 ∈ m.time := by
  induction h with
  | nil => exact ⟨.nil, nofun⟩
  | @check marks recent _ now hnow k ih =>
    have hsuffix := suffix_evict_expire ttl now cap recent
    have hlive : ((evict cap (expire ttl now recent)).map Prod.snd).Pairwise (· ≤ ·) :=
      ih.1.sublist (hsuffix.sublist.map _)
    rw [check_snd]
    cases (SlidingWindow.check ttl cap now k recent).1 with
    | true =>
      simp only [cond_true, List.append_nil]
      refine ⟨hlive, fun e he => ?_⟩
      obtain ⟨m, hm, htime⟩ := ih.2 e (hsuffix.mem he)
      exact ⟨m, List.mem_append_left _ hm, htime⟩
    | false =>
      simp only [cond_false]
      constructor
      · rw [List.map_append, List.pairwise_append]
        refine ⟨hlive, List.pairwise_singleton .., ?_⟩
        rintro time htime now' hnow'
        obtain ⟨e, he, rfl⟩ := List.mem_map.mp htime
        obtain rfl := List.mem_singleton.mp hnow'
        obtain ⟨m, hm, htime⟩ := ih.2 e (hsuffix.mem he)
        exact hnow m hm e.2 htime
      · intro e he
        rcases List.mem_append.mp he with he | he
        · obtain ⟨m, hm, htime⟩ := ih.2 e (hsuffix.mem he)
          exact ⟨m, List.mem_append_left _ hm, htime⟩
        · obtain rfl := List.mem_singleton.mp he
          exact ⟨_, List.mem_append_right _ (List.mem_singleton_self _), rfl⟩
  | release h k ih =>
    refine ⟨ih.1.sublist ((List.filter_sublist ..).map _), fun e he => ?_⟩
    obtain ⟨m, hm, htime⟩ := ih.2 e (List.mem_filter.mp he |>.1)
    exact ⟨m, List.mem_append_left _ hm, htime⟩

theorem Replay.since (h : Replay ttl cap marks recent)
    (hsplit : recent = older ++ (k, t) :: newer) : Since cap marks k t (newer.map Prod.fst) := by
  induction h generalizing older newer with
  | nil => exact absurd hsplit.symm (List.append_ne_nil_of_right_ne_nil _ (List.cons_ne_nil _ _))
  | @check marks recent _ now hnow k' ih =>
    obtain ⟨gone, hgone⟩ := suffix_evict_expire ttl now cap recent
    have hlength := length_evict_le cap (expire ttl now recent)
    rw [check_snd] at hsplit
    cases hseen : (SlidingWindow.check ttl cap now k' recent).1 with
    | true =>
      rw [hseen, cond_true, List.append_nil] at hsplit
      rw [hsplit] at hlength hgone
      have hne : Mark.refused k' now ≠ .released k := nofun
      have hrecent : recent = (gone ++ older) ++ (k, t) :: newer := by
        rw [← hgone, List.append_assoc]
      refine since_concat (ih hrecent) hne fun _ => ?_
      · rw [List.length_append, List.length_cons] at hlength
        rw [List.length_map]
        omega
    | false =>
      rw [hseen, cond_false] at hsplit
      rcases List.eq_nil_or_concat newer with rfl | ⟨newer, e, rfl⟩
      · obtain ⟨-, he⟩ := List.append_inj' hsplit rfl
        obtain ⟨rfl, rfl⟩ := Prod.mk.inj (List.singleton_inj.mp he)
        exact ⟨marks, [], rfl, List.not_mem_nil, rfl, uncrowded_nil⟩
      · rw [List.concat_eq_append, ← List.cons_append, ← List.append_assoc] at hsplit
        obtain ⟨hlive, he⟩ := List.append_inj' hsplit rfl
        obtain rfl := List.singleton_inj.mp he
        rw [hlive] at hlength hgone
        rw [List.concat_eq_append, List.map_append]
        have hne : Mark.recorded k' now ≠ .released k := nofun
        have hrecent : recent = (gone ++ older) ++ (k, t) :: newer := by
          rw [← hgone, List.append_assoc]
        refine since_concat (ih hrecent) hne fun _ => ?_
        · rw [List.length_append, List.length_cons] at hlength
          rw [List.length_map]
          omega
  | @release marks recent _ k' ih =>
    obtain ⟨before, rest, rfl, -, hrest⟩ := List.filter_eq_append_iff.mp hsplit
    obtain ⟨gone, after, rfl, -, hkept, rfl⟩ := List.filter_eq_cons_iff.mp hrest
    have hne : k ≠ k' := by simpa using hkept
    have hnewer : (after.filter fun e => e.1 ≠ k').map Prod.fst =
        (after.map Prod.fst).filter (· ≠ k') := by
      rw [List.filter_map]
      rfl
    rw [hnewer]
    have hrecent : before ++ (gone ++ (k, t) :: after) = (before ++ gone) ++ (k, t) :: after := by
      rw [List.append_assoc]
    exact since_concat (ih hrecent) (fun heq => hne (Mark.released.inj heq).symm) nofun

/-- What was recorded with room and time since is there, with what is standing behind it. -/
theorem Replay.there (h : Replay ttl cap marks recent)
    (hmarks : marks = pre ++ .recorded k t :: post) (hreleased : .released k ∉ post)
    (huncrowded : Uncrowded cap post) (htime : ∀ m ∈ post, ∀ time ∈ m.time, time - t ≤ ttl) :
    ∃ older newer, recent = older ++ (k, t) :: newer ∧ newer.map Prod.fst = standing post := by
  induction h generalizing post with
  | nil => exact absurd hmarks.symm (List.append_ne_nil_of_right_ne_nil _ (List.cons_ne_nil _ _))
  | @check marks recent _ now hnow k' ih =>
    rw [check_snd]
    rcases concat_eq_split hmarks with ⟨rfl, hm⟩ | ⟨rest, rfl, hrest⟩
    · cases hseen : (SlidingWindow.check ttl cap now k' recent).1 with
      | true =>
        rw [hseen] at hm
        cases hm
      | false =>
        rw [hseen] at hm
        obtain ⟨rfl, rfl⟩ := Mark.recorded.inj hm
        exact ⟨_, [], rfl, rfl⟩
    · rw [uncrowded_concat] at huncrowded
      rw [List.mem_append, not_or] at hreleased
      rw [List.forall_mem_append] at htime
      obtain ⟨older, newer, rfl, hnewer⟩ := ih hrest hreleased.1 huncrowded.1 htime.1
      rw [List.forall_mem_singleton, time_ofCheck] at htime
      rw [time_ofCheck] at huncrowded
      have hroom : newer.length < cap := by
        rw [← List.length_map (f := Prod.fst), hnewer]
        exact huncrowded.2 rfl
      obtain ⟨older', hlive⟩ := evict_expire_split k older (htime.2 now rfl) hroom
      rw [hlive, standing_concat, stand_ofCheck, ← hnewer]
      refine ⟨older', newer ++ bif (SlidingWindow.check ttl cap now k' _).1 then [] else
        [(k', now)], List.append_assoc .., ?_⟩
      rw [List.map_append]
      cases (SlidingWindow.check ttl cap now k' (older ++ (k, t) :: newer)).1 with
      | true | false => rfl
  | @release marks recent _ k' ih =>
    rcases concat_eq_split hmarks with ⟨-, hm⟩ | ⟨rest, rfl, hrest⟩
    · cases hm
    · rw [uncrowded_concat] at huncrowded
      rw [List.mem_append, List.mem_singleton, not_or] at hreleased
      rw [List.forall_mem_append] at htime
      obtain ⟨older, newer, rfl, hnewer⟩ := ih hrest hreleased.1 huncrowded.1 htime.1
      have hne : k ≠ k' := fun heq => hreleased.2 (congrArg _ heq)
      refine ⟨older.filter fun e => e.1 ≠ k', newer.filter fun e => e.1 ≠ k', ?_, ?_⟩
      · unfold SlidingWindow.release
        rw [List.filter_append, List.filter_cons_of_pos (by simpa using hne)]
      · rw [standing_concat, ← hnewer, Mark.stand, List.filter_map]
        rfl

/-- A key is seen when it was recorded in time, not released since, and always with room. -/
theorem check_iff [IsOrderedAddMonoid τ] (h : Replay ttl cap marks recent)
    (hnow : ∀ m ∈ marks, ∀ time ∈ m.time, time ≤ now) :
    (check ttl cap now k recent).1 = true ↔ ∃ pre t post, marks = pre ++ .recorded k t :: post ∧
      .released k ∉ post ∧ now - t ≤ ttl ∧ Uncrowded cap post ∧ (standing post).length < cap := by
  rw [check_fst]
  constructor
  · rintro ⟨t, hmem⟩
    have htime : now - t ≤ ttl := live_of_mem h.sorted.1 hmem
    obtain ⟨older, newer, hlive⟩ := List.append_of_mem hmem
    obtain ⟨gone, hgone⟩ := suffix_evict_expire ttl now cap recent
    have hlength := length_evict_le cap (expire ttl now recent)
    rw [hlive, List.length_append, List.length_cons] at hlength
    rw [hlive, ← List.append_assoc] at hgone
    obtain ⟨pre, post, hmarks, hreleased, hstanding, huncrowded⟩ := h.since hgone.symm
    refine ⟨pre, t, post, hmarks, hreleased, htime, huncrowded, ?_⟩
    rw [hstanding, List.length_map]
    omega
  · rintro ⟨pre, t, post, rfl, hreleased, htime, huncrowded, hroom⟩
    have hpost : ∀ m ∈ post, ∀ time ∈ m.time, time - t ≤ ttl := by
      intro m hm time hmtime
      have hle := hnow m (List.mem_append_right _ (List.mem_cons_of_mem _ hm)) time hmtime
      exact (sub_le_sub_right hle t).trans htime
    obtain ⟨older, newer, rfl, hnewer⟩ := h.there rfl hreleased huncrowded hpost
    rw [← hnewer, List.length_map] at hroom
    obtain ⟨older', hlive⟩ := evict_expire_split k older htime hroom
    rw [hlive]
    exact ⟨t, List.mem_append_right _ (List.mem_cons_self ..)⟩

end Window

end DeerFlow.SlidingWindow
