import DeerFlow.Middlewares.TokenBudget

/-! The budget over a whole run. While the agent is invoked once and the messages from before the
run stay as they were, the middleware has counted exactly what the run's messages used. -/

namespace DeerFlow

namespace Middlewares
open Transition

def observedOf (observed : Dict (Nat × Nat)) (id : String) : Nat × Nat :=
  (observed.get id).getD (0, 0)

def usageOf (observed : Dict (Nat × Nat)) : TokenUsage :=
  ⟨observed.total Prod.fst, observed.total Prod.snd,
    observed.total Prod.fst + observed.total Prod.snd⟩

def TokenBudgetConfig.Reached (config : TokenBudgetConfig) (used : TokenUsage) : Prop :=
  config.hardStopThreshold * config.maxTokens ≤ used.total ∨
    (∃ n ∈ config.maxInputTokens, config.hardStopThreshold * n ≤ used.input) ∨
    ∃ n ∈ config.maxOutputTokens, config.hardStopThreshold * n ≤ used.output

namespace BudgetRun

def aiMessages (s : BudgetRun) : List AiMessage := s.messages.rows.filterMap (·.ai?)

def lastAi? (s : BudgetRun) : Option AiMessage := s.messages.rows.getLast?.bind (·.ai?)

/-- The tokens of the run's messages as `after_model` saw them. -/
def spent (s : BudgetRun) : TokenUsage := usageOf s.observed

/-- The same after one more look. -/
def observedNow (s : BudgetRun) : Dict (Nat × Nat) := s.aiMessages.foldl s.observe s.observed

structure Bounded (config : TokenBudgetConfig) (s : BudgetRun) : Prop where
  stopped : s.checked = true → config.Reached s.spent → ∀ m, s.lastAi? = some m → m.toolCalls = []
  own : s.budget.usage.input ≤ s.spent.input ∧ s.budget.usage.output ≤ s.spent.output ∧
    s.budget.usage.total ≤ s.spent.total

/-- A step after which the count is no longer that of the run. -/
def Slips (config : TokenBudgetConfig) (s : BudgetRun) : BudgetEvent → Prop
  -- the agent is invoked again after its messages used tokens
  | .beforeAgent => s.spent.total ≠ 0 ∨ ∃ m ∈ s.aiMessages, m.id ∈ s.produced ∧ m.usage ≠ (0, 0)
  -- the graph goes on without `before_agent`, over messages from before
  | .resume => ∃ m ∈ s.aiMessages, m.usage ≠ (0, 0)
  | .respond m => m.id = ""
  | .raise id _ => id ∉ s.produced
  -- a threshold of zero is reached before anything is used
  | .afterModel => config.hardStopThreshold = 0 ∧ (usageOf s.observedNow).total = 0 ∧
    s.lastAi?.any (·.toolCalls ≠ []) = true
  | .addOther _ | .remove _ | .afterAgent => False

instance (config : TokenBudgetConfig) (s : BudgetRun) (event : BudgetEvent) :
    Decidable (s.Slips config event) := by
  cases event <;> unfold Slips <;> infer_instance

def withoutSlips (config : TokenBudgetConfig) : System BudgetRun BudgetEvent :=
  (tokenBudget config).when fun s event => ¬ s.Slips config event

end BudgetRun

section Count
variable {produced : List String} {seen observed : Dict (Nat × Nat)} {usage : TokenUsage}

/-- The count of the middleware, `seen` and `usage`, is what was observed of the run. -/
structure Tallied (produced : List String) (seen : Dict (Nat × Nat)) (usage : TokenUsage)
    (observed : Dict (Nat × Nat)) : Prop where
  usage_eq : usage = usageOf observed
  seen_eq : ∀ id ∈ produced, observedOf seen id = observedOf observed id
  only : ∀ id, id ∉ produced → observed.get id = none

def observeProduced (produced : List String) (observed : Dict (Nat × Nat)) (m : AiMessage) :
    Dict (Nat × Nat) := if m.id ∈ produced then observed.set m.id m.usage else observed

/-- A message of the run has not gone down, and one from before the run is as it was counted. -/
def Countable (produced : List String) (seen observed : Dict (Nat × Nat)) (m : AiMessage) : Prop :=
  (m.id ∈ produced → m.id ≠ "" ∧ (observedOf observed m.id).1 ≤ m.usage.1 ∧
    (observedOf observed m.id).2 ≤ m.usage.2) ∧
  (m.id ∉ produced → m.id = "" ∨ observedOf seen m.id = m.usage)

theorem observedOf_set (d : Dict (Nat × Nat)) (k id : String) (v : Nat × Nat) :
    observedOf (d.set k v) id = if id = k then v else observedOf d id := by
  unfold observedOf
  rw [Dict.get_set]
  split_ifs <;> rfl

theorem usageOf_set (d : Dict (Nat × Nat)) (k : String) (v : Nat × Nat)
    (hin : (observedOf d k).1 ≤ v.1) (hout : (observedOf d k).2 ≤ v.2) :
    usageOf (d.set k v) =
      ⟨(usageOf d).input + (v.1 - (observedOf d k).1),
        (usageOf d).output + (v.2 - (observedOf d k).2),
        (usageOf d).total + (v.1 - (observedOf d k).1 + (v.2 - (observedOf d k).2))⟩ := by
  have hfst := Dict.total_set Prod.fst d k v
  have hsnd := Dict.total_set Prod.snd d k v
  unfold observedOf at *
  unfold usageOf
  rcases hget : d.get k with _ | w
  · simp only [hget, Option.map_none, Option.getD_none, TokenUsage.mk.injEq] at *
    omega
  · simp only [hget, Option.map_some, Option.getD_some, TokenUsage.mk.injEq] at *
    omega

theorem countMessage_of_not_produced {m : AiMessage} (hm : Countable produced seen observed m)
    (hnew : m.id ∉ produced) : RunBudget.countMessage (seen, usage) m = (seen, usage) := by
  unfold RunBudget.countMessage
  rcases hm.2 hnew with hempty | hsame
  · simp [hempty]
  · unfold observedOf at hsame
    simp [hsame]

theorem Tallied.count {m : AiMessage} (h : Tallied produced seen usage observed)
    (hm : Countable produced seen observed m) :
    Tallied produced (RunBudget.countMessage (seen, usage) m).1
      (RunBudget.countMessage (seen, usage) m).2 (observeProduced produced observed m) := by
  by_cases hp : m.id ∈ produced
  · obtain ⟨hid, hin, hout⟩ := hm.1 hp
    have hseen := h.seen_eq m.id hp
    have honly : ∀ id, id ∉ produced → (observed.set m.id m.usage).get id = none := by
      intro id hno
      have hne : id ≠ m.id := fun he => hno (he ▸ hp)
      rw [Dict.get_set_ne hne]
      exact h.only id hno
    have husage := usageOf_set observed m.id m.usage hin hout
    rw [observeProduced, if_pos hp]
    unfold RunBudget.countMessage
    change observedOf seen m.id = _ at hseen
    unfold observedOf at hseen
    dsimp only
    rw [hseen]
    split_ifs with hdiff
    · refine ⟨?_, ?_, honly⟩
      · rw [husage, h.usage_eq]
        rfl
      · intro id hin'
        rw [observedOf_set, observedOf_set, h.seen_eq id hin']
    · have hzero : m.usage = observedOf observed m.id := by
        unfold observedOf at hin hout ⊢
        have hnone : ¬ (0 < m.usage.1 - ((observed.get m.id).getD (0, 0)).1 ∨
            0 < m.usage.2 - ((observed.get m.id).getD (0, 0)).2) := fun hd => hdiff ⟨hid, hd⟩
        apply Prod.ext <;> omega
      refine ⟨?_, ?_, honly⟩
      · rw [husage, h.usage_eq, hzero]
        simp
      · intro id hin'
        rw [observedOf_set, h.seen_eq id hin']
        split_ifs with hsame
        · rw [hsame, ← hzero]
        · rfl
  · rw [countMessage_of_not_produced hm hp, observeProduced, if_neg hp]
    exact h

theorem observedOf_count {m : AiMessage} (hm : Countable produced seen observed m) {id : String}
    (hid : id ∉ produced ∨ id ≠ m.id) :
    observedOf (RunBudget.countMessage (seen, usage) m).1 id = observedOf seen id := by
  by_cases hp : m.id ∈ produced
  · have hne : id ≠ m.id := by
      rcases hid with hid | hid
      · exact fun he => hid (he ▸ hp)
      · exact hid
    unfold RunBudget.countMessage
    dsimp only
    split_ifs
    · rw [observedOf_set, if_neg hne]
    · rfl
  · rw [countMessage_of_not_produced hm hp]

theorem observedOf_observe {m : AiMessage} {id : String} (hid : id ≠ m.id) :
    observedOf (observeProduced produced observed m) id = observedOf observed id := by
  unfold observeProduced
  split_ifs
  · rw [observedOf_set, if_neg hid]
  · rfl

theorem Countable.after_count {m x : AiMessage} (hm : Countable produced seen observed m)
    (hx : Countable produced seen observed x) (hne : x.id ≠ m.id) :
    Countable produced (RunBudget.countMessage (seen, usage) m).1
      (observeProduced produced observed m) x := by
  refine ⟨fun hp => ?_, fun hp => ?_⟩
  · rw [observedOf_observe hne]
    exact hx.1 hp
  · rw [observedOf_count hm (.inl hp)]
    exact hx.2 hp

theorem Tallied.foldl {ms : List AiMessage} (h : Tallied produced seen usage observed)
    (hms : ∀ m ∈ ms, Countable produced seen observed m) (hids : (ms.map (·.id)).Nodup) :
    let acc := ms.foldl RunBudget.countMessage (seen, usage)
    let now := ms.foldl (observeProduced produced) observed
    Tallied produced acc.1 acc.2 now ∧
      (∀ id, id ∉ produced → observedOf acc.1 id = observedOf seen id) ∧
      ∀ m ∈ ms, m.id ∈ produced → observedOf now m.id = m.usage := by
  induction ms generalizing seen usage observed with
  | nil => exact ⟨h, fun _ _ => rfl, nofun⟩
  | cons m ms ih =>
    rw [List.map_cons, List.nodup_cons] at hids
    have hm := hms m (List.mem_cons_self ..)
    have hrest : ∀ x ∈ ms, Countable produced (RunBudget.countMessage (seen, usage) m).1
        (observeProduced produced observed m) x := by
      intro x hx
      have hne : x.id ≠ m.id := fun he => hids.1 (he ▸ List.mem_map_of_mem hx)
      exact hm.after_count (hms x (List.mem_cons_of_mem _ hx)) hne
    obtain ⟨htally, hothers, hseen⟩ := ih (h.count hm) hrest hids.2
    refine ⟨htally, fun id hid => ?_, fun x hx hp => ?_⟩
    · exact (hothers id hid).trans (observedOf_count hm (.inl hid))
    · rcases List.mem_cons.mp hx with rfl | hx
      · have hkept : ∀ (ys : List AiMessage) (d : Dict (Nat × Nat)), x.id ∉ ys.map (·.id) →
            observedOf (ys.foldl (observeProduced produced) d) x.id = observedOf d x.id := by
          intro ys
          induction ys with
          | nil => exact fun _ _ => rfl
          | cons y ys ihys =>
            intro d hy
            rw [List.map_cons, List.mem_cons, not_or] at hy
            rw [List.foldl_cons, ihys _ hy.2, observedOf_observe hy.1]
        rw [List.foldl_cons, hkept ms _ hids.1, observeProduced, if_pos hp, observedOf_set,
          if_pos rfl]
      · exact hseen x hx hp

end Count

section Fractions
variable {config : TokenBudgetConfig} {usage : TokenUsage}

theorem le_highest (best : Rat × BudgetNotice) (f : String × Nat × Nat) :
    best.1 ≤ (RunBudget.highest best f).1 ∧
      (f.2.1 : Rat) / f.2.2 ≤ (RunBudget.highest best f).1 := by
  unfold RunBudget.highest
  dsimp only
  split_ifs with hlt
  · exact ⟨le_of_lt hlt, le_refl _⟩
  · exact ⟨le_refl _, not_lt.mp hlt⟩

theorem le_foldl_highest (fs : List (String × Nat × Nat)) (best : Rat × BudgetNotice) :
    best.1 ≤ (fs.foldl RunBudget.highest best).1 ∧
      ∀ f ∈ fs, (f.2.1 : Rat) / f.2.2 ≤ (fs.foldl RunBudget.highest best).1 := by
  induction fs generalizing best with
  | nil => exact ⟨le_refl _, nofun⟩
  | cons f fs ih =>
    obtain ⟨hbest, hrest⟩ := ih (RunBudget.highest best f)
    obtain ⟨hold, hnew⟩ := le_highest best f
    refine ⟨hold.trans hbest, fun x hx => ?_⟩
    rcases List.mem_cons.mp hx with rfl | hx
    · exact hnew.trans hbest
    · exact hrest x hx

theorem le_highestFraction {f : String × Nat × Nat} (h : f ∈ RunBudget.fractions config usage)
    {threshold : Rat} (hpos : 0 < f.2.2) (hreached : threshold * f.2.2 ≤ f.2.1) :
    threshold ≤ (RunBudget.highestFraction config usage).1 := by
  have hlimit : (0 : Rat) < f.2.2 := Nat.cast_pos.mpr hpos
  have hfrac : threshold ≤ (f.2.1 : Rat) / f.2.2 := (le_div_iff₀ hlimit).mpr hreached
  exact hfrac.trans ((le_foldl_highest _ _).2 f h)

/-- A limit that is reached shows in the highest fraction. -/
theorem hardStop_le_of_reached (h : config.Reached usage) :
    config.hardStopThreshold ≤ (RunBudget.highestFraction config usage).1 := by
  have hmax := config.maxTokens_ge
  rcases h with h | ⟨n, hn, h⟩ | ⟨n, hn, h⟩
  · have hmem : ("total", usage.total, config.maxTokens) ∈ RunBudget.fractions config usage :=
      List.mem_append_left _ (List.mem_cons_self ..)
    exact le_highestFraction hmem (by dsimp only; omega) h
  · have hmem : ("input", usage.input, n) ∈ RunBudget.fractions config usage := by
      simp [RunBudget.fractions, Option.mem_def.mp hn]
    exact le_highestFraction hmem (config.maxInputTokens_ge n hn) h
  · have hmem : ("output", usage.output, n) ∈ RunBudget.fractions config usage := by
      simp [RunBudget.fractions, Option.mem_def.mp hn]
    exact le_highestFraction hmem (config.maxOutputTokens_ge n hn) h

/-- Nothing used reaches a limit only where the threshold is zero. -/
theorem threshold_eq_zero_of_reached (h : config.Reached usage) (hinput : usage.input = 0)
    (houtput : usage.output = 0) (htotal : usage.total = 0) : config.hardStopThreshold = 0 := by
  have hnonneg : 0 ≤ config.hardStopThreshold :=
    config.warnThreshold_nonneg.trans config.warn_le_hardStop
  have hmax := config.maxTokens_ge
  have hzero (n : Nat) (hn : 1 ≤ n) (hle : config.hardStopThreshold * n ≤ 0) :
      config.hardStopThreshold = 0 := by
    have hpos : (0 : Rat) < n := Nat.cast_pos.mpr hn
    have hle' : config.hardStopThreshold ≤ 0 := nonpos_of_mul_nonpos_left hle hpos
    exact le_antisymm hle' hnonneg
  rcases h with h | ⟨n, hn, h⟩ | ⟨n, hn, h⟩
  · rw [htotal, Nat.cast_zero] at h
    exact hzero _ (by omega) h
  · rw [hinput, Nat.cast_zero] at h
    exact hzero n (config.maxInputTokens_ge n hn) h
  · rw [houtput, Nat.cast_zero] at h
    exact hzero n (config.maxOutputTokens_ge n hn) h

end Fractions

section Seeds
variable {ms : List AiMessage} {d : Dict (Nat × Nat)}

def seed (seen : Dict (Nat × Nat)) (m : AiMessage) : Dict (Nat × Nat) :=
  if m.id ≠ "" then Dict.set seen m.id m.usage else seen

theorem observedOf_seed (d : Dict (Nat × Nat)) (m : AiMessage) {id : String} (hid : id ≠ m.id) :
    observedOf (seed d m) id = observedOf d id := by
  unfold seed
  split_ifs
  · rw [observedOf_set, if_neg hid]
  · rfl

theorem observedOf_foldl_seed {id : String} (hid : id ∉ ms.map (·.id)) :
    observedOf (ms.foldl seed d) id = observedOf d id := by
  induction ms generalizing d with
  | nil => rfl
  | cons m ms ih =>
    rw [List.map_cons, List.mem_cons, not_or] at hid
    rw [List.foldl_cons, ih hid.2, observedOf_seed d m hid.1]

theorem observedOf_foldl_seed_of_mem (hids : (ms.map (·.id)).Nodup) {m : AiMessage} (hm : m ∈ ms)
    (hid : m.id ≠ "") : observedOf (ms.foldl seed d) m.id = m.usage := by
  induction ms generalizing d with
  | nil => cases hm
  | cons x ms ih =>
    rw [List.map_cons, List.nodup_cons] at hids
    rw [List.foldl_cons]
    rcases List.mem_cons.mp hm with rfl | hm
    · rw [observedOf_foldl_seed hids.1, seed, if_pos hid, observedOf_set, if_pos rfl]
    · exact ih hids.2 hm

end Seeds

namespace BudgetRun
variable {config : TokenBudgetConfig} {s t : BudgetRun}

theorem mem_aiMessages {m : AiMessage} : m ∈ s.aiMessages ↔ BudgetMessage.ai m ∈ s.messages.rows := by
  unfold aiMessages
  rw [List.mem_filterMap]
  constructor
  · rintro ⟨x, hx, hxm⟩
    cases x with
    | other => cases hxm
    | ai x =>
      cases hxm
      exact hx
  · intro hm
    exact ⟨.ai m, hm, rfl⟩

theorem nodup_aiMessages (s : BudgetRun) : (s.aiMessages.map (·.id)).Nodup := by
  have hsublist (xs : List BudgetMessage) :
      ((xs.filterMap (·.ai?)).map (·.id)).Sublist (xs.map (·.id)) := by
    induction xs with
    | nil => exact .slnil
    | cons x xs ih =>
      cases x with
      | ai m => exact ih.cons_cons m.id
      | other id => exact ih.cons id
  exact s.messages.nodup.sublist (hsublist s.messages.rows)

theorem lastAi?_eq_some {m : AiMessage} : s.lastAi? = some m ↔ s.messages.rows.getLast? = some (.ai m) := by
  unfold lastAi?
  rw [Option.bind_eq_some_iff]
  constructor
  · rintro ⟨x, hx, hxm⟩
    cases x with
    | other => cases hxm
    | ai x =>
      cases hxm
      exact hx
  · intro hm
    exact ⟨.ai m, hm, rfl⟩

/-- The middleware's count is that of the run. -/
structure Accounted (s : BudgetRun) : Prop where
  messagesKnown : ∀ m ∈ s.messages.rows, m.id ∈ s.known
  producedKnown : ∀ id ∈ s.produced, id ∈ s.known
  producedNamed : "" ∉ s.produced
  only : ∀ id, id ∉ s.produced → s.observed.get id = none
  risen : ∀ m ∈ s.aiMessages, m.id ∈ s.produced →
    (observedOf s.observed m.id).1 ≤ m.usage.1 ∧ (observedOf s.observed m.id).2 ≤ m.usage.2
  unstarted : s.started = false → s.phase = .idle ∧ s.produced = [] ∧ s.observed = []
  cleared : s.phase = .idle → s.budget.seenMessages = none ∧ s.budget.cumulativeUsage = none
  usage : s.phase ≠ .idle → s.budget.usage = s.spent
  tallied : s.phase ≠ .idle → ∀ id ∈ s.produced, s.budget.counted id = observedOf s.observed id
  before : s.phase ≠ .idle → ∀ m ∈ s.aiMessages, m.id ∉ s.produced →
    m.id = "" ∨ s.budget.counted m.id = m.usage
  unseen : ∀ id, id ∉ s.known → s.budget.counted id = (0, 0)
  responded : s.phase = .responded → ∃ m, s.lastAi? = some m

theorem counted_of_cleared {b : RunBudget} (h : b.seenMessages = none) (id : String) :
    b.counted id = (0, 0) := by
  simp [RunBudget.counted, RunBudget.seen, h]

theorem usage_of_cleared {b : RunBudget} (h : b.cumulativeUsage = none) : b.usage = .zero := by
  simp [RunBudget.usage, h]

theorem usageOf_eq_zero {d : Dict (Nat × Nat)} (h : (usageOf d).total = 0) :
    usageOf d = .zero ∧ ∀ id, observedOf d id = (0, 0) := by
  have hsum : d.total Prod.fst + d.total Prod.snd = 0 := h
  constructor
  · simp only [usageOf, TokenUsage.zero, TokenUsage.mk.injEq]
    omega
  · intro id
    unfold observedOf
    rcases hget : d.get id with _ | v
    · rfl
    · have hin := Dict.le_total_of_get (f := Prod.fst) hget
      have hout := Dict.le_total_of_get (f := Prod.snd) hget
      rw [Option.getD_some]
      apply Prod.ext <;> dsimp only <;> omega

theorem Accounted.init (h : (tokenBudget config).init s) : s.Accounted := by
  obtain ⟨hbudget, hphase, hstarted, -, hknown, hproduced, hobserved⟩ := h
  have hidle {P : Prop} (hp : s.phase ≠ .idle) : P := absurd hphase hp
  refine {
    messagesKnown := fun m hm => hknown ▸ List.mem_map_of_mem hm
    producedKnown := fun id hid => by simp [hproduced] at hid
    producedNamed := by simp [hproduced]
    only := fun id _ => by rw [hobserved]; rfl
    risen := fun m _ hid => by simp [hproduced] at hid
    unstarted := fun _ => ⟨hphase, hproduced, hobserved⟩
    cleared := fun _ => by rw [hbudget]; exact ⟨rfl, rfl⟩
    usage := fun hp => hidle hp
    tallied := fun hp => hidle hp
    before := fun hp => hidle hp
    unseen := fun id _ => by rw [hbudget]; rfl
    responded := fun hp => by rw [hphase] at hp; cases hp }

theorem Accounted.beforeAgent (h : s.Accounted) (henabled : config.enabled = true)
    (hphase : s.phase = .idle) (hslip : ¬ s.Slips config .beforeAgent) :
    (s.begin (s.budget.beforeAgent config s.messages.rows)).Accounted := by
  obtain ⟨hseen, hcumulative⟩ := h.cleared hphase
  obtain ⟨hspent, hquiet⟩ := not_or.mp hslip
  obtain ⟨hzero, hobserved⟩ := usageOf_eq_zero (not_not.mp hspent)
  have hcounted (id : String) : (s.budget.beforeAgent config s.messages.rows).counted id =
      observedOf (s.aiMessages.foldl seed []) id := by
    unfold RunBudget.beforeAgent
    rw [henabled]
    split_ifs with hempty
    · have hrows : s.messages.rows = [] := by simpa using hempty
      rw [counted_of_cleared hseen]
      simp [aiMessages, hrows, observedOf]
    · change observedOf (s.aiMessages.foldl seed s.budget.seen) id = _
      rw [RunBudget.seen, hseen]
      rfl
  have husage : (s.budget.beforeAgent config s.messages.rows).usage = .zero := by
    unfold RunBudget.beforeAgent
    split_ifs
    · exact usage_of_cleared hcumulative
    · change s.budget.usage = .zero
      exact usage_of_cleared hcumulative
  generalize s.budget.beforeAgent config s.messages.rows = budget at *
  refine { h with
    unstarted := nofun
    cleared := nofun
    usage := fun _ => husage.trans hzero.symm
    tallied := fun _ id hid => ?_
    before := fun _ m hm hid => ?_
    unseen := fun id hid => ?_
    responded := nofun }
  · change budget.counted id = observedOf s.observed id
    rw [hcounted, hobserved]
    by_cases hmem : id ∈ s.aiMessages.map (·.id)
    · obtain ⟨m, hm, rfl⟩ := List.mem_map.mp hmem
      have hnamed : m.id ≠ "" := fun he => h.producedNamed (he ▸ hid)
      rw [observedOf_foldl_seed_of_mem s.nodup_aiMessages hm hnamed]
      by_contra hused
      exact hquiet ⟨m, hm, hid, hused⟩
    · exact observedOf_foldl_seed hmem
  · by_cases hnamed : m.id = ""
    · exact .inl hnamed
    · right
      change budget.counted m.id = m.usage
      rw [hcounted]
      exact observedOf_foldl_seed_of_mem s.nodup_aiMessages hm hnamed
  · change budget.counted id = (0, 0)
    rw [hcounted]
    apply observedOf_foldl_seed
    intro hmem
    obtain ⟨m, hm, rfl⟩ := List.mem_map.mp hmem
    exact hid (h.messagesKnown (.ai m) (mem_aiMessages.mp hm))

theorem Accounted.resume (h : s.Accounted) (hphase : s.phase = .idle) (hstarted : s.started = false)
    (hslip : ¬ s.Slips config .resume) : (s.begin s.budget).Accounted := by
  obtain ⟨hseen, hcumulative⟩ := h.cleared hphase
  obtain ⟨-, hproduced, hobserved⟩ := h.unstarted hstarted
  refine { h with
    unstarted := nofun
    cleared := nofun
    usage := fun _ => ?_
    tallied := fun _ id hid => ?_
    before := fun _ m hm _ => ?_
    responded := nofun }
  · change s.budget.usage = usageOf s.observed
    rw [usage_of_cleared hcumulative, hobserved]
    rfl
  · change id ∈ s.produced at hid
    simp [hproduced] at hid
  · right
    change s.budget.counted m.id = m.usage
    rw [counted_of_cleared hseen]
    by_contra hused
    exact hslip ⟨m, hm, fun he => hused he.symm⟩

theorem get_of_unknown (h : s.Accounted) {id : String} (hid : id ∉ s.known) :
    s.messages.get id = none := by
  apply Table.get_eq_none
  intro m hm he
  exact hid (he ▸ h.messagesKnown m hm)

theorem rows_addMessage (h : s.Accounted) {m : BudgetMessage} (hid : m.id ∉ s.known) :
    (s.messages.put m).rows = s.messages.rows ++ [m] :=
  Table.rows_put_of_get_none (get_of_unknown h hid)

theorem Accounted.respond (h : s.Accounted) {m : AiMessage} (hphase : s.phase = .running)
    (hid : m.id ∉ s.known) (hslip : ¬ s.Slips config (.respond m)) :
    ({ s.addMessage (.ai m) with
        budget := (s.budget.drainPendingWarnings config).2
        phase := .responded
        produced := s.produced ++ [m.id] } : BudgetRun).Accounted := by
  have hactive : s.phase ≠ .idle := by simp [hphase]
  have hrows := rows_addMessage h (m := .ai m) hid
  have hbudget (id : String) :
      (s.budget.drainPendingWarnings config).2.counted id = s.budget.counted id ∧
        (s.budget.drainPendingWarnings config).2.usage = s.budget.usage := by
    unfold RunBudget.drainPendingWarnings
    split_ifs <;> exact ⟨rfl, rfl⟩
  have hnone : s.observed.get m.id = none := h.only m.id fun hin => hid (h.producedKnown m.id hin)
  have hmem {x : AiMessage} (hx : BudgetMessage.ai x ∈ (s.messages.put (.ai m)).rows) :
      x ∈ s.aiMessages ∨ x = m := by
    rw [hrows, List.mem_append, List.mem_singleton] at hx
    rcases hx with hx | hx
    · exact .inl (mem_aiMessages.mpr hx)
    · exact .inr (BudgetMessage.ai.inj hx)
  refine {
    messagesKnown := fun x hx => ?_
    producedKnown := fun id hin => ?_
    producedNamed := ?_
    only := fun id hout => ?_
    risen := fun x hx hin => ?_
    unstarted := fun hstarted => absurd (h.unstarted hstarted).1 hactive
    cleared := nofun
    usage := fun _ => (hbudget "").2.trans (h.usage hactive)
    tallied := fun _ id hin => ?_
    before := fun _ x hx hout => ?_
    unseen := fun id hout => ?_
    responded := fun _ => ⟨m, ?_⟩ }
  · change x ∈ (s.messages.put (.ai m)).rows at hx
    rw [hrows, List.mem_append, List.mem_singleton] at hx
    rcases hx with hx | rfl
    · exact List.mem_append_left _ (h.messagesKnown x hx)
    · exact List.mem_append_right _ (List.mem_singleton_self _)
  · rcases List.mem_append.mp hin with hin | hin
    · exact List.mem_append_left _ (h.producedKnown id hin)
    · exact List.mem_append_right _ hin
  · intro hin
    rcases List.mem_append.mp hin with hin | hin
    · exact h.producedNamed hin
    · exact hslip (List.mem_singleton.mp hin).symm
  · exact h.only id fun hin => hout (List.mem_append_left _ hin)
  · rcases hmem (mem_aiMessages.mp hx) with hx | rfl
    · by_cases hold : x.id ∈ s.produced
      · exact h.risen x hx hold
      · change (observedOf s.observed x.id).1 ≤ _ ∧ (observedOf s.observed x.id).2 ≤ _
        simp [observedOf, h.only x.id hold]
    · change (observedOf s.observed x.id).1 ≤ _ ∧ (observedOf s.observed x.id).2 ≤ _
      simp [observedOf, hnone]
  · refine (hbudget id).1.trans ?_
    rcases List.mem_append.mp hin with hin | hin
    · exact h.tallied hactive id hin
    · rw [List.mem_singleton.mp hin, h.unseen m.id hid]
      change (0, 0) = observedOf s.observed m.id
      simp [observedOf, hnone]
  · rcases hmem (mem_aiMessages.mp hx) with hx | rfl
    · rw [(hbudget x.id).1]
      exact h.before hactive x hx fun hin => hout (List.mem_append_left _ hin)
    · exact absurd (List.mem_append_right _ (List.mem_singleton_self _)) hout
  · exact (hbudget id).1.trans (h.unseen id fun hin => hout (List.mem_append_left _ hin))
  · rw [lastAi?_eq_some]
    change (s.messages.put (.ai m)).rows.getLast? = _
    rw [hrows, List.getLast?_append, List.getLast?_singleton]
    rfl

theorem Accounted.addOther (h : s.Accounted) {id : String} (hphase : s.phase ≠ .responded)
    (hid : id ∉ s.known) : (s.addMessage (.other id)).Accounted := by
  have hrows := rows_addMessage h (m := .other id) hid
  have hmem {x : AiMessage} (hx : x ∈ (s.addMessage (.other id)).aiMessages) :
      x ∈ s.aiMessages := by
    have hin := mem_aiMessages.mp hx
    change _ ∈ (s.messages.put (.other id)).rows at hin
    rw [hrows, List.mem_append, List.mem_singleton] at hin
    exact mem_aiMessages.mpr (hin.resolve_right nofun)
  exact { h with
    messagesKnown := by
      intro x hx
      change x ∈ (s.messages.put (.other id)).rows at hx
      rw [hrows, List.mem_append, List.mem_singleton] at hx
      rcases hx with hx | rfl
      · exact List.mem_append_left _ (h.messagesKnown x hx)
      · exact List.mem_append_right _ (List.mem_singleton_self _)
    producedKnown := fun x hx => List.mem_append_left _ (h.producedKnown x hx)
    risen := fun x hx => h.risen x (hmem hx)
    before := fun hp x hx => h.before hp x (hmem hx)
    unseen := fun x hx => h.unseen x fun hin => hx (List.mem_append_left _ hin)
    responded := fun hp => absurd hp hphase }

theorem Accounted.remove (h : s.Accounted) (ids : List String) (hphase : s.phase ≠ .responded) :
    ({ s with messages := s.messages.keep fun m => m.id ∉ ids, checked := false } :
      BudgetRun).Accounted := by
  have hmem {x : AiMessage} (hx : BudgetMessage.ai x ∈ (s.messages.keep fun m => m.id ∉ ids).rows) :
      x ∈ s.aiMessages := mem_aiMessages.mpr (Table.mem_keep.mp hx).1
  exact { h with
    messagesKnown := fun x hx => h.messagesKnown x (Table.mem_keep.mp hx).1
    risen := fun x hx => h.risen x (hmem (mem_aiMessages.mp hx))
    before := fun hp x hx => h.before hp x (hmem (mem_aiMessages.mp hx))
    responded := fun hp => absurd hp hphase }

theorem Accounted.afterAgent (h : s.Accounted) (henabled : config.enabled = true) :
    ({ s with budget := s.budget.afterAgent config, phase := .idle, checked := false } :
      BudgetRun).Accounted := by
  have hbudget : s.budget.afterAgent config = s.budget.clearRunState := if_pos henabled
  rw [hbudget]
  exact { h with
    unstarted := fun hstarted => ⟨rfl, (h.unstarted hstarted).2⟩
    cleared := fun _ => ⟨rfl, rfl⟩
    usage := fun hp => absurd rfl hp
    tallied := fun hp => absurd rfl hp
    before := fun hp => absurd rfl hp
    unseen := fun _ _ => rfl
    responded := nofun }

theorem Accounted.raise (h : s.Accounted) {id : String} {m : AiMessage} {usage : Nat × Nat}
    (hget : s.messages.get id = some (.ai m)) (hin : m.usage.1 ≤ usage.1)
    (hout : m.usage.2 ≤ usage.2) (hslip : ¬ s.Slips config (.raise id usage)) :
    (s.raiseUsage m usage).Accounted := by
  have hid : (BudgetMessage.ai m).id = id := Table.key_of_get hget
  change m.id = id at hid
  have hproduced : m.id ∈ s.produced := hid ▸ not_not.mp hslip
  have hm : m ∈ s.aiMessages := mem_aiMessages.mpr (Table.mem_of_get hget)
  have hget' : s.messages.get (BudgetMessage.ai { m with usage := usage }).id = some (.ai m) := by
    change s.messages.get m.id = _
    rw [hid, hget]
  have hrows := Table.rows_put_of_get hget'
  have hmem {x : AiMessage} (hx : x ∈ (s.raiseUsage m usage).aiMessages) :
      x ∈ s.aiMessages ∨ x = { m with usage := usage } := by
    rcases Table.mem_put (mem_aiMessages.mp hx) with hx | hx
    · exact .inr (BudgetMessage.ai.inj hx)
    · exact .inl (mem_aiMessages.mpr hx)
  exact { h with
    messagesKnown := by
      intro x hx
      rcases Table.mem_put hx with rfl | hx
      · exact h.messagesKnown (.ai m) (mem_aiMessages.mp hm)
      · exact h.messagesKnown x hx
    risen := by
      intro x hx hxp
      rcases hmem hx with hx | rfl
      · exact h.risen x hx hxp
      · have hrisen := h.risen m hm hproduced
        exact ⟨hrisen.1.trans hin, hrisen.2.trans hout⟩
    before := by
      intro hp x hx hxp
      rcases hmem hx with hx | rfl
      · exact h.before hp x hx hxp
      · exact absurd hproduced hxp
    responded := by
      intro hp
      obtain ⟨last, hlast⟩ := h.responded hp
      rw [lastAi?_eq_some] at hlast
      by_cases hsame : last.id = m.id
      · refine ⟨{ m with usage := usage }, lastAi?_eq_some.mpr ?_⟩
        change (s.messages.put _).rows.getLast? = _
        rw [hrows, List.getLast?_map, hlast, Option.map_some]
        exact congrArg some (if_pos hsame)
      · refine ⟨last, lastAi?_eq_some.mpr ?_⟩
        change (s.messages.put _).rows.getLast? = _
        rw [hrows, List.getLast?_map, hlast, Option.map_some]
        exact congrArg some (if_neg hsame) }

/-- What `after_model` leaves in the dictionaries, and when it stops the run. -/
theorem apply_spec (henabled : config.enabled = true) {last : AiMessage}
    (hlast : s.lastAi? = some last) :
    let acc := s.aiMessages.foldl RunBudget.countMessage (s.budget.seen, s.budget.usage)
    let result := s.budget.apply config s.messages.rows
    result.1.seen = acc.1 ∧ result.1.usage = acc.2 ∧
      (result.2 = none ∨ ∃ msg, result.2 = some (RunBudget.hardStopMessage last msg)) ∧
      (acc.2.total ≠ 0 → config.hardStopThreshold ≤ (RunBudget.highestFraction config acc.2).1 →
        result.2 ≠ none) := by
  rw [lastAi?_eq_some] at hlast
  unfold RunBudget.apply aiMessages
  rw [hlast, henabled]
  dsimp only
  rw [if_pos rfl]
  split_ifs with htotal hstop hwarn
  · exact ⟨rfl, rfl, .inl rfl, fun hne => absurd htotal hne⟩
  · exact ⟨rfl, rfl, .inr ⟨_, rfl⟩, fun _ _ => nofun⟩
  · exact ⟨rfl, rfl, .inl rfl, fun _ hle => absurd hle hstop⟩
  · exact ⟨rfl, rfl, .inl rfl, fun _ hle => absurd hle hstop⟩

theorem Accounted.countable (h : s.Accounted) (hphase : s.phase ≠ .idle) :
    ∀ m ∈ s.aiMessages, Countable s.produced s.budget.seen s.observed m := by
  intro m hm
  refine ⟨fun hin => ⟨?_, h.risen m hm hin⟩, fun hout => h.before hphase m hm hout⟩
  intro he
  exact h.producedNamed (he ▸ hin)

theorem Accounted.look (h : s.Accounted) (hphase : s.phase ≠ .idle) :
    let acc := s.aiMessages.foldl RunBudget.countMessage (s.budget.seen, s.budget.usage)
    Tallied s.produced acc.1 acc.2 s.observedNow ∧
      (∀ id, id ∉ s.produced → observedOf acc.1 id = s.budget.counted id) ∧
      ∀ m ∈ s.aiMessages, m.id ∈ s.produced → observedOf s.observedNow m.id = m.usage :=
  Tallied.foldl ⟨h.usage hphase, h.tallied hphase, h.only⟩ (h.countable hphase) s.nodup_aiMessages

theorem afterModel_messages : (s.afterModel config).messages =
    match (s.budget.apply config s.messages.rows).2 with
    | none => s.messages
    | some m => s.messages.put (.ai m) := rfl

theorem mem_afterModel (henabled : config.enabled = true) {last : AiMessage}
    (hlast : s.lastAi? = some last) {x : BudgetMessage}
    (hx : x ∈ (s.afterModel config).messages.rows) :
    x ∈ s.messages.rows ∨ ∃ msg, x = .ai (RunBudget.hardStopMessage last msg) := by
  obtain ⟨-, -, hresult, -⟩ := apply_spec henabled hlast
  rw [afterModel_messages] at hx
  rcases hresult with hnone | ⟨msg, hsome⟩
  · rw [hnone] at hx
    exact .inl hx
  · rw [hsome] at hx
    rcases Table.mem_put hx with rfl | hx
    · exact .inr ⟨msg, rfl⟩
    · exact .inl hx

theorem exists_of_mem_afterModel (henabled : config.enabled = true) {last : AiMessage}
    (hlast : s.lastAi? = some last) {x : AiMessage} (hx : x ∈ (s.afterModel config).aiMessages) :
    ∃ y ∈ s.aiMessages, y.id = x.id ∧ y.usage = x.usage := by
  rcases mem_afterModel henabled hlast (mem_aiMessages.mp hx) with hx | ⟨msg, hmsg⟩
  · exact ⟨x, mem_aiMessages.mpr hx, rfl, rfl⟩
  · obtain rfl := BudgetMessage.ai.inj hmsg
    have hmem := List.mem_of_getLast? (lastAi?_eq_some.mp hlast)
    exact ⟨last, mem_aiMessages.mpr hmem, rfl, rfl⟩

theorem Accounted.afterModel (h : s.Accounted) (henabled : config.enabled = true)
    (hphase : s.phase = .responded) : (s.afterModel config).Accounted := by
  have hactive : s.phase ≠ .idle := by simp [hphase]
  obtain ⟨last, hlast⟩ := h.responded hphase
  obtain ⟨hseen, husage, -, -⟩ := apply_spec henabled hlast
  obtain ⟨htally, hothers, hnow⟩ := h.look hactive
  have hcounted (id : String) : (s.afterModel config).budget.counted id =
      observedOf (s.aiMessages.foldl RunBudget.countMessage (s.budget.seen, s.budget.usage)).1 id :=
    congrArg (observedOf · id) hseen
  refine {
    messagesKnown := fun x hx => ?_
    producedKnown := h.producedKnown
    producedNamed := h.producedNamed
    only := htally.only
    risen := fun x hx hin => ?_
    unstarted := fun hstarted => absurd (h.unstarted hstarted).1 hactive
    cleared := nofun
    usage := fun _ => husage.trans htally.usage_eq
    tallied := fun _ id hin => (hcounted id).trans (htally.seen_eq id hin)
    before := fun _ x hx hout => ?_
    unseen := fun id hout => ?_
    responded := nofun }
  · rcases mem_afterModel henabled hlast hx with hx | ⟨msg, rfl⟩
    · exact h.messagesKnown x hx
    · exact h.messagesKnown (.ai last) (List.mem_of_getLast? (lastAi?_eq_some.mp hlast))
  · obtain ⟨y, hy, hid, hsame⟩ := exists_of_mem_afterModel henabled hlast hx
    have hobserved : observedOf s.observedNow x.id = x.usage := by
      rw [← hid, ← hsame]
      exact hnow y hy (hid.symm ▸ hin)
    change (observedOf s.observedNow x.id).1 ≤ _ ∧ (observedOf s.observedNow x.id).2 ≤ _
    rw [hobserved]
    exact ⟨Nat.le_refl _, Nat.le_refl _⟩
  · obtain ⟨y, hy, hid, hsame⟩ := exists_of_mem_afterModel henabled hlast hx
    rw [hcounted, hothers x.id hout, ← hid, ← hsame]
    exact h.before hactive y hy (hid.symm ▸ hout)
  · rw [hcounted, hothers id fun hin => hout (h.producedKnown id hin)]
    exact h.unseen id hout

/-- A limit that is reached at a model call stops the run there. -/
theorem Accounted.stops (h : s.Accounted) (henabled : config.enabled = true)
    (hphase : s.phase = .responded) (hslip : ¬ s.Slips config .afterModel)
    (hreached : config.Reached (s.afterModel config).spent) {m : AiMessage}
    (hm : (s.afterModel config).lastAi? = some m) : m.toolCalls = [] := by
  have hactive : s.phase ≠ .idle := by simp [hphase]
  obtain ⟨last, hlast⟩ := h.responded hphase
  obtain ⟨-, -, hresult, hstops⟩ := apply_spec henabled hlast
  obtain ⟨htally, -, -⟩ := h.look hactive
  change config.Reached (usageOf s.observedNow) at hreached
  rw [lastAi?_eq_some] at hm
  rcases hresult with hnone | ⟨msg, hsome⟩
  · rw [afterModel_messages, hnone, lastAi?_eq_some.mp hlast, Option.some.injEq] at hm
    obtain rfl := BudgetMessage.ai.inj hm
    by_contra hcalls
    have hused : (usageOf s.observedNow).total = 0 := by
      by_contra htotal
      rw [← htally.usage_eq] at htotal hreached
      exact hstops htotal (hardStop_le_of_reached hreached) hnone
    have hzero := (usageOf_eq_zero hused).1
    have hthreshold : config.hardStopThreshold = 0 := by
      rw [hzero] at hreached
      exact threshold_eq_zero_of_reached hreached rfl rfl rfl
    exact hslip ⟨hthreshold, hused, by simp [hlast, hcalls]⟩
  · have hmem := List.mem_of_getLast? (lastAi?_eq_some.mp hlast)
    have hget : s.messages.get (BudgetMessage.ai (RunBudget.hardStopMessage last msg)).id =
        some (.ai last) := Table.mem_rows.mp hmem
    rw [afterModel_messages, hsome, Table.rows_put_of_get hget, List.getLast?_map, lastAi?_eq_some.mp hlast,
      Option.map_some, Option.some.injEq] at hm
    have hstopped : BudgetMessage.ai (RunBudget.hardStopMessage last msg) = .ai m :=
      (if_pos rfl).symm.trans hm
    obtain rfl := BudgetMessage.ai.inj hstopped
    rfl

def Sound (config : TokenBudgetConfig) (s : BudgetRun) : Prop :=
  s.Accounted ∧
    (s.checked = true → config.Reached s.spent → ∀ m, s.lastAi? = some m → m.toolCalls = [])

theorem Sound.step {event : BudgetEvent} (h : s.Sound config) (henabled : config.enabled = true)
    (hslip : ¬ s.Slips config event) (ht : s.step config event = some t) : t.Sound config := by
  obtain ⟨ha, -⟩ := h
  cases event with
  | beforeAgent =>
    obtain ⟨hphase, ht⟩ := Option.ite_none_right_eq_some.mp ht
    cases ht
    exact ⟨ha.beforeAgent henabled hphase hslip, nofun⟩
  | resume =>
    obtain ⟨⟨hphase, hstarted⟩, ht⟩ := Option.ite_none_right_eq_some.mp ht
    cases ht
    exact ⟨ha.resume hphase hstarted hslip, nofun⟩
  | respond m =>
    obtain ⟨⟨hphase, hid⟩, ht⟩ := Option.ite_none_right_eq_some.mp ht
    cases ht
    exact ⟨ha.respond hphase hid hslip, nofun⟩
  | raise id usage =>
    dsimp only [BudgetRun.step] at ht
    split at ht
    · next m hget =>
      obtain ⟨⟨-, hin, hout⟩, ht⟩ := Option.ite_none_right_eq_some.mp ht
      cases ht
      exact ⟨ha.raise hget hin hout hslip, nofun⟩
    · cases ht
  | afterModel =>
    obtain ⟨hphase, ht⟩ := Option.ite_none_right_eq_some.mp ht
    cases ht
    exact ⟨ha.afterModel henabled hphase,
      fun _ hreached m hm => ha.stops henabled hphase hslip hreached hm⟩
  | addOther id =>
    obtain ⟨⟨hphase, hid⟩, ht⟩ := Option.ite_none_right_eq_some.mp ht
    cases ht
    exact ⟨ha.addOther hphase hid, nofun⟩
  | remove ids =>
    obtain ⟨hphase, ht⟩ := Option.ite_none_right_eq_some.mp ht
    cases ht
    exact ⟨ha.remove ids hphase, nofun⟩
  | afterAgent =>
    obtain ⟨-, ht⟩ := Option.ite_none_right_eq_some.mp ht
    cases ht
    exact ⟨ha.afterAgent henabled, nofun⟩

theorem Sound.bounded (h : s.Sound config) : s.Bounded config := by
  refine ⟨h.2, ?_⟩
  by_cases hphase : s.phase = .idle
  · rw [usage_of_cleared (h.1.cleared hphase).2]
    exact ⟨Nat.zero_le _, Nat.zero_le _, Nat.zero_le _⟩
  · rw [h.1.usage hphase]
    exact ⟨Nat.le_refl _, Nat.le_refl _, Nat.le_refl _⟩

/-- In a run without slips the budget bounds what the run's messages use. -/
theorem budget_bounds_run (henabled : config.enabled = true)
    (h : Reachable (withoutSlips config) s) : s.Bounded config := by
  have hsound : s.Sound config := by
    refine h.invariant ?_ ?_
    · intro s hinit
      change (tokenBudget config).init s at hinit
      refine ⟨Accounted.init hinit, fun hchecked => ?_⟩
      rw [hinit.2.2.2.1] at hchecked
      cases hchecked
    · intro s event t _ hs ht
      exact hs.step henabled ht.1 ht.2
  exact hsound.bounded

end BudgetRun

namespace BudgetScript

def config : TokenBudgetConfig where
  enabled := true
  maxTokens := 1000
  maxInputTokens := none
  maxOutputTokens := none
  warnThreshold := 1
  hardStopThreshold := 1
  maxTokens_ge := by decide
  maxInputTokens_ge := nofun
  maxOutputTokens_ge := nofun
  warnThreshold_nonneg := by decide
  warn_le_hardStop := by decide
  hardStopThreshold_le := by decide

def start : BudgetRun :=
  ⟨⟨[.other "h1"], by decide⟩, .init, .idle, false, false, ["h1"], [], []⟩

def answer (id : String) (tokens : Nat) : AiMessage :=
  ⟨id, (tokens, 0), [.str "search"], .str "", [], []⟩

def once : List (BudgetRun → BudgetEvent) :=
  [.beforeAgent, .respond (answer "a1" 600), .afterModel, .respond (answer "a2" 500),
    .afterModel].map fun event _ => event

/-- The goal is not reached after the first turn, and the agent is invoked again. -/
def continued : List (BudgetRun → BudgetEvent) :=
  [.beforeAgent, .respond (answer "a1" 600), .afterModel, .afterAgent, .addOther "h2",
    .beforeAgent, .respond (answer "a2" 500), .afterModel].map fun event _ => event

/-- The tool calls of the last message, and what was spent. -/
def outcome (s : BudgetRun) : Bool × Nat × Option (List Value) :=
  (s.checked, s.spent.total, s.lastAi?.map (·.toolCalls))

end BudgetScript

theorem budget_bounds_run_once :
    ∃ s, Reachable (BudgetRun.withoutSlips BudgetScript.config) s ∧
      BudgetScript.outcome s = (true, 1100, some []) ∧ s.Bounded BudgetScript.config := by
  have hrun : (runScript (guarded (fun s event => ¬ s.Slips BudgetScript.config event)
      (BudgetRun.step BudgetScript.config)) BudgetScript.start BudgetScript.once).any (fun s =>
        decide (BudgetScript.outcome s = (true, 1100, some []))) = true := by
    decide +kernel
  obtain ⟨s, hs, h⟩ := exists_reachable_of_decide _ hrun
  have hinit : (BudgetRun.withoutSlips BudgetScript.config).init BudgetScript.start :=
    ⟨rfl, rfl, rfl, rfl, rfl, rfl, rfl⟩
  have hreached : Reachable (BudgetRun.withoutSlips BudgetScript.config) s := by
    apply hs.of_ofFn hinit
    intro s event t ht
    obtain ⟨hslip, ht⟩ := of_guarded ht
    exact ⟨hslip, ht⟩
  exact ⟨s, hreached, h, BudgetRun.budget_bounds_run rfl hreached⟩

/-- After the continuation the tokens of the first turn are not counted any more. -/
theorem continuation_exceeds_budget :
    ∃ s, Reachable (tokenBudget BudgetScript.config) s ∧
      BudgetScript.outcome s = (true, 1100, some [.str "search"]) ∧
      ¬ s.Bounded BudgetScript.config := by
  have hrun : (runScript (BudgetRun.step BudgetScript.config) BudgetScript.start
      BudgetScript.continued).any (fun s =>
        decide (BudgetScript.outcome s = (true, 1100, some [.str "search"]))) = true := by
    decide +kernel
  obtain ⟨s, hs, houtcome⟩ := exists_reachable_of_decide _ hrun
  have hinit : (tokenBudget BudgetScript.config).init BudgetScript.start :=
    ⟨rfl, rfl, rfl, rfl, rfl, rfl, rfl⟩
  refine ⟨s, hs.of_ofFn hinit fun _ _ _ ht => ht, houtcome, fun hbounded => ?_⟩
  simp only [BudgetScript.outcome, Prod.mk.injEq, Option.map_eq_some_iff] at houtcome
  obtain ⟨hchecked, hspent, m, hm, hcalls⟩ := houtcome
  have hreached : BudgetScript.config.Reached s.spent := by
    left
    rw [hspent]
    change (1 : Rat) * (1000 : Nat) ≤ (1100 : Nat)
    norm_num
  have hnone := hbounded.stopped hchecked hreached m hm
  rw [hnone] at hcalls
  cases hcalls

end Middlewares

end DeerFlow
