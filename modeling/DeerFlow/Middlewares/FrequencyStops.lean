import DeerFlow.Middlewares.LoopDetection

/-! The limit on how often a tool is called. The count of a tool is exact, and the message
that reaches its limit is stopped, as long as no warning ends the pass before the calls of
its message are counted. -/

namespace DeerFlow.Middlewares
open Transition

/-- The calls of the message are taken away. -/
def LoopTurn.Stopped (turn : LoopTurn) : Prop :=
  ∃ m, turn.applied = .stopped m ∧ m.toolCalls = []

/-- How often the messages call a tool. -/
def callsIn (log : List LoopTurn) (name : String) : Nat := (log.flatMap (·.names)).count name

theorem callsIn_append (log : List LoopTurn) (turn : LoopTurn) (name : String) :
    callsIn (log ++ [turn]) name = callsIn log name + turn.names.count name := by
  simp [callsIn]

/-- The first message that reaches a tool's limit is stopped. -/
def StopsAtLimit (config : LoopDetectionConfig) (log : List LoopTurn) : Prop :=
  ∀ earlier turn later, log = earlier ++ turn :: later → (∀ x ∈ earlier, ¬ x.Stopped) →
    ∀ name ≠ "", (config.effective name).2 ≤ callsIn (earlier ++ [turn]) name → turn.Stopped

/-- Until a message is stopped each tool's count is that of the calls seen. -/
def CountsCalls (loops : Loops) (log : List LoopTurn) : Prop :=
  (∀ x ∈ log, ¬ x.Stopped) → ∀ name ≠ "", loops.calls name = callsIn log name

namespace Loops
variable (config : LoopDetectionConfig)

/-- A warning for a set of calls leaves the tools of its message uncounted. -/
def WarnsUncounted (s : Loops) (callHash : String) (names : List String) : Prop :=
  config.warnThreshold ≤ s.repeats config callHash ∧
    s.repeats config callHash < config.hardLimit ∧ callHash ∉ s.warned ∧ ∃ name ∈ names, name ≠ ""

/-- The warning for a tool's frequency comes before the last named call of its message. -/
def WarnsBetween (s : Loops) (names : List String) : Prop :=
  let named := names.filter (· ≠ "")
  ∃ i < named.length - 1,
    (∀ n ∈ named.take (i + 1),
      s.calls n + (named.take (i + 1)).count n < (config.effective n).2) ∧
    let name := named.getD i ""
    (config.effective name).1 ≤ s.calls name + (named.take (i + 1)).count name ∧
      name ∉ s.toolFreqWarned

instance (s : Loops) (callHash : String) (names : List String) :
    Decidable (s.WarnsUncounted config callHash names) :=
  inferInstanceAs (Decidable (_ ∧ _ ∧ _ ∧ _))

instance (s : Loops) (names : List String) : Decidable (s.WarnsBetween config names) :=
  inferInstanceAs (Decidable (∃ i < (names.filter (· ≠ "")).length - 1, _ ∧ _ ∧ _))

section Count
variable {config} {s : Loops} {name : String} {names : List String}

@[simp] theorem calls_addCall (s : Loops) (name n : String) :
    (s.addCall name).calls n = s.calls n + [name].count n := by
  unfold addCall calls
  rw [Dict.get_set, List.count_singleton]
  by_cases h : n = name
  · simp [h]
  · have hne : ¬ name = n := fun he => h he.symm
    simp [h, hne]

theorem count_cons_eq (name n : String) (names : List String) :
    (name :: names).count n = [name].count n + names.count n := by
  rw [← List.count_append, List.singleton_append]

theorem WarnsBetween.of_addCall (hname : name ≠ "")
    (hunder : s.calls name + 1 < (config.effective name).2)
    (h : (s.addCall name).WarnsBetween config names) : s.WarnsBetween config (name :: names) := by
  obtain ⟨i, hi, hlimits, hwarn, hfresh⟩ := h
  have hnamed : (name :: names).filter (· ≠ "") = name :: names.filter (· ≠ "") := by
    simp [hname]
  rw [WarnsBetween, hnamed]
  refine ⟨i + 1, Nat.add_lt_of_lt_sub hi, ?_, ?_, hfresh⟩
  · intro n hn
    rw [List.take_succ_cons] at hn ⊢
    rw [count_cons_eq]
    by_cases hlater : n ∈ (names.filter (· ≠ "")).take (i + 1)
    · have hlimit := hlimits n hlater
      rw [calls_addCall] at hlimit
      omega
    · obtain rfl := (List.mem_cons.mp hn).resolve_right hlater
      rw [List.count_eq_zero.mpr hlater, List.count_singleton_self]
      exact hunder
  · rw [List.getD_cons_succ, List.take_succ_cons, count_cons_eq]
    rw [calls_addCall] at hwarn
    omega

/-- A tool that is warned of before its limit ends the pass, unless no named call is left. -/
theorem WarnsBetween.of_warning (hname : name ≠ "")
    (hunder : s.calls name + 1 < (config.effective name).2)
    (hwarn : (config.effective name).1 ≤ s.calls name + 1) (hfresh : name ∉ s.toolFreqWarned)
    (hrest : names.filter (· ≠ "") ≠ []) : s.WarnsBetween config (name :: names) := by
  have hnamed : (name :: names).filter (· ≠ "") = name :: names.filter (· ≠ "") := by
    simp [hname]
  rw [WarnsBetween, hnamed]
  refine ⟨0, List.length_pos_iff.mpr hrest, ?_, ?_, hfresh⟩
  · intro n hn
    obtain rfl : n = name := by simpa using hn
    simpa using hunder
  · simpa using hwarn

theorem countCalls_spec (hunder : ∀ n ≠ "", s.calls n < (config.effective n).2)
    (hslip : ¬ s.WarnsBetween config names) :
    (∃ text, (s.countCalls config names).2 = .hardStop text) ∨
      ∀ n ≠ "", (s.countCalls config names).1.calls n = s.calls n + names.count n ∧
        s.calls n + names.count n < (config.effective n).2 := by
  induction names generalizing s with
  | nil => exact .inr fun n hn => ⟨rfl, hunder n hn⟩
  | cons name names ih =>
    rw [countCalls]
    by_cases hname : name = ""
    · rw [if_pos hname]
      have hskip : ¬ s.WarnsBetween config names := by
        simpa [WarnsBetween, hname] using hslip
      refine (ih hunder hskip).imp_right fun hcount n hn => ?_
      have hne : name ≠ n := hname ▸ hn.symm
      rw [List.count_cons_of_ne hne]
      exact hcount n hn
    rw [if_neg hname]
    have hadd : (s.addCall name).calls name = s.calls name + 1 := by simp
    have hunder' (hlimit : ¬ (config.effective name).2 ≤ (s.addCall name).calls name) :
        ∀ n ≠ "", (s.addCall name).calls n < (config.effective n).2 := by
      intro n hn
      by_cases hsame : n = name
      · subst hsame
        omega
      · have hother : (s.addCall name).calls n = s.calls n := by
          have hne : ¬ name = n := fun he => hsame he.symm
          simp [hne]
        rw [hother]
        exact hunder n hn
    dsimp only
    split_ifs with hlimit hwarn
    · exact .inl ⟨_, rfl⟩
    · have hlast : names.filter (· ≠ "") = [] := by
        by_contra hrest
        exact hslip (.of_warning hname (by omega) (by omega) hwarn.2 hrest)
      refine .inr fun n hn => ?_
      have hnone : names.count n = 0 := by
        rw [List.count_eq_zero]
        intro hmem
        have hmem' : n ∈ names.filter (· ≠ "") := by simp [hmem, hn]
        rw [hlast] at hmem'
        cases hmem'
      have hlimits := hunder' hlimit n hn
      rw [count_cons_eq, hnone]
      rw [calls_addCall] at hlimits
      exact ⟨calls_addCall s name n, hlimits⟩
    · have hnext : ¬ (s.addCall name).WarnsBetween config names :=
        fun h => hslip (h.of_addCall hname (by omega))
      refine (ih (hunder' hlimit) hnext).imp_right fun hcount n hn => ?_
      rw [count_cons_eq, ← Nat.add_assoc, ← calls_addCall]
      exact hcount n hn

theorem track_spec {callHash : String} (hunder : ∀ n ≠ "", s.calls n < (config.effective n).2)
    (huncounted : ¬ s.WarnsUncounted config callHash names)
    (hbetween : ¬ s.WarnsBetween config names) :
    (∃ text, (s.track config callHash names).2 = .hardStop text) ∨
      ∀ n ≠ "", (s.track config callHash names).1.calls n = s.calls n + names.count n ∧
        s.calls n + names.count n < (config.effective n).2 := by
  rw [track]
  split_ifs with hstop hwarn
  · exact .inl ⟨_, rfl⟩
  · refine .inr fun n hn => ?_
    have hfresh : callHash ∉ s.warned := by
      have hpos : 0 < s.repeats config callHash := config.warnThreshold_ge.trans hwarn.1
      intro hmem
      refine hwarn.2 (List.mem_filter.mpr ⟨hmem, ?_⟩)
      exact decide_eq_true (List.count_pos_iff.mp hpos)
    have hnone : names.count n = 0 := by
      rw [List.count_eq_zero]
      exact fun hmem => huncounted ⟨hwarn.1, not_le.mp hstop, hfresh, n, hmem, hn⟩
    rw [hnone]
    exact ⟨rfl, hunder n hn⟩
  · exact countCalls_spec (s := s.remember config callHash) hunder hbetween

end Count

end Loops

theorem LoopDetectionConfig.effective_pos (config : LoopDetectionConfig) (name : String) :
    0 < (config.effective name).2 := by
  rw [LoopDetectionConfig.effective]
  cases hget : config.toolFreqOverrides.get name with
  | none =>
    have hwarn := config.toolFreqWarn_ge
    have hhard := config.toolFreqWarn_le_hard
    show 0 < config.toolFreqHardLimit
    omega
  | some limits =>
    obtain ⟨hwarn, hhard⟩ := config.overrides_ge _ (Dict.mem_of_get hget)
    exact Nat.lt_of_lt_of_le hwarn hhard

section Log
variable {config : LoopDetectionConfig} {loops : Loops} {log : List LoopTurn}

theorem stopsAtLimit_nil : StopsAtLimit config [] := by
  intro earlier turn later h
  exact absurd h.symm (List.append_ne_nil_of_right_ne_nil _ (List.cons_ne_nil _ _))

theorem StopsAtLimit.append {turn : LoopTurn} (h : StopsAtLimit config log)
    (hturn : (∀ x ∈ log, ¬ x.Stopped) → ∀ name ≠ "",
      (config.effective name).2 ≤ callsIn (log ++ [turn]) name → turn.Stopped) :
    StopsAtLimit config (log ++ [turn]) := by
  intro earlier x later heq hrunning name hname hlimit
  rcases List.eq_nil_or_concat later with rfl | ⟨front, last, rfl⟩
  · obtain ⟨rfl, hlast⟩ := List.append_inj' heq rfl
    obtain rfl := List.singleton_inj.mp hlast
    exact hturn hrunning name hname hlimit
  · have hsplit : log ++ [turn] = (earlier ++ x :: front) ++ [last] := by
      simpa using heq
    obtain ⟨rfl, -⟩ := List.append_inj' hsplit rfl
    exact h earlier x front rfl hrunning name hname hlimit

/-- What is tracked of a thread counts the calls of its messages, each tool's under its limit. -/
def Counted (config : LoopDetectionConfig) (loops : Loops) (log : List LoopTurn) : Prop :=
  (∀ x ∈ log, ¬ x.Stopped) → ∀ name ≠ "", loops.calls name = callsIn log name ∧
    callsIn log name < (config.effective name).2

theorem counted_empty (config : LoopDetectionConfig) : Counted config .empty [] :=
  fun _ name _ => ⟨rfl, config.effective_pos name⟩

/-- One more message: it is stopped, or all its calls are counted and under their limits. -/
theorem Counted.track {last : AiMessage} {callHash : String} (h : Counted config loops log)
    (huncounted : ¬ loops.WarnsUncounted config callHash (last.toolCalls.map nameOfCall))
    (hbetween : ¬ loops.WarnsBetween config (last.toolCalls.map nameOfCall))
    (hrunning : ∀ x ∈ log, ¬ x.Stopped) :
    let names := last.toolCalls.map nameOfCall
    let result := loops.track config callHash names
    let turn : LoopTurn := ⟨names, .of last result.2⟩
    turn.Stopped ∨ ∀ name ≠ "", result.1.calls name = callsIn (log ++ [turn]) name ∧
      callsIn (log ++ [turn]) name < (config.effective name).2 := by
  intro names result turn
  have hcounts := h hrunning
  have hunder : ∀ name ≠ "", loops.calls name < (config.effective name).2 := by
    intro name hname
    rw [(hcounts name hname).1]
    exact (hcounts name hname).2
  rcases Loops.track_spec hunder huncounted hbetween with ⟨text, htext⟩ | hcounted
  · refine .inl ⟨RunBudget.hardStopMessage last text, ?_, rfl⟩
    show Applied.of last result.2 = _
    rw [show result.2 = .hardStop text from htext, Applied.of]
  · refine .inr fun name hname => ?_
    rw [callsIn_append, ← (hcounts name hname).1]
    exact hcounted name hname

end Log

section Touch
variable {config : LoopDetectionConfig} {tracked : Dict Loops} {thread other : String}
  {loops loops' : Loops}

theorem touch_sublist (config : LoopDetectionConfig) (tracked : Dict Loops) (thread : String)
    (loops : Loops) : ∃ rest : Dict Loops, rest.Sublist tracked ∧ thread ∉ rest.keys ∧
      (touch config tracked thread loops).Sublist (rest ++ [(thread, loops)]) := by
  unfold touch
  split_ifs with hthread
  · refine ⟨tracked.pop thread, List.filter_sublist, ?_, List.Sublist.refl _⟩
    simp [Dict.pop, Dict.keys]
  · have hnew : thread ∉ tracked.keys := fun h => hthread (Dict.mem_keys.mp h)
    exact ⟨tracked, List.Sublist.refl _, hnew, List.drop_sublist _ _⟩

theorem keys_touch (h : tracked.keys.Nodup) :
    (touch config tracked thread loops).keys.Nodup := by
  obtain ⟨rest, hrest, hnew, htouch⟩ := touch_sublist config tracked thread loops
  have hkeys : (rest ++ [(thread, loops)]).keys.Nodup := by
    rw [Dict.keys, List.map_append]
    refine List.Nodup.append ((hrest.map _).nodup h) (List.nodup_singleton _) ?_
    exact List.disjoint_singleton.mpr hnew
  exact (htouch.map _).nodup hkeys

theorem get_touch (h : tracked.keys.Nodup)
    (hget : (touch config tracked thread loops).get other = some loops') :
    other = thread ∧ loops' = loops ∨ other ≠ thread ∧ tracked.get other = some loops' := by
  obtain ⟨rest, hrest, hnew, htouch⟩ := touch_sublist config tracked thread loops
  have hmem := htouch.subset (Dict.mem_of_get hget)
  rcases List.mem_append.mp hmem with hold | hthread
  · have hne : other ≠ thread := fun he => hnew (he ▸ List.mem_map_of_mem hold)
    exact .inr ⟨hne, Dict.get_of_mem h (hrest.subset hold)⟩
  · cases List.mem_singleton.mp hthread
    exact .inl ⟨rfl, rfl⟩

end Touch

namespace LoopDetection
variable {config : LoopDetectionConfig} {hashToolCalls : List Value → String} {s t : LoopDetection}

/-- A pass that ends with a warning before the calls of its message are counted. -/
def Slips (config : LoopDetectionConfig) (hashToolCalls : List Value → String)
    (s : LoopDetection) : LoopEvent → Prop
  | .afterModel thread messages => ∃ last ∈ lastCalls messages,
    (s.loopsOf thread).WarnsUncounted config (hashToolCalls last.toolCalls)
      (last.toolCalls.map nameOfCall) ∨
    (s.loopsOf thread).WarnsBetween config (last.toolCalls.map nameOfCall)
  | .reset _ => False

instance (config : LoopDetectionConfig) (hashToolCalls : List Value → String)
    (s : LoopDetection) (e : LoopEvent) : Decidable (s.Slips config hashToolCalls e) := by
  cases e <;> unfold Slips <;> infer_instance

structure Exact (config : LoopDetectionConfig) (s : LoopDetection) : Prop where
  keys : s.tracked.keys.Nodup
  stops : ∀ thread, StopsAtLimit config (s.log thread)
  counted : ∀ thread loops, s.tracked.get thread = some loops →
    Counted config loops (s.log thread)

theorem Exact.turns (h : s.Exact config) (thread : String) :
    StopsAtLimit config (s.turnsOf thread) ∧
      Counted config (s.loopsOf thread) (s.turnsOf thread) := by
  unfold turnsOf loopsOf Dict.contains
  cases hget : s.tracked.get thread with
  | none => exact ⟨stopsAtLimit_nil, counted_empty config⟩
  | some loops => exact ⟨h.stops thread, h.counted thread loops hget⟩

theorem Exact.afterModel (h : s.Exact config) {thread : String} {last : AiMessage}
    (huncounted : ¬ (s.loopsOf thread).WarnsUncounted config (hashToolCalls last.toolCalls)
      (last.toolCalls.map nameOfCall))
    (hbetween : ¬ (s.loopsOf thread).WarnsBetween config (last.toolCalls.map nameOfCall)) :
    (s.afterModel config hashToolCalls thread last).Exact config := by
  obtain ⟨hstops, hcounted⟩ := h.turns thread
  have hturn := hcounted.track huncounted hbetween
  refine ⟨keys_touch h.keys, fun other => ?_, fun other loops' hget => ?_⟩
  · show StopsAtLimit config (Function.update s.log thread _ other)
    by_cases hother : other = thread
    · rw [hother, Function.update_self]
      refine hstops.append fun hrunning name hname hlimit => ?_
      exact (hturn hrunning).resolve_right fun hcounts =>
        not_lt.mpr hlimit (hcounts name hname).2
    · rw [Function.update_of_ne hother]
      exact h.stops other
  · show Counted config loops' (Function.update s.log thread _ other)
    rcases get_touch h.keys hget with ⟨rfl, rfl⟩ | ⟨hother, hold⟩
    · rw [Function.update_self]
      intro hrunning
      have hbefore : ∀ x ∈ s.turnsOf other, ¬ x.Stopped :=
        fun x hx => hrunning x (List.mem_append_left _ hx)
      exact (hturn hbefore).resolve_left
        (hrunning _ (List.mem_append_right _ (List.mem_singleton.mpr rfl)))
    · rw [Function.update_of_ne hother]
      exact h.counted other loops' hold

theorem Exact.reset (h : s.Exact config) (thread : String) :
    Exact config { s with tracked := if thread = "" then [] else s.tracked.pop thread } := by
  split_ifs
  · exact ⟨List.nodup_nil, h.stops, fun _ _ hget => by cases hget⟩
  · have hsub : (s.tracked.pop thread).Sublist s.tracked := List.filter_sublist
    refine ⟨(hsub.map _).nodup h.keys, h.stops, fun other loops hget => ?_⟩
    have hmem := hsub.subset (Dict.mem_of_get hget)
    exact h.counted other loops (Dict.get_of_mem h.keys hmem)

theorem Exact.step {e : LoopEvent} (h : s.Exact config) (hslip : ¬ s.Slips config hashToolCalls e)
    (hstep : s.step config hashToolCalls e = some t) : t.Exact config := by
  cases e with
  | afterModel thread messages =>
    cases hstep
    cases hlast : lastCalls messages with
    | none => exact h
    | some last =>
      have hnot := fun hwarns => hslip ⟨last, hlast, hwarns⟩
      obtain ⟨huncounted, hbetween⟩ := not_or.mp hnot
      exact h.afterModel huncounted hbetween
  | reset thread =>
    cases hstep
    exact h.reset thread

/-- In each thread, since it is tracked, the message that reaches a tool's limit is stopped, and
until a message is stopped each count is that of the calls seen. -/
def FrequencyExact (config : LoopDetectionConfig) (s : LoopDetection) : Prop :=
  ∀ thread, StopsAtLimit config (s.log thread) ∧
    ∀ loops, s.tracked.get thread = some loops → CountsCalls loops (s.log thread)

/-- The frequency layer is exact in every run in which no warning ends a pass too early. -/
theorem frequencyExact_of_reachable
    (h : Reachable ((loopDetection config hashToolCalls).when fun s e =>
      ¬ s.Slips config hashToolCalls e) s) : s.FrequencyExact config := by
  have hexact : s.Exact config := by
    refine h.invariant (I := Exact config) ?_ ?_
    · rintro s rfl
      exact ⟨List.nodup_nil, fun _ => stopsAtLimit_nil, fun _ _ hget => by cases hget⟩
    · rintro s e t - hs ⟨hslip, hstep⟩
      exact hs.step hslip hstep
  refine fun thread => ⟨hexact.stops thread, fun loops hget hrunning name hname => ?_⟩
  exact (hexact.counted thread loops hget hrunning name hname).1

end LoopDetection

namespace LoopScript

theorem one_le : 1 ≤ 1 := le_rfl

def config (warnThreshold hardLimit : Nat) (hwarn : 1 ≤ warnThreshold)
    (hhard : warnThreshold ≤ hardLimit) : LoopDetectionConfig where
  warnThreshold := warnThreshold
  hardLimit := hardLimit
  windowSize := 20
  maxTrackedThreads := 100
  toolFreqWarn := 1
  toolFreqHardLimit := 1
  toolFreqOverrides := []
  warnThreshold_ge := hwarn
  warn_le_hard := hhard
  windowSize_ge := by decide
  maxTrackedThreads_ge := by decide
  toolFreqWarn_ge := one_le
  toolFreqWarn_le_hard := one_le
  overrides_ge := by decide

def answer : BudgetMessage :=
  .ai ⟨"m", (0, 0), [.dict [("name", .str "bash"), ("args", .dict [])]], .str "", [], []⟩

def script : List (LoopDetection → LoopEvent) := [fun _ => .afterModel "t" [answer]]

def outcome (s : LoopDetection) : List (List String × Bool) :=
  (s.log "t").map fun turn => (turn.names, match turn.applied with
    | .stopped _ => true
    | _ => false)

end LoopScript

theorem frequencyExact_of_stopped_call :
    ∃ s, LoopScript.outcome s = [(["bash"], true)] ∧
      s.FrequencyExact (LoopScript.config 3 5 (by decide) (by decide)) := by
  have hrun : (runScript (guarded (fun s e => ¬ LoopDetection.Slips
      (LoopScript.config 3 5 (by decide) (by decide)) (fun _ => "hash") s e)
      (LoopDetection.step (LoopScript.config 3 5 (by decide) (by decide)) fun _ => "hash"))
      ⟨[], fun _ => []⟩ LoopScript.script).any (fun s =>
        decide (LoopScript.outcome s = [(["bash"], true)])) = true := by
    decide +kernel
  obtain ⟨s, hs, h⟩ := exists_reachable_of_decide _ hrun
  exact ⟨s, h,
    LoopDetection.frequencyExact_of_reachable (when_of_guarded hs)⟩

/-- With both thresholds of the first warning at one the first call is warned of, not counted. -/
theorem warned_call_is_not_counted :
    ¬ ∀ config hashToolCalls s, Reachable (loopDetection config hashToolCalls) s →
      s.FrequencyExact config := by
  intro hall
  have hrun : (runScript
      (LoopDetection.step (LoopScript.config 1 5 (by decide) (by decide)) fun _ => "hash")
      ⟨[], fun _ => []⟩ LoopScript.script).any (fun s =>
        decide (LoopScript.outcome s = [(["bash"], false)])) = true := by
    decide +kernel
  obtain ⟨s, hs, h⟩ := exists_reachable_of_decide _ hrun
  have hexact := (hall _ _ s hs "t").1
  have houtcome := h
  obtain ⟨turn, hlog, hturn⟩ := List.map_eq_singleton_iff.mp houtcome
  obtain ⟨hnames, hrunning⟩ := Prod.ext_iff.mp hturn
  have hstopped := hexact [] turn [] hlog (fun _ hx => by cases hx) "bash" (by decide)
    (by simp only [callsIn, List.nil_append, List.flatMap_singleton]
        rw [show turn.names = ["bash"] from hnames]
        decide)
  obtain ⟨m, hm, -⟩ := hstopped
  simp [hm] at hrunning

end DeerFlow.Middlewares
