import DeerFlow.Middlewares.ToolProgress

/-! The phase of a tool as a function of its results: what the results since the thread's run began
say, and that the guard's states follow them through parallel calls, resets and evictions. -/

namespace DeerFlow.Middlewares
open Transition

section Property
variable (config : ToolProgressConfig) (wordSet : String → WordSet)

namespace ToolProgressConfig

/-- Of a tool's results, the newest first, the word sets of those that were no problem. -/
def goodWords : List ToolOutcome → List WordSet
  | [] => []
  | o :: earlier =>
    if config.isProblem wordSet (goodWords earlier) o then goodWords earlier
    else goodWords earlier ++ [wordSet o.content]

def problemAfter (earlier : List ToolOutcome) (o : ToolOutcome) : Bool :=
  config.isProblem wordSet (config.goodWords wordSet earlier) o

def trailingProblems : List ToolOutcome → Nat
  | [] => 0
  | o :: earlier =>
    if config.problemAfter wordSet earlier o then trailingProblems earlier + 1 else 0

/-- The model cannot mend this result, and it is a stop signal or one problem too many. -/
def blocksAfter (earlier : List ToolOutcome) (o : ToolOutcome) : Bool :=
  !o.result.recoverableByModel && (decide (o.result.recommendedNextAction = .stop) ||
    config.problemAfter wordSet earlier o &&
      decide (config.stagnationThreshold + config.warnEscalationCount ≤
        config.trailingProblems wordSet earlier + 1))

def blocks : List ToolOutcome → Bool
  | [] => false
  | o :: earlier => config.blocksAfter wordSet earlier o || blocks earlier

def expectedPhase (outcomes : List ToolOutcome) : ToolPhase :=
  if config.blocks wordSet outcomes then .blocked
  else if config.stagnationThreshold ≤ config.trailingProblems wordSet outcomes then .warned
  else .active

end ToolProgressConfig

/-- What has happened since the thread's last `before_agent`, or since it was last evicted. -/
def recordsSince (thread : String) (log : List ProgressRecord) : List ProgressRecord :=
  log.takeWhile fun r => r ≠ .beforeAgent thread ∧ r ≠ .evicted thread

def ProgressRecord.outcomeOf? (thread tool : String) : ProgressRecord → Option ToolOutcome
  | outcome t u o => if t = thread ∧ u = tool then some o else none
  | beforeAgent _ | evicted _ => none

/-- The results of the tool on the thread, the newest first. -/
def outcomesSince (thread tool : String) (log : List ProgressRecord) : List ToolOutcome :=
  (recordsSince thread log).filterMap (ProgressRecord.outcomeOf? thread tool)

structure ProgressState.Accurate (s : ProgressState) : Prop where
  phases : ∀ thread tool, (s.toolState thread tool).phase =
    config.expectedPhase wordSet (outcomesSince thread tool s.log)
  gated : ∀ c ∈ s.calls, c.phaseAtStart = .blocked → ∃ text, c.pc = .intercepted text
  bounded : s.threads.rows.length ≤ config.maxTrackedThreads
  pending : ∀ p ∈ s.pending.rows, s.tracked p.key.1 = true ∧ p.hints.length ≤ 3

end Property

section Assessment
variable {config : ToolProgressConfig} {wordSet : String → WordSet}

theorem lastThree_lastThree {α : Type} (xs : List α) : lastThree (lastThree xs) = lastThree xs := by
  unfold lastThree
  rw [List.drop_drop, List.length_drop]
  congr 1
  omega

theorem lastThree_concat {α : Type} (xs : List α) (x : α) :
    lastThree (lastThree xs ++ [x]) = lastThree (xs ++ [x]) := by
  have hsuffix : lastThree xs ++ [x] = (xs ++ [x]).drop (xs.length - 3) := by
    rw [List.drop_append_of_le_length (Nat.sub_le _ _)]
    rfl
  rw [hsuffix]
  unfold lastThree
  rw [List.drop_drop, List.length_drop, List.length_append, List.length_singleton]
  congr 1
  omega

namespace ToolProgressConfig

theorem isProblem_lastThree (recent : List WordSet) (o : ToolOutcome) :
    config.isProblem wordSet (lastThree recent) o = config.isProblem wordSet recent o := by
  unfold isProblem isNearDuplicate
  rw [lastThree_lastThree]

theorem blockReason_ne (m : ToolResultMeta) : m.blockReason ≠ "" := by
  unfold ToolResultMeta.blockReason
  split_ifs <;> decide

/-- The state of a tool says what the results it has seen say. -/
structure Follows (config : ToolProgressConfig) (wordSet : String → WordSet)
    (state : ToolPhaseState) (outcomes : List ToolOutcome) : Prop where
  phase : state.phase = config.expectedPhase wordSet outcomes
  reason : state.phase = .blocked → ∃ text, state.blockReason = some text ∧ text ≠ ""
  count : state.phase ≠ .blocked →
    state.consecutiveProblems = config.trailingProblems wordSet outcomes
  recent : state.phase ≠ .blocked →
    state.recentWordSets = lastThree (config.goodWords wordSet outcomes)

theorem follows_init : config.Follows wordSet .init [] where
  phase := by
    have hpos := config.stagnationThreshold_pos
    have hlt : ¬ config.stagnationThreshold ≤ 0 := by omega
    simp [ToolPhaseState.init, expectedPhase, blocks, trailingProblems, hlt]
  reason := fun hblocked => by simp [ToolPhaseState.init] at hblocked
  count := fun _ => rfl
  recent := fun _ => rfl

theorem Follows.not_blocks {state : ToolPhaseState} {outcomes : List ToolOutcome}
    (h : config.Follows wordSet state outcomes) (hphase : state.phase ≠ .blocked) :
    config.blocks wordSet outcomes = false := by
  rw [← Bool.not_eq_true]
  intro hblocks
  apply hphase
  rw [h.phase, expectedPhase, if_pos hblocks]

theorem Follows.problem {state : ToolPhaseState} {outcomes : List ToolOutcome}
    (h : config.Follows wordSet state outcomes) (hphase : state.phase ≠ .blocked)
    (o : ToolOutcome) : config.isProblem wordSet state.recentWordSets o =
      config.problemAfter wordSet outcomes o := by
  rw [h.recent hphase, isProblem_lastThree]
  rfl

theorem follows_problem {state : ToolPhaseState} {outcomes : List ToolOutcome} {o : ToolOutcome}
    (h : config.Follows wordSet state outcomes) (hphase : state.phase ≠ .blocked)
    (hproblem : config.problemAfter wordSet outcomes o = true)
    (hopen : config.blocksAfter wordSet outcomes o = false) {phase : ToolPhase}
    (hnew : phase = if config.stagnationThreshold ≤ state.consecutiveProblems + 1 then .warned
      else .active) :
    config.Follows wordSet
      { state with phase := phase, consecutiveProblems := state.consecutiveProblems + 1 }
      (o :: outcomes) := by
  have hcount : config.trailingProblems wordSet (o :: outcomes) = state.consecutiveProblems + 1 := by
    rw [trailingProblems, if_pos hproblem, h.count hphase]
  have hblocks : config.blocks wordSet (o :: outcomes) = false := by
    rw [blocks, hopen, h.not_blocks hphase]
    rfl
  refine ⟨?_, fun hblocked => ?_, fun _ => hcount.symm, fun _ => ?_⟩
  · simp only [expectedPhase, hblocks, hcount, Bool.false_eq_true, if_false]
    exact hnew
  · have hcontra : phase = .blocked := hblocked
    rw [hnew] at hcontra
    split_ifs at hcontra
  · have hgood : config.goodWords wordSet (o :: outcomes) = config.goodWords wordSet outcomes := by
      rw [goodWords]
      exact if_pos hproblem
    rw [hgood]
    exact h.recent hphase

theorem follows_blocked {state : ToolPhaseState} {outcomes : List ToolOutcome} {o : ToolOutcome}
    (hblocks : config.blocksAfter wordSet outcomes o = true) (count : Nat) :
    config.Follows wordSet
      { state with
        phase := .blocked, consecutiveProblems := count
        blockReason := some o.result.blockReason } (o :: outcomes) where
  phase := by simp [expectedPhase, blocks, hblocks]
  reason := fun _ => ⟨_, rfl, blockReason_ne _⟩
  count := fun hphase => absurd rfl hphase
  recent := fun hphase => absurd rfl hphase

theorem follows_good {state : ToolPhaseState} {outcomes : List ToolOutcome} {o : ToolOutcome}
    (h : config.Follows wordSet state outcomes) (hphase : state.phase ≠ .blocked)
    (hproblem : config.problemAfter wordSet outcomes o = false)
    (hopen : config.blocksAfter wordSet outcomes o = false) :
    config.Follows wordSet
      { state with
        consecutiveProblems := 0, phase := .active
        recentWordSets := lastThree (state.recentWordSets ++ [wordSet o.content]) }
      (o :: outcomes) := by
  have hcount : config.trailingProblems wordSet (o :: outcomes) = 0 := by
    rw [trailingProblems, if_neg (by simp [hproblem])]
  have hblocks : config.blocks wordSet (o :: outcomes) = false := by
    rw [blocks, hopen, h.not_blocks hphase]
    rfl
  have hpos := config.stagnationThreshold_pos
  have hlt : ¬ config.stagnationThreshold ≤ 0 := by omega
  refine ⟨?_, nofun, fun _ => hcount.symm, fun _ => ?_⟩
  · simp [expectedPhase, hblocks, hcount, hlt]
  · have hgood : config.goodWords wordSet (o :: outcomes) =
        config.goodWords wordSet outcomes ++ [wordSet o.content] := by
      rw [goodWords]
      exact if_neg (by simpa [problemAfter] using hproblem)
    rw [hgood]
    change lastThree (state.recentWordSets ++ [wordSet o.content]) = _
    rw [h.recent hphase, lastThree_concat]

theorem Follows.assess {state : ToolPhaseState} {outcomes : List ToolOutcome}
    (h : config.Follows wordSet state outcomes) (o : ToolOutcome) :
    config.Follows wordSet (config.assessAndTransition wordSet state o).1 (o :: outcomes) := by
  unfold assessAndTransition
  by_cases hblocked : state.phase = .blocked
  · rw [if_pos hblocked]
    have hblocks : config.blocks wordSet outcomes = true := by
      rw [← Bool.not_eq_false]
      intro hno
      have hphase := h.phase
      rw [hblocked, expectedPhase, hno] at hphase
      split_ifs at hphase <;> contradiction
    refine ⟨?_, h.reason, fun hphase => absurd hblocked hphase, fun hphase => absurd hblocked hphase⟩
    simp [hblocked, expectedPhase, blocks, hblocks]
  · rw [if_neg hblocked]
    dsimp only
    rw [h.problem hblocked]
    have hopen (hcount : config.problemAfter wordSet outcomes o = true →
        o.result.recoverableByModel = false →
          state.consecutiveProblems + 1 < config.stagnationThreshold + config.warnEscalationCount)
        (hstop : ¬ (o.result.recoverableByModel = false ∧ o.result.recommendedNextAction = .stop)) :
        config.blocksAfter wordSet outcomes o = false := by
      rw [h.count hblocked] at hcount
      rw [← Bool.not_eq_true]
      intro hblocks
      simp only [blocksAfter, Bool.and_eq_true, Bool.not_eq_true', Bool.or_eq_true,
        decide_eq_true_eq] at hblocks
      rcases hblocks with ⟨hfixed, hstops | ⟨hproblem, hmany⟩⟩
      · exact hstop ⟨hfixed, hstops⟩
      · exact absurd hmany (Nat.not_le.mpr (hcount hproblem hfixed))
    split_ifs with hstop hgood hsuccess hmany hmends hsome
    · exact follows_blocked (by simp [blocksAfter, hstop]) _
    · exact follows_good h hblocked hgood
        (hopen (fun hproblem => by rw [hgood] at hproblem; cases hproblem) hstop)
    · have hproblem : config.problemAfter wordSet outcomes o = true := by
        unfold problemAfter isProblem
        split
        · rfl
        · rfl
        · next hstatus => exact absurd hstatus hsuccess
      rw [hgood] at hproblem
      cases hproblem
    · refine follows_problem h hblocked (Bool.not_eq_false _ ▸ hgood) (hopen ?_ hstop) ?_
      · intro _ hfixed
        rw [hmends] at hfixed
        cases hfixed
      · rw [if_pos (by omega)]
    · refine follows_blocked ?_ _
      have hcount := h.count hblocked
      rw [hcount] at hmany
      simp [blocksAfter, hmends, hmany, Bool.not_eq_false _ ▸ hgood]
    · refine follows_problem h hblocked (Bool.not_eq_false _ ▸ hgood) (hopen ?_ hstop) ?_
      · exact fun _ _ => Nat.lt_of_not_le hmany
      · rw [if_pos hsome]
    · refine follows_problem h hblocked (Bool.not_eq_false _ ▸ hgood) (hopen ?_ hstop) ?_
      · exact fun _ _ => Nat.lt_of_not_le hmany
      · have hbefore : ¬ config.stagnationThreshold ≤ config.trailingProblems wordSet outcomes := by
          rw [← h.count hblocked]
          omega
        rw [h.phase, expectedPhase, h.not_blocks hblocked, if_neg hbefore, if_neg hsome]
        rfl

end ToolProgressConfig

end Assessment

section Records
variable {thread tool t u : String} {log : List ProgressRecord}

theorem outcomesSince_outcome (o : ToolOutcome) :
    outcomesSince thread tool (.outcome t u o :: log) =
      if t = thread ∧ u = tool then o :: outcomesSince thread tool log
      else outcomesSince thread tool log := by
  by_cases h : t = thread ∧ u = tool
  · simp [outcomesSince, recordsSince, ProgressRecord.outcomeOf?, h]
  · simp [outcomesSince, recordsSince, ProgressRecord.outcomeOf?, h]

theorem outcomesSince_beforeAgent : outcomesSince thread tool (.beforeAgent t :: log) =
    if t = thread then [] else outcomesSince thread tool log := by
  by_cases h : t = thread
  · simp [outcomesSince, recordsSince, h]
  · rw [if_neg h, outcomesSince, recordsSince, List.takeWhile_cons_of_pos (by simp [h])]
    rfl

theorem outcomesSince_evicted (gone : List String) :
    outcomesSince thread tool (gone.map .evicted ++ log) =
      if thread ∈ gone then [] else outcomesSince thread tool log := by
  induction gone with
  | nil => simp
  | cons t gone ih =>
    by_cases h : t = thread
    · simp [outcomesSince, recordsSince, h]
    · have hskip : outcomesSince thread tool (.evicted t :: (gone.map .evicted ++ log)) =
          outcomesSince thread tool (gone.map .evicted ++ log) := by
        rw [outcomesSince, recordsSince, List.takeWhile_cons_of_pos (by simp [h])]
        rfl
      rw [List.map_cons, List.cons_append, hskip, ih]
      simp [Ne.symm h]

end Records

section Threads
variable {config : ToolProgressConfig} {s : ProgressState} {thread tool : String}

namespace ProgressState

/-- The threads once a new one is tracked, before any is evicted. -/
def joined (s : ProgressState) (thread : String) : Table TrackedThread.id :=
  s.threads.put ⟨thread, .empty⟩

theorem rows_joined (hnew : s.threads.get thread = none) :
    (s.joined thread).rows = s.threads.rows ++ [⟨thread, .empty⟩] :=
  Table.rows_put_of_get_none hnew

theorem get_enroll (t : String) : (s.enroll config thread).threads.get t =
    if t ∈ evicted config (s.joined thread) then none else (s.joined thread).get t :=
  Table.get_dropOldest _ _ t

theorem not_mem_evicted (hnew : s.threads.get thread = none) :
    thread ∉ evicted config (s.joined thread) := by
  have hpos := config.maxTrackedThreads_pos
  have hfew : excess config (s.joined thread) ≤ s.threads.rows.length := by
    rw [excess, rows_joined hnew, List.length_append, List.length_singleton]
    omega
  intro hmem
  rw [evicted, rows_joined hnew, List.take_append_of_le_length hfew] at hmem
  obtain ⟨row, hrow, hid⟩ := List.mem_map.mp hmem
  have hfound := Table.mem_rows.mp (List.mem_of_mem_take hrow)
  rw [hid, hnew] at hfound
  cases hfound

theorem length_enroll : (s.enroll config thread).threads.rows.length ≤ config.maxTrackedThreads := by
  change ((s.joined thread).rows.drop (excess config (s.joined thread))).length ≤ _
  rw [List.length_drop, excess]
  omega

theorem toolState?_enroll (hnew : s.threads.get thread = none) (t u : String) :
    (s.enroll config thread).toolState? t u =
      if t ∈ evicted config (s.joined thread) then none else s.toolState? t u := by
  unfold toolState?
  rw [get_enroll]
  split_ifs with hgone
  · rfl
  · rw [joined, Table.get_put]
    by_cases ht : t = thread
    · subst ht
      rw [if_pos rfl, hnew]
      rfl
    · rw [if_neg ht]

theorem tracked_touch (config : ToolProgressConfig) (s : ProgressState) (thread : String) :
    (s.touch config thread).tracked thread = true := by
  unfold touch
  split_ifs with htracked
  · rw [tracked, Table.get_moveToEnd]
    exact htracked
  · have hnew : s.threads.get thread = none := by
      simpa [tracked] using htracked
    rw [tracked, Table.get_moveToEnd, get_enroll, if_neg (not_mem_evicted hnew), joined,
      Table.get_put, if_pos rfl]
    rfl

theorem get_setToolState (state : ToolPhaseState) (t : String) :
    (s.setToolState thread tool state).threads.get t =
      if t = thread then (s.threads.get thread).map (.setTool tool state)
      else s.threads.get t := Table.get_update (TrackedThread.setTool_id tool state) thread t

theorem get_resetRunStates (runtime : ProgressRuntime) (t : String) :
    (s.resetRunStates runtime).threads.get t =
      if t = runtime.threadId then (s.threads.get runtime.threadId).map .reset
      else s.threads.get t := Table.get_update TrackedThread.reset_id runtime.threadId t

theorem toolState?_setToolState {state : ToolPhaseState} (htracked : s.tracked thread = true)
    (t u : String) : (s.setToolState thread tool state).toolState? t u =
      if t = thread ∧ u = tool then some state else s.toolState? t u := by
  obtain ⟨row, hrow⟩ := Option.isSome_iff_exists.mp htracked
  unfold toolState?
  rw [get_setToolState]
  by_cases ht : t = thread
  · subst ht
    rw [if_pos rfl, hrow]
    simp only [Option.map_some, Option.bind_some, TrackedThread.setTool, Table.get_put, true_and]
    split_ifs <;> rfl
  · rw [if_neg ht, if_neg fun h => ht h.1]

theorem toolState?_resetRunStates (runtime : ProgressRuntime) (t u : String) :
    (s.resetRunStates runtime).toolState? t u =
      if t = runtime.threadId then (s.toolState? t u).map fun _ => .init else s.toolState? t u := by
  unfold toolState?
  rw [get_resetRunStates]
  split_ifs with ht
  · subst ht
    rcases s.threads.get runtime.threadId with _ | row
    · rfl
    · simp only [Option.map_some, Option.bind_some, TrackedThread.reset, Table.get_mapRows]
      rcases row.tools.get u with _ | entry <;> rfl
  · rfl

end ProgressState

end Threads

section Steps
variable {config : ToolProgressConfig} {wordSet : String → WordSet} {s : ProgressState}

namespace ProgressState

/-- A tool without a stored state is one without results. -/
structure Sound (config : ToolProgressConfig) (wordSet : String → WordSet) (s : ProgressState) :
    Prop where
  follows : ∀ thread tool,
    config.Follows wordSet (s.toolState thread tool) (outcomesSince thread tool s.log)
  watched : ∀ thread tool, (s.toolState? thread tool).isSome = true → watches config tool = true
  gated : ∀ c ∈ s.calls, c.phaseAtStart = .blocked → ∃ text, c.pc = .intercepted text
  bounded : s.threads.rows.length ≤ config.maxTrackedThreads
  pending : ∀ p ∈ s.pending.rows, s.tracked p.key.1 = true ∧ p.hints.length ≤ 3

theorem Sound.accurate (h : s.Sound config wordSet) : s.Accurate config wordSet where
  phases := fun thread tool => (h.follows thread tool).phase
  gated := h.gated
  bounded := h.bounded
  pending := h.pending

theorem sound_init : ProgressState.init.Sound config wordSet where
  follows := fun _ _ => ToolProgressConfig.follows_init
  watched := fun _ _ hstored => by cases hstored
  gated := fun _ hc => by cases hc
  bounded := Nat.zero_le _
  pending := fun _ hp => by cases hp

/-- A call that was let through goes on to a place that is no interception. -/
theorem Sound.setCall (h : s.Sound config wordSet) {i : Nat} {c : ProgressCall}
    (hc : s.calls[i]? = some c) (hpc : ∀ text, c.pc ≠ .intercepted text) (pc : ProgressPc) :
    (s.setCall i pc).Sound config wordSet where
  follows := h.follows
  watched := h.watched
  bounded := h.bounded
  pending := h.pending
  gated := by
    intro d hd hblocked
    obtain ⟨j, hj⟩ := List.mem_iff_getElem?.mp hd
    obtain ⟨e, he, ⟨rfl, hnew⟩ | ⟨_, rfl⟩⟩ := Slots.getElem?_modify hj
    · obtain rfl : c = e := Option.some.inj (hc.symm.trans he)
      rw [hnew] at hblocked
      obtain ⟨text, htext⟩ := h.gated c (List.mem_of_getElem? he) hblocked
      exact absurd htext (hpc text)
    · exact h.gated d (List.mem_of_getElem? he) hblocked

theorem Sound.enroll (h : s.Sound config wordSet) {thread : String}
    (hnew : s.threads.get thread = none) : (s.enroll config thread).Sound config wordSet where
  follows := by
    intro t u
    have hlog : (s.enroll config thread).log =
        (evicted config (s.joined thread)).map .evicted ++ s.log := rfl
    rw [hlog, outcomesSince_evicted, toolState, toolState?_enroll hnew]
    split_ifs
    · exact ToolProgressConfig.follows_init
    · exact h.follows t u
  watched := by
    intro t u hstored
    rw [toolState?_enroll hnew] at hstored
    split_ifs at hstored
    · cases hstored
    · exact h.watched t u hstored
  gated := h.gated
  bounded := length_enroll
  pending := by
    intro p hp
    obtain ⟨hp, hkept⟩ := Table.mem_keep.mp hp
    have hstays : p.key.1 ∉ evicted config (s.joined thread) := of_decide_eq_true hkept
    obtain ⟨htracked, hfew⟩ := h.pending p hp
    refine ⟨?_, hfew⟩
    rw [tracked, get_enroll, if_neg hstays, joined, Table.get_put]
    split_ifs
    · rfl
    · exact htracked

theorem toolState?_moveToEnd (thread t u : String) :
    ({ s with threads := s.threads.moveToEnd thread } : ProgressState).toolState? t u =
      s.toolState? t u := by
  unfold toolState?
  rw [Table.get_moveToEnd]

theorem Sound.moveToEnd (h : s.Sound config wordSet) (thread : String) :
    ({ s with threads := s.threads.moveToEnd thread } : ProgressState).Sound config wordSet where
  follows := by
    intro t u
    rw [toolState, toolState?_moveToEnd]
    exact h.follows t u
  watched := by
    intro t u hstored
    rw [toolState?_moveToEnd] at hstored
    exact h.watched t u hstored
  gated := h.gated
  bounded := (Table.length_moveToEnd _ _).trans h.bounded
  pending := by
    intro p hp
    rw [tracked, Table.get_moveToEnd]
    exact h.pending p hp

theorem Sound.touch (h : s.Sound config wordSet) (thread : String) :
    (s.touch config thread).Sound config wordSet := by
  unfold ProgressState.touch
  split_ifs with htracked
  · exact h.moveToEnd thread
  · have hnew : s.threads.get thread = none := by simpa [tracked] using htracked
    exact (h.enroll hnew).moveToEnd thread

theorem length_setToolState (thread tool : String) (state : ToolPhaseState) :
    (s.setToolState thread tool state).threads.rows.length = s.threads.rows.length :=
  Table.length_update (TrackedThread.setTool_id tool state) thread

/-- A result is recorded: the tool's state moves on, and so does what is known of it. -/
theorem Sound.record (h : s.Sound config wordSet) (thread : String) {tool : String}
    (hwatches : watches config tool = true) (o : ToolOutcome) :
    ((s.record config wordSet thread tool o).1.logged [.outcome thread tool o]).Sound
      config wordSet := by
  have htouched := h.touch thread
  have htracked := tracked_touch config s thread
  generalize hs : s.touch config thread = t at htouched htracked
  have hrecord : (s.record config wordSet thread tool o).1.logged [.outcome thread tool o] =
      { t.setToolState thread tool
          (config.assessAndTransition wordSet (t.toolState thread tool) o).1 with
        log := .outcome thread tool o :: t.log } := by
    rw [ProgressState.record, hs]
    rfl
  rw [hrecord]
  generalize hstate : (config.assessAndTransition wordSet (t.toolState thread tool) o).1 = state
  have hfollows : config.Follows wordSet state (o :: outcomesSince thread tool t.log) := by
    rw [← hstate]
    exact (htouched.follows thread tool).assess o
  refine ⟨fun t' u => ?_, fun t' u hstored => ?_, htouched.gated, ?_, fun p hp => ?_⟩
  · have hget : (t.setToolState thread tool state).toolState? t' u = _ :=
      toolState?_setToolState htracked t' u
    simp only [toolState] at hget ⊢
    change config.Follows wordSet (((t.setToolState thread tool state).toolState? t' u).getD .init) _
    rw [hget, outcomesSince_outcome]
    by_cases hsame : t' = thread ∧ u = tool
    · obtain ⟨rfl, rfl⟩ := hsame
      simpa using hfollows
    · rw [if_neg hsame, if_neg fun he => hsame ⟨he.1.symm, he.2.symm⟩]
      exact htouched.follows t' u
  · change ((t.setToolState thread tool state).toolState? t' u).isSome = true at hstored
    rw [toolState?_setToolState htracked] at hstored
    by_cases hsame : t' = thread ∧ u = tool
    · rw [hsame.2]
      exact hwatches
    · rw [if_neg hsame] at hstored
      exact htouched.watched t' u hstored
  · exact (length_setToolState thread tool state).trans_le htouched.bounded
  · obtain ⟨hold, hfew⟩ := htouched.pending p hp
    refine ⟨?_, hfew⟩
    change ((t.setToolState thread tool state).threads.get p.key.1).isSome = true
    rw [get_setToolState]
    split_ifs with hkey
    · rw [Option.isSome_map]
      exact htracked
    · exact hold

theorem Sound.blockReason (h : s.Sound config wordSet) {runtime : ProgressRuntime} {tool : String}
    (hblocked : (s.toolState runtime.threadId tool).phase = .blocked) :
    watches config tool = true ∧
      ∃ text, s.blockReason? runtime tool = some text ∧ text ≠ "" := by
  obtain ⟨text, hreason, hne⟩ := (h.follows runtime.threadId tool).reason hblocked
  rcases hstored : s.toolState? runtime.threadId tool with _ | state
  · rw [toolState, hstored] at hblocked
    cases hblocked
  · rw [toolState, hstored] at hblocked hreason
    change state.phase = .blocked at hblocked
    change state.blockReason = some text at hreason
    refine ⟨h.watched _ _ (Option.isSome_iff_exists.mpr ⟨state, hstored⟩), text, ?_, hne⟩
    rw [blockReason?, hstored, Option.bind_some, if_pos hblocked]
    exact hreason

theorem Sound.start (h : s.Sound config wordSet) (tool : String)
    (runtime : Option ProgressRuntime) : (s.start config tool runtime).Sound config wordSet where
  follows := h.follows
  watched := h.watched
  bounded := h.bounded
  pending := h.pending
  gated := by
    intro c hc hblocked
    rcases List.mem_append.mp hc with hc | hc
    · exact h.gated c hc hblocked
    · rw [List.mem_singleton] at hc
      subst hc
      rcases runtime with _ | runtime
      · cases hblocked
      · obtain ⟨hwatches, text, hreason, hne⟩ := h.blockReason hblocked
        refine ⟨"[TOOL_BLOCKED] " ++ text, ?_⟩
        simp [hwatches, hreason, Option.filter, hne]

theorem Sound.finish (h : s.Sound config wordSet) {i : Nat} {c : ProgressCall}
    (hc : s.calls[i]? = some c) (hpc : c.pc = .handling) (result : ToolReturn) :
    ((s.finish config wordSet i c result).logged (outcomes config c result)).Sound
      config wordSet := by
  have hopen : ∀ text, c.pc ≠ .intercepted text := fun text => by simp [hpc]
  cases result with
  | other => exact h.setCall hc hopen .returned
  | outcome o =>
    unfold ProgressState.finish outcomes
    rcases c.runtime with _ | runtime
    · exact h.setCall hc hopen .returned
    · dsimp only
      by_cases hwatches : watches config c.tool = true
      · rw [if_pos hwatches, if_pos hwatches]
        have hrecorded := h.record runtime.threadId hwatches o
        have hsame : ((s.record config wordSet runtime.threadId c.tool o).1.logged
            [.outcome runtime.threadId c.tool o]).calls[i]? = some c := by
          have hcalls : (s.touch config runtime.threadId).calls = s.calls := by
            unfold ProgressState.touch
            split_ifs <;> rfl
          change (s.touch config runtime.threadId).calls[i]? = some c
          rw [hcalls, hc]
        split
        · split_ifs
          · exact hrecorded.setCall hsame hopen _
          · exact hrecorded.setCall hsame hopen .returned
        · exact hrecorded.setCall hsame hopen .returned
      · rw [if_neg hwatches, if_neg hwatches]
        exact h.setCall hc hopen .returned

theorem length_addHint {queue : List String} (h : queue.length ≤ 3) (text : String) :
    (addHint queue text).length ≤ 3 := by
  unfold addHint maxPendingPerRun
  split_ifs with hroom
  · rw [List.length_append, List.length_singleton]
    omega
  · exact h

theorem Sound.queueAssessment (h : s.Sound config wordSet) (runtime : ProgressRuntime)
    (text : String) : (s.queueAssessment runtime text).Sound config wordSet := by
  unfold ProgressState.queueAssessment
  split_ifs with htracked
  · refine { h with pending := fun p hp => ?_ }
    rcases Table.mem_put hp with rfl | hp
    · refine ⟨htracked, length_addHint ?_ text⟩
      rcases hqueue : s.pending.get runtime.pendingKey with _ | queue
      · simp
      · exact (h.pending queue (Table.mem_of_get hqueue)).2
    · exact h.pending p hp
  · exact h

theorem Sound.resetRunStates (h : s.Sound config wordSet) (runtime : ProgressRuntime) :
    ((s.resetRunStates runtime).logged [.beforeAgent runtime.threadId]).Sound config wordSet where
  follows := by
    intro t u
    change config.Follows wordSet (((s.resetRunStates runtime).toolState? t u).getD .init)
      (outcomesSince t u (.beforeAgent runtime.threadId :: s.log))
    rw [outcomesSince_beforeAgent, toolState?_resetRunStates]
    by_cases ht : t = runtime.threadId
    · subst ht
      rw [if_pos rfl, if_pos rfl]
      rcases s.toolState? runtime.threadId u with _ | state
      · exact ToolProgressConfig.follows_init
      · exact ToolProgressConfig.follows_init
    · rw [if_neg ht, if_neg (Ne.symm ht)]
      exact h.follows t u
  watched := by
    intro t u hstored
    change ((s.resetRunStates runtime).toolState? t u).isSome = true at hstored
    rw [toolState?_resetRunStates] at hstored
    apply h.watched t u
    split_ifs at hstored
    · rwa [Option.isSome_map] at hstored
    · exact hstored
  gated := h.gated
  bounded := (Table.length_update TrackedThread.reset_id runtime.threadId).trans_le h.bounded
  pending := by
    intro p hp
    obtain ⟨hold, hfew⟩ := h.pending p hp
    refine ⟨?_, hfew⟩
    change ((s.resetRunStates runtime).threads.get p.key.1).isSome = true
    rw [get_resetRunStates]
    split_ifs with hkey
    · rw [Option.isSome_map, ← hkey]
      exact hold
    · exact hold

theorem Sound.step (h : s.Sound config wordSet) {event : ProgressEvent} {t : ProgressState}
    (hs : s.step config wordSet event = some t) :
    (t.logged (s.records config event)).Sound config wordSet := by
  cases event with
  | start tool runtime =>
    cases hs
    exact h.start tool runtime
  | finish i result =>
    obtain ⟨c, hc, hs⟩ := Option.bind_eq_some_iff.mp hs
    obtain ⟨hpc, hs⟩ := Option.ite_none_right_eq_some.mp hs
    cases hs
    rw [records, hc]
    have hfinished := h.finish hc hpc result
    rwa [← List.append_nil (outcomes config c result)] at hfinished
  | fail i =>
    obtain ⟨c, hc, hs⟩ := Option.bind_eq_some_iff.mp hs
    obtain ⟨hpc, hs⟩ := Option.ite_none_right_eq_some.mp hs
    cases hs
    exact h.setCall hc (fun text => by simp [hpc]) .raised
  | queue i =>
    obtain ⟨c, hc, hs⟩ := Option.bind_eq_some_iff.mp hs
    split at hs
    · next text runtime hpc hruntime =>
      cases hs
      have hsame : (s.queueAssessment runtime text).calls[i]? = some c := by
        unfold ProgressState.queueAssessment
        split_ifs <;> exact hc
      exact (h.queueAssessment runtime text).setCall hsame (fun text => by simp [hpc]) .returned
    · cases hs
  | drain runtime =>
    cases hs
    exact { h with pending := fun p hp => h.pending p (Table.mem_erase hp) }
  | clearStale runtime =>
    cases hs
    exact { h with pending := fun p hp => h.pending p (Table.mem_keep.mp hp).1 }
  | reset runtime =>
    cases hs
    exact h.resetRunStates runtime

end ProgressState

end Steps

section Main
variable {config : ToolProgressConfig} {wordSet : String → WordSet}

theorem ProgressState.accurate_of_reachable {s : ProgressState}
    (h : Reachable (toolProgress config wordSet) s) : s.Accurate config wordSet := by
  have hsound : s.Sound config wordSet := by
    refine h.invariant (I := fun s => s.Sound config wordSet) ?_ ?_
    · rintro s rfl
      exact sound_init
    · intro s event t _ hs ht
      obtain ⟨u, hu, rfl⟩ := Option.map_eq_some_iff.mp ht
      exact hs.step hu
  exact hsound.accurate

end Main

namespace ProgressRun

def config : ToolProgressConfig :=
  ⟨1, by decide, 1, by decide, true, 4 / 5, 2, ["task"], 1, by decide⟩

def wordSet (content : String) : WordSet := if content = "" then ∅ else {content, "result"}

def runtime (thread : String) : ProgressRuntime := ⟨some thread, some "r1"⟩

def timedOut : ToolReturn := .outcome ⟨⟨.error, some "transient", false, .tryAlternative⟩, ""⟩

def found : ToolReturn := .outcome ⟨⟨.success, none, true, .continue⟩, "page"⟩

def called (thread : String) : ProgressEvent := .start "web_search" (some (runtime thread))

/-- Two parallel calls time out, a third one is stopped at the gate; a new run of the thread begins,
in which one call times out. A second thread takes the only place, and the first comes back afresh. -/
def stagnated : List (ProgressState → ProgressEvent) :=
  [called "t1", called "t1", .finish 0 timedOut, .queue 0, .finish 1 timedOut, called "t1",
    .reset (runtime "t1"), called "t1", .finish 3 timedOut, called "t2", .finish 4 found,
    called "t1", .finish 5 timedOut].map fun event _ => event

end ProgressRun

theorem ProgressState.accurate_of_stagnated :
    ∃ s, Reachable (toolProgress ProgressRun.config ProgressRun.wordSet) s ∧
      s.calls.map (·.phaseAtStart) = [.active, .active, .blocked, .active, .active, .active] ∧
      (s.toolState "t1" "web_search").phase = .warned ∧
      s.Accurate ProgressRun.config ProgressRun.wordSet := by
  have hrun : (runScript (fun s event =>
      (ProgressState.step ProgressRun.config ProgressRun.wordSet s event).map fun t =>
        t.logged (s.records ProgressRun.config event)) .init ProgressRun.stagnated).any
      (fun s => decide (s.calls.map (·.phaseAtStart) =
          [.active, .active, .blocked, .active, .active, .active] ∧
        (s.toolState "t1" "web_search").phase = .warned)) = true := by
    decide +kernel
  obtain ⟨s, hs, hstarts, hphase⟩ := exists_reachable_of_decide _ hrun
  exact ⟨s, hs, hstarts, hphase, accurate_of_reachable hs⟩

end DeerFlow.Middlewares
