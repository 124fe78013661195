import DeerFlow.Middlewares.ReadBeforeWrite

/-! What the gate keeps as long as no call is cancelled while a thread acquires its lock or runs
the body of its tool: a write runs on the version that was read, alone, and leaves a free lock. -/

namespace DeerFlow.Middlewares
open Transition

section Property

/-- The latest read mark for a path in the messages is this hash. -/
def LatestMark (messages : List Message) (normPath : Text) (hash : String) : Prop :=
  ∃ before m after, messages = before ++ .tool m :: after ∧
    m.readMark = some ⟨some normPath, some hash⟩ ∧ ∀ x ∈ after, x.markFor? normPath = none

namespace GateCall

def runsHandler (c : GateCall) : Bool :=
  match c.pc with
  | .handling _ | .cancelled .body => true
  | .acquiring _ | .checking _ | .attaching _ _ | .returned _ | .raised | .cancelled _ => false

/-- From a check that lets a write through to the end of its handler. -/
def writing (c : GateCall) : Bool :=
  c.tool = .write ∧ (c.pc = .checking (some none) ∨ c.runsHandler)

/-- The handler of a write runs after a check, and where that found a text that the gate can
inspect, the latest read mark is its hash. -/
def Authorized (contentHash : Text → String) (c : GateCall) : Prop :=
  c.tool = .write → c.runsHandler = true → ∃ current, c.found = some current ∧
    ∀ text, current = .content text → uninspectable text = false →
      LatestMark c.request.messages c.normPath (contentHash text)

/-- A cancellation while a thread acquires the lock of the call or runs the body of its tool. -/
def Slips (c : GateCall) (event : CallEvent) : Prop :=
  event = .cancel ∧
    (c.pc = .acquiring .blocked ∨ c.pc = .acquiring .acquired ∨ c.pc = .handling .running)

end GateCall

namespace GateState

/-- A call is cancelled whose thread goes on, or one starts whose lock scope is not that of the
calls on its path. -/
def Slips (s : GateState) : GateEvent → Prop
  | .start _ r => ∃ path ∈ r.requestedPath, ∃ c ∈ s.calls, c.inProgress = true ∧
      c.normPath = Posix.normpath path ∧ c.request.lockScope ≠ r.lockScope
  | .call i event => ∃ c ∈ s.calls[i]?, c.Slips event
  | .collect _ => False

structure Gated (contentHash : Text → String) (s : GateState) : Prop where
  authorized : ∀ c ∈ s.calls, c.Authorized contentHash
  exclusive : ∀ (i j : Nat) (c d : GateCall), s.calls[i]? = some c → s.calls[j]? = some d →
    i ≠ j → c.normPath = d.normPath → c.writing = true → d.runsHandler = false
  released : ∀ normPath, (∀ c ∈ s.calls, c.normPath = normPath → c.inProgress = false) →
    ∀ lock ∈ s.locks, lock.key.2 = normPath → lock.registered = true → lock.locked = false

end GateState

instance (c : GateCall) (event : CallEvent) : Decidable (c.Slips event) := by
  unfold GateCall.Slips
  infer_instance

instance (s : GateState) (event : GateEvent) : Decidable (s.Slips event) := by
  unfold GateState.Slips
  split <;> infer_instance

end Property

section Moves
variable {contentHash : Text → String} {c c' : GateCall} {event : CallEvent} {lockUse : LockUse}

theorem latestMark_of_hash {messages : List Message} {normPath : Text} {hash : String}
    (h : latestMarkHash messages normPath = some hash) : LatestMark messages normPath hash := by
  obtain ⟨mark, hfind, hhash⟩ := Option.bind_eq_some_iff.mp h
  obtain ⟨after, x, before, hsplit, hx, hafter⟩ := List.findSome?_eq_some_iff.mp hfind
  have hmessages : messages = before.reverse ++ x :: after.reverse := by
    have hreverse := congrArg List.reverse hsplit
    rw [List.reverse_reverse, List.reverse_append, List.reverse_cons, List.append_assoc] at hreverse
    exact hreverse
  cases x with
  | other => cases hx
  | tool m =>
    obtain ⟨hmark, hpath⟩ := Option.filter_eq_some_iff.mp hx
    refine ⟨before.reverse, m, after.reverse, hmessages, ?_, fun x hx => ?_⟩
    · rw [hmark]
      obtain ⟨path, hash'⟩ := mark
      obtain rfl := of_decide_eq_true hpath
      obtain rfl : hash' = some hash := hhash
      rfl
    · exact hafter x (List.mem_reverse.mp hx)

theorem latestMark_of_check {r : ToolCallRequest} {path text : Text}
    (hpath : r.requestedPath = some path) (htext : uninspectable text = false)
    (h : checkWriteGate contentHash r (.content text) = none) :
    LatestMark r.messages (Posix.normpath path) (contentHash text) := by
  unfold checkWriteGate at h
  rw [hpath, Option.bind_some] at h
  simp only [htext, Bool.false_eq_true, if_false] at h
  split at h
  · next hmark => exact latestMark_of_hash hmark
  · cases h

/-- The state of a lock after it was used. -/
def LockUse.after : LockUse → Bool → Bool
  | keep, locked => locked
  | take, _ => true
  | release, _ => false

namespace GateCall

def holds (c : GateCall) : Bool :=
  match c.pc with
  | .acquiring .acquired | .checking _ | .handling _ | .attaching _ _ => true
  | .acquiring _ | .returned _ | .raised | .cancelled _ => false

/-- No thread goes on for the call after it was cancelled. -/
def quiet (c : GateCall) : Bool :=
  match c.pc with
  | .cancelled .acquire | .cancelled .body => false
  | _ => true

def Uses (c c' : GateCall) : LockUse → Prop
  | .keep => c'.holds = c.holds
  | .take => c.holds = false ∧ c'.holds = true
  | .release => c.holds = true ∧ c'.holds = false

structure Moved (c c' : GateCall) (lockUse : LockUse) : Prop where
  lock : c'.lock = c.lock
  key : c'.key = c.key
  quiet : c'.quiet = true
  inProgress : c'.inProgress = true → c.inProgress = true
  uses : c.Uses c' lockUse

/-- A write that passed its check has found what lets it through. -/
structure Checked (contentHash : Text → String) (c : GateCall) : Prop where
  path : c.request.requestedPath = some c.path
  passed : c.writing = true → ∃ current, c.found = some current ∧
    checkWriteGate contentHash c.request current = none

theorem Checked.authorized (h : c.Checked contentHash) : c.Authorized contentHash := by
  intro htool hruns
  obtain ⟨current, hfound, hpass⟩ := h.passed (decide_eq_true ⟨htool, .inr hruns⟩)
  refine ⟨current, hfound, fun text htext hinspect => ?_⟩
  subst htext
  exact latestMark_of_check h.path hinspect hpass

theorem writing_of_runsHandler (htool : c.tool = .write) (hruns : c.runsHandler = true) :
    c.writing = true := decide_eq_true ⟨htool, .inr hruns⟩

/-- A call goes on to a place where it writes only if it was writing before. -/
theorem Checked.setPc (h : c.Checked contentHash) {pc : GatePc}
    (hpc : (c.setPc pc).writing = true → c.writing = true) : (c.setPc pc).Checked contentHash :=
  ⟨h.path, fun hw => h.passed (hpc hw)⟩

theorem Checked.cancel (h : c.Checked contentHash) (hm : c.cancel = some (lockUse, c')) :
    c'.Checked contentHash := by
  unfold GateCall.cancel at hm
  split at hm
  -- the thread that runs the body of the tool goes on with it
  case h_4 hpc =>
    cases hm
    refine h.setPc fun hw => writing_of_runsHandler (of_decide_eq_true hw).1 ?_
    unfold runsHandler
    rw [hpc]
  all_goals cases hm
  all_goals exact h.setPc fun hw => by simp [GateCall.setPc, writing, runsHandler] at hw

theorem Checked.resume (h : c.Checked contentHash) (hm : c.resume = some (lockUse, c')) :
    c'.Checked contentHash := by
  unfold GateCall.resume at hm
  split at hm
  case h_1 =>
    split at hm
    · cases hm
      exact h.setPc fun hw => by simp [GateCall.setPc, writing, runsHandler] at hw
    · next htool =>
      cases hm
      refine h.setPc fun hw => ?_
      have hwrite : c.tool = .write := (of_decide_eq_true hw).1
      rw [htool] at hwrite
      cases hwrite
  -- the check let the write through, and its handler begins
  case h_2 hpc =>
    cases hm
    exact h.setPc fun hw => decide_eq_true ⟨(of_decide_eq_true hw).1, .inl hpc⟩
  case h_4 =>
    split at hm
    all_goals cases hm
    all_goals exact h.setPc fun hw => by simp [GateCall.setPc, writing, runsHandler] at hw
  case h_6 => cases hm
  all_goals cases hm
  all_goals exact h.setPc fun hw => by simp [GateCall.setPc, writing, runsHandler] at hw

theorem Checked.move (h : c.Checked contentHash)
    (hm : c.move contentHash event = some (lockUse, c')) : c'.Checked contentHash := by
  unfold GateCall.move at hm
  cases event with
  | pickUp | acquire | attach _ | fail =>
    simp only at hm
    split at hm
    all_goals cases hm
    all_goals exact h.setPc fun hw => by simp [GateCall.setPc, writing, runsHandler] at hw
  | check current =>
    simp only at hm
    split at hm
    · cases hm
      refine ⟨h.path, fun hw => ⟨current, rfl, ?_⟩⟩
      rcases (of_decide_eq_true hw).2 with hpc | hruns
      · exact Option.some.inj (GatePc.checking.inj hpc)
      · cases hruns
    · cases hm
  -- the handler is already running
  | launch | finish _ =>
    simp only at hm
    split at hm
    case h_1 hpc =>
      cases hm
      refine h.setPc fun hw => writing_of_runsHandler (of_decide_eq_true hw).1 ?_
      unfold runsHandler
      rw [hpc]
    all_goals cases hm
    all_goals exact h.setPc fun hw => by simp [GateCall.setPc, writing, runsHandler] at hw
  | resume => exact h.resume hm
  | cancel =>
    simp only at hm
    split at hm
    · exact h.cancel hm
    · cases hm

/-- Where a move that does not slip leaves the call. -/
theorem moved_setPc {pc : GatePc} (hquiet : (c.setPc pc).quiet = true)
    (hprogress : (c.setPc pc).inProgress = true → c.inProgress = true)
    (huses : c.Uses (c.setPc pc) lockUse) : c.Moved (c.setPc pc) lockUse :=
  ⟨rfl, rfl, hquiet, hprogress, huses⟩

theorem moved_cancel (hslip : ¬ c.Slips .cancel) (hm : c.cancel = some (lockUse, c')) :
    c.Moved c' lockUse := by
  unfold GateCall.cancel at hm
  split at hm
  -- blocked in the acquisition, done with it, or in the body of the tool
  case h_2 hpc => exact absurd ⟨rfl, .inl hpc⟩ hslip
  case h_3 hpc => exact absurd ⟨rfl, .inr (.inl hpc)⟩ hslip
  case h_4 hpc => exact absurd ⟨rfl, .inr (.inr hpc)⟩ hslip
  case h_8 | h_9 | h_10 => cases hm
  all_goals next hpc =>
    cases hm
    refine moved_setPc rfl (nofun) ?_
    simp [Uses, holds, GateCall.setPc, hpc]

theorem moved_resume (hm : c.resume = some (lockUse, c')) : c.Moved c' lockUse := by
  have hgo : ∀ {pc : GatePc} {u : LockUse}, (c.setPc pc).quiet = true → c.inProgress = true →
      c.Uses (c.setPc pc) u → c.Moved (c.setPc pc) u :=
    fun hquiet hprogress huses => moved_setPc hquiet (fun _ => hprogress) huses
  unfold GateCall.resume at hm
  split at hm
  case h_1 hpc =>
    split at hm
    all_goals cases hm
    all_goals refine hgo rfl ?_ ?_
    all_goals simp [Uses, holds, inProgress, GateCall.setPc, hpc]
  case h_4 hpc =>
    split at hm
    all_goals cases hm
    all_goals refine hgo rfl ?_ ?_
    all_goals simp [Uses, holds, inProgress, GateCall.setPc, hpc]
  case h_6 => cases hm
  all_goals next hpc =>
    cases hm
    refine hgo rfl ?_ ?_
    all_goals simp [Uses, holds, inProgress, GateCall.setPc, hpc]

theorem moved_of_move (hquiet : c.quiet = true) (hslip : ¬ c.Slips event)
    (hm : c.move contentHash event = some (lockUse, c')) : c.Moved c' lockUse := by
  unfold GateCall.move at hm
  cases event with
  | pickUp | launch | attach _ | fail =>
    simp only at hm
    split at hm
    all_goals next hpc =>
      cases hm
      try refine moved_setPc rfl ?_ ?_
      all_goals simp [Uses, holds, inProgress, GateCall.setPc, hpc]
  | acquire | finish _ =>
    simp only at hm
    split at hm
    case h_1 hpc =>
      cases hm
      refine moved_setPc rfl ?_ ?_
      all_goals simp [Uses, holds, inProgress, GateCall.setPc, hpc]
    -- a thread that goes on after a cancellation, of which there is none
    case h_2 hpc =>
      unfold quiet at hquiet
      rw [hpc] at hquiet
      cases hquiet
    case h_3 => cases hm
  | check current =>
    simp only at hm
    split at hm
    · next hpc =>
      cases hm
      refine ⟨rfl, rfl, rfl, ?_, ?_⟩
      all_goals simp [Uses, holds, inProgress, hpc]
    · cases hm
  | resume => exact moved_resume hm
  | cancel =>
    simp only at hm
    split at hm
    · exact moved_cancel hslip hm
    · cases hm

end GateCall
end Moves

section Invariant
variable {contentHash : Text → String} {s t : GateState} {i : Nat} {c c' : GateCall}
  {event : CallEvent} {lockUse : LockUse}

namespace GateState

/-- `_GATE_LOCKS` has the lock of each call in progress and one lock for a key; the calls in
progress on a path share their scope; a lock is locked exactly while one call holds it. -/
structure Disciplined (s : GateState) : Prop where
  registered : ∀ c ∈ s.calls, c.inProgress = true →
    ∃ lock, s.locks[c.lock]? = some lock ∧ lock.registered = true ∧ lock.key = c.key
  keys : ∀ (l m : Nat) (a b : GateLock), s.locks[l]? = some a → s.locks[m]? = some b →
    a.registered = true → b.registered = true → a.key = b.key → l = m
  scopes : ∀ c ∈ s.calls, ∀ d ∈ s.calls, c.inProgress = true → d.inProgress = true →
    c.normPath = d.normPath → c.key = d.key
  holder : ∀ (l : Nat) (lock : GateLock), s.locks[l]? = some lock → lock.locked = true →
    ∃ c ∈ s.calls, c.holds = true ∧ c.lock = l
  locked : ∀ c ∈ s.calls, c.holds = true → ∃ lock, s.locks[c.lock]? = some lock ∧
    lock.locked = true
  single : ∀ (i j : Nat) (c d : GateCall), s.calls[i]? = some c → s.calls[j]? = some d →
    c.holds = true → d.holds = true → c.lock = d.lock → i = j
  quiet : ∀ c ∈ s.calls, c.quiet = true

theorem inProgress_of_holds (h : c.holds = true) : c.inProgress = true := by
  unfold GateCall.holds at h
  unfold GateCall.inProgress
  split at h
  case h_5 | h_6 | h_7 | h_8 => cases h
  all_goals next hpc => rw [hpc]

theorem holds_of_runsHandler (hquiet : c.quiet = true) (h : c.runsHandler = true) :
    c.holds = true := by
  unfold GateCall.runsHandler at h
  unfold GateCall.holds
  split at h
  · next hpc => rw [hpc]
  · next hpc =>
    unfold GateCall.quiet at hquiet
    rw [hpc] at hquiet
    cases hquiet
  all_goals cases h

theorem holds_of_writing (hquiet : c.quiet = true) (h : c.writing = true) : c.holds = true := by
  rcases (of_decide_eq_true h).2 with hpc | hruns
  · unfold GateCall.holds
    rw [hpc]
  · exact holds_of_runsHandler hquiet hruns

/-- Two calls in progress on one path have the same lock. -/
theorem Disciplined.lock_eq (h : s.Disciplined) {d : GateCall} (hc : c ∈ s.calls)
    (hd : d ∈ s.calls) (hcp : c.inProgress = true) (hdp : d.inProgress = true)
    (hpath : c.normPath = d.normPath) : c.lock = d.lock := by
  obtain ⟨a, ha, hareg, hakey⟩ := h.registered c hc hcp
  obtain ⟨b, hb, hbreg, hbkey⟩ := h.registered d hd hdp
  have hkey : c.key = d.key := h.scopes c hc d hd hcp hdp hpath
  exact h.keys _ _ _ _ ha hb hareg hbreg (hakey.trans (hkey.trans hbkey.symm))

theorem Disciplined.exclusive (h : s.Disciplined) {j : Nat} {d : GateCall}
    (hc : s.calls[i]? = some c) (hd : s.calls[j]? = some d) (hij : i ≠ j)
    (hpath : c.normPath = d.normPath) (hwriting : c.writing = true) : d.runsHandler = false := by
  have hcmem := List.mem_of_getElem? hc
  have hdmem := List.mem_of_getElem? hd
  cases hruns : d.runsHandler with
  | false => rfl
  | true =>
    have hcholds := holds_of_writing (h.quiet c hcmem) hwriting
    have hdholds := holds_of_runsHandler (h.quiet d hdmem) hruns
    have hlock := h.lock_eq hcmem hdmem (inProgress_of_holds hcholds) (inProgress_of_holds hdholds)
      hpath
    exact absurd (h.single i j c d hc hd hcholds hdholds hlock) hij

theorem Disciplined.released (h : s.Disciplined) {normPath : Text}
    (hidle : ∀ c ∈ s.calls, c.normPath = normPath → c.inProgress = false) :
    ∀ lock ∈ s.locks, lock.key.2 = normPath → lock.registered = true → lock.locked = false := by
  intro lock hlock hpath _
  obtain ⟨l, hl⟩ := List.getElem?_of_mem hlock
  cases hlocked : lock.locked with
  | false => rfl
  | true =>
    -- its holder would be a call in progress on the path
    obtain ⟨c, hc, hholds, rfl⟩ := h.holder l lock hl hlocked
    have hprogress := inProgress_of_holds hholds
    obtain ⟨lock', hlock', -, hkey⟩ := h.registered c hc hprogress
    obtain rfl := Option.some.inj (hl.symm.trans hlock')
    have hnorm : c.normPath = normPath := (congrArg Prod.snd hkey).symm.trans hpath
    rw [hidle c hc hnorm] at hprogress
    cases hprogress

section Call

theorem useLock_spec {l : Nat} (hu : s.useLock l lockUse = some t) :
    t.calls = s.calls ∧
    t.locks = s.locks.modify l (fun lock => { lock with locked := lockUse.after lock.locked }) ∧
    (lockUse = .take → ∃ lock, s.locks[l]? = some lock ∧ lock.locked = false) := by
  unfold useLock at hu
  cases lockUse with
  | keep =>
    cases hu
    refine ⟨rfl, ?_, nofun⟩
    exact (List.modify_id l s.locks).symm
  | take =>
    simp only at hu
    split at hu
    · next hfree =>
      cases hu
      obtain ⟨lock, hlock, hunlocked⟩ := Option.any_eq_true _ _ |>.mp hfree
      exact ⟨rfl, rfl, fun _ => ⟨lock, hlock, by simpa using hunlocked⟩⟩
    · cases hu
  | release =>
    cases hu
    exact ⟨rfl, rfl, nofun⟩

/-- A call moves on: the other calls are what they were, and of the locks only its own may have
been taken or released. -/
structure Advances (s t : GateState) (i : Nat) (c c' : GateCall) (lockUse : LockUse) : Prop where
  was : s.calls[i]? = some c
  moved : c.Moved c' lockUse
  now : t.calls[i]? = some c'
  others : ∀ (j : Nat) (d : GateCall), t.calls[j]? = some d → i ≠ j → s.calls[j]? = some d
  stay : ∀ (j : Nat) (d : GateCall), s.calls[j]? = some d → i ≠ j → t.calls[j]? = some d
  locks : t.locks = s.locks.modify c.lock fun lock =>
    { lock with locked := lockUse.after lock.locked }
  free : lockUse = .take → ∃ lock, s.locks[c.lock]? = some lock ∧ lock.locked = false

theorem advances_of_move (hc : s.calls[i]? = some c) (hm : c.Moved c' lockUse)
    (hu : s.useLock c.lock lockUse = some t) : s.Advances (t.setCall i c') i c c' lockUse := by
  obtain ⟨hcalls, hlocks, hfree⟩ := useLock_spec hu
  refine ⟨hc, hm, ?_, fun j d hd hij => ?_, fun j d hd hij => ?_, hlocks, hfree⟩
  · exact Slots.modify_self (f := fun _ => c') (hcalls ▸ hc)
  · obtain ⟨d₀, hd₀, ⟨he, -⟩ | ⟨-, rfl⟩⟩ := Slots.getElem?_modify hd
    · exact absurd he hij
    · exact hcalls ▸ hd₀
  · exact Slots.modify_ne hij (hcalls ▸ hd)

namespace Advances
variable (ha : s.Advances t i c c' lockUse)
include ha

theorem cases_call {j : Nat} {d : GateCall} (hd : t.calls[j]? = some d) :
    i = j ∧ d = c' ∨ i ≠ j ∧ s.calls[j]? = some d := by
  by_cases hij : i = j
  · subst hij
    exact .inl ⟨rfl, Option.some.inj (hd.symm.trans ha.now)⟩
  · exact .inr ⟨hij, ha.others j d hd hij⟩

theorem named {d : GateCall} (hd : d ∈ t.calls) : ∃ d₀ ∈ s.calls, d.lock = d₀.lock ∧
    d.key = d₀.key ∧ (d.inProgress = true → d₀.inProgress = true) := by
  obtain ⟨j, hj⟩ := List.getElem?_of_mem hd
  rcases ha.cases_call hj with ⟨-, rfl⟩ | ⟨-, hd₀⟩
  · exact ⟨c, List.mem_of_getElem? ha.was, ha.moved.lock, ha.moved.key, ha.moved.inProgress⟩
  · exact ⟨d, List.mem_of_getElem? hd₀, rfl, rfl, id⟩

theorem lock {l : Nat} {a : GateLock} (hl : s.locks[l]? = some a) : ∃ b : GateLock,
    t.locks[l]? = some b ∧ b.registered = a.registered ∧ b.key = a.key ∧
      (c.lock = l ∧ b.locked = lockUse.after a.locked ∨ c.lock ≠ l ∧ b.locked = a.locked) := by
  rw [ha.locks]
  obtain ⟨b, hb, ⟨he, rfl⟩ | ⟨hne, rfl⟩⟩ := Slots.modify_of_getElem? (i := c.lock)
    (f := fun lock => { lock with locked := lockUse.after lock.locked }) hl
  · exact ⟨_, hb, rfl, rfl, .inl ⟨he, rfl⟩⟩
  · exact ⟨_, hb, rfl, rfl, .inr ⟨hne, rfl⟩⟩

theorem lock_back {l : Nat} {b : GateLock} (hl : t.locks[l]? = some b) : ∃ a : GateLock,
    s.locks[l]? = some a ∧ b.registered = a.registered ∧ b.key = a.key ∧
      (c.lock = l ∧ b.locked = lockUse.after a.locked ∨ c.lock ≠ l ∧ b.locked = a.locked) := by
  rw [ha.locks] at hl
  obtain ⟨a, haL, ⟨he, rfl⟩ | ⟨hne, rfl⟩⟩ := Slots.getElem?_modify hl
  · exact ⟨a, haL, rfl, rfl, .inl ⟨he, rfl⟩⟩
  · exact ⟨_, haL, rfl, rfl, .inr ⟨hne, rfl⟩⟩

theorem unheld (h : s.Disciplined) (htake : lockUse = .take) {d : GateCall} (hd : d ∈ s.calls)
    (hholds : d.holds = true) : d.lock ≠ c.lock := by
  intro he
  obtain ⟨a, haL, hlocked⟩ := h.locked d hd hholds
  obtain ⟨b, hb, hfree⟩ := ha.free htake
  rw [he] at haL
  obtain rfl := Option.some.inj (haL.symm.trans hb)
  rw [hlocked] at hfree
  cases hfree

/-- What the call holds afterwards, it held before or takes; another call holds another lock. -/
theorem lock_ne (h : s.Disciplined) (hholds : c'.holds = true) {j : Nat} {d : GateCall}
    (hij : i ≠ j) (hd : s.calls[j]? = some d) (hdholds : d.holds = true) : d.lock ≠ c'.lock := by
  intro he
  have hsame : d.lock = c.lock := he.trans ha.moved.lock
  have huses := ha.moved.uses
  cases lockUse with
  | keep =>
    have hwas : c.holds = true := Eq.trans (Eq.symm huses) hholds
    exact hij (h.single i j c d ha.was hd hwas hdholds hsame.symm)
  | take => exact ha.unheld h rfl (List.mem_of_getElem? hd) hdholds hsame
  | release =>
    rw [huses.2] at hholds
    cases hholds

theorem holder (h : s.Disciplined) {l : Nat} {b : GateLock} (hb : t.locks[l]? = some b)
    (hlocked : b.locked = true) : ∃ d ∈ t.calls, d.holds = true ∧ d.lock = l := by
  have hmoved : c'.holds = true → c.lock = l → ∃ d ∈ t.calls, d.holds = true ∧ d.lock = l :=
    fun hholds hl => ⟨c', List.mem_of_getElem? ha.now, hholds, ha.moved.lock.trans hl⟩
  obtain ⟨a, haL, -, -, hstate⟩ := ha.lock_back hb
  have huses := ha.moved.uses
  -- a lock that was locked before and is kept has its holder from before
  have hkept : a.locked = true → (c.lock = l → lockUse = .keep) →
      ∃ d ∈ t.calls, d.holds = true ∧ d.lock = l := by
    intro hwas hkeep
    obtain ⟨d, hd, hholds, rfl⟩ := h.holder l a haL hwas
    obtain ⟨j, hj⟩ := List.getElem?_of_mem hd
    by_cases hij : i = j
    · subst hij
      obtain rfl := Option.some.inj (hj.symm.trans ha.was)
      have hsame := hkeep rfl
      subst hsame
      exact hmoved (Eq.trans huses hholds) rfl
    · exact ⟨d, List.mem_of_getElem? (ha.stay j d hj hij), hholds, rfl⟩
  -- the lock is that of the call which moves, or it is as it was
  rcases hstate with ⟨hl, he⟩ | ⟨hl, he⟩
  · cases lockUse with
    | keep => exact hkept (he.symm.trans hlocked) fun _ => rfl
    | take => exact hmoved huses.2 hl
    | release =>
      rw [hlocked] at he
      cases he
  · exact hkept (he.symm.trans hlocked) fun hl' => absurd hl' hl

theorem locked (h : s.Disciplined) {d : GateCall} (hd : d ∈ t.calls) (hholds : d.holds = true) :
    ∃ lock, t.locks[d.lock]? = some lock ∧ lock.locked = true := by
  have huses := ha.moved.uses
  obtain ⟨j, hj⟩ := List.getElem?_of_mem hd
  rcases ha.cases_call hj with ⟨-, rfl⟩ | ⟨hij, hd₀⟩
  · rw [ha.moved.lock]
    cases lockUse with
    | keep =>
      obtain ⟨a, haL, hlocked⟩ := h.locked c (List.mem_of_getElem? ha.was)
        (Eq.trans (Eq.symm huses) hholds)
      obtain ⟨b, hb, -, -, ⟨-, he⟩ | ⟨hne, -⟩⟩ := ha.lock haL
      · exact ⟨b, hb, he.trans hlocked⟩
      · exact absurd rfl hne
    | take =>
      obtain ⟨a, haL, -⟩ := ha.free rfl
      obtain ⟨b, hb, -, -, ⟨-, he⟩ | ⟨hne, -⟩⟩ := ha.lock haL
      · exact ⟨b, hb, he⟩
      · exact absurd rfl hne
    | release =>
      rw [huses.2] at hholds
      cases hholds
  · have hmem := List.mem_of_getElem? hd₀
    obtain ⟨a, haL, hlocked⟩ := h.locked d hmem hholds
    obtain ⟨b, hb, -, -, ⟨he, hafter⟩ | ⟨-, hsame⟩⟩ := ha.lock haL
    · refine ⟨b, hb, hafter.trans ?_⟩
      cases lockUse with
      | keep => exact hlocked
      | take => rfl
      | release => exact absurd (h.single i j c d ha.was hd₀ huses.1 hholds he) hij
    · exact ⟨b, hb, hsame.trans hlocked⟩

theorem single (h : s.Disciplined) {j k : Nat} {d e : GateCall} (hd : t.calls[j]? = some d)
    (he : t.calls[k]? = some e) (hdholds : d.holds = true) (heholds : e.holds = true)
    (hlock : d.lock = e.lock) : j = k := by
  rcases ha.cases_call hd with ⟨rfl, rfl⟩ | ⟨hij, hd₀⟩
  · rcases ha.cases_call he with ⟨rfl, -⟩ | ⟨hik, he₀⟩
    · rfl
    · exact absurd hlock.symm (ha.lock_ne h hdholds hik he₀ heholds)
  · rcases ha.cases_call he with ⟨rfl, rfl⟩ | ⟨hik, he₀⟩
    · exact absurd hlock (ha.lock_ne h heholds hij hd₀ hdholds)
    · exact h.single j k d e hd₀ he₀ hdholds heholds hlock

theorem disciplined (h : s.Disciplined) : t.Disciplined where
  registered d hd hprogress := by
    obtain ⟨d₀, hd₀, hsame, hkey, hwas⟩ := ha.named hd
    obtain ⟨a, haL, hareg, hakey⟩ := h.registered d₀ hd₀ (hwas hprogress)
    obtain ⟨b, hb, hreg, hbkey, -⟩ := ha.lock haL
    exact ⟨b, hsame ▸ hb, hreg.trans hareg, hbkey.trans (hakey.trans hkey.symm)⟩
  keys l m a b hl hm hareg hbreg hkey := by
    obtain ⟨a₀, ha₀, hareg₀, hakey₀, -⟩ := ha.lock_back hl
    obtain ⟨b₀, hb₀, hbreg₀, hbkey₀, -⟩ := ha.lock_back hm
    exact h.keys l m a₀ b₀ ha₀ hb₀ (hareg₀.symm.trans hareg) (hbreg₀.symm.trans hbreg)
      (hakey₀.symm.trans (hkey.trans hbkey₀))
  scopes d hd e he hdp hep hpath := by
    obtain ⟨d₀, hd₀, -, hdkey, hdwas⟩ := ha.named hd
    obtain ⟨e₀, he₀, -, hekey, hewas⟩ := ha.named he
    have hpath₀ : d₀.normPath = e₀.normPath :=
      (congrArg Prod.snd hdkey).symm.trans (hpath.trans (congrArg Prod.snd hekey))
    exact hdkey.trans ((h.scopes d₀ hd₀ e₀ he₀ (hdwas hdp) (hewas hep) hpath₀).trans hekey.symm)
  holder l b hb hlocked := ha.holder h hb hlocked
  locked d hd hholds := ha.locked h hd hholds
  single j k d e hd he hdholds heholds hlock := ha.single h hd he hdholds heholds hlock
  quiet d hd := by
    obtain ⟨j, hj⟩ := List.getElem?_of_mem hd
    rcases ha.cases_call hj with ⟨-, rfl⟩ | ⟨-, hd₀⟩
    · exact ha.moved.quiet
    · exact h.quiet d (List.mem_of_getElem? hd₀)

end Advances
end Call

section Start
variable {wrapper : Wrapper} {r : ToolCallRequest} {tool : GatedTool} {path : Text}

/-- The locks after `_get_gate_lock`: a fresh one only where the key had none. -/
structure Got (s : GateState) (key : String × Text) (l : Nat) (locks : List GateLock) : Prop where
  lock : ∃ lock : GateLock, locks[l]? = some lock ∧ lock.registered = true ∧ lock.key = key
  keep : ∀ (m : Nat) (a : GateLock), s.locks[m]? = some a → locks[m]? = some a
  back : ∀ (m : Nat) (a : GateLock), locks[m]? = some a → s.locks[m]? = some a ∨
    m = s.locks.length ∧ a = ⟨key, false, true⟩ ∧
      ∀ b ∈ s.locks, b.registered = true → b.key ≠ key

theorem got_getGateLock (s : GateState) (key : String × Text) :
    s.Got key (s.getGateLock key).1 (s.getGateLock key).2 := by
  unfold getGateLock
  split
  · next l hfind =>
    obtain ⟨hl, hp, -⟩ := List.findIdx?_eq_some_iff_getElem.mp hfind
    have hlock := of_decide_eq_true hp
    exact ⟨⟨_, List.getElem?_eq_getElem hl, hlock⟩, fun _ _ ha => ha, fun _ _ ha => .inl ha⟩
  · next hnone =>
    refine ⟨⟨_, List.getElem?_concat_length, rfl, rfl⟩,
      fun _ _ ha => Slots.concat_of_getElem? ha, fun m a ha => ?_⟩
    refine (Slots.getElem?_concat ha).imp_right fun hlast =>
      ⟨hlast.1, hlast.2, fun b hb hreg hkey => ?_⟩
    exact absurd ⟨hreg, hkey⟩ (of_decide_eq_false (List.findIdx?_eq_none_iff.mp hnone b hb))

theorem Got.keys {key : String × Text} {l : Nat} {locks : List GateLock} (hg : s.Got key l locks)
    (h : s.Disciplined) (m n : Nat) (a b : GateLock) (ha : locks[m]? = some a)
    (hb : locks[n]? = some b) (hareg : a.registered = true) (hbreg : b.registered = true)
    (hkey : a.key = b.key) : m = n := by
  rcases hg.back m a ha with ha₀ | ⟨rfl, rfl, hfresh⟩
  · rcases hg.back n b hb with hb₀ | ⟨rfl, rfl, hfresh⟩
    · exact h.keys m n a b ha₀ hb₀ hareg hbreg hkey
    · exact absurd hkey (hfresh a (List.mem_of_getElem? ha₀) hareg)
  · rcases hg.back n b hb with hb₀ | ⟨rfl, -, -⟩
    · exact absurd hkey.symm (hfresh b (List.mem_of_getElem? hb₀) hbreg)
    · rfl

theorem Disciplined.start (h : s.Disciplined) (hpath : r.requestedPath = some path)
    (hslip : ¬ s.Slips (.start wrapper r)) : (s.start wrapper r tool path).Disciplined := by
  have hg := s.got_getGateLock (r.lockScope, Posix.normpath path)
  have hscope : ∀ d ∈ s.calls, d.inProgress = true → d.normPath = Posix.normpath path →
      d.request.lockScope = r.lockScope := by
    intro d hd hprogress hnorm
    exact Classical.not_not.mp fun hne => hslip ⟨path, hpath, d, hd, hprogress, hnorm, hne⟩
  have hcall : ∀ {d : GateCall}, d ∈ (s.start wrapper r tool path).calls →
      d ∈ s.calls ∨ d.key = (r.lockScope, Posix.normpath path) ∧ d.holds = false ∧
        d.lock = (s.getGateLock (r.lockScope, Posix.normpath path)).1 ∧ d.quiet = true := by
    intro d hd
    refine (List.mem_append.mp hd).imp_right fun hd => ?_
    rw [List.mem_singleton.mp hd]
    refine ⟨rfl, ?_, rfl, rfl⟩
    cases wrapper <;> rfl
  have hheld : ∀ {j : Nat} {d : GateCall}, (s.start wrapper r tool path).calls[j]? = some d →
      d.holds = true → s.calls[j]? = some d := by
    intro j d hd hholds
    rcases Slots.getElem?_concat hd with hd | ⟨-, rfl⟩
    · exact hd
    · exact absurd hholds (by cases wrapper <;> simp [GateCall.holds])
  -- the new call has the registered lock of its key, and holds nothing yet
  refine ⟨fun d hd hprogress => ?_, hg.keys h, fun d hd e he hdp hep hnorm => ?_,
    fun l lock hl hlocked => ?_, fun d hd hholds => ?_, fun j k d e hd he hdh heh hlock => ?_,
    fun d hd => ?_⟩
  · rcases hcall hd with hd | ⟨hkey, -, hl, -⟩
    · obtain ⟨lock, hlock, hreg, hkey⟩ := h.registered d hd hprogress
      exact ⟨lock, hg.keep _ _ hlock, hreg, hkey⟩
    · obtain ⟨lock, hlock, hreg, hlkey⟩ := hg.lock
      exact ⟨lock, hl ▸ hlock, hreg, hlkey.trans hkey.symm⟩
  · have hnew : ∀ {d : GateCall}, d.key = (r.lockScope, Posix.normpath path) →
        d.normPath = Posix.normpath path := fun hkey => congrArg Prod.snd hkey
    rcases hcall hd with hd | ⟨hdkey, -⟩
    · rcases hcall he with he | ⟨hekey, -⟩
      · exact h.scopes d hd e he hdp hep hnorm
      · rw [hekey]
        exact Prod.ext (hscope d hd hdp (hnorm.trans (hnew hekey))) (hnorm.trans (hnew hekey))
    · rcases hcall he with he | ⟨hekey, -⟩
      · rw [hdkey]
        exact (Prod.ext (hscope e he hep (hnorm.symm.trans (hnew hdkey)))
          (hnorm.symm.trans (hnew hdkey))).symm
      · exact hdkey.trans hekey.symm
  · rcases hg.back l lock hl with hl | ⟨-, rfl, -⟩
    · obtain ⟨d, hd, hholds⟩ := h.holder l lock hl hlocked
      exact ⟨d, List.mem_append_left _ hd, hholds⟩
    · cases hlocked
  · obtain ⟨j, hj⟩ := List.getElem?_of_mem hd
    obtain ⟨lock, hlock, hlocked⟩ := h.locked d (List.mem_of_getElem? (hheld hj hholds)) hholds
    exact ⟨lock, hg.keep _ _ hlock, hlocked⟩
  · exact h.single j k d e (hheld hd hdh) (hheld he heh) hdh heh hlock
  · rcases hcall hd with hd | ⟨-, -, -, hquiet⟩
    · exact h.quiet d hd
    · exact hquiet

end Start

/-- A lock that no call in progress has is forgotten. -/
theorem Disciplined.collect (h : s.Disciplined) {l : Nat}
    (hfree : s.calls.any (fun c => c.refersTo l) = false) :
    Disciplined { s with
      locks := s.locks.modify l fun lock => { lock with registered := false } } := by
  have hother : ∀ c ∈ s.calls, c.inProgress = true → l ≠ c.lock := by
    rintro c hc hprogress rfl
    have hnot := List.any_eq_false.mp hfree c hc
    exact hnot (decide_eq_true ⟨rfl, .inl hprogress⟩)
  have hback : ∀ {m : Nat} {a : GateLock},
      (s.locks.modify l fun lock => { lock with registered := false })[m]? = some a →
      ∃ a₀ : GateLock, s.locks[m]? = some a₀ ∧ a.key = a₀.key ∧ a.locked = a₀.locked ∧
        (a.registered = true → a₀.registered = true) := by
    intro m a ha
    obtain ⟨a₀, ha₀, ⟨-, rfl⟩ | ⟨-, rfl⟩⟩ := Slots.getElem?_modify ha
    · exact ⟨a₀, ha₀, rfl, rfl, nofun⟩
    · exact ⟨a, ha₀, rfl, rfl, id⟩
  refine ⟨fun c hc hprogress => ?_, fun m n a b ha hb hareg hbreg hkey => ?_, h.scopes,
    fun m lock hm hlocked => ?_, fun c hc hholds => ?_, h.single, h.quiet⟩
  · obtain ⟨lock, hlock, hreg, hkey⟩ := h.registered c hc hprogress
    exact ⟨lock, Slots.modify_ne (hother c hc hprogress) hlock, hreg, hkey⟩
  · obtain ⟨a₀, ha₀, hakey, -, hawas⟩ := hback ha
    obtain ⟨b₀, hb₀, hbkey, -, hbwas⟩ := hback hb
    exact h.keys m n a₀ b₀ ha₀ hb₀ (hawas hareg) (hbwas hbreg)
      (hakey.symm.trans (hkey.trans hbkey))
  · obtain ⟨lock₀, hm₀, -, hsame, -⟩ := hback hm
    exact h.holder m lock₀ hm₀ (hsame.symm.trans hlocked)
  · obtain ⟨lock, hlock, hlocked⟩ := h.locked c hc hholds
    exact ⟨lock, Slots.modify_ne (hother c hc (inProgress_of_holds hholds)) hlock, hlocked⟩

theorem Disciplined.step (h : s.Disciplined) {event : GateEvent} (hslip : ¬ s.Slips event)
    (ht : s.step contentHash event = some t) : t.Disciplined := by
  unfold GateState.step at ht
  cases event with
  | start wrapper r =>
    simp only at ht
    split at ht
    · next hpath =>
      cases ht
      exact h.start hpath hslip
    · cases ht
      exact h
  | call i event =>
    obtain ⟨c, hc, ht⟩ := Option.bind_eq_some_iff.mp ht
    obtain ⟨⟨lockUse, c'⟩, hmove, ht⟩ := Option.bind_eq_some_iff.mp ht
    obtain ⟨u, hu, rfl⟩ := Option.map_eq_some_iff.mp ht
    -- without a slip the call moves, and takes or releases at most its own lock
    have hmoved := GateCall.moved_of_move (h.quiet c (List.mem_of_getElem? hc))
      (fun hcall => hslip ⟨c, hc, hcall⟩) hmove
    exact (advances_of_move hc hmoved hu).disciplined h
  | collect l =>
    simp only at ht
    split at ht
    · cases ht
    · next hfree =>
      cases ht
      exact h.collect (Bool.eq_false_iff.mpr hfree)

/-- Whatever happens, each write has passed its check. -/
theorem checked_of_step (h : ∀ c ∈ s.calls, c.Checked contentHash) {event : GateEvent}
    (ht : s.step contentHash event = some t) : ∀ c ∈ t.calls, c.Checked contentHash := by
  unfold GateState.step at ht
  cases event with
  | start wrapper r =>
    simp only at ht
    split at ht
    · next hpath =>
      cases ht
      intro c hc
      rcases List.mem_append.mp hc with hc | hc
      · exact h c hc
      · rw [List.mem_singleton.mp hc]
        refine ⟨hpath, fun hw => ?_⟩
        cases wrapper <;> simp [GateCall.writing, GateCall.runsHandler] at hw
    · cases ht
      exact h
  | call i event =>
    obtain ⟨c, hc, ht⟩ := Option.bind_eq_some_iff.mp ht
    obtain ⟨⟨lockUse, c'⟩, hmove, ht⟩ := Option.bind_eq_some_iff.mp ht
    obtain ⟨u, hu, rfl⟩ := Option.map_eq_some_iff.mp ht
    obtain ⟨hcalls, -⟩ := useLock_spec hu
    intro d hd
    obtain ⟨j, hj⟩ := List.getElem?_of_mem hd
    obtain ⟨d₀, hd₀, ⟨-, rfl⟩ | ⟨-, rfl⟩⟩ := Slots.getElem?_modify hj
    · exact (h c (List.mem_of_getElem? hc)).move hmove
    · rw [hcalls] at hd₀
      exact h d (List.mem_of_getElem? hd₀)
  | collect l =>
    simp only at ht
    split at ht
    · cases ht
    · cases ht
      exact h

/-- The gate when no call is cancelled whose thread goes on, and the calls in progress on a path
share their lock scope. -/
def steady (contentHash : Text → String) : System GateState GateEvent :=
  (readBeforeWrite contentHash).when fun s event => ¬ s.Slips event

theorem checked_of_reachable (h : Reachable (readBeforeWrite contentHash) s) :
    ∀ c ∈ s.calls, c.Checked contentHash := by
  refine h.invariant (I := fun s => ∀ c ∈ s.calls, c.Checked contentHash) ?_
    fun s event t _ hs hstep => ?_
  · rintro s rfl c hc
    cases hc
  · exact checked_of_step hs hstep

theorem disciplined_of_reachable (h : Reachable (steady contentHash) s) : s.Disciplined := by
  refine h.invariant ?_ fun s event t _ hs hstep => ?_
  · rintro s rfl
    exact ⟨fun c hc => (by cases hc), fun l m a b hl => (by cases hl), fun c hc => (by cases hc),
      fun l lock hl => (by cases hl), fun c hc => (by cases hc), fun i j c d hc => (by cases hc),
      fun c hc => (by cases hc)⟩
  · exact hs.step hstep.1 hstep.2

/-- In every steady run a write runs on the version that was read, no other handler for the path
runs from its check to its end, and the lock of a path without calls is free. -/
theorem writes_gated (h : Reachable (steady contentHash) s) : s.Gated contentHash where
  authorized c hc := (checked_of_reachable h.of_when c hc).authorized
  exclusive _ _ _ _ hc hd hij hpath hwriting :=
    (disciplined_of_reachable h).exclusive hc hd hij hpath hwriting
  released _ hidle := (disciplined_of_reachable h).released hidle

/-- No cancellation lets a write run that has not found the version of its read mark. -/
theorem writes_authorized (h : Reachable (readBeforeWrite contentHash) s) :
    ∀ c ∈ s.calls, c.Authorized contentHash := by
  intro c hc
  exact (checked_of_reachable h c hc).authorized

end GateState
end Invariant

namespace GateRun

def v1Hash : String := "3bfc269594ef649228e9a74bab00f042efc91d5acc6fbee31a382e80d42388fe"

def v2Hash : String := "fb04dcb6970e4c3d1873de51fd5a50d7bb46b3383113602665c350ec40b5f990"

def contentHash (text : Text) : String :=
  if text = "v1".toList then v1Hash else if text = "v2".toList then v2Hash else ""

def ok (tool : String) : ToolMessage := ⟨"OK", "call-1", tool, .success, none⟩

def request (tool path : String) : ToolCallRequest where
  name := some tool
  id := some "call-1"
  path := some path.toList
  threadId := some "t1"
  sandboxId := none
  messages := [.other, .tool { ok "read_file" with
    readMark := some ⟨some "/mnt/r.md".toList, some v1Hash⟩ }]

def opened (tool path : String) : GateEvent := .start .async (request tool path)

def onCall (i : Nat) (events : List CallEvent) : List GateEvent := events.map (.call i)

/-- Two writes of one turn: the second finds the version that the first has written. -/
def serialized : List (GateState → GateEvent) :=
  ([opened "write_file" "/mnt/r.md", opened "str_replace" "/mnt//r.md"]
    ++ onCall 0 [.pickUp, .acquire, .resume, .check (.content "v1".toList)]
    ++ onCall 1 [.pickUp]
    ++ onCall 0 [.resume, .launch, .finish (.message (ok "write_file")), .resume]
    ++ onCall 1 [.acquire, .resume, .check (.content "v2".toList), .resume]).map fun event _ => event

/-- A write is cancelled while a thread runs its tool, and the next read starts. -/
def overlapped : List (GateState → GateEvent) :=
  ([opened "write_file" "/mnt/r.md", opened "read_file" "/mnt/r.md"]
    ++ onCall 0 [.pickUp, .acquire, .resume, .check (.content "v1".toList), .resume, .launch, .cancel]
    ++ onCall 1 [.pickUp, .acquire, .resume, .launch]).map fun event _ => event

/-- Two calls are cancelled while their threads wait for the lock of a third. -/
def leaked : List (GateState → GateEvent) :=
  ([opened "write_file" "/mnt/r.md", opened "write_file" "/mnt/r.md",
      opened "write_file" "/mnt/r.md"]
    ++ onCall 0 [.pickUp, .acquire, .resume] ++ onCall 1 [.pickUp, .cancel]
    ++ onCall 2 [.pickUp, .cancel]
    ++ onCall 0 [.check (.content "v1".toList), .resume, .launch,
      .finish (.message (ok "write_file")), .resume]
    ++ onCall 1 [.acquire]).map fun event _ => event

end GateRun

theorem writes_gated_serialized :
    ∃ s, Reachable (GateState.steady GateRun.contentHash) s ∧
      s.calls.map (·.pc) = [.returned (.message (GateRun.ok "write_file")),
        .returned (.message
          ((GateRun.request "str_replace" "/mnt//r.md").blocked "/mnt//r.md".toList))] ∧
      s.Gated GateRun.contentHash := by
  have hrun : (runScript (guarded (fun s event => ¬ GateState.Slips s event)
      (GateState.step GateRun.contentHash)) .init GateRun.serialized).any (fun s =>
        decide (s.calls.map (·.pc) = [.returned (.message (GateRun.ok "write_file")),
          .returned (.message
            ((GateRun.request "str_replace" "/mnt//r.md").blocked "/mnt//r.md".toList))])) = true := by
    decide +kernel
  obtain ⟨s, hs, h⟩ := exists_reachable_of_decide _ hrun
  exact ⟨s, when_of_guarded hs, h, GateState.writes_gated (when_of_guarded hs)⟩

theorem writes_authorized_overlapped :
    ∃ s, Reachable (readBeforeWrite GateRun.contentHash) s ∧
      s.calls.map (·.pc) = [.cancelled .body, .handling .running] ∧
      ∀ c ∈ s.calls, c.Authorized GateRun.contentHash := by
  have hrun : (runScript (GateState.step GateRun.contentHash) .init GateRun.overlapped).any
      (fun s => decide (s.calls.map (·.pc) = [.cancelled .body, .handling .running])) = true := by
    decide +kernel
  obtain ⟨s, hs, h⟩ := exists_reachable_of_decide _ hrun
  exact ⟨s, hs, h, GateState.writes_authorized hs⟩

/-- A handler runs beside a write that goes on after its cancellation; and a lock is locked for
good while no call is in progress. -/
theorem write_overlapped_and_lock_leaked :
    (∃ s, Reachable (readBeforeWrite GateRun.contentHash) s ∧
      s.calls.map (·.pc) = [.cancelled .body, .handling .running] ∧
      ¬ s.Gated GateRun.contentHash) ∧
    ∃ s, Reachable (readBeforeWrite GateRun.contentHash) s ∧
      s.calls.map (·.inProgress) = [false, false, false] ∧
      s.locks = [⟨("t1", "/mnt/r.md".toList), true, true⟩] ∧
      ¬ s.Gated GateRun.contentHash := by
  constructor
  · have hrun : (runScript (GateState.step GateRun.contentHash) .init GateRun.overlapped).any
        (fun s => decide (s.calls.map (·.pc) = [.cancelled .body, .handling .running]) &&
          (s.calls[0]?.any fun c => c.writing && decide (c.normPath = "/mnt/r.md".toList)) &&
          s.calls[1]?.any fun d => d.runsHandler && decide (d.normPath = "/mnt/r.md".toList)) =
        true := by
      decide +kernel
    obtain ⟨s, hs, h⟩ := exists_reachable_of_runScript _ hrun
    obtain ⟨h, hsecond⟩ := Bool.and_eq_true_iff.mp h
    obtain ⟨hcalls, hfirst⟩ := Bool.and_eq_true_iff.mp h
    obtain ⟨c, hc, hwrites⟩ := Option.any_eq_true _ _ |>.mp hfirst
    obtain ⟨d, hd, hruns⟩ := Option.any_eq_true _ _ |>.mp hsecond
    obtain ⟨hwriting, hcpath⟩ := Bool.and_eq_true_iff.mp hwrites
    obtain ⟨hrunning, hdpath⟩ := Bool.and_eq_true_iff.mp hruns
    refine ⟨s, hs, of_decide_eq_true hcalls, fun hgated => ?_⟩
    have hquiet := hgated.exclusive 0 1 c d hc hd Nat.zero_ne_one
      ((of_decide_eq_true hcpath).trans (of_decide_eq_true hdpath).symm) hwriting
    rw [hrunning] at hquiet
    cases hquiet
  · have hrun : (runScript (GateState.step GateRun.contentHash) .init GateRun.leaked).any
        (fun s => decide (s.calls.map (·.inProgress) = [false, false, false] ∧
          s.locks = [⟨("t1", "/mnt/r.md".toList), true, true⟩])) = true := by
      decide +kernel
    obtain ⟨s, hs, hcalls, hlocks⟩ := exists_reachable_of_decide _ hrun
    refine ⟨s, hs, hcalls, hlocks, fun hgated => ?_⟩
    have hidle : ∀ c ∈ s.calls, c.inProgress = false := by
      intro c hc
      have hmem := List.mem_map_of_mem (f := fun c : GateCall => c.inProgress) hc
      rw [hcalls] at hmem
      simpa using hmem
    have hfree := hgated.released "/mnt/r.md".toList (fun c hc _ => hidle c hc)
      ⟨("t1", "/mnt/r.md".toList), true, true⟩ (by rw [hlocks]; exact List.mem_singleton_self _) rfl rfl
    cases hfree

end DeerFlow.Middlewares
