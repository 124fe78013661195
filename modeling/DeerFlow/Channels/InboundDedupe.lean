import DeerFlow.Lib.SlidingWindow
import DeerFlow.Lib.Transition
import DeerFlow.Runtime.Value

/-! Deliveries that `ChannelManager` has seen. A delivery whose key was recorded in time, and with
room since, is a duplicate, unless its key was released by a handling that failed. -/

namespace DeerFlow.Channels
open Transition SlidingWindow

structure InboundMessage where
  channelName : String
  chatId : String
  workspaceId : Option String
  metadata : Dict Value

abbrev DedupeKey := String × String × String × String

def inboundDedupeTtlSeconds : ℚ := 10 * 60

def inboundDedupeMaxEntries : Nat := 4096

def inboundDedupeMetadataKeys : List String := ["event_id", "message_id", "msg_id"]

section Keys
variable (str : Value → String)

def firstTruthy (d : Dict Value) : Option Value :=
  inboundDedupeMetadataKeys.findSome? fun key => (d.get key).filter Value.truthy

def messageIdOf (metadata : Dict Value) : Option String :=
  match firstTruthy metadata with
  | some value => some (str value)
  | none =>
    match metadata.get "raw_message" with
    | some (.dict raw) => (firstTruthy raw).map str
    | _ => none

/-- `msg.workspace_id or metadata.get("workspace_id") or …`, where it is truthy. -/
def workspaceIdOf (msg : InboundMessage) : Option String :=
  let own : Value := match msg.workspaceId with
    | some workspaceId => .str workspaceId
    | none => .none
  let others := ["workspace_id", "team_id", "guild_id", "aibotid"].map fun key =>
    (msg.metadata.get key).getD .none
  ((own :: others).find? Value.truthy).map str

/-- `_inbound_dedupe_key`. -/
def inboundDedupeKey (msg : InboundMessage) : Option DedupeKey := do
  let messageId ← messageIdOf str msg.metadata
  let workspaceId ← workspaceIdOf str msg
  return (msg.channelName, workspaceId, msg.chatId, messageId)

end Keys

section Steps
variable (str : Value → String)

/-- `_is_duplicate_inbound`, and the events that are recorded after it. -/
def isDuplicateInbound (msg : InboundMessage) (now : ℚ) (recent : List (DedupeKey × ℚ)) :
    Bool × List (DedupeKey × ℚ) :=
  match inboundDedupeKey str msg with
  | none => (false, recent)
  | some key => check inboundDedupeTtlSeconds inboundDedupeMaxEntries now key recent

def releaseInboundDedupeKey (msg : InboundMessage) (recent : List (DedupeKey × ℚ)) :
    List (DedupeKey × ℚ) :=
  match inboundDedupeKey str msg with
  | none => recent
  | some key => release key recent

/-- `handled` are the deliveries that were dispatched, and whether they may still fail. -/
structure Dispatcher where
  recent : List (DedupeKey × ℚ)
  handled : List (InboundMessage × Bool)
  clock : ℚ

/-- A delivery with its answer, and the failure of the handling of the `i`-th that was
dispatched. -/
inductive DedupeEvent where
  | inbound (msg : InboundMessage) (now : ℚ) (duplicate : Bool)
  | fails (i : Nat) (msg : InboundMessage)

def Dispatcher.receive (s : Dispatcher) (msg : InboundMessage) (now : ℚ) : Dispatcher :=
  let (seen, recent) := isDuplicateInbound str msg now s.recent
  ⟨recent, if seen then s.handled else s.handled ++ [(msg, true)], now⟩

def Dispatcher.fail (s : Dispatcher) (i : Nat) (msg : InboundMessage) : Dispatcher where
  recent := releaseInboundDedupeKey str msg s.recent
  handled := s.handled.set i (msg, false)
  clock := s.clock

inductive Dispatcher.Step : Dispatcher → DedupeEvent → Dispatcher → Prop
  | inbound {s : Dispatcher} {now : ℚ} (hnow : s.clock ≤ now) (msg : InboundMessage) :
    Step s (.inbound msg now (isDuplicateInbound str msg now s.recent).1) (s.receive str msg now)
  | fails {s : Dispatcher} {i : Nat} {msg : InboundMessage} (h : s.handled[i]? = some (msg, true)) :
    Step s (.fails i msg) (s.fail str i msg)

def inboundDedupe : System Dispatcher DedupeEvent where
  init s := s.recent = [] ∧ s.handled = []
  step := Dispatcher.Step str

def DedupeEvent.mark : DedupeEvent → Option (Mark DedupeKey ℚ)
  | .inbound msg now duplicate => (inboundDedupeKey str msg).map fun key =>
    .ofCheck key now duplicate
  | .fails _ msg => (inboundDedupeKey str msg).map .released

def marksOf (events : List DedupeEvent) : List (Mark DedupeKey ℚ) :=
  events.filterMap (DedupeEvent.mark str)

def DedupeEvent.accepted : DedupeEvent → Option InboundMessage
  | .inbound msg _ false => some msg
  | _ => none

def acceptedOf (events : List DedupeEvent) : List InboundMessage :=
  events.filterMap DedupeEvent.accepted

/-- An earlier delivery with the key was accepted in time, and at no check since were there as many
keys recorded after it as the window has entries. -/
structure InWindow (events : List DedupeEvent) (key : DedupeKey) (now : ℚ)
    (pre : List DedupeEvent) (msg : InboundMessage) (time : ℚ) (post : List DedupeEvent) :
    Prop where
  split : events = pre ++ .inbound msg time false :: post
  sameKey : inboundDedupeKey str msg = some key
  inTime : now - time ≤ inboundDedupeTtlSeconds
  uncrowded : Uncrowded inboundDedupeMaxEntries (marksOf str post)
  room : (standing (marksOf str post)).length < inboundDedupeMaxEntries

end Steps

section Runs
variable {str : Value → String} {s t : Dispatcher} {events pre post : List DedupeEvent}
  {e : DedupeEvent} {msg : InboundMessage} {key : DedupeKey} {now time : ℚ} {i : Nat}
  {recent : List (DedupeKey × ℚ)}

theorem isDuplicateInbound_of_key (hkey : inboundDedupeKey str msg = some key) :
    isDuplicateInbound str msg now recent =
      check inboundDedupeTtlSeconds inboundDedupeMaxEntries now key recent := by
  unfold isDuplicateInbound
  rw [hkey]

theorem isDuplicateInbound_of_none (hkey : inboundDedupeKey str msg = none) :
    isDuplicateInbound str msg now recent = (false, recent) := by
  unfold isDuplicateInbound
  rw [hkey]

theorem recent_receive (s : Dispatcher) (msg : InboundMessage) (now : ℚ) :
    (s.receive str msg now).recent = (isDuplicateInbound str msg now s.recent).2 := rfl

theorem mark_inbound (msg : InboundMessage) (now : ℚ) (seen : Bool) :
    (DedupeEvent.inbound msg now seen).mark str =
      (inboundDedupeKey str msg).map fun key => .ofCheck key now seen := rfl

theorem mark_fails (i : Nat) (msg : InboundMessage) :
    (DedupeEvent.fails i msg).mark str = (inboundDedupeKey str msg).map .released := rfl

theorem marksOf_concat (events : List DedupeEvent) (e : DedupeEvent) :
    marksOf str (events ++ [e]) = marksOf str events ++ (e.mark str).toList := by
  unfold marksOf
  rw [List.filterMap_append]
  cases h : e.mark str with
  | none | some m => simp [h]

theorem acceptedOf_append (events events' : List DedupeEvent) :
    acceptedOf (events ++ events') = acceptedOf events ++ acceptedOf events' :=
  List.filterMap_append

/-- What was recorded and handled in a run is what its events say. -/
structure Follows (str : Value → String) (events : List DedupeEvent) (s : Dispatcher) : Prop where
  replay : Replay inboundDedupeTtlSeconds inboundDedupeMaxEntries (marksOf str events) s.recent
  clock : ∀ m ∈ marksOf str events, ∀ time ∈ m.time, time ≤ s.clock
  handled : s.handled.map Prod.fst = acceptedOf events
  fails : ∀ i msg, .fails i msg ∈ events → (acceptedOf events)[i]? = some msg

theorem follows_inbound (h : Follows str events s) (hnow : s.clock ≤ now) (msg : InboundMessage) :
    Follows str (events ++ [.inbound msg now (isDuplicateInbound str msg now s.recent).1])
      (s.receive str msg now) := by
  have htimes : ∀ m ∈ marksOf str events, ∀ time ∈ m.time, time ≤ now := by
    intro m hm time htime
    exact (h.clock m hm time htime).trans hnow
  constructor
  case replay =>
    rw [marksOf_concat, mark_inbound, recent_receive]
    cases hkey : inboundDedupeKey str msg with
    | none =>
      rw [isDuplicateInbound_of_none hkey, Option.map_none, Option.toList_none, List.append_nil]
      exact h.replay
    | some key =>
      rw [isDuplicateInbound_of_key hkey, Option.map_some, Option.toList_some]
      exact h.replay.check htimes key
  case clock =>
    rw [marksOf_concat, mark_inbound, List.forall_mem_append]
    refine ⟨htimes, ?_⟩
    cases inboundDedupeKey str msg with
    | none => exact nofun
    | some key =>
      rw [Option.map_some, Option.toList_some, List.forall_mem_singleton, time_ofCheck]
      intro time htime
      exact (Option.some.inj htime).ge
  case handled =>
    have hanswer (seen : Bool) :
        (if seen then s.handled else s.handled ++ [(msg, true)]).map Prod.fst =
          s.handled.map Prod.fst ++ acceptedOf [.inbound msg now seen] := by
      cases seen with
      | true => exact (List.append_nil _).symm
      | false => exact List.map_append
    rw [acceptedOf_append, ← h.handled]
    exact hanswer _
  case fails =>
    intro i msg' hmem
    rw [List.mem_append, List.mem_singleton] at hmem
    have hold := h.fails i msg' (hmem.resolve_right nofun)
    rw [acceptedOf_append, List.getElem?_append_left (List.getElem?_eq_some_iff.mp hold).1]
    exact hold

theorem follows_fails (h : Follows str events s) (hmsg : s.handled[i]? = some (msg, true)) :
    Follows str (events ++ [.fails i msg]) (s.fail str i msg) := by
  have haccepted : acceptedOf (events ++ [.fails i msg]) = acceptedOf events := by
    rw [acceptedOf_append]
    exact List.append_nil _
  have hget : (acceptedOf events)[i]? = some msg := by
    rw [← h.handled, List.getElem?_map, hmsg]
    rfl
  constructor
  case replay =>
    rw [marksOf_concat, mark_fails]
    unfold Dispatcher.fail releaseInboundDedupeKey
    cases hkey : inboundDedupeKey str msg with
    | none =>
      rw [Option.map_none, Option.toList_none, List.append_nil]
      exact h.replay
    | some key => exact h.replay.release key
  case clock =>
    rw [marksOf_concat, mark_fails, List.forall_mem_append]
    refine ⟨h.clock, ?_⟩
    cases inboundDedupeKey str msg with
    | none => exact nofun
    | some key =>
      rw [Option.map_some, Option.toList_some, List.forall_mem_singleton]
      exact nofun
  case handled =>
    obtain ⟨hi, heq⟩ := List.getElem?_eq_some_iff.mp hget
    unfold Dispatcher.fail
    rw [haccepted, List.map_set, h.handled, ← heq, List.set_getElem_self]
  case fails =>
    intro j msg' hmem
    rw [haccepted]
    rcases List.mem_append.mp hmem with hmem | hmem
    · exact h.fails j msg' hmem
    · obtain ⟨rfl, rfl⟩ := DedupeEvent.fails.inj (List.mem_singleton.mp hmem)
      exact hget

theorem follows_of_run (h : Run (inboundDedupe str) events s) : Follows str events s := by
  induction h with
  | nil hi =>
    constructor
    case replay =>
      rw [hi.1]
      exact .nil
    case handled =>
      rw [hi.2]
      rfl
    all_goals exact nofun
  | snoc _ ht ih =>
    cases ht with
    | inbound hnow msg => exact follows_inbound ih hnow msg
    | fails h => exact follows_fails ih h

theorem accepted_of_mark (h : e.mark str = some (.recorded key time)) :
    ∃ msg, e = .inbound msg time false ∧ inboundDedupeKey str msg = some key := by
  cases e with
  | inbound msg now seen =>
    rw [mark_inbound] at h
    obtain ⟨key', hkey, hmark⟩ := Option.map_eq_some_iff.mp h
    cases seen with
    | true => cases hmark
    | false =>
      obtain ⟨rfl, rfl⟩ := Mark.recorded.inj hmark
      exact ⟨msg, rfl, hkey⟩
  | fails i msg =>
    rw [mark_fails] at h
    obtain ⟨key', -, hmark⟩ := Option.map_eq_some_iff.mp h
    cases hmark

theorem released_mem_marksOf : .released key ∈ marksOf str events ↔
    ∃ i msg, .fails i msg ∈ events ∧ inboundDedupeKey str msg = some key := by
  unfold marksOf
  rw [List.mem_filterMap]
  constructor
  · rintro ⟨e, he, hmark⟩
    cases e with
    | inbound msg now seen =>
      rw [mark_inbound] at hmark
      obtain ⟨key', -, hmark⟩ := Option.map_eq_some_iff.mp hmark
      cases seen with
      | true | false => cases hmark
    | fails i msg =>
      rw [mark_fails] at hmark
      obtain ⟨key', hkey, hmark⟩ := Option.map_eq_some_iff.mp hmark
      obtain rfl := Mark.released.inj hmark
      exact ⟨i, msg, he, hkey⟩
  · rintro ⟨i, msg, he, hkey⟩
    refine ⟨_, he, ?_⟩
    rw [mark_fails, hkey, Option.map_some]

/-- A delivery is a duplicate when one with its key is in the window and was not released. -/
theorem isDuplicateInbound_iff (h : Run (inboundDedupe str) events s)
    (hkey : inboundDedupeKey str msg = some key) (hnow : s.clock ≤ now) :
    (isDuplicateInbound str msg now s.recent).1 = true ↔ ∃ pre msg' time post,
      InWindow str events key now pre msg' time post ∧
        ∀ i m, .fails i m ∈ post → inboundDedupeKey str m ≠ some key := by
  have hfollows := follows_of_run h
  have hreleased (post : List DedupeEvent) : .released key ∉ marksOf str post ↔
      ∀ i m, .fails i m ∈ post → inboundDedupeKey str m ≠ some key := by
    rw [released_mem_marksOf]
    push Not
    rfl
  rw [isDuplicateInbound_of_key hkey, check_iff hfollows.replay
    fun m hm time htime => (hfollows.clock m hm time htime).trans hnow]
  constructor
  · rintro ⟨pre, time, post, hmarks, hnot, htime, huncrowded, hroom⟩
    obtain ⟨before, rest, rfl, -, hrest⟩ := List.filterMap_eq_append_iff.mp hmarks
    obtain ⟨between, e, after, rfl, -, hmark, rfl⟩ := List.filterMap_eq_cons_iff.mp hrest
    obtain ⟨msg', rfl, hkey'⟩ := accepted_of_mark hmark
    refine ⟨before ++ between, msg', time, after, ⟨?_, hkey', htime, huncrowded, hroom⟩, ?_⟩
    · rw [List.append_assoc]
    · exact (hreleased after).mp hnot
  · rintro ⟨pre, msg', time, post, hwindow, hfails⟩
    refine ⟨marksOf str pre, time, marksOf str post, ?_, (hreleased post).mpr hfails,
      hwindow.inTime, hwindow.uncrowded, hwindow.room⟩
    have hmark : (DedupeEvent.inbound msg' time false).mark str = some (.recorded key time) := by
      rw [mark_inbound, hwindow.sameKey]
      rfl
    rw [hwindow.split]
    unfold marksOf
    rw [List.filterMap_append, List.filterMap_cons_some hmark]

/-- A duplicate is of a delivery in the window whose own handling has not failed, and a delivery in
the window makes a duplicate as long as no handling of its key has failed. -/
theorem isDuplicateInbound_window (h : Run (inboundDedupe str) events s)
    (hkey : inboundDedupeKey str msg = some key) (hnow : s.clock ≤ now) :
    ((isDuplicateInbound str msg now s.recent).1 = true → ∃ pre msg' time post,
      InWindow str events key now pre msg' time post ∧
        ∀ m, .fails (acceptedOf pre).length m ∉ post) ∧
    ((∃ pre msg' time post, InWindow str events key now pre msg' time post ∧
        ∀ i m, .fails i m ∈ post → inboundDedupeKey str m ≠ some key) →
      (isDuplicateInbound str msg now s.recent).1 = true) := by
  refine ⟨fun hseen => ?_, (isDuplicateInbound_iff h hkey hnow).mpr⟩
  obtain ⟨pre, msg', time, post, hwindow, hfails⟩ := (isDuplicateInbound_iff h hkey hnow).mp hseen
  refine ⟨pre, msg', time, post, hwindow, fun m hm => hfails _ m hm ?_⟩
  have hsplit := hwindow.split
  have hmem : .fails (acceptedOf pre).length m ∈ events := by
    rw [hsplit]
    exact List.mem_append_right _ (List.mem_cons_of_mem _ hm)
  have hget := (follows_of_run h).fails _ m hmem
  have haccepted : acceptedOf events = acceptedOf pre ++ msg' :: acceptedOf post := by
    rw [hsplit, acceptedOf_append]
    rfl
  rw [haccepted, List.getElem?_append_right le_rfl, Nat.sub_self, List.getElem?_cons_zero] at hget
  rw [← Option.some.inj hget]
  exact hwindow.sameKey

def strText : Value → String
  | .str s => s
  | _ => ""

def eventId (i : Nat) : String := String.ofList (List.replicate (i + 1) 'a')

def delivery (i : Nat) : InboundMessage :=
  ⟨"slack", "C1", some "T1", [("event_id", .str (eventId i))]⟩

def deliveryKey (i : Nat) : DedupeKey := ("slack", "T1", "C1", eventId i)

theorem deliveryKey_inj {i j : Nat} : deliveryKey i = deliveryKey j ↔ i = j := by
  simp [deliveryKey, eventId, String.ofList_inj]

theorem inboundDedupeKey_delivery (i : Nat) :
    inboundDedupeKey strText (delivery i) = some (deliveryKey i) := by
  have hne : eventId i ≠ "" := by
    rw [eventId, ← String.ofList_nil, ne_eq, String.ofList_inj]
    exact List.cons_ne_nil _ _
  have htruthy : (Value.str (eventId i)).truthy = true := decide_eq_true hne
  have hfirst : firstTruthy (delivery i).metadata = some (.str (eventId i)) := by
    simp [firstTruthy, inboundDedupeMetadataKeys, delivery, Dict.get, Option.filter, htruthy]
  have hworkspace : workspaceIdOf strText (delivery i) = some "T1" := by
    simp [workspaceIdOf, delivery, Value.truthy, strText]
  unfold inboundDedupeKey messageIdOf
  rw [hfirst, hworkspace]
  rfl

theorem isDuplicateInbound_nil : (isDuplicateInbound str msg now []).1 = false := by
  cases hkey : inboundDedupeKey str msg with
  | none => rw [isDuplicateInbound_of_none hkey]
  | some key => rw [isDuplicateInbound_of_key hkey, check_nil]

theorem step_of_answer {seen : Bool} (hnow : s.clock ≤ now)
    (h : (isDuplicateInbound str msg now s.recent).1 = seen) :
    s.Step str (.inbound msg now seen) (s.receive str msg now) := by
  rw [← h]
  exact .inbound hnow msg

theorem ttl_eq : inboundDedupeTtlSeconds = 600 := by norm_num [inboundDedupeTtlSeconds]

def idle : Dispatcher := ⟨[], [], 0⟩

theorem run_idle : Run (inboundDedupe str) [] idle := .nil ⟨rfl, rfl⟩

/-- A message that comes again is a duplicate. -/
theorem isDuplicateInbound_window_again :
    ∃ s, Run (inboundDedupe strText) [.inbound (delivery 0) 0 false] s ∧
      (isDuplicateInbound strText (delivery 0) 1 s.recent).1 = true := by
  have hstep : idle.Step strText (.inbound (delivery 0) 0 false) _ :=
    step_of_answer le_rfl isDuplicateInbound_nil
  have hrun := run_idle.snoc hstep
  have hnow : (idle.receive strText (delivery 0) 0).clock ≤ 1 := show (0 : ℚ) ≤ 1 by decide
  refine ⟨_, hrun, (isDuplicateInbound_window hrun (inboundDedupeKey_delivery 0) hnow).2 ?_⟩
  refine ⟨[], delivery 0, 0, [], ⟨rfl, inboundDedupeKey_delivery 0, ?_, uncrowded_nil, ?_⟩, nofun⟩
  · rw [ttl_eq]
    norm_num
  · decide

def burst (n : Nat) : List DedupeEvent := (List.range n).map fun i => .inbound (delivery i) 0 false

theorem evict_expire_burst {n : Nat} : evict inboundDedupeMaxEntries
    (expire inboundDedupeTtlSeconds 0 ((List.range n).map fun i => (deliveryKey i, (0 : ℚ)))) =
      ((List.range n).map fun i => (deliveryKey i, 0)).drop (n - inboundDedupeMaxEntries) := by
  have hexpire : expire inboundDedupeTtlSeconds 0
      ((List.range n).map fun i => (deliveryKey i, (0 : ℚ))) =
        (List.range n).map fun i => (deliveryKey i, 0) := by
    unfold expire
    cases n with
    | zero => rfl
    | succ n =>
      rw [List.range_succ_eq_map, List.map_cons, List.dropWhile_cons_of_neg]
      rw [ttl_eq]
      norm_num
  rw [hexpire, evict, List.length_map, List.length_range]

theorem run_burst {n : Nat} (hn : n ≤ inboundDedupeMaxEntries + 1) :
    ∃ s, Run (inboundDedupe strText) (burst n) s ∧ s.clock = 0 ∧
      s.recent = (List.range n).map fun i => (deliveryKey i, 0) := by
  induction n with
  | zero => exact ⟨idle, run_idle, rfl, rfl⟩
  | succ n ih =>
    obtain ⟨s, hrun, hclock, hrecent⟩ := ih (by omega)
    have hlive : evict inboundDedupeMaxEntries (expire inboundDedupeTtlSeconds 0 s.recent) =
        s.recent := by
      rw [hrecent, evict_expire_burst, Nat.sub_eq_zero_of_le (by omega), List.drop_zero]
    have hanswer : (isDuplicateInbound strText (delivery n) 0 s.recent).1 = false := by
      rw [isDuplicateInbound_of_key (inboundDedupeKey_delivery n), Bool.eq_false_iff, ne_eq,
        check_fst, hlive, hrecent]
      simp [deliveryKey_inj]
    refine ⟨s.receive strText (delivery n) 0, ?_, rfl, ?_⟩
    · have hburst : burst (n + 1) = burst n ++ [.inbound (delivery n) 0 false] := by
        unfold burst
        rw [List.range_succ, List.map_append]
        rfl
      rw [hburst]
      exact hrun.snoc (step_of_answer hclock.le hanswer)
    · rw [recent_receive, isDuplicateInbound_of_key (inboundDedupeKey_delivery n), check_snd,
        hlive, ← isDuplicateInbound_of_key (inboundDedupeKey_delivery n), hanswer, hrecent,
        List.range_succ, List.map_append]
      rfl

/-- The keys other than `key` that were recorded. -/
def othersRecorded (str : Value → String) (key : DedupeKey) (events : List DedupeEvent) :
    List DedupeKey :=
  (((acceptedOf events).filterMap (inboundDedupeKey str)).filter (· ≠ key)).dedup

theorem length_othersRecorded_le (str : Value → String) (key : DedupeKey)
    (events : List DedupeEvent) : (othersRecorded str key events).length ≤ events.length := by
  calc (othersRecorded str key events).length
      ≤ (((acceptedOf events).filterMap (inboundDedupeKey str)).filter (· ≠ key)).length :=
        (List.dedup_sublist _).length_le
    _ ≤ ((acceptedOf events).filterMap (inboundDedupeKey str)).length := List.length_filter_le ..
    _ ≤ (acceptedOf events).length := List.length_filterMap_le ..
    _ ≤ events.length := List.length_filterMap_le ..

theorem run_reopened : Run (inboundDedupe strText)
    [.inbound (delivery 0) 0 false, .inbound (delivery 0) 601 false, .fails 0 (delivery 0)]
      ⟨[], [(delivery 0, false), (delivery 0, true)], 601⟩ := by
  have hfirst : isDuplicateInbound strText (delivery 0) 0 [] = (false, [(deliveryKey 0, 0)]) := by
    rw [isDuplicateInbound_of_key (inboundDedupeKey_delivery 0), check_nil]
  have hexpired : isDuplicateInbound strText (delivery 0) 601 [(deliveryKey 0, 0)] =
      (false, [(deliveryKey 0, 601)]) := by
    have hnone : expire inboundDedupeTtlSeconds 601 [(deliveryKey 0, 0)] =
        expire inboundDedupeTtlSeconds 601 [] := by
      refine List.dropWhile_cons_of_pos ?_
      rw [ttl_eq]
      norm_num
    rw [isDuplicateInbound_of_key (inboundDedupeKey_delivery 0),
      ← check_nil inboundDedupeTtlSeconds 601 inboundDedupeMaxEntries]
    unfold check
    rw [hnone]
  have hreceive : idle.receive strText (delivery 0) 0 =
      ⟨[(deliveryKey 0, 0)], [(delivery 0, true)], 0⟩ := by
    unfold Dispatcher.receive idle
    rw [hfirst]
    rfl
  have hagain : Dispatcher.receive strText ⟨[(deliveryKey 0, 0)], [(delivery 0, true)], 0⟩
      (delivery 0) 601 =
        ⟨[(deliveryKey 0, 601)], [(delivery 0, true), (delivery 0, true)], 601⟩ := by
    unfold Dispatcher.receive
    rw [hexpired]
    rfl
  have hfail : Dispatcher.fail strText
      ⟨[(deliveryKey 0, 601)], [(delivery 0, true), (delivery 0, true)], 601⟩ 0 (delivery 0) =
        ⟨[], [(delivery 0, false), (delivery 0, true)], 601⟩ := by
    unfold Dispatcher.fail releaseInboundDedupeKey
    rw [inboundDedupeKey_delivery]
    simp [release]
  have hone : idle.Step strText (.inbound (delivery 0) 0 false) _ :=
    step_of_answer le_rfl isDuplicateInbound_nil
  have htwo : Dispatcher.Step strText ⟨[(deliveryKey 0, 0)], [(delivery 0, true)], 0⟩
      (.inbound (delivery 0) 601 false) _ :=
    step_of_answer (by norm_num) (congrArg Prod.fst hexpired)
  have hthree : Dispatcher.Step strText
      ⟨[(deliveryKey 0, 601)], [(delivery 0, true), (delivery 0, true)], 601⟩
      (.fails 0 (delivery 0)) _ := .fails rfl
  rw [hreceive] at hone
  rw [hagain] at htwo
  rw [hfail] at hthree
  exact ((run_idle.snoc hone).snoc htwo).snoc hthree

/-- After as many other messages as there are entries a message is not known, and the failure of an
older delivery lets a message go that is being handled. -/
theorem window_is_shorter :
    (¬∀ events s msg key now, Run (inboundDedupe strText) events s →
      inboundDedupeKey strText msg = some key → s.clock ≤ now →
      ((isDuplicateInbound strText msg now s.recent).1 = true ↔ ∃ pre msg' time post,
        events = pre ++ .inbound msg' time false :: post ∧
          inboundDedupeKey strText msg' = some key ∧ now - time ≤ inboundDedupeTtlSeconds ∧
          (∀ i m, .fails i m ∈ post → inboundDedupeKey strText m ≠ some key) ∧
          (othersRecorded strText key post).length < inboundDedupeMaxEntries + 1)) ∧
    ¬∀ events s msg key now, Run (inboundDedupe strText) events s →
      inboundDedupeKey strText msg = some key → s.clock ≤ now →
      (∃ pre msg' time post, InWindow strText events key now pre msg' time post ∧
        ∀ m, .fails (acceptedOf pre).length m ∉ post) →
      (isDuplicateInbound strText msg now s.recent).1 = true := by
  constructor
  · intro h
    obtain ⟨s, hrun, hclock, hrecent⟩ := run_burst (n := inboundDedupeMaxEntries + 1) le_rfl
    have hseen := (h _ s (delivery 0) (deliveryKey 0) 0 hrun (inboundDedupeKey_delivery 0)
      hclock.le).mpr ?_
    · rw [isDuplicateInbound_of_key (inboundDedupeKey_delivery 0), check_fst, hrecent,
        evict_expire_burst, Nat.add_sub_cancel_left, List.range_succ_eq_map, List.map_cons,
        List.drop_one, List.tail_cons] at hseen
      obtain ⟨t, hmem⟩ := hseen
      simp [deliveryKey_inj] at hmem
    · refine ⟨[], delivery 0, 0, (burst (inboundDedupeMaxEntries + 1)).tail, ?_,
        inboundDedupeKey_delivery 0, ?_, ?_, ?_⟩
      · unfold burst
        rw [List.range_succ_eq_map, List.map_cons, List.tail_cons]
        rfl
      · rw [ttl_eq]
        norm_num
      · intro i m hm
        have hburst := List.mem_of_mem_tail hm
        unfold burst at hburst
        simp at hburst
      · have hlength : (burst (inboundDedupeMaxEntries + 1)).tail.length =
            inboundDedupeMaxEntries := by
          rw [List.length_tail, burst, List.length_map, List.length_range]
          rfl
        have hothers := length_othersRecorded_le strText (deliveryKey 0)
          (burst (inboundDedupeMaxEntries + 1)).tail
        omega
  · intro h
    have hmarks : marksOf strText [.fails 0 (delivery 0)] = [.released (deliveryKey 0)] := by
      unfold marksOf
      rw [List.filterMap_cons_some (b := .released (deliveryKey 0)), List.filterMap_nil]
      rw [mark_fails, inboundDedupeKey_delivery, Option.map_some]
    have hwindow : InWindow strText
        [.inbound (delivery 0) 0 false, .inbound (delivery 0) 601 false, .fails 0 (delivery 0)]
        (deliveryKey 0) 602 [.inbound (delivery 0) 0 false] (delivery 0) 601
        [.fails 0 (delivery 0)] := by
      refine ⟨rfl, inboundDedupeKey_delivery 0, ?_, ?_, ?_⟩
      · rw [ttl_eq]
        norm_num
      · rw [hmarks]
        have hnone : Uncrowded inboundDedupeMaxEntries
            ([] ++ [Mark.released (τ := ℚ) (deliveryKey 0)]) :=
          uncrowded_concat.mpr ⟨uncrowded_nil, nofun⟩
        exact hnone
      · rw [hmarks]
        decide
    have hseen := h _ _ (delivery 0) (deliveryKey 0) 602 run_reopened (inboundDedupeKey_delivery 0)
      (by norm_num) ⟨_, _, _, _, hwindow, by simp [acceptedOf, DedupeEvent.accepted]⟩
    rw [isDuplicateInbound_nil] at hseen
    cases hseen

end Runs

end DeerFlow.Channels
