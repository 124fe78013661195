import DeerFlow.Lib.NumberedName
import DeerFlow.Runtime.StreamBridge

/-! What the subscribers of a stream get. Events are numbered by their place as long as
each publisher that has taken an id appends its event, and then a subscriber that names
a retained event is sent exactly the later ones. -/

namespace DeerFlow.Runtime
open Transition

section Stream
variable {maxsize : Nat} {s : RunStream} {entry : StreamEvent}

theorem endOffset_append : (s.append maxsize entry).endOffset = s.endOffset + 1 := by
  unfold RunStream.append RunStream.endOffset
  simp only [List.length_append, List.length_cons, List.length_nil]
  split_ifs with h
  · simp only [List.length_drop, List.length_append, List.length_cons, List.length_nil]
    omega
  · simp only [List.length_append, List.length_cons, List.length_nil]
    omega

theorem startOffset_le_append : s.startOffset ≤ (s.append maxsize entry).startOffset := by
  unfold RunStream.append
  simp only
  split_ifs
  · exact Nat.le_add_right _ _
  · exact le_rfl

/-- The buffer is the newest part of what was appended. -/
structure Bridge.Buffered (m : Bridge) : Prop where
  length : m.appended.length = m.stream.endOffset
  events : m.stream.events = m.appended.drop m.stream.startOffset

theorem Bridge.Buffered.getElem? {m : Bridge} (h : m.Buffered) (i : Nat) :
    m.stream.events[i]? = m.appended[m.stream.startOffset + i]? := by
  rw [h.events, List.getElem?_drop]

theorem drop_append_overflow {xs ys : List StreamEvent} {k o : Nat} (h : ys = xs.drop k)
    (hk : k ≤ xs.length) : (ys ++ [entry]).drop o = (xs ++ [entry]).drop (k + o) := by
  rw [h, ← List.drop_drop, List.drop_append_of_le_length hk]

theorem Bridge.Buffered.append {m : Bridge} (h : m.Buffered) (rest : List StreamEvent) :
    Bridge.Buffered { m with
      stream := m.stream.append maxsize entry
      waiting := rest
      appended := m.appended ++ [entry] } := by
  have hle : m.stream.startOffset ≤ m.appended.length := by
    rw [h.length]
    exact Nat.le_add_right _ _
  refine ⟨?_, ?_⟩
  · show (m.appended ++ [entry]).length = (m.stream.append maxsize entry).endOffset
    rw [List.length_append, h.length, endOffset_append]
    rfl
  · show (m.stream.append maxsize entry).events =
      (m.appended ++ [entry]).drop (m.stream.append maxsize entry).startOffset
    unfold RunStream.append
    simp only
    split_ifs with ho
    · exact drop_append_overflow h.events hle
    · have hzero : (m.stream.events ++ [entry]).drop 0 =
          (m.appended ++ [entry]).drop (m.stream.startOffset + 0) :=
        drop_append_overflow h.events hle
      simpa using hzero

end Stream

section Ids
variable {int : IntText} {s : RunStream}

theorem afterDash_eventId (ts seq : Nat) : afterDash (eventId ts seq) = toString seq := by
  have hdigits : ∀ c ∈ (toString seq).toList.reverse, decide (c ≠ '-') = true := by
    intro c hc
    have hdigit : c ∈ Nat.toDigits 10 seq := by simpa using hc
    have hne := Nat.isDigit_of_mem_toDigits (by decide) (by decide) hdigit
    simp only [decide_eq_true_eq]
    rintro rfl
    cases hne
  have hlist : (eventId ts seq).toList.reverse =
      (toString seq).toList.reverse ++ '-' :: (toString ts).toList.reverse := by
    simp [eventId]
  unfold afterDash
  rw [hlist, List.takeWhile_append_of_pos hdigits, List.takeWhile_cons_of_neg (by simp),
    List.append_nil, List.reverse_reverse, String.ofList_toList]

theorem parseEventSeq_eventId (ts seq : Nat) :
    parseEventSeq int (eventId ts seq) = some (seq : Int) := by
  have hdash : '-' ∈ (eventId ts seq).toList := by simp [eventId]
  unfold parseEventSeq
  rw [if_pos hdash, afterDash_eventId, int.parse_toString]

theorem resolve_le_endOffset (lastEventId : Option String) :
    resolveStartOffset int s lastEventId ≤ s.endOffset := by
  have hle : s.startOffset ≤ s.endOffset := Nat.le_add_right _ _
  unfold resolveStartOffset
  split
  · exact hle
  · split
    · exact hle
    · simp only
      split_ifs with h
      · obtain ⟨e, he, -⟩ := (Option.any_eq_true _ _).mp h.2
        have hlt := (List.getElem?_eq_some_iff.mp he).1
        unfold RunStream.endOffset
        omega
      · exact hle

theorem resolve_of_retained {i : Nat} {e : StreamEvent} (he : s.events[i]? = some e)
    (hseq : parseEventSeq int e.id = some ((s.startOffset + i : Nat) : Int)) :
    resolveStartOffset int s (some e.id) = s.startOffset + i + 1 := by
  have hindex : ((s.startOffset + i : Nat) : Int) - s.startOffset = i := by omega
  unfold resolveStartOffset
  simp only [hseq, hindex, Int.toNat_natCast, he]
  simp

end Ids

/-- The offset a subscriber starts at. -/
def Subscriber.first (int : IntText) (sub : Subscriber) : Nat :=
  resolveStartOffset int sub.opened sub.lastEventId

/-- The subscriber got the events from its first offset on, each once and in order, but for
those that had left the buffer when it came to them; and the end marker, if at all, last. -/
structure Subscriber.Delivered (int : IntText) (m : Bridge) (sub : Subscriber) : Prop where
  first_le : sub.first int ≤ sub.nextOffset
  next_le : sub.nextOffset ≤ m.appended.length
  genuine : ∀ x ∈ sub.received, m.appended[x.1]? = some x.2
  within : ∀ x ∈ sub.received, sub.first int ≤ x.1 ∧ x.1 < sub.nextOffset
  increasing : (sub.received.map Prod.fst).Pairwise (· < ·)
  covered : ∀ p, sub.first int ≤ p → p < sub.nextOffset →
    p ∈ sub.received.map Prod.fst ∨ p < m.stream.startOffset
  finished : sub.phase = .finished → ∃ before seen, sub.yields = before ++ [.finish seen] ∧
    (∀ other, .finish other ∉ before) ∧ seen.ended = true ∧
    ∀ p, sub.first int ≤ p → seen.startOffset ≤ p → p < seen.endOffset →
      p ∈ sub.received.map Prod.fst
  active : sub.phase ≠ .finished → ∀ seen, .finish seen ∉ sub.yields

section Delivered
variable {int : IntText} {m n : Bridge} {sub : Subscriber}

/-- The bridge appends and evicts; what a subscriber got stays as it is. -/
theorem Subscriber.Delivered.mono (h : sub.Delivered int m) (happ : m.appended <+: n.appended)
    (hoff : m.stream.startOffset ≤ n.stream.startOffset) : sub.Delivered int n := by
  refine ⟨h.first_le, h.next_le.trans happ.length_le, ?_, h.within, h.increasing, ?_, h.finished,
    h.active⟩
  · intro x hx
    obtain ⟨rest, hrest⟩ := happ
    rw [← hrest, List.getElem?_append_left (List.getElem?_eq_some_iff.mp (h.genuine x hx)).1]
    exact h.genuine x hx
  · intro p hp hlt
    rcases h.covered p hp hlt with hr | hr
    · exact .inl hr
    · exact .inr (hr.trans_le hoff)

theorem Subscriber.delivered_start (hb : m.Buffered) (lastEventId : Option String) :
    (Subscriber.start int m.stream lastEventId).Delivered int m := by
  refine ⟨le_rfl, ?_, nofun, nofun, List.Pairwise.nil, ?_, nofun, nofun⟩
  · rw [hb.length]
    exact resolve_le_endOffset lastEventId
  · intro p hp hlt
    exact absurd hp (not_le.mpr hlt)

/-- Where the next round of a subscriber reads. -/
def Subscriber.target (s : RunStream) (sub : Subscriber) : Nat :=
  if sub.nextOffset < s.startOffset then s.startOffset else sub.nextOffset

theorem Subscriber.nextOffset_le_target (s : RunStream) (sub : Subscriber) :
    sub.nextOffset ≤ sub.target s := by
  unfold target
  split_ifs with h
  · exact h.le
  · exact le_rfl

theorem Subscriber.startOffset_le_target (s : RunStream) (sub : Subscriber) :
    s.startOffset ≤ sub.target s := by
  unfold target
  split_ifs with h
  · exact le_rfl
  · exact not_lt.mp h

/-- What is passed over on the way to the target has been evicted. -/
theorem Subscriber.Delivered.covered_target (h : sub.Delivered int m) {p : Nat}
    (hp : sub.first int ≤ p) (hlt : p < sub.target m.stream) :
    p ∈ sub.received.map Prod.fst ∨ p < m.stream.startOffset := by
  unfold target at hlt
  split_ifs at hlt with hs
  · exact .inr hlt
  · exact h.covered p hp hlt

theorem Subscriber.Delivered.target_le (h : sub.Delivered int m) (hb : m.Buffered) :
    sub.target m.stream ≤ m.appended.length := by
  unfold target
  split_ifs
  · rw [hb.length]
    exact Nat.le_add_right _ _
  · exact h.next_le

theorem Subscriber.poll_eq (s : RunStream) (sub : Subscriber) :
    sub.poll s = match s.events[sub.target s - s.startOffset]? with
      | some entry => { sub with
          nextOffset := sub.target s + 1
          yields := sub.yields ++ [.event (sub.target s) entry] }
      | none => if s.ended then { sub with
          nextOffset := sub.target s, phase := .finished
          yields := sub.yields ++ [.finish s] }
        else { sub with nextOffset := sub.target s, phase := .waiting } := rfl

/-- What one round does, by what stands at its target. -/
theorem Subscriber.poll_cases (s : RunStream) (sub : Subscriber) :
    (∃ entry, s.events[sub.target s - s.startOffset]? = some entry ∧
      sub.poll s = { sub with
        nextOffset := sub.target s + 1
        yields := sub.yields ++ [.event (sub.target s) entry] }) ∨
    (s.events[sub.target s - s.startOffset]? = none ∧ s.ended = true ∧
      sub.poll s = { sub with
        nextOffset := sub.target s, phase := .finished
        yields := sub.yields ++ [.finish s] }) ∨
    (s.events[sub.target s - s.startOffset]? = none ∧ s.ended = false ∧
      sub.poll s = { sub with nextOffset := sub.target s, phase := .waiting }) := by
  rw [poll_eq]
  rcases hget : s.events[sub.target s - s.startOffset]? with _ | entry
  · rcases hend : s.ended with _ | _
    · exact .inr (.inr ⟨rfl, rfl, rfl⟩)
    · exact .inr (.inl ⟨rfl, rfl, rfl⟩)
  · exact .inl ⟨entry, rfl, rfl⟩

/-- The event at the target is read; what was passed over on the way there is gone. -/
theorem Subscriber.Delivered.read (h : sub.Delivered int m) (hb : m.Buffered)
    (hactive : ∀ seen, .finish seen ∉ sub.yields) {entry : StreamEvent}
    (hget : m.stream.events[sub.target m.stream - m.stream.startOffset]? = some entry)
    (hphase : sub.phase ≠ .finished) :
    Subscriber.Delivered int m { sub with
      nextOffset := sub.target m.stream + 1
      yields := sub.yields ++ [.event (sub.target m.stream) entry] } := by
  have hfirst : sub.first int ≤ sub.target m.stream :=
    h.first_le.trans (sub.nextOffset_le_target m.stream)
  have hlow : ∀ x ∈ sub.received, x.1 < sub.target m.stream := fun x hx =>
    (h.within x hx).2.trans_le (sub.nextOffset_le_target m.stream)
  have happ : m.appended[sub.target m.stream]? = some entry := by
    rw [hb.getElem?, Nat.add_sub_cancel' (sub.startOffset_le_target m.stream)] at hget
    exact hget
  have hreceived : Subscriber.received { sub with
      nextOffset := sub.target m.stream + 1
      yields := sub.yields ++ [.event (sub.target m.stream) entry] } =
        sub.received ++ [(sub.target m.stream, entry)] := by
    simp [received]
  have hmem : ∀ x ∈ sub.received ++ [(sub.target m.stream, entry)],
      x ∈ sub.received ∨ x = (sub.target m.stream, entry) := by
    intro x hx
    simpa using hx
  refine ⟨Nat.le_succ_of_le hfirst, ?_, ?_, ?_, ?_, ?_, fun hf => absurd hf hphase, ?_⟩
  · exact (List.getElem?_eq_some_iff.mp happ).1
  · rw [hreceived]
    intro x hx
    rcases hmem x hx with hx | rfl
    · exact h.genuine x hx
    · exact happ
  · rw [hreceived]
    intro x hx
    rcases hmem x hx with hx | rfl
    · exact ⟨(h.within x hx).1, (hlow x hx).trans (Nat.lt_succ_self _)⟩
    · exact ⟨hfirst, Nat.lt_succ_self _⟩
  · rw [hreceived, List.map_append, List.pairwise_append]
    refine ⟨h.increasing, List.pairwise_singleton _ _, ?_⟩
    intro p hp q hq
    obtain ⟨x, hx, rfl⟩ := List.mem_map.mp hp
    obtain rfl : q = sub.target m.stream := by simpa using hq
    exact hlow x hx
  · intro p hp hlt
    rw [hreceived]
    rcases Nat.lt_succ_iff_lt_or_eq.mp hlt with hlt | rfl
    · rcases h.covered_target hp hlt with hc | hc
      · exact .inl (by simp only [List.map_append]; exact List.mem_append_left _ hc)
      · exact .inr hc
    · exact .inl (by simp)
  · intro _ seen hseen
    refine hactive seen ?_
    simpa using hseen

/-- Nothing is left at the target, and the stream has ended. -/
theorem Subscriber.Delivered.finish (h : sub.Delivered int m) (hb : m.Buffered)
    (hactive : ∀ seen, .finish seen ∉ sub.yields)
    (hget : m.stream.events[sub.target m.stream - m.stream.startOffset]? = none)
    (hend : m.stream.ended = true) :
    Subscriber.Delivered int m { sub with
      nextOffset := sub.target m.stream, phase := .finished
      yields := sub.yields ++ [.finish m.stream] } := by
  have hreceived : Subscriber.received { sub with
      nextOffset := sub.target m.stream, phase := .finished
      yields := sub.yields ++ [.finish m.stream] } = sub.received := by
    simp [received]
  refine ⟨h.first_le.trans (sub.nextOffset_le_target m.stream), h.target_le hb, ?_, ?_, ?_, ?_, ?_,
    fun hne => absurd rfl hne⟩
  · rw [hreceived]
    exact h.genuine
  · rw [hreceived]
    exact fun x hx => ⟨(h.within x hx).1,
      (h.within x hx).2.trans_le (sub.nextOffset_le_target m.stream)⟩
  · rw [hreceived]
    exact h.increasing
  · rw [hreceived]
    exact fun p hp hlt => h.covered_target hp hlt
  · intro _
    refine ⟨sub.yields, m.stream, rfl, hactive, hend, ?_⟩
    intro p hp hlo hhi
    rw [hreceived]
    have hlen := List.getElem?_eq_none_iff.mp hget
    have hstart := sub.startOffset_le_target m.stream
    have hlt : p < sub.target m.stream := by
      unfold RunStream.endOffset at hhi
      omega
    exact (h.covered_target hp hlt).resolve_right (not_lt.mpr hlo)

theorem Subscriber.Delivered.poll (h : sub.Delivered int m) (hb : m.Buffered)
    (hr : sub.phase = .reading) : (sub.poll m.stream).Delivered int m := by
  have hphase : sub.phase ≠ .finished := by
    rw [hr]
    decide
  have hactive := h.active hphase
  rcases sub.poll_cases m.stream with ⟨entry, hget, heq⟩ | ⟨hget, hend, heq⟩ | ⟨hget, hend, heq⟩
  · rw [heq]
    exact h.read hb hactive hget hphase
  · rw [heq]
    exact h.finish hb hactive hget hend
  · -- it waits; only what it passed over has to be accounted for
    rw [heq]
    refine ⟨h.first_le.trans (sub.nextOffset_le_target m.stream), h.target_le hb, h.genuine, ?_,
      h.increasing, fun p hp hlt => h.covered_target hp hlt, nofun,
      fun _ => hactive⟩
    exact fun x hx => ⟨(h.within x hx).1,
      (h.within x hx).2.trans_le (sub.nextOffset_le_target m.stream)⟩

end Delivered

section Reachable
variable {int : IntText} {maxsize : Nat} {m n : Bridge} {a : BridgeEvent}

theorem advance_eq_some {i : Nat} {phase : SubscriberPhase} {f : Subscriber → Subscriber} :
    m.advance i phase f = some n ↔ ∃ sub, m.subscribers[i]? = some sub ∧ sub.phase = phase ∧
      n = { m with subscribers := m.subscribers.set i (f sub) } := by
  unfold Bridge.advance
  rcases m.subscribers[i]? with _ | sub
  · simp
  · simp only [Option.some.injEq, exists_eq_left']
    split_ifs with hp
    · simp [hp, eq_comm]
    · simp [hp]

theorem appends_of_step (h : BridgeEvent.append.step int maxsize m = some n) :
    ∃ entry rest, m.waiting = entry :: rest ∧ n = { m with
      stream := m.stream.append maxsize entry
      waiting := rest
      appended := m.appended ++ [entry] } := by
  unfold BridgeEvent.step at h
  simp only at h
  split at h
  · cases h
  · next entry rest hw => exact ⟨entry, rest, hw, (Option.some.inj h).symm⟩

/-- Holds in every run, whatever becomes of its publishers. -/
structure Bridge.Delivers (int : IntText) (m : Bridge) : Prop where
  buffered : m.Buffered
  subscribers : ∀ sub ∈ m.subscribers, sub.Delivered int m

theorem Bridge.Delivers.publisher (h : m.Delivers int) (hb : n.Buffered)
    (hsub : n.subscribers = m.subscribers) (happ : m.appended <+: n.appended)
    (hoff : m.stream.startOffset ≤ n.stream.startOffset) : n.Delivers int := by
  refine ⟨hb, fun sub hs => ?_⟩
  rw [hsub] at hs
  exact (h.subscribers sub hs).mono happ hoff

theorem Bridge.Delivers.advance (h : m.Delivers int) {i : Nat} {phase : SubscriberPhase}
    {f : Subscriber → Subscriber} (hn : m.advance i phase f = some n)
    (hf : ∀ sub, sub.phase = phase → sub.Delivered int m → (f sub).Delivered int m) :
    n.Delivers int := by
  obtain ⟨sub, hi, hp, rfl⟩ := advance_eq_some.mp hn
  refine ⟨⟨h.buffered.length, h.buffered.events⟩, fun x hx => ?_⟩
  have hm : x.Delivered int m := by
    rcases List.mem_or_eq_of_mem_set hx with hx | rfl
    · exact h.subscribers x hx
    · exact hf sub hp (h.subscribers sub (List.mem_of_getElem? hi))
  exact hm.mono (List.prefix_refl _) le_rfl

/-- Waking up changes nothing a subscriber has got; a heartbeat is no event. -/
theorem Subscriber.Delivered.wake {sub : Subscriber} (h : sub.Delivered int m)
    (hw : sub.phase = .waiting) {beats : List Yield} (hb : beats = [] ∨ beats = [.heartbeat]) :
    Subscriber.Delivered int m
      { sub with phase := .reading, yields := sub.yields ++ beats } := by
  have hreceived : Subscriber.received
      { sub with phase := .reading, yields := sub.yields ++ beats } = sub.received := by
    rcases hb with rfl | rfl <;> simp [Subscriber.received]
  have hactive : ∀ seen, .finish seen ∉ sub.yields := h.active (by rw [hw]; exact nofun)
  refine ⟨h.first_le, h.next_le, ?_, ?_, ?_, ?_, nofun, ?_⟩
  · rw [hreceived]
    exact h.genuine
  · rw [hreceived]
    exact h.within
  · rw [hreceived]
    exact h.increasing
  · rw [hreceived]
    exact h.covered
  · intro _ seen hseen
    rcases hb with rfl | rfl
    · exact hactive seen (by simpa using hseen)
    · exact hactive seen (by simpa using hseen)

theorem Bridge.Delivers.step (h : m.Delivers int) (ht : (bridge int maxsize).step m a n) :
    n.Delivers int := by
  change a.step int maxsize m = some n at ht
  have hsame : ∀ {k : Bridge}, k.stream.events = m.stream.events →
      k.stream.startOffset = m.stream.startOffset → k.appended = m.appended →
      k.Buffered := by
    intro k he ho ha
    refine ⟨?_, by rw [he, ho, ha, h.buffered.events]⟩
    unfold RunStream.endOffset
    rw [he, ho, ha]
    exact h.buffered.length
  cases a with
  | publish event data ts | publishEnd =>
    cases ht
    exact h.publisher (hsame rfl rfl rfl) rfl (List.prefix_refl _) le_rfl
  | append =>
    obtain ⟨entry, rest, -, rfl⟩ := appends_of_step ht
    exact h.publisher (h.buffered.append rest) rfl (List.prefix_append _ _) startOffset_le_append
  | cancelPublish i =>
    simp only [BridgeEvent.step] at ht
    split_ifs at ht
    cases ht
    exact h.publisher (hsame rfl rfl rfl) rfl (List.prefix_refl _) le_rfl
  | subscribe lastEventId =>
    cases ht
    refine ⟨hsame rfl rfl rfl, fun sub hs => ?_⟩
    have hm : sub.Delivered int m := by
      rcases List.mem_append.mp hs with hs | hs
      · exact h.subscribers sub hs
      · obtain rfl := List.mem_singleton.mp hs
        exact Subscriber.delivered_start h.buffered lastEventId
    exact hm.mono (List.prefix_refl _) le_rfl
  | poll i =>
    exact h.advance ht fun sub hr hd => hd.poll h.buffered hr
  | wake i =>
    refine h.advance ht fun sub hw hd => ?_
    have hwake := hd.wake hw (.inl rfl)
    rwa [List.append_nil] at hwake
  | timeout i =>
    exact h.advance ht fun sub hw hd => hd.wake hw (.inr rfl)

theorem delivers_of_reachable (h : Reachable (bridge int maxsize) m) : m.Delivers int := by
  refine h.invariant (I := Bridge.Delivers int) ?_ fun _ _ _ _ hm ht => hm.step ht
  intro m hm
  obtain rfl : m = .empty := hm
  exact ⟨⟨rfl, rfl⟩, nofun⟩

/-- No publisher is cancelled between taking its id and appending. -/
def KeepsPublishers (_ : Bridge) : BridgeEvent → Prop
  | .cancelPublish _ => False
  | _ => True

instance (m : Bridge) (a : BridgeEvent) : Decidable (KeepsPublishers m a) :=
  match a with
  | .cancelPublish _ => isFalse id
  | .publish .. | .append | .publishEnd | .subscribe _ | .poll _ | .wake _ | .timeout _ =>
    isTrue trivial

/-- The event with this id is the one with offset `offset`. -/
def Numbered (offset : Nat) (entry : StreamEvent) : Prop := ∃ ts, entry.id = eventId ts offset

/-- Retained events and waiting publishers are numbered by their place. -/
structure Bridge.Aligned (m : Bridge) : Prop where
  counter : m.counter = m.stream.endOffset + m.waiting.length
  appended : ∀ {i e}, m.appended[i]? = some e → Numbered i e
  waiting : ∀ {i e}, m.waiting[i]? = some e → Numbered (m.stream.endOffset + i) e

theorem Bridge.Aligned.publish (h : m.Aligned) (event : String) (data : Value) (ts : Nat) :
    Bridge.Aligned { m with
      counter := m.counter + 1
      waiting := m.waiting ++ [⟨eventId ts m.counter, event, data⟩] } := by
  refine ⟨?_, h.appended, ?_⟩
  · simp only [List.length_append, List.length_cons, List.length_nil, h.counter]
    omega
  · intro i e he
    rcases Slots.getElem?_concat he with he | ⟨rfl, rfl⟩
    · exact h.waiting he
    · exact ⟨ts, by rw [h.counter]⟩

theorem Bridge.Aligned.append (h : m.Aligned) (hb : m.Buffered) {entry : StreamEvent}
    {rest : List StreamEvent} (hw : m.waiting = entry :: rest) :
    Bridge.Aligned { m with
      stream := m.stream.append maxsize entry
      waiting := rest
      appended := m.appended ++ [entry] } := by
  have hhead : Numbered m.stream.endOffset entry := h.waiting (i := 0) (by simp [hw])
  refine ⟨?_, ?_, ?_⟩
  · have hc := h.counter
    rw [hw, List.length_cons] at hc
    simp only [endOffset_append]
    omega
  · intro i e he
    rcases Slots.getElem?_concat he with he | ⟨rfl, rfl⟩
    · exact h.appended he
    · rw [hb.length]
      exact hhead
  · intro i e he
    have htail : m.waiting[i + 1]? = some e := by rw [hw]; exact he
    have hnum := h.waiting htail
    simp only [endOffset_append]
    rwa [Nat.add_assoc, Nat.add_comm 1 i]

theorem Bridge.Aligned.step (h : m.Aligned) (hb : m.Buffered)
    (ht : ((bridge int maxsize).when KeepsPublishers).step m a n) : n.Aligned := by
  obtain ⟨hc, ht⟩ := ht
  change a.step int maxsize m = some n at ht
  cases a with
  | publish event data ts =>
    cases ht
    exact h.publish event data ts
  | append =>
    obtain ⟨entry, rest, hw, rfl⟩ := appends_of_step ht
    exact h.append hb hw
  | cancelPublish i => exact hc.elim
  | publishEnd | subscribe lastEventId =>
    cases ht
    exact ⟨h.counter, h.appended, h.waiting⟩
  | poll i | wake i | timeout i =>
    obtain ⟨sub, -, -, rfl⟩ := advance_eq_some.mp ht
    exact ⟨h.counter, h.appended, h.waiting⟩

theorem Bridge.Aligned.parse (h : m.Aligned) (hb : m.Buffered) {i : Nat} {e : StreamEvent}
    (he : m.stream.events[i]? = some e) :
    parseEventSeq int e.id = some ((m.stream.startOffset + i : Nat) : Int) := by
  rw [hb.getElem?] at he
  obtain ⟨ts, hid⟩ := h.appended he
  rw [hid, parseEventSeq_eventId]

/-- A subscriber that names a retained event starts right after it. -/
def Subscriber.Resumes (int : IntText) (sub : Subscriber) : Prop :=
  ∀ i e, sub.opened.events[i]? = some e → sub.lastEventId = some e.id →
    sub.first int = sub.opened.startOffset + i + 1

theorem Subscriber.poll_opened (s : RunStream) (sub : Subscriber) :
    (sub.poll s).opened = sub.opened ∧ (sub.poll s).lastEventId = sub.lastEventId := by
  rcases sub.poll_cases s with ⟨_, -, h⟩ | ⟨-, -, h⟩ | ⟨-, -, h⟩ <;> rw [h] <;> exact ⟨rfl, rfl⟩

theorem Subscriber.Resumes.congr {sub sub' : Subscriber} (h : sub.Resumes int)
    (ho : sub'.opened = sub.opened) (hl : sub'.lastEventId = sub.lastEventId) :
    sub'.Resumes int := by
  unfold Subscriber.Resumes Subscriber.first
  rw [ho, hl]
  exact h

theorem resumes_advance {i : Nat} {phase : SubscriberPhase} {f : Subscriber → Subscriber}
    (h : ∀ sub ∈ m.subscribers, sub.Resumes int) (hn : m.advance i phase f = some n)
    (hf : ∀ sub, (f sub).opened = sub.opened ∧ (f sub).lastEventId = sub.lastEventId) :
    ∀ sub ∈ n.subscribers, sub.Resumes int := by
  obtain ⟨sub, hi, -, rfl⟩ := advance_eq_some.mp hn
  intro x hx
  rcases List.mem_or_eq_of_mem_set hx with hx | rfl
  · exact h x hx
  · exact (h sub (List.mem_of_getElem? hi)).congr (hf sub).1 (hf sub).2

theorem resumes_step (hm : m.Aligned) (hb : m.Buffered)
    (h : ∀ sub ∈ m.subscribers, sub.Resumes int) (ht : (bridge int maxsize).step m a n) :
    ∀ sub ∈ n.subscribers, sub.Resumes int := by
  change a.step int maxsize m = some n at ht
  cases a with
  | publish event data ts | publishEnd =>
    cases ht
    exact h
  | append =>
    obtain ⟨entry, rest, -, rfl⟩ := appends_of_step ht
    exact h
  | cancelPublish i =>
    simp only [BridgeEvent.step] at ht
    split_ifs at ht
    cases ht
    exact h
  | subscribe lastEventId =>
    cases ht
    intro sub hs
    rcases List.mem_append.mp hs with hs | hs
    · exact h sub hs
    · obtain rfl := List.mem_singleton.mp hs
      intro i e he hid
      change lastEventId = some e.id at hid
      subst hid
      exact resolve_of_retained he (hm.parse hb he)
  | poll i => exact resumes_advance h ht fun sub => sub.poll_opened m.stream
  | wake i | timeout i => exact resumes_advance h ht fun sub => ⟨rfl, rfl⟩

/-- The subscriber with index `i` has got, or can still get, the end marker. -/
def Finishes (S : System Bridge BridgeEvent) (m : Bridge) (i : Nat) : Prop :=
  ∃ n, Later S m n ∧ ∃ sub, n.subscribers[i]? = some sub ∧ sub.phase = .finished

theorem Finishes.head {S : System Bridge BridgeEvent} {i : Nat} (ht : S.step m a n)
    (h : Finishes S n i) : Finishes S m i := by
  obtain ⟨k, hl, hk⟩ := h
  exact ⟨k, .head ⟨a, ht⟩ hl, hk⟩

/-- A subscriber that goes on polling an ended stream gets the end marker. -/
theorem finishes_polling {i k : Nat} {sub : Subscriber} (hend : m.stream.ended = true)
    (hi : m.subscribers[i]? = some sub) (hr : sub.phase = .reading)
    (hk : m.stream.endOffset - sub.nextOffset ≤ k) : Finishes (bridge int maxsize) m i := by
  induction k generalizing m sub with
  | zero =>
    have hlt := (List.getElem?_eq_some_iff.mp hi).1
    have hstep : (bridge int maxsize).step m (.poll i)
        { m with subscribers := m.subscribers.set i (sub.poll m.stream) } :=
      advance_eq_some.mpr ⟨sub, hi, hr, rfl⟩
    have hnone : m.stream.events[sub.target m.stream - m.stream.startOffset]? = none := by
      have hle := sub.nextOffset_le_target m.stream
      unfold RunStream.endOffset at hk
      rw [List.getElem?_eq_none_iff]
      omega
    rcases sub.poll_cases m.stream with ⟨e, hget, -⟩ | ⟨-, -, heq⟩ | ⟨-, hopen, -⟩
    · rw [hnone] at hget
      cases hget
    · exact ⟨_, .single ⟨.poll i, hstep⟩, sub.poll m.stream, by simp [hlt], by rw [heq]⟩
    · rw [hend] at hopen
      cases hopen
  | succ k ih =>
    have hlt := (List.getElem?_eq_some_iff.mp hi).1
    have hstep : (bridge int maxsize).step m (.poll i)
        { m with subscribers := m.subscribers.set i (sub.poll m.stream) } :=
      advance_eq_some.mpr ⟨sub, hi, hr, rfl⟩
    rcases sub.poll_cases m.stream with ⟨e, -, heq⟩ | ⟨-, -, heq⟩ | ⟨-, hopen, -⟩
    · -- one event nearer to the end
      have hle := sub.nextOffset_le_target m.stream
      have hnext : (m.subscribers.set i (sub.poll m.stream))[i]? = some (sub.poll m.stream) := by
        simp [hlt]
      have hphase : (sub.poll m.stream).phase = .reading := by rw [heq]; exact hr
      have hoffset : (sub.poll m.stream).nextOffset = sub.target m.stream + 1 := by rw [heq]
      refine (ih (m := { m with subscribers := m.subscribers.set i (sub.poll m.stream) })
        hend hnext hphase ?_).head hstep
      show m.stream.endOffset - (sub.poll m.stream).nextOffset ≤ k
      omega
    · exact ⟨_, .single ⟨.poll i, hstep⟩, sub.poll m.stream, by simp [hlt], by rw [heq]⟩
    · rw [hend] at hopen
      cases hopen

theorem finishes_of_ended {i : Nat} {sub : Subscriber} (hend : m.stream.ended = true)
    (hi : m.subscribers[i]? = some sub) : Finishes (bridge int maxsize) m i := by
  rcases hp : sub.phase with _ | _ | _
  · exact finishes_polling hend hi hp le_rfl
  · -- `publish_end` has notified the condition
    have hlt := (List.getElem?_eq_some_iff.mp hi).1
    have hstep : (bridge int maxsize).step m (.wake i)
        { m with subscribers := m.subscribers.set i { sub with phase := .reading } } :=
      advance_eq_some.mpr ⟨sub, hi, hp, rfl⟩
    have hnext : (m.subscribers.set i { sub with phase := .reading })[i]? =
        some { sub with phase := .reading } := by simp [hlt]
    exact (finishes_polling (m := { m with
      subscribers := m.subscribers.set i { sub with phase := .reading } })
      hend hnext rfl le_rfl).head hstep
  · exact ⟨m, .refl, sub, hi, hp⟩

/-- What a client of the bridge relies on. -/
structure Bridge.LiveDelivery (int : IntText) (maxsize : Nat) (m : Bridge) : Prop where
  numbered : ∀ i e, m.stream.events[i]? = some e →
    parseEventSeq int e.id = some ((m.stream.startOffset + i : Nat) : Int)
  delivered : ∀ sub ∈ m.subscribers, sub.Delivered int m
  resumed : ∀ sub ∈ m.subscribers, sub.Resumes int
  ends : m.stream.ended = true → ∀ i < m.subscribers.length, Finishes (bridge int maxsize) m i

theorem live_delivery_while_publishers_append
    (h : Reachable ((bridge int maxsize).when KeepsPublishers) m) :
    m.LiveDelivery int maxsize := by
  have hinv : m.Aligned ∧ ∀ sub ∈ m.subscribers, sub.Resumes int := by
    refine h.invariant (I := fun m => m.Aligned ∧ ∀ sub ∈ m.subscribers, sub.Resumes int) ?_ ?_
    · intro m hm
      obtain rfl : m = .empty := hm
      exact ⟨⟨rfl, by simp [Bridge.empty], by simp [Bridge.empty]⟩, nofun⟩
    · intro m a n hm ⟨ha, hs⟩ ht
      have hb := (delivers_of_reachable hm.of_when).buffered
      exact ⟨ha.step hb ht, resumes_step ha hb hs ht.2⟩
  have hdel := delivers_of_reachable h.of_when
  refine ⟨fun i e he => hinv.1.parse hdel.buffered he, hdel.subscribers, hinv.2, ?_⟩
  intro hend i hi
  exact finishes_of_ended hend (List.getElem?_eq_getElem hi)

/-- Whatever becomes of the publishers, two subscribers get the same event at an offset, each in
order, and both get what is still in the buffer when they have passed it. -/
theorem subscribers_agree (h : Reachable (bridge int maxsize) m) {sub sub' : Subscriber}
    (hsub : sub ∈ m.subscribers) (hsub' : sub' ∈ m.subscribers) :
    (∀ offset e e', (offset, e) ∈ sub.received → (offset, e') ∈ sub'.received → e = e') ∧
      (sub.received.map Prod.fst).Pairwise (· < ·) ∧
      ∀ offset, m.stream.startOffset ≤ offset → sub.first int ≤ offset →
        offset < sub.nextOffset → sub'.first int ≤ offset → offset < sub'.nextOffset →
          ∃ e, (offset, e) ∈ sub.received ∧ (offset, e) ∈ sub'.received := by
  have hdel := (delivers_of_reachable h).subscribers sub hsub
  have hdel' := (delivers_of_reachable h).subscribers sub' hsub'
  have hsame : ∀ offset e e', (offset, e) ∈ sub.received → (offset, e') ∈ sub'.received →
      e = e' := by
    intro offset e e' he he'
    exact Option.some.inj ((hdel.genuine _ he).symm.trans (hdel'.genuine _ he'))
  refine ⟨hsame, hdel.increasing, fun offset hkept hfirst hnext hfirst' hnext' => ?_⟩
  have hgot := (hdel.covered offset hfirst hnext).resolve_right (Nat.not_lt.mpr hkept)
  have hgot' := (hdel'.covered offset hfirst' hnext').resolve_right (Nat.not_lt.mpr hkept)
  obtain ⟨⟨_, e⟩, he, rfl⟩ := List.mem_map.mp hgot
  obtain ⟨⟨_, e'⟩, he', hoffset⟩ := List.mem_map.mp hgot'
  dsimp only at hoffset
  subst hoffset
  exact ⟨e, he, hsame _ e e' he he' ▸ he'⟩

end Reachable

/-- `int` on the decimal texts, which are all the runs below parse. -/
def decimal : IntText where
  parse text :=
    if text.toList.all Char.isDigit ∧ text ≠ "" then
      some (Nat.ofDigitChars 10 text.toList 0 : Nat)
    else none
  parse_toString n := by
    have hdigits : (toString n).toList.all Char.isDigit = true := by
      rw [List.all_eq_true]
      intro c hc
      have hmem : c ∈ Nat.toDigits 10 n := by simpa using hc
      exact Nat.isDigit_of_mem_toDigits (by decide) (by decide) hmem
    have hne : toString n ≠ "" := by simp
    rw [if_pos ⟨hdigits, hne⟩]
    simp

namespace BridgeRun

/-- Three events into a buffer of two; one subscriber reads from the start, one resumes from
the second event. -/
def resumed : List (Bridge → BridgeEvent) :=
  [fun _ => .publish "metadata" .none 7, fun _ => .publish "values" .none 7, fun _ => .append,
   fun _ => .subscribe none, fun _ => .append, fun _ => .poll 0,
   fun _ => .subscribe (some "7-1"), fun _ => .publish "values" .none 8, fun _ => .append,
   fun _ => .poll 1, fun _ => .publishEnd, fun _ => .poll 1]

/-- The first of two publishers that wait for the lock is cancelled. -/
def drifted : List (Bridge → BridgeEvent) :=
  [fun _ => .publish "metadata" .none 7, fun _ => .publish "values" .none 7,
   fun _ => .cancelPublish 0, fun _ => .append]

def shared : List (Bridge → BridgeEvent) :=
  drifted ++ [fun _ => .subscribe none, fun _ => .subscribe none, fun _ => .poll 0,
    fun _ => .poll 1]

end BridgeRun

theorem subscribers_agree_after_cancellation :
    ∃ m : Bridge, Reachable (bridge decimal 2) m ∧ ∃ sub ∈ m.subscribers, ∃ sub' ∈ m.subscribers,
      sub.received = [(0, ⟨"7-1", "values", .none⟩)] ∧
        sub'.received = [(0, ⟨"7-1", "values", .none⟩)] ∧
          ∀ offset e e', (offset, e) ∈ sub.received → (offset, e') ∈ sub'.received → e = e' := by
  have hrun : (runScript (BridgeEvent.step decimal 2) .empty BridgeRun.shared).any (fun m =>
      decide (m.subscribers.map Subscriber.received =
        [[(0, ⟨"7-1", "values", .none⟩)], [(0, ⟨"7-1", "values", .none⟩)]])) = true := by
    decide +kernel
  obtain ⟨m, hm, h⟩ := exists_reachable_of_runScript _ hrun
  obtain ⟨sub, rest, hsubs, hgot, hrest⟩ := List.map_eq_cons_iff.mp (of_decide_eq_true h)
  obtain ⟨sub', rest', hsubs', hgot', -⟩ := List.map_eq_cons_iff.mp hrest
  have hsub : sub ∈ m.subscribers := by simp [hsubs]
  have hsub' : sub' ∈ m.subscribers := by simp [hsubs, hsubs']
  exact ⟨m, hm, sub, hsub, sub', hsub', hgot, hgot', (subscribers_agree hm hsub hsub').1⟩

theorem live_delivery_after_eviction :
    ∃ m : Bridge, Reachable ((bridge decimal 2).when KeepsPublishers) m ∧
      (m.stream.startOffset = 1 ∧ (m.subscribers[1]?).any (fun sub =>
        sub.received = [(2, ⟨"8-2", "values", .none⟩)] ∧ sub.phase = .finished) = true) ∧
      m.LiveDelivery decimal 2 := by
  have hrun : (runScript (guarded KeepsPublishers (BridgeEvent.step decimal 2)) .empty
      BridgeRun.resumed).any (fun m => decide (m.stream.startOffset = 1 ∧
        (m.subscribers[1]?).any (fun sub =>
          sub.received = [(2, ⟨"8-2", "values", .none⟩)] ∧ sub.phase = .finished) = true)) =
      true := by
    decide +kernel
  obtain ⟨m, hm, h⟩ := exists_reachable_of_runScript _ hrun
  exact ⟨m, when_of_guarded hm, of_decide_eq_true h,
    live_delivery_while_publishers_append (when_of_guarded hm)⟩

theorem cancelled_publisher_shifts_numbers :
    ¬ ∀ m, Reachable (bridge decimal 256) m → m.LiveDelivery decimal 256 := by
  intro hall
  have hrun : (runScript (BridgeEvent.step decimal 256) .empty BridgeRun.drifted).any
      (fun m => decide (m.stream = ⟨[⟨"7-1", "values", .none⟩], false, 0⟩)) = true := by
    decide +kernel
  obtain ⟨m, hm, h⟩ := exists_reachable_of_runScript _ hrun
  have hstream : m.stream = ⟨[⟨"7-1", "values", .none⟩], false, 0⟩ := of_decide_eq_true h
  have hnumbered := (hall m hm).numbered 0 ⟨"7-1", "values", .none⟩ (by rw [hstream]; rfl)
  rw [hstream] at hnumbered
  exact absurd hnumbered (by decide +kernel)

end DeerFlow.Runtime
