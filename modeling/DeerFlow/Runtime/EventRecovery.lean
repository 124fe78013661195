import DeerFlow.Runtime.EventFiles

/-! What the files of the JSONL event store hold over any sequence of calls and
restarts, compared with the log of the records that were put and not deleted.
`json.dumps` escapes the control characters of a record and leaves three other
characters as they are at which `str.splitlines` breaks a line. -/

namespace DeerFlow.Runtime

inductive EventCall where
  | put (args : EventArgs) (now : String)
  | putBatch (events : List (EventArgs × String))
  | deleteByRun (threadId runId : String)
  | restart

/-- The events a call is given, each with the time. -/
def EventCall.events : EventCall → List (EventArgs × String)
  | .put args now => [(args, now)]
  | .putBatch events => events
  | .deleteByRun _ _ | .restart => []

namespace JsonlRunEventStore

/-- The records a batch has put when it returns or raises. -/
def writtenBatch (s : JsonlRunEventStore) : List (EventArgs × String) → List EventRecord
  | [] => []
  | ev :: events =>
    match s.put ev.1 ev.2 with
    | (.error _, _) => []
    | (.ok record, s) => record :: s.writtenBatch events

def written (s : JsonlRunEventStore) : EventCall → List EventRecord
  | .put args now => ((s.put args now).1.toOption).toList
  | .putBatch events => s.writtenBatch events
  | .deleteByRun _ _ | .restart => []

def call (s : JsonlRunEventStore) : EventCall → JsonlRunEventStore
  | .put args now => (s.put args now).2
  | .putBatch events => (s.putBatch events).2
  | .deleteByRun threadId runId => (s.deleteByRun threadId runId).2
  | .restart => s.restart

/-- The call does not raise. -/
def returns (s : JsonlRunEventStore) : EventCall → Bool
  | .put args now => (s.put args now).1.isOk
  | .putBatch events => (s.putBatch events).1.isOk
  | .deleteByRun threadId runId => (s.deleteByRun threadId runId).1.isOk
  | .restart => true

end JsonlRunEventStore

/-- What a reader finds is what was put, under some number. -/
def EventRecord.IsOf (ev : EventArgs × String) (r : EventRecord) : Prop :=
  r.json = .obj [("thread_id", .str ev.1.threadId), ("run_id", .str ev.1.runId),
    ("event_type", .str ev.1.eventType), ("category", .str ev.1.category),
    ("content", ev.1.content.json), ("metadata", .obj (ev.1.metadata.getD .empty).items),
    ("seq", .int r.seq), ("created_at", .str (createdAtOr ev.1.createdAt ev.2))]

def EventRecord.InRun (threadId runId : String) (r : EventRecord) : Prop :=
  r.threadId = threadId ∧ r.runId = runId

instance (threadId runId : String) (r : EventRecord) : Decidable (r.InRun threadId runId) :=
  inferInstanceAs (Decidable (_ ∧ _))

/-- A store and the records that were put into it and not deleted, in put order. -/
structure EventHistory where
  store : JsonlRunEventStore
  log : List EventRecord

namespace EventHistory

def ofRun (h : EventHistory) (threadId runId : String) : List EventRecord :=
  h.log.filter fun r => r.InRun threadId runId

def kept (h : EventHistory) : EventCall → List EventRecord
  | .deleteByRun threadId runId =>
    match (h.store.deleteByRun threadId runId).1 with
    | .error _ => h.log
    | .ok _ => h.log.filter fun r => ¬ r.InRun threadId runId
  | .put _ _ | .putBatch _ | .restart => h.log

def next (h : EventHistory) (call : EventCall) : EventHistory :=
  ⟨h.store.call call, h.kept call ++ h.store.written call⟩

end EventHistory

def eventHistory (calls : List EventCall) : EventHistory :=
  calls.foldl EventHistory.next ⟨.init, []⟩

/-- `n` is the seq of an event in the files of the thread. -/
def JsonlRunEventStore.HasSeq (s : JsonlRunEventStore) (threadId : String) (n : Int) : Prop :=
  ∃ f ∈ s.files.rows, f.threadId = threadId ∧
    ∃ line ∈ fileLines f.text, ∃ j, Json.loads line = some j ∧ getSeq j = .ok n

/-- The events that were given for the run since it was last deleted. -/
def EventCall.pending (threadId runId : String) (n : Nat) : EventCall → Nat
  | .deleteByRun thread run => if thread = threadId ∧ run = runId then 0 else n
  | .restart => n
  | .put args now => n + [(args, now)].countP fun ev => ev.1.threadId = threadId ∧ ev.1.runId = runId
  | .putBatch events => n + events.countP fun ev => ev.1.threadId = threadId ∧ ev.1.runId = runId

def pendingEvents (calls : List EventCall) (threadId runId : String) : Nat :=
  calls.foldl (EventCall.pending threadId runId) 0

/-- What the store promises after some calls: `list_events` with its default limit gives the
records of the run, each call has put the events it was given, and the numbers given next are
above all those in the files. -/
structure Lossless (calls : List EventCall) : Prop where
  listed : ∀ threadId runId, ValidId threadId → ValidId runId →
    (eventHistory calls).store.listEvents threadId runId 500 =
      .ok (((eventHistory calls).ofRun threadId runId).map EventRecord.json)
  recorded : ∀ before call, before ++ [call] <+: calls →
    List.Forall₂ EventRecord.IsOf
        (call.events.take ((eventHistory before).store.written call).length)
        ((eventHistory before).store.written call) ∧
      ((eventHistory before).store.returns call = true →
        ((eventHistory before).store.written call).length = call.events.length)
  ascending : ∀ before call, before ++ [call] <+: calls →
    ((eventHistory before).store.written call).Pairwise
        (fun r r' => r.threadId = r'.threadId → r.seq < r'.seq) ∧
      ∀ r ∈ (eventHistory before).store.written call,
        ∀ n, (eventHistory before).store.HasSeq r.threadId n → n < r.seq

section Plain

/-- Not one of the line separators that `json.dumps` leaves as they are. -/
def PlainChar (c : Char) : Prop := c ∉ ['\u0085', '\u2028', '\u2029']

structure PlainArgs (args : EventArgs) (now : String) : Prop where
  eventType : ∀ c ∈ args.eventType.toList, PlainChar c
  category : ∀ c ∈ args.category.toList, PlainChar c
  content : args.content.json.Over PlainChar
  metadata : (Json.obj (args.metadata.getD .empty).items).Over PlainChar
  createdAt : ∀ c ∈ (createdAtOr args.createdAt now).toList, PlainChar c

def EventCall.Plain : EventCall → Prop
  | .put args now => PlainArgs args now
  | .putBatch events => ∀ ev ∈ events, PlainArgs ev.1 ev.2
  | .deleteByRun _ _ | .restart => True

theorem plainChar_of_all {s : Text}
    (h : (s.all fun c => decide (c ∉ ['\u0085', '\u2028', '\u2029'])) = true) :
    ∀ c ∈ s, PlainChar c := by
  intro c hc
  have hplain : c ∉ ['\u0085', '\u2028', '\u2029'] :=
    of_decide_eq_true (List.all_eq_true.mp h c hc)
  exact hplain

theorem plainChar_isLineBreak {c : Char} (hc : PlainChar c) (hlow : 32 ≤ c.toNat) :
    isLineBreak c = false := by
  have hne : ∀ d ∈ ['\u0085', '\u2028', '\u2029'], c.toNat ≠ d.toNat :=
    fun d hd he => hc (Char.ext (UInt32.toNat_inj.mp he) ▸ hd)
  have h85 := hne '\u0085' (by decide)
  have h2028 := hne '\u2028' (by decide)
  have h2029 := hne '\u2029' (by decide)
  simp only [isLineBreak, Bool.or_eq_false_iff, Bool.and_eq_false_iff, decide_eq_false_iff_not]
  refine ⟨⟨⟨⟨?_, ?_⟩, h85⟩, h2028⟩, h2029⟩
  · right
    omega
  · right
    omega

/-- No line of the file can break where the text of a plain value stands. -/
theorem unbroken_dumps {j : Json} (h : j.Over PlainChar) : Unbroken j.dumps := by
  refine over_dumps ?_ (fun c => plainChar_isLineBreak) h
  intro c hlow hhigh
  simp only [isLineBreak, Bool.or_eq_false_iff, Bool.and_eq_false_iff, decide_eq_false_iff_not]
  omega

theorem plainChar_of_validId {value : String} (h : ValidId value) :
    ∀ c ∈ value.toList, PlainChar c := by
  have hchar : ∀ c, isIdChar c = true → PlainChar c := by
    intro c hc hmem
    simp only [List.mem_cons, List.not_mem_nil, or_false] at hmem
    rcases hmem with rfl | rfl | rfl <;> exact absurd hc (by decide)
  intro c hc
  simp only [ValidId, safeIdPattern, Bool.and_eq_true, List.all_eq_true] at h
  split at h
  · next hlast =>
    rw [← List.dropLast_append_getLast? _ hlast, List.mem_append, List.mem_singleton] at hc
    rcases hc with hc | rfl
    · exact hchar c (h.2 c hc)
    · unfold PlainChar
      decide
  · exact hchar c (h.2 c hc)

end Plain

section Lines

/-- A text with no space at either end. -/
def Solid (s : Text) : Prop :=
  (∃ c ∈ s.head?, isSpace c = false) ∧ ∃ c ∈ s.getLast?, isSpace c = false

theorem dropWhile_isSpace {s : Text} (h : ∃ c ∈ s.head?, isSpace c = false) :
    s.dropWhile isSpace = s := by
  obtain ⟨c, hc, hspace⟩ := h
  cases s with
  | nil => cases hc
  | cons d s =>
    cases hc
    simp [hspace]

theorem strip_append {s t : Text} (hs : Solid s) (ht : ∀ c ∈ t, isSpace c = true) :
    (strip (String.ofList (s ++ t))).toList = s := by
  have hhead : ∃ c ∈ (s ++ t).head?, isSpace c = false := by
    obtain ⟨c, hc, hspace⟩ := hs.1
    exact ⟨c, List.mem_head?_append_of_mem_head? hc, hspace⟩
  have hlast : ∃ c ∈ s.reverse.head?, isSpace c = false := by
    rw [List.head?_reverse]
    exact hs.2
  unfold strip
  simp only [String.toList_ofList]
  rw [dropWhile_isSpace hhead, List.reverse_append,
    List.dropWhile_append_of_pos (fun c hc => ht c (List.mem_reverse.mp hc)),
    dropWhile_isSpace hlast, List.reverse_reverse]

theorem solid_writeLines_append {lines : List Text} {last : Text}
    (h : ∀ l ∈ lines, Solid l) (hlast : Solid last) : Solid (writeLines lines ++ last) := by
  constructor
  · cases lines with
    | nil => exact hlast.1
    | cons l lines =>
      obtain ⟨c, hc, hspace⟩ := (h l (List.mem_cons_self ..)).1
      refine ⟨c, ?_, hspace⟩
      simp only [writeLines, List.flatMap_cons, List.append_assoc]
      exact List.mem_head?_append_of_mem_head? hc
  · obtain ⟨c, hc, hspace⟩ := hlast.2
    refine ⟨c, ?_, hspace⟩
    rw [List.getLast?_append, Option.mem_def.mp hc]
    rfl

theorem fileLines_writeLines {lines : List Text} (hbreak : ∀ l ∈ lines, Unbroken l)
    (hsolid : ∀ l ∈ lines, Solid l) : fileLines (writeLines lines) = lines := by
  rcases List.eq_nil_or_concat' lines with rfl | ⟨front, last, rfl⟩
  · rfl
  · have hfront : ∀ l ∈ front, l ∈ front ++ [last] := fun l hl => List.mem_append_left _ hl
    have hlast : last ∈ front ++ [last] := List.mem_append_right _ (List.mem_singleton_self _)
    have hne : last ≠ [] := by
      rintro rfl
      obtain ⟨c, hc, -⟩ := (hsolid [] hlast).1
      cases hc
    have htext : writeLines (front ++ [last]) = (writeLines front ++ last) ++ ['\n'] := by
      simp [writeLines]
    have hnewline : ∀ c ∈ ['\n'], isSpace c = true := List.forall_mem_singleton.mpr rfl
    unfold fileLines
    rw [universalNewlines_of_not_mem (not_mem_writeLines hbreak), htext,
      strip_append (solid_writeLines_append (fun l hl => hsolid l (hfront l hl)) (hsolid _ hlast))
        hnewline,
      splitlines_writeLines (fun l hl => hbreak l (hfront l hl)) (hbreak _ hlast) hne]

end Lines

section Records

def EventRecord.line (r : EventRecord) : Text := r.json.dumps

theorem EventRecord.json_unique (r : EventRecord) : r.json.Unique := by
  refine .obj (by simp) ?_
  intro x hx
  simp only [List.mem_cons, List.not_mem_nil, or_false] at hx
  rcases hx with rfl | rfl | rfl | rfl | rfl | rfl | rfl | rfl
  · exact .str _
  · exact .str _
  · exact .str _
  · exact .str _
  · exact r.content.unique
  · exact r.metadata.unique
  · exact .int _
  · exact .str _

theorem EventRecord.loads_line (r : EventRecord) : Json.loads r.line = some r.json :=
  loads_dumps r.json_unique

theorem EventRecord.getSeq_json (r : EventRecord) : getSeq r.json = .ok r.seq := rfl

theorem EventRecord.solid_line (r : EventRecord) : Solid r.line := by
  have htext : r.line = '\x7b' :: (joinItems memberText _ ++ ['\x7d']) := dumps_obj _
  rw [htext]
  constructor
  · exact ⟨'\x7b', rfl, by decide⟩
  · refine ⟨'\x7d', ?_, by decide⟩
    rw [← List.cons_append, List.getLast?_concat]
    rfl

theorem sortBySeq_json {rs : List EventRecord} (h : rs.Pairwise fun r r' => r.seq < r'.seq) :
    sortBySeq (rs.map EventRecord.json) = .ok (rs.map EventRecord.json) := by
  have hkeyed : (rs.map EventRecord.json).mapM (fun e => (getSeq e).map fun n => (n, e)) =
      .ok (rs.map fun r => (r.seq, r.json)) := by
    rw [mapM_eq_ok, List.forall₂_map_left_iff, List.forall₂_map_right_iff, List.forall₂_same]
    intro r _
    rw [r.getSeq_json]
    rfl
  have hsorted : (rs.map fun r => (r.seq, r.json)).insertionSort (fun a b => a.1 ≤ b.1) =
      rs.map fun r => (r.seq, r.json) := by
    apply List.Pairwise.insertionSort_eq
    rw [List.pairwise_map]
    exact h.imp fun hlt => hlt.le
  unfold sortBySeq
  rw [hkeyed]
  simp only [bind, Except.bind, hsorted, List.map_map]
  rfl

end Records
section Soundness

/-- The files hold the log, and no counter lags behind it. -/
structure EventHistory.Sound (h : EventHistory) : Prop where
  files : ∀ threadId runId, h.store.textAt (threadId, runId) =
    writeLines ((h.ofRun threadId runId).map EventRecord.line)
  plain : ∀ r ∈ h.log, r.json.Over PlainChar
  ascending : h.log.Pairwise fun r r' => r.threadId = r'.threadId → r.seq < r'.seq
  counted : ∀ threadId n, h.store.seqCounters.get threadId = some n →
    ∀ r ∈ h.log, r.threadId = threadId → r.seq ≤ n

variable {h : EventHistory}

theorem EventHistory.mem_ofRun {threadId runId : String} {r : EventRecord} :
    r ∈ h.ofRun threadId runId ↔ r ∈ h.log ∧ r.InRun threadId runId := by
  simp [EventHistory.ofRun]

theorem EventHistory.Sound.fileLines (hs : h.Sound) (threadId runId : String) :
    fileLines (h.store.textAt (threadId, runId)) =
      (h.ofRun threadId runId).map EventRecord.line := by
  rw [hs.files]
  apply fileLines_writeLines
  · intro l hl
    obtain ⟨r, hr, rfl⟩ := List.mem_map.mp hl
    exact unbroken_dumps (hs.plain r (EventHistory.mem_ofRun.mp hr).1)
  · intro l hl
    obtain ⟨r, -, rfl⟩ := List.mem_map.mp hl
    exact r.solid_line

theorem textAt_of_mem {s : JsonlRunEventStore} {f : RunFile} (hf : f ∈ s.files.rows) :
    s.textAt (f.threadId, f.runId) = f.text := by
  have hget := Table.mem_rows.mp hf
  unfold JsonlRunEventStore.textAt
  change (s.files.get f.path).elim [] RunFile.text = f.text
  rw [hget]
  rfl

theorem EventHistory.Sound.ofRun_ascending (hs : h.Sound) (threadId runId : String) :
    (h.ofRun threadId runId).Pairwise fun r r' => r.seq < r'.seq := by
  have hfilter := hs.ascending.filter fun r => decide (r.InRun threadId runId)
  refine hfilter.imp_of_mem fun {r r'} hr hr' hlt => ?_
  have hin : r.InRun threadId runId := by simpa using (List.mem_filter.mp hr).2
  have hin' : r'.InRun threadId runId := by simpa using (List.mem_filter.mp hr').2
  exact hlt (hin.1.trans hin'.1.symm)

theorem filterMap_loads (rs : List EventRecord) :
    (rs.map EventRecord.line).filterMap (fun line => if line = [] then none else Json.loads line) =
      rs.map EventRecord.json := by
  have hne : ∀ r : EventRecord, r.line ≠ [] := by
    intro r hnil
    obtain ⟨c, hc, -⟩ := r.solid_line.1
    rw [hnil] at hc
    cases hc
  rw [List.filterMap_map, ← List.filterMap_eq_map]
  apply List.filterMap_congr
  intro r _
  change (if r.line = [] then none else Json.loads r.line) = some r.json
  rw [if_neg (hne r), r.loads_line]

theorem runFile_of_valid {threadId runId : String} (ht : ValidId threadId) (hr : ValidId runId) :
    JsonlRunEventStore.runFile threadId runId = .ok (threadId, runId) := by
  simp [JsonlRunEventStore.runFile, validateId, ht, hr, bind, Except.bind, pure, Except.pure]

theorem EventHistory.Sound.readRunEvents (hs : h.Sound) {threadId runId : String}
    (ht : ValidId threadId) (hr : ValidId runId) :
    h.store.readRunEvents threadId runId =
      .ok ((h.ofRun threadId runId).map EventRecord.json) := by
  have hlines := hs.fileLines threadId runId
  unfold JsonlRunEventStore.readRunEvents
  rw [runFile_of_valid ht hr]
  simp only [bind, Except.bind]
  unfold JsonlRunEventStore.textAt at hlines
  rcases hget : h.store.files.get (threadId, runId) with _ | f
  · rw [hget] at hlines
    have hnil : h.ofRun threadId runId = [] := List.map_eq_nil_iff.mp hlines.symm
    simp only [hnil]
    rfl
  · rw [hget] at hlines
    change DeerFlow.Runtime.fileLines f.text = _ at hlines
    simp only [hlines, filterMap_loads]
    exact sortBySeq_json (hs.ofRun_ascending threadId runId)

theorem foldlM_maxSeqLine (rs : List EventRecord) (n : Int) :
    ∃ m, (rs.map EventRecord.line).foldlM JsonlRunEventStore.maxSeqLine n = .ok m ∧ n ≤ m ∧
      ∀ r ∈ rs, r.seq ≤ m := by
  induction rs generalizing n with
  | nil => exact ⟨n, rfl, le_rfl, fun r hr => by cases hr⟩
  | cons r rs ih =>
    obtain ⟨m, hm, hle, hrs⟩ := ih (max n r.seq)
    have hline : JsonlRunEventStore.maxSeqLine n r.line = .ok (max n r.seq) := by
      simp [JsonlRunEventStore.maxSeqLine, r.loads_line, r.getSeq_json, Except.map]
    refine ⟨m, ?_, le_of_max_le_left hle, ?_⟩
    · rw [List.map_cons, List.foldlM_cons, hline]
      exact hm
    · intro r' hr'
      rcases List.mem_cons.mp hr' with rfl | hmem
      · exact le_of_max_le_right hle
      · exact hrs r' hmem

/-- Loading the counter from the files finds every number of the thread. -/
theorem EventHistory.Sound.computeMaxSeq (hs : h.Sound) {threadId : String}
    (ht : ValidId threadId) :
    ∃ n, h.store.computeMaxSeq threadId = .ok n ∧
      ∀ r ∈ h.log, r.threadId = threadId → r.seq ≤ n := by
  let files := h.store.files.rows.filter fun f => f.threadId = threadId
  let records := files.flatMap fun f => h.ofRun f.threadId f.runId
  have hlines : files.flatMap (fun f => DeerFlow.Runtime.fileLines f.text) =
      records.map EventRecord.line := by
    rw [List.map_flatMap]
    apply List.flatMap_congr
    intro f hf
    rw [← textAt_of_mem (List.mem_of_mem_filter hf), hs.fileLines]
  obtain ⟨n, hn, -, hle⟩ := foldlM_maxSeqLine records 0
  refine ⟨n, ?_, fun r hr hthread => hle r ?_⟩
  · unfold JsonlRunEventStore.computeMaxSeq validateId
    rw [if_pos ht]
    change (files.flatMap fun f => DeerFlow.Runtime.fileLines f.text).foldlM _ _ = _
    rw [hlines, hn]
  · have hmem : r ∈ h.ofRun threadId r.runId := EventHistory.mem_ofRun.mpr ⟨hr, hthread, rfl⟩
    have hlines := hs.fileLines threadId r.runId
    unfold JsonlRunEventStore.textAt at hlines
    rcases hget : h.store.files.get (threadId, r.runId) with _ | f
    · rw [hget] at hlines
      rw [List.map_eq_nil_iff.mp hlines.symm] at hmem
      cases hmem
    · have hpath : f.path = (threadId, r.runId) := Table.key_of_get hget
      obtain ⟨hthread', hrun⟩ := Prod.mk.inj hpath
      refine List.mem_flatMap.mpr ⟨f, List.mem_filter.mpr ⟨Table.mem_of_get hget, ?_⟩, ?_⟩
      · simpa using hthread'
      · rw [hthread', hrun]
        exact hmem

theorem EventHistory.Sound.hasSeq (hs : h.Sound) {threadId : String} {n : Int}
    (hn : h.store.HasSeq threadId n) : ∃ r ∈ h.log, r.threadId = threadId ∧ r.seq = n := by
  obtain ⟨f, hf, rfl, line, hline, j, hj, hseq⟩ := hn
  rw [← textAt_of_mem hf, hs.fileLines] at hline
  obtain ⟨r, hr, rfl⟩ := List.mem_map.mp hline
  rw [r.loads_line] at hj
  cases hj
  obtain ⟨hlog, hrun⟩ := EventHistory.mem_ofRun.mp hr
  exact ⟨r, hlog, hrun.1, Except.ok.inj hseq⟩

end Soundness
section Calls
variable {s s' : JsonlRunEventStore} {log : List EventRecord}

theorem sound_init : EventHistory.Sound ⟨.init, []⟩ where
  files _ _ := rfl
  plain _ hr := by cases hr
  ascending := .nil
  counted _ _ hn := by cases hn

/-- A loaded counter is not below any number of its thread. -/
theorem sound_ensureSeqLoaded (hs : EventHistory.Sound ⟨s, log⟩) {threadId : String}
    (h : s.ensureSeqLoaded threadId = .ok s') :
    EventHistory.Sound ⟨s', log⟩ ∧ ∃ n, s'.seqCounters.get threadId = some n := by
  unfold JsonlRunEventStore.ensureSeqLoaded at h
  split at h
  · next hloaded =>
    cases h
    exact ⟨hs, Option.isSome_iff_exists.mp hloaded⟩
  · obtain ⟨n, hn, rfl⟩ := map_eq_ok.mp h
    have hvalid : ValidId threadId := by
      by_contra hinvalid
      unfold JsonlRunEventStore.computeMaxSeq validateId at hn
      rw [if_neg hinvalid] at hn
      cases hn
    obtain ⟨m, hm, hle⟩ := hs.computeMaxSeq hvalid
    obtain rfl := Except.ok.inj (hn.symm.trans hm)
    refine ⟨⟨hs.files, hs.plain, hs.ascending, ?_⟩, n, Dict.get_set_self _ _ _⟩
    intro thread k hk r hr hthread
    rw [Dict.get_set] at hk
    split_ifs at hk with heq
    · cases hk
      exact hle r hr (hthread.trans heq)
    · exact hs.counted thread k hk r hr hthread

theorem sound_nextSeq (hs : EventHistory.Sound ⟨s, log⟩) {threadId : String} {n : Int}
    (hn : s.seqCounters.get threadId = some n) :
    (s.nextSeq threadId).1 = n + 1 ∧ EventHistory.Sound ⟨(s.nextSeq threadId).2, log⟩ := by
  have hseq : (s.nextSeq threadId).1 = n + 1 := by
    simp only [JsonlRunEventStore.nextSeq, hn, Option.getD_some]
  refine ⟨hseq, hs.files, hs.plain, hs.ascending, ?_⟩
  intro thread k hk r hr hthread
  change (s.seqCounters.set threadId (s.nextSeq threadId).1).get thread = some k at hk
  rw [hseq, Dict.get_set] at hk
  split_ifs at hk with heq
  · have hle : r.seq ≤ n := hs.counted threadId n hn r hr (hthread.trans heq)
    have hk' := Option.some.inj hk
    omega
  · exact hs.counted thread k hk r hr hthread

theorem runFile_eq_ok {threadId runId : String} {path : String × String}
    (h : JsonlRunEventStore.runFile threadId runId = .ok path) :
    ValidId threadId ∧ ValidId runId ∧ path = (threadId, runId) := by
  unfold JsonlRunEventStore.runFile validateId at h
  split_ifs at h with hrun hthread
  · exact ⟨hthread, hrun, (Except.ok.inj h).symm⟩
  · cases h
  · cases h
  · cases h

theorem ofRun_append (r : EventRecord) (threadId runId : String) :
    EventHistory.ofRun ⟨s', log ++ [r]⟩ threadId runId =
      EventHistory.ofRun ⟨s, log⟩ threadId runId ++
        if r.InRun threadId runId then [r] else [] := by
  unfold EventHistory.ofRun
  rw [List.filter_append]
  split_ifs with hr
  · simp [hr]
  · simp [hr]

theorem sound_writeRecord (hs : EventHistory.Sound ⟨s, log⟩) {record : EventRecord}
    (h : s.writeRecord record = .ok s') (hplain : record.json.Over PlainChar)
    (hseq : ∀ r ∈ log, r.threadId = record.threadId → r.seq < record.seq)
    (hcounter : s.seqCounters.get record.threadId = some record.seq) :
    EventHistory.Sound ⟨s', log ++ [record]⟩ := by
  obtain ⟨path, hpath, h⟩ := bind_eq_ok.mp h
  obtain ⟨-, -, rfl⟩ := runFile_eq_ok hpath
  cases h
  constructor
  · intro threadId runId
    rw [ofRun_append (s := s)]
    unfold JsonlRunEventStore.textAt
    rw [Table.get_put]
    split_ifs with heq hin hin
    · obtain ⟨rfl, rfl⟩ := Prod.mk.inj heq
      have hfiles := hs.files record.threadId record.runId
      change s.textAt (record.threadId, record.runId) ++ (record.json.dumps ++ ['\n']) = _
      rw [hfiles]
      simp [writeLines, EventRecord.line]
    · obtain ⟨rfl, rfl⟩ := Prod.mk.inj heq
      exact absurd ⟨rfl, rfl⟩ hin
    · exact absurd (Prod.ext hin.1.symm hin.2.symm) heq
    · rw [List.append_nil]
      exact hs.files threadId runId
  · intro r hr
    rcases List.mem_append.mp hr with hr | hr
    · exact hs.plain r hr
    · exact List.mem_singleton.mp hr ▸ hplain
  · rw [List.pairwise_append]
    refine ⟨hs.ascending, List.pairwise_singleton _ _, ?_⟩
    intro r hr r' hr'
    rw [List.mem_singleton.mp hr']
    exact hseq r hr
  · intro threadId n hn r hr hthread
    rcases List.mem_append.mp hr with hr | hr
    · exact hs.counted threadId n hn r hr hthread
    · obtain rfl := List.mem_singleton.mp hr
      subst hthread
      exact (Option.some.inj (hcounter.symm.trans hn)).le

theorem plain_record {args : EventArgs} {now : String} (h : PlainArgs args now)
    (hthread : ValidId args.threadId) (hrun : ValidId args.runId) (n : Int) :
    (args.record n now).json.Over PlainChar := by
  have hkeys : ∀ k ∈ ["thread_id", "run_id", "event_type", "category", "content", "metadata",
      "seq", "created_at"], ∀ c ∈ k.toList, PlainChar c := by
    refine fun k hk => plainChar_of_all ?_
    revert k
    decide
  refine .obj (fun x hx => hkeys x.1 ?_) fun x hx => ?_
  · exact List.mem_map_of_mem (f := Prod.fst) hx
  · simp only [List.mem_cons, List.not_mem_nil, or_false] at hx
    rcases hx with rfl | rfl | rfl | rfl | rfl | rfl | rfl | rfl
    · exact .str (plainChar_of_validId hthread)
    · exact .str (plainChar_of_validId hrun)
    · exact .str h.eventType
    · exact .str h.category
    · exact h.content
    · exact h.metadata
    · exact .int _
    · exact .str h.createdAt

theorem sound_append_nil (hs : EventHistory.Sound ⟨s, log⟩) :
    EventHistory.Sound ⟨s, log ++ []⟩ := by
  rwa [List.append_nil]

theorem sound_put (hs : EventHistory.Sound ⟨s, log⟩) {args : EventArgs} {now : String}
    (hplain : PlainArgs args now) :
    EventHistory.Sound ⟨(s.put args now).2, log ++ ((s.put args now).1.toOption).toList⟩ := by
  unfold JsonlRunEventStore.put
  rcases hloaded : s.ensureSeqLoaded args.threadId with e | s₁
  · exact sound_append_nil hs
  · obtain ⟨hs₁, n, hn⟩ := sound_ensureSeqLoaded hs hloaded
    obtain ⟨hseq, hs₂⟩ := sound_nextSeq hs₁ hn
    simp only
    rcases hwrite : (s₁.nextSeq args.threadId).2.writeRecord
      (args.record (s₁.nextSeq args.threadId).1 now) with e | s₃
    · exact sound_append_nil hs₂
    · obtain ⟨path, hpath, -⟩ := bind_eq_ok.mp hwrite
      obtain ⟨hthread, hrun, -⟩ := runFile_eq_ok hpath
      refine sound_writeRecord hs₂ hwrite (plain_record hplain hthread hrun _) ?_ ?_
      · intro r hr hrthread
        have hle : r.seq ≤ n := hs₁.counted args.threadId n hn r hr hrthread
        change r.seq < (s₁.nextSeq args.threadId).1
        omega
      · exact Dict.get_set_self _ _ _

/-- The store after a batch and what it has put, one event after the other. -/
theorem sound_putBatch {events : List (EventArgs × String)}
    (hplain : ∀ ev ∈ events, PlainArgs ev.1 ev.2) (hs : EventHistory.Sound ⟨s, log⟩) :
    EventHistory.Sound ⟨(s.putBatch events).2, log ++ s.writtenBatch events⟩ := by
  induction events generalizing s log with
  | nil =>
    exact sound_append_nil hs
  | cons ev events ih =>
    have hput := sound_put hs (hplain ev (List.mem_cons_self ..))
    have hrest := fun ev' hev => hplain ev' (List.mem_cons_of_mem _ hev)
    unfold JsonlRunEventStore.putBatch JsonlRunEventStore.writtenBatch
    rcases hresult : s.put ev.1 ev.2 with ⟨e | record, s₁⟩
    · rw [hresult] at hput
      exact hput
    · rw [hresult] at hput
      have hbatch := ih hrest hput
      rw [List.append_assoc] at hbatch
      rcases hrec : s₁.putBatch events with ⟨e | results, s₂⟩
      · rw [hrec] at hbatch
        simp only [hrec]
        exact hbatch
      · rw [hrec] at hbatch
        simp only [hrec]
        exact hbatch

theorem sound_deleteByRun (hs : EventHistory.Sound ⟨s, log⟩) (threadId runId : String) :
    EventHistory.Sound ⟨(s.deleteByRun threadId runId).2,
      EventHistory.kept ⟨s, log⟩ (.deleteByRun threadId runId)⟩ := by
  unfold EventHistory.kept JsonlRunEventStore.deleteByRun
  simp only
  rcases hread : s.readRunEvents threadId runId with e | events
  · exact hs
  · constructor
    · intro thread run
      unfold JsonlRunEventStore.textAt
      simp only
      rw [Table.get_erase]
      split_ifs with heq
      · obtain ⟨rfl, rfl⟩ := Prod.mk.inj heq
        have hnil : EventHistory.ofRun
            ⟨s, log.filter fun r => ¬ r.InRun thread run⟩ thread run = [] := by
          unfold EventHistory.ofRun
          rw [List.filter_filter]
          simp
        exact (congrArg (fun rs => writeLines (rs.map EventRecord.line)) hnil).symm
      · have hsame : EventHistory.ofRun
            ⟨s, log.filter fun r => ¬ r.InRun threadId runId⟩ thread run =
              EventHistory.ofRun ⟨s, log⟩ thread run := by
          unfold EventHistory.ofRun
          rw [List.filter_filter]
          apply List.filter_congr
          intro r _
          have hne : r.InRun thread run → ¬ r.InRun threadId runId := fun hin hin' =>
            heq (Prod.ext (hin.1.symm.trans hin'.1) (hin.2.symm.trans hin'.2))
          by_cases hin : r.InRun thread run
          · simp [hin, hne hin]
          · simp [hin]
        exact (hs.files thread run).trans
          (congrArg (fun rs => writeLines (rs.map EventRecord.line)) hsame).symm
    · exact fun r hr => hs.plain r (List.mem_of_mem_filter hr)
    · exact hs.ascending.filter _
    · exact fun thread n hn r hr => hs.counted thread n hn r (List.mem_of_mem_filter hr)

theorem sound_next {h : EventHistory} (hs : h.Sound) {call : EventCall} (hplain : call.Plain) :
    (h.next call).Sound := by
  cases call with
  | put args now => exact sound_put hs hplain
  | putBatch events => exact sound_putBatch hplain hs
  | deleteByRun threadId runId => exact sound_append_nil (sound_deleteByRun hs threadId runId)
  | restart => exact sound_append_nil ⟨hs.files, hs.plain, hs.ascending, fun _ _ hn => by cases hn⟩

theorem sound_eventHistory {calls : List EventCall} (h : ∀ call ∈ calls, call.Plain) :
    (eventHistory calls).Sound := by
  have hrun : ∀ (calls : List EventCall) (history : EventHistory), history.Sound →
      (∀ call ∈ calls, call.Plain) → (calls.foldl EventHistory.next history).Sound := by
    intro calls
    induction calls with
    | nil => exact fun _ hs _ => hs
    | cons call calls ih =>
      intro history hs hplain
      have hnext := sound_next hs (hplain call (List.mem_cons_self ..))
      exact ih _ hnext fun c hc => hplain c (List.mem_cons_of_mem _ hc)
  exact hrun calls _ sound_init h

/-- The numbers a call gives are above those of the files and ascend. -/
theorem ascending_written {h : EventHistory} (hs : h.Sound) {call : EventCall}
    (hnext : (h.next call).Sound) :
    (h.store.written call).Pairwise (fun r r' => r.threadId = r'.threadId → r.seq < r'.seq) ∧
      ∀ r ∈ h.store.written call, ∀ n, h.store.HasSeq r.threadId n → n < r.seq := by
  obtain ⟨-, hwritten, hcross⟩ := List.pairwise_append.mp hnext.ascending
  refine ⟨hwritten, fun r hr n hn => ?_⟩
  obtain ⟨r', hr', hthread, rfl⟩ := hs.hasSeq hn
  cases call with
  | put args now | putBatch events => exact hcross r' hr' r hr hthread
  | deleteByRun threadId runId | restart => cases hr

end Calls

section Recorded

theorem isOf_put {s s₁ : JsonlRunEventStore} {args : EventArgs} {now : String}
    {record : EventRecord} (h : s.put args now = (.ok record, s₁)) : record.IsOf (args, now) := by
  unfold JsonlRunEventStore.put at h
  split at h
  · cases h
  · simp only at h
    split at h
    · cases h
    · obtain rfl := Except.ok.inj (Prod.mk.inj h).1
      rfl

theorem writtenBatch_prefix (s : JsonlRunEventStore) (events : List (EventArgs × String)) :
    List.Forall₂ EventRecord.IsOf (events.take (s.writtenBatch events).length)
        (s.writtenBatch events) ∧
      ((s.putBatch events).1.isOk = true → (s.writtenBatch events).length = events.length) := by
  induction events generalizing s with
  | nil => exact ⟨.nil, fun _ => rfl⟩
  | cons ev events ih =>
    unfold JsonlRunEventStore.putBatch JsonlRunEventStore.writtenBatch
    rcases hput : s.put ev.1 ev.2 with ⟨e | record, s₁⟩
    · exact ⟨.nil, fun h => by cases h⟩
    · obtain ⟨hrest, hok⟩ := ih s₁
      refine ⟨.cons (isOf_put hput) hrest, fun h => ?_⟩
      simp only at h
      rcases hbatch : s₁.putBatch events with ⟨e | results, s₂⟩
      · rw [hbatch] at h
        cases h
      · rw [List.length_cons, List.length_cons, hok (by rw [hbatch]; rfl)]

/-- Each call puts the first of its events, and all of them if it returns. -/
theorem recorded_written (s : JsonlRunEventStore) (call : EventCall) :
    List.Forall₂ EventRecord.IsOf (call.events.take (s.written call).length) (s.written call) ∧
      (s.returns call = true → (s.written call).length = call.events.length) := by
  cases call with
  | put args now =>
    rcases hput : s.put args now with ⟨e | record, s₁⟩
    · have hnone : s.written (.put args now) = [] := by
        simp [JsonlRunEventStore.written, hput, Except.toOption]
      have hraises : s.returns (.put args now) = false := by
        simp [JsonlRunEventStore.returns, hput, Except.isOk, Except.toBool]
      rw [hnone, hraises]
      exact ⟨.nil, fun h => by cases h⟩
    · have hone : s.written (.put args now) = [record] := by
        simp [JsonlRunEventStore.written, hput, Except.toOption]
      rw [hone]
      exact ⟨.cons (isOf_put hput) .nil, fun _ => rfl⟩
  | putBatch events => exact writtenBatch_prefix s events
  | deleteByRun threadId runId | restart => exact ⟨.nil, fun _ => rfl⟩

theorem inRun_of_isOf {ev : EventArgs × String} {r : EventRecord} (h : r.IsOf ev)
    (threadId runId : String) :
    r.InRun threadId runId ↔ ev.1.threadId = threadId ∧ ev.1.runId = runId := by
  have hitems := Json.obj.inj h
  simp only [List.cons.injEq, Prod.mk.injEq, Json.str.injEq, true_and] at hitems
  rw [EventRecord.InRun, hitems.1, hitems.2.1]

theorem countP_inRun {events : List (EventArgs × String)} {records : List EventRecord}
    (h : List.Forall₂ EventRecord.IsOf events records) (threadId runId : String) :
    records.countP (fun r => r.InRun threadId runId) =
      events.countP fun ev => ev.1.threadId = threadId ∧ ev.1.runId = runId := by
  induction h with
  | nil => rfl
  | cons hev _ ih =>
    rw [List.countP_cons, List.countP_cons, ih]
    simp only [inRun_of_isOf hev]

theorem length_ofRun_written (h : EventHistory) (call : EventCall) (threadId runId : String) :
    (h.store.written call).countP (fun r => r.InRun threadId runId) ≤
      call.events.countP fun ev => ev.1.threadId = threadId ∧ ev.1.runId = runId := by
  rw [countP_inRun (recorded_written h.store call).1]
  exact (List.take_sublist _ _).countP_le

theorem length_ofRun_le {calls : List EventCall} (hplain : ∀ call ∈ calls, call.Plain)
    {threadId runId : String} (ht : ValidId threadId) (hr : ValidId runId) :
    ((eventHistory calls).ofRun threadId runId).length ≤ pendingEvents calls threadId runId := by
  induction calls using List.reverseRecOn with
  | nil => exact le_rfl
  | append_singleton calls call ih =>
    have hbefore : ∀ c ∈ calls, c.Plain := fun c hc => hplain c (List.mem_append_left _ hc)
    have hle := ih hbefore
    have hs := sound_eventHistory hbefore
    unfold eventHistory at hle hs ⊢
    unfold pendingEvents at hle ⊢
    rw [List.foldl_append, List.foldl_append]
    generalize calls.foldl EventHistory.next ⟨.init, []⟩ = h at hle hs ⊢
    have hgiven := length_ofRun_written h call threadId runId
    rw [EventHistory.ofRun, ← List.countP_eq_length_filter] at hle ⊢
    simp only [List.foldl_cons, List.foldl_nil, EventHistory.next, List.countP_append]
    cases call with
    | put args now | putBatch events => exact Nat.add_le_add hle hgiven
    | restart => exact hle
    | deleteByRun thread run =>
      simp only [JsonlRunEventStore.written, List.countP_nil, Nat.add_zero, EventCall.pending,
        EventHistory.kept]
      have hfilter (p : EventRecord → Bool) :
          (h.log.filter p).countP (fun r => r.InRun threadId runId) ≤
            h.log.countP fun r => r.InRun threadId runId :=
        (List.filter_sublist).countP_le
      split_ifs with hrun
      · obtain ⟨rfl, rfl⟩ := hrun
        unfold JsonlRunEventStore.deleteByRun
        rw [hs.readRunEvents ht hr]
        simp [List.countP_filter]
      · split
        · exact hle
        · exact (hfilter _).trans hle

theorem upTo_of_length_le {α : Type*} {limit : Nat} {xs : List α} (h : xs.length ≤ limit) :
    upTo limit xs = xs := by
  unfold upTo
  rw [if_pos (Int.natCast_nonneg limit), Int.toNat_natCast, List.take_of_length_le h]

end Recorded

/-- Without the three separators nothing is lost and no number comes back, as long as the default
limit does not cut the list. -/
theorem lossless_without_separators (calls : List EventCall) (h : ∀ call ∈ calls, call.Plain)
    (hfew : ∀ threadId runId, pendingEvents calls threadId runId ≤ 500) : Lossless calls := by
  have hs := sound_eventHistory h
  constructor
  · intro threadId runId ht hr
    unfold JsonlRunEventStore.listEvents
    rw [hs.readRunEvents ht hr]
    refine congrArg Except.ok (upTo_of_length_le ?_)
    rw [List.length_map]
    exact (length_ofRun_le h ht hr).trans (hfew threadId runId)
  · exact fun before call _ => recorded_written (eventHistory before).store call
  · intro before call hbegins
    have hbefore : ∀ c ∈ before ++ [call], c.Plain := fun c hc => h c (hbegins.subset hc)
    have hnext := sound_eventHistory hbefore
    unfold eventHistory at hnext
    rw [List.foldl_append] at hnext
    exact ascending_written
      (sound_eventHistory fun c hc => hbefore c (List.mem_append_left _ hc)) hnext

/-- A message with the separator U+2028. -/
def separatorArgs (content : String) : EventArgs where
  threadId := "t"
  runId := "r"
  eventType := "message"
  category := "message"
  content := ⟨.str content, .str _⟩
  metadata := none
  createdAt := some "2026"

theorem fileLines_eq (text : Text) : fileLines text =
    splitlines (((universalNewlines text).dropWhile isSpace).reverse.dropWhile isSpace).reverse := by
  simp [fileLines, strip]

theorem separator_is_lost :
    ¬ Lossless [.put (separatorArgs "a\u2028b") "2026"] := by
  intro h
  have hlisted := h.listed "t" "r" (by decide) (by decide)
  simp only [JsonlRunEventStore.listEvents, JsonlRunEventStore.readRunEvents, fileLines_eq]
    at hlisted
  have hlength := congrArg (fun e => e.toOption.map List.length) hlisted
  exact absurd hlength (by decide +kernel)

theorem lossless_plain_text :
    ((∀ call ∈ [EventCall.put (separatorArgs "a b") "2026", .restart], call.Plain) ∧
      ∀ threadId runId, pendingEvents [.put (separatorArgs "a b") "2026", .restart] threadId runId ≤
        500) ∧ Lossless [.put (separatorArgs "a b") "2026", .restart] := by
  have hplain : ∀ call ∈ [EventCall.put (separatorArgs "a b") "2026", .restart], call.Plain := by
    intro call hcall
    simp only [List.mem_cons, List.not_mem_nil, or_false] at hcall
    rcases hcall with rfl | rfl
    · refine ⟨?_, ?_, .str ?_, .obj (fun x hx => by cases hx) (fun x hx => by cases hx), ?_⟩ <;>
        exact plainChar_of_all (by decide)
    · trivial
  have hfew : ∀ threadId runId,
      pendingEvents [.put (separatorArgs "a b") "2026", .restart] threadId runId ≤ 500 := by
    intro threadId runId
    have hle := List.countP_le_length (l := [(separatorArgs "a b", "2026")])
      (p := fun ev => decide (ev.1.threadId = threadId ∧ ev.1.runId = runId))
    simp only [pendingEvents, List.foldl_cons, List.foldl_nil, EventCall.pending, Nat.zero_add]
    exact hle.trans (by decide)
  exact ⟨⟨hplain, hfew⟩, lossless_without_separators _ hplain hfew⟩

end DeerFlow.Runtime
