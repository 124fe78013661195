import DeerFlow.Lib.Json

/-! Searching a text for a pattern. All that a match looks at outside of itself is the character
before it and, at a boundary or an anchor, the text behind it. So a match stays one when the text
around it is exchanged for another that is no part of a word, unless an anchor holds the end. -/

namespace DeerFlow

inductive Regex where
  | empty
  | char (p : Char → Bool)
  /-- Any number of such characters. -/
  | many (p : Char → Bool)
  | seq (r s : Regex)
  | alt (r s : Regex)
  /-- `\b`. -/
  | boundary
  /-- `$`, which also matches before a newline at the end. -/
  | atEnd

namespace Regex

def lit (text : Text) : Regex := text.foldr (fun c r => seq (char (· = c)) r) empty

def plus (p : Char → Bool) : Regex := seq (char p) (many p)

def opt (r : Regex) : Regex := alt r empty

def alts (r : Regex) (rs : List Regex) : Regex := rs.foldl alt r

def seqs (rs : List Regex) : Regex := rs.foldr seq empty

variable (word : Char → Bool)

section Searching

def acceptsMany (p : Char → Bool) (next : Option Char → Text → Bool) (prev : Option Char) :
    Text → Bool
  | [] => next prev []
  | c :: s => next prev (c :: s) || (p c && acceptsMany p next (some c) s)

/-- Some match after `prev` leaves a rest that `next` takes. -/
def accepts : Regex → Option Char → Text → (Option Char → Text → Bool) → Bool
  | empty, prev, s, next => next prev s
  | char _, _, [], _ => false
  | char p, _, c :: s, next => p c && next (some c) s
  | many p, prev, s, next => acceptsMany p next prev s
  | seq r t, prev, s, next => r.accepts prev s fun prev s => t.accepts prev s next
  | alt r t, prev, s, next => r.accepts prev s next || t.accepts prev s next
  | boundary, prev, s, next => (prev.any word != s.head?.any word) && next prev s
  | atEnd, prev, s, next => (s = [] || s = ['\n']) && next prev s

def searchFrom (r : Regex) (prev : Option Char) : Text → Bool
  | [] => r.accepts word prev [] fun _ _ => true
  | c :: s => r.accepts word prev (c :: s) (fun _ _ => true) || r.searchFrom (some c) s

/-- `pattern.search`. -/
def search (r : Regex) (s : Text) : Bool := r.searchFrom word none s

end Searching

/-- The character before what comes after `m`. -/
def lastOf (prev : Option Char) (m : Text) : Option Char := m.getLast?.or prev

/-- The pattern matches `m` between `prev` and the text `t`. -/
def Matches : Regex → Option Char → Text → Text → Prop
  | empty, _, m, _ => m = []
  | char p, _, m, _ => ∃ c, m = [c] ∧ p c = true
  | many p, _, m, _ => ∀ c ∈ m, p c = true
  | seq r s, prev, m, t => ∃ a b, m = a ++ b ∧ r.Matches prev a (b ++ t) ∧
      s.Matches (lastOf prev a) b t
  | alt r s, prev, m, t => r.Matches prev m t ∨ s.Matches prev m t
  | boundary, prev, m, t => m = [] ∧ prev.any word ≠ t.head?.any word
  | atEnd, _, m, t => m = [] ∧ (t = [] ∨ t = ['\n'])

def Found (r : Regex) (s : Text) : Prop :=
  ∃ l m t, s = l ++ m ++ t ∧ r.Matches word l.getLast? m t

variable {word} {r : Regex} {prev prev' : Option Char} {s m t t' : Text}

section Spec

@[simp] theorem lastOf_nil (prev : Option Char) : lastOf prev [] = prev := rfl

theorem lastOf_cons (prev : Option Char) (c : Char) (m : Text) :
    lastOf prev (c :: m) = lastOf (some c) m := by
  unfold lastOf
  rw [List.getLast?_cons]
  cases m.getLast? <;> rfl

theorem lastOf_append (prev : Option Char) (a b : Text) :
    lastOf prev (a ++ b) = lastOf (lastOf prev a) b := by
  unfold lastOf
  rw [List.getLast?_append, Option.or_assoc]

theorem acceptsMany_iff {p : Char → Bool} {next : Option Char → Text → Bool} :
    acceptsMany p next prev s = true ↔
      ∃ m t, s = m ++ t ∧ (∀ c ∈ m, p c = true) ∧ next (lastOf prev m) t = true := by
  induction s generalizing prev with
  | nil =>
    constructor
    · exact fun h => ⟨[], [], rfl, nofun, h⟩
    · rintro ⟨m, t, heq, -, h⟩
      obtain ⟨rfl, rfl⟩ := List.append_eq_nil_iff.mp heq.symm
      exact h
  | cons c s ih =>
    rw [acceptsMany, Bool.or_eq_true, Bool.and_eq_true, ih]
    constructor
    · rintro (h | ⟨hc, m, t, rfl, hm, h⟩)
      · exact ⟨[], c :: s, rfl, nofun, h⟩
      · refine ⟨c :: m, t, rfl, List.forall_mem_cons.mpr ⟨hc, hm⟩, ?_⟩
        rwa [lastOf_cons]
    · rintro ⟨m, t, heq, hm, h⟩
      cases m with
      | nil =>
        rw [List.nil_append] at heq
        exact .inl (heq ▸ h)
      | cons d m =>
        obtain ⟨rfl, rfl⟩ := List.cons.inj heq
        rw [lastOf_cons] at h
        exact .inr ⟨hm c (List.mem_cons_self ..), m, t, rfl,
          fun d hd => hm d (List.mem_cons_of_mem _ hd), h⟩

theorem accepts_iff {next : Option Char → Text → Bool} :
    r.accepts word prev s next = true ↔
      ∃ m t, s = m ++ t ∧ r.Matches word prev m t ∧ next (lastOf prev m) t = true := by
  induction r generalizing prev s next with
  | empty => simp [accepts, Matches]
  | char p =>
    cases s with
    | nil => simp [accepts, Matches]
    | cons c s =>
      simp only [accepts, Matches, Bool.and_eq_true]
      constructor
      · rintro ⟨hc, h⟩
        exact ⟨[c], s, rfl, ⟨c, rfl, hc⟩, h⟩
      · rintro ⟨m, t, heq, ⟨d, rfl, hd⟩, h⟩
        obtain ⟨rfl, rfl⟩ := List.cons.inj heq
        exact ⟨hd, h⟩
  | many p => exact acceptsMany_iff
  | seq r t ihr iht =>
    simp only [accepts, Matches, ihr, iht]
    constructor
    · rintro ⟨a, u, rfl, ha, b, v, rfl, hb, h⟩
      refine ⟨a ++ b, v, (List.append_assoc ..).symm, ⟨a, b, rfl, ha, hb⟩, ?_⟩
      rwa [lastOf_append]
    · rintro ⟨m, v, rfl, ⟨a, b, rfl, ha, hb⟩, h⟩
      rw [lastOf_append] at h
      exact ⟨a, b ++ v, List.append_assoc .., ha, b, v, rfl, hb, h⟩
  | alt r t ihr iht =>
    simp only [accepts, Matches, Bool.or_eq_true, ihr, iht]
    constructor
    · rintro (⟨m, t, rfl, hm, h⟩ | ⟨m, t, rfl, hm, h⟩)
      · exact ⟨m, t, rfl, .inl hm, h⟩
      · exact ⟨m, t, rfl, .inr hm, h⟩
    · rintro ⟨m, t, rfl, hm | hm, h⟩
      · exact .inl ⟨m, t, rfl, hm, h⟩
      · exact .inr ⟨m, t, rfl, hm, h⟩
  | boundary =>
    simp only [accepts, Matches, Bool.and_eq_true, bne_iff_ne]
    constructor
    · rintro ⟨hb, h⟩
      exact ⟨[], s, rfl, ⟨rfl, hb⟩, h⟩
    · rintro ⟨m, t, rfl, ⟨rfl, hb⟩, h⟩
      exact ⟨hb, h⟩
  | atEnd =>
    simp only [accepts, Matches, Bool.and_eq_true, Bool.or_eq_true, decide_eq_true_eq]
    constructor
    · rintro ⟨hend, h⟩
      exact ⟨[], s, rfl, ⟨rfl, hend⟩, h⟩
    · rintro ⟨m, t, rfl, ⟨rfl, hend⟩, h⟩
      exact ⟨hend, h⟩

theorem searchFrom_iff : r.searchFrom word prev s = true ↔
    ∃ l m t, s = l ++ m ++ t ∧ r.Matches word (lastOf prev l) m t := by
  have hstart (s : Text) (prev : Option Char) :
      (r.accepts word prev s fun _ _ => true) = true ↔
        ∃ m t, s = m ++ t ∧ r.Matches word prev m t := by
    rw [accepts_iff]
    simp only [and_true]
  induction s generalizing prev with
  | nil =>
    rw [searchFrom, hstart]
    constructor
    · rintro ⟨m, t, heq, h⟩
      exact ⟨[], m, t, heq, h⟩
    · rintro ⟨l, m, t, heq, h⟩
      obtain ⟨hlm, rfl⟩ := List.append_eq_nil_iff.mp heq.symm
      obtain ⟨rfl, rfl⟩ := List.append_eq_nil_iff.mp hlm
      exact ⟨[], [], rfl, h⟩
  | cons c s ih =>
    rw [searchFrom, Bool.or_eq_true, hstart]
    refine (or_congr_right ih).trans ?_
    constructor
    · rintro (⟨m, t, heq, h⟩ | ⟨l, m, t, rfl, h⟩)
      · exact ⟨[], m, t, heq, h⟩
      · refine ⟨c :: l, m, t, rfl, ?_⟩
        rwa [lastOf_cons]
    · rintro ⟨l, m, t, heq, h⟩
      cases l with
      | nil => exact .inl ⟨m, t, heq, h⟩
      | cons d l =>
        obtain ⟨rfl, rfl⟩ := List.cons.inj heq
        rw [lastOf_cons] at h
        exact .inr ⟨l, m, t, rfl, h⟩

theorem search_iff : r.search word s = true ↔ r.Found word s := by
  unfold search Found
  rw [searchFrom_iff]
  simp only [lastOf, Option.or_none]

end Spec

section Context

def Unanchored : Regex → Prop
  | seq r s => r.Unanchored ∧ s.Unanchored
  | alt r s => r.Unanchored ∧ s.Unanchored
  | atEnd => False
  | empty | char _ | many _ | boundary => True

theorem any_lastOf (h : prev.any word = prev'.any word) (m : Text) :
    (lastOf prev m).any word = (lastOf prev' m).any word := by
  unfold lastOf
  cases m.getLast? with
  | none => exact h
  | some c => rfl

theorem any_head?_append (h : t.head?.any word = t'.head?.any word) (b : Text) :
    (b ++ t).head?.any word = (b ++ t').head?.any word := by
  cases b with
  | nil => exact h
  | cons c b => rfl

theorem Matches.congr_prev (h : prev.any word = prev'.any word) (hm : r.Matches word prev m t) :
    r.Matches word prev' m t := by
  induction r generalizing prev prev' m t with
  | empty | char p | many p | atEnd => exact hm
  | seq r s ihr ihs =>
    obtain ⟨a, b, rfl, ha, hb⟩ := hm
    exact ⟨a, b, rfl, ihr h ha, ihs (any_lastOf h a) hb⟩
  | alt r s ihr ihs => exact hm.imp (ihr h) (ihs h)
  | boundary => exact ⟨hm.1, h ▸ hm.2⟩

theorem Matches.congr_rest (hr : r.Unanchored) (h : t.head?.any word = t'.head?.any word)
    (hm : r.Matches word prev m t) : r.Matches word prev m t' := by
  induction r generalizing prev m t t' with
  | empty | char p | many p => exact hm
  | seq r s ihr ihs =>
    obtain ⟨a, b, rfl, ha, hb⟩ := hm
    exact ⟨a, b, rfl, ihr hr.1 (any_head?_append h b) ha, ihs hr.2 h hb⟩
  | alt r s ihr ihs => exact hm.imp (ihr hr.1 h) (ihs hr.2 h)
  | boundary => exact ⟨hm.1, h ▸ hm.2⟩
  | atEnd => exact hr.elim

/-- What stands before is no part of a word. -/
def Breaks (word : Char → Bool) (c : Option Char) : Prop := c.any word = false

/-- `x` stands in `y` with no word around it. -/
def Inside (word : Char → Bool) (x y : Text) : Prop :=
  ∃ l t, y = l ++ x ++ t ∧ Breaks word l.getLast? ∧ Breaks word t.head?

theorem any_getLast?_append {l : Text} (hl : Breaks word l.getLast?) (k : Text) :
    (l ++ k).getLast?.any word = k.getLast?.any word := by
  rw [List.getLast?_append]
  cases k.getLast? with
  | none => exact hl
  | some c => rfl

theorem any_head?_append_of_breaks {u : Text} (hu : Breaks word u.head?) (t : Text) :
    (t ++ u).head?.any word = t.head?.any word := by
  cases t with
  | nil => exact hu
  | cons c t => rfl

theorem Inside.refl (x : Text) : Inside word x x := ⟨[], [], by simp, rfl, rfl⟩

theorem Inside.trans {x y z : Text} (hxy : Inside word x y) (hyz : Inside word y z) :
    Inside word x z := by
  obtain ⟨l, t, rfl, hl, ht⟩ := hxy
  obtain ⟨k, u, rfl, hk, hu⟩ := hyz
  refine ⟨k ++ l, t ++ u, by simp, ?_, ?_⟩
  · exact (any_getLast?_append hk l).trans hl
  · exact (any_head?_append_of_breaks hu t).trans ht

theorem Found.append_left {x l : Text} (hl : Breaks word l.getLast?) (h : r.Found word x) :
    r.Found word (l ++ x) := by
  obtain ⟨k, m, t, rfl, hm⟩ := h
  refine ⟨l ++ k, m, t, by simp, hm.congr_prev ?_⟩
  exact (any_getLast?_append hl k).symm

theorem Found.append_right {x u : Text} (hr : r.Unanchored) (hu : Breaks word u.head?)
    (h : r.Found word x) : r.Found word (x ++ u) := by
  obtain ⟨k, m, t, rfl, hm⟩ := h
  refine ⟨k, m, t ++ u, by simp, hm.congr_rest hr ?_⟩
  exact (any_head?_append_of_breaks hu t).symm

theorem Found.of_inside {x y : Text} (hr : r.Unanchored) (hxy : Inside word x y)
    (h : r.Found word x) : r.Found word y := by
  obtain ⟨l, t, rfl, hl, ht⟩ := hxy
  exact (h.append_left hl).append_right hr ht

end Context

section Characters

def Needs (p : Char → Prop) : Regex → Prop
  | char q => ∀ c, q c = true → p c
  | seq r s => r.Needs p ∨ s.Needs p
  | alt r s => r.Needs p ∧ s.Needs p
  | empty | many _ | boundary | atEnd => False

def Over (p : Char → Prop) : Regex → Prop
  | char q => ∀ c, q c = true → p c
  | many q => ∀ c, q c = true → p c
  | seq r s => r.Over p ∧ s.Over p
  | alt r s => r.Over p ∧ s.Over p
  | empty | boundary | atEnd => True

variable {p : Char → Prop}

theorem Matches.exists_of_needs (hr : r.Needs p) (hm : r.Matches word prev m t) :
    ∃ c ∈ m, p c := by
  induction r generalizing prev m t with
  | empty | many q | boundary | atEnd => exact hr.elim
  | char q =>
    obtain ⟨c, rfl, hc⟩ := hm
    exact ⟨c, List.mem_singleton_self c, hr c hc⟩
  | seq r s ihr ihs =>
    obtain ⟨a, b, rfl, ha, hb⟩ := hm
    rcases hr with hr | hs
    · obtain ⟨c, hc, hpc⟩ := ihr hr ha
      exact ⟨c, List.mem_append_left _ hc, hpc⟩
    · obtain ⟨c, hc, hpc⟩ := ihs hs hb
      exact ⟨c, List.mem_append_right _ hc, hpc⟩
  | alt r s ihr ihs => exact hm.elim (ihr hr.1) (ihs hr.2)

theorem Found.exists_of_needs (hr : r.Needs p) (h : r.Found word s) : ∃ c ∈ s, p c := by
  obtain ⟨l, m, t, rfl, hm⟩ := h
  obtain ⟨c, hc, hpc⟩ := hm.exists_of_needs hr
  exact ⟨c, List.mem_append_left _ (List.mem_append_right _ hc), hpc⟩

theorem Matches.forall_of_over (hr : r.Over p) (hm : r.Matches word prev m t) : ∀ c ∈ m, p c := by
  induction r generalizing prev m t with
  | empty => simp [show m = [] from hm]
  | char q =>
    obtain ⟨c, rfl, hc⟩ := hm
    exact List.forall_mem_singleton.mpr (hr c hc)
  | many q => exact fun c hc => hr c (hm c hc)
  | seq r s ihr ihs =>
    obtain ⟨a, b, rfl, ha, hb⟩ := hm
    exact List.forall_mem_append.mpr ⟨ihr hr.1 ha, ihs hr.2 hb⟩
  | alt r s ihr ihs => exact hm.elim (ihr hr.1) (ihs hr.2)
  | boundary | atEnd => simp [hm.1]

def Silent : Regex → Prop
  | empty | boundary | atEnd => True
  | seq r s => r.Silent ∧ s.Silent
  | alt r s => r.Silent ∧ s.Silent
  | char _ | many _ => False

def Starts (p : Char → Prop) : Regex → Prop
  | char q => ∀ c, q c = true → p c
  | seq r s => r.Starts p ∨ r.Silent ∧ s.Starts p
  | alt r s => r.Starts p ∧ s.Starts p
  | empty | many _ | boundary | atEnd => False

def Ends (p : Char → Prop) : Regex → Prop
  | char q => ∀ c, q c = true → p c
  | seq r s => s.Ends p ∨ s.Silent ∧ r.Ends p
  | alt r s => r.Ends p ∧ s.Ends p
  | empty | many _ | boundary | atEnd => False

theorem Matches.eq_nil_of_silent (hr : r.Silent) (hm : r.Matches word prev m t) : m = [] := by
  induction r generalizing prev m t with
  | empty => exact hm
  | char q | many q => exact hr.elim
  | seq r s ihr ihs =>
    obtain ⟨a, b, rfl, ha, hb⟩ := hm
    rw [ihr hr.1 ha, ihs hr.2 hb, List.append_nil]
  | alt r s ihr ihs => exact hm.elim (ihr hr.1) (ihs hr.2)
  | boundary | atEnd => exact hm.1

theorem Matches.exists_of_starts (hr : r.Starts p) (hm : r.Matches word prev m t) :
    ∃ c u, m = c :: u ∧ p c := by
  induction r generalizing prev m t with
  | empty | many q | boundary | atEnd => exact hr.elim
  | char q =>
    obtain ⟨c, rfl, hc⟩ := hm
    exact ⟨c, [], rfl, hr c hc⟩
  | seq r s ihr ihs =>
    obtain ⟨a, b, rfl, ha, hb⟩ := hm
    rcases hr with hr | ⟨hsilent, hs⟩
    · obtain ⟨c, u, rfl, hpc⟩ := ihr hr ha
      exact ⟨c, u ++ b, rfl, hpc⟩
    · rw [ha.eq_nil_of_silent hsilent, List.nil_append]
      exact ihs hs hb
  | alt r s ihr ihs => exact hm.elim (ihr hr.1) (ihs hr.2)

theorem Matches.exists_of_ends (hr : r.Ends p) (hm : r.Matches word prev m t) :
    ∃ u c, m = u ++ [c] ∧ p c := by
  induction r generalizing prev m t with
  | empty | many q | boundary | atEnd => exact hr.elim
  | char q =>
    obtain ⟨c, rfl, hc⟩ := hm
    exact ⟨[], c, rfl, hr c hc⟩
  | seq r s ihr ihs =>
    obtain ⟨a, b, rfl, ha, hb⟩ := hm
    rcases hr with hs | ⟨hsilent, hr⟩
    · obtain ⟨u, c, rfl, hpc⟩ := ihs hs hb
      exact ⟨a ++ u, c, (List.append_assoc ..).symm, hpc⟩
    · rw [hb.eq_nil_of_silent hsilent, List.append_nil]
      exact ihr hr ha
  | alt r s ihr ihs => exact hm.elim (ihr hr.1) (ihs hr.2)

end Characters

section Between
variable {x y g u : Text} {d : Char}

/-- A stretch without the mark stands on one side of it. -/
theorem append_eq_mark {l a b : Text} (hd : d ∉ m) (h : l ++ m ++ t = a ++ d :: b) :
    (∃ t', a = l ++ m ++ t' ∧ t = t' ++ d :: b) ∨ ∃ l', b = l' ++ m ++ t ∧ l = a ++ d :: l' := by
  rcases List.append_eq_append_iff.mp h with ⟨t', ha, ht⟩ | ⟨v, hlm, hv⟩
  · exact .inl ⟨t', ha, ht⟩
  · cases v with
    | nil => exact .inl ⟨[], by simpa using hlm.symm, by simpa using hv.symm⟩
    | cons e v =>
      obtain ⟨rfl, rfl⟩ := List.cons.inj hv
      rcases List.append_eq_append_iff.mp hlm with ⟨k, ha, hm⟩ | ⟨k, hl, hk⟩
      · refine absurd ?_ hd
        rw [hm]
        exact List.mem_append_right _ (List.mem_cons_self ..)
      · cases k with
        | nil =>
          rw [List.nil_append] at hk
          refine absurd ?_ hd
          rw [← hk]
          exact List.mem_cons_self ..
        | cons e' k =>
          obtain ⟨rfl, rfl⟩ := List.cons.inj hk
          exact .inr ⟨k, by simp, hl⟩

theorem append_of_not_mem_right {l : Text} {c : Char} (hc : c ∉ g) (h : x ++ g = l ++ [c] ++ t) :
    ∃ v, x = l ++ [c] ++ v ∧ t = v ++ g := by
  rcases List.append_eq_append_iff.mp h with ⟨a, hlc, hg⟩ | ⟨a, hx, ht⟩
  · rcases List.eq_nil_or_concat a with rfl | ⟨a, e, rfl⟩
    · rw [List.append_nil] at hlc
      exact ⟨[], by rw [List.append_nil, hlc], hg.symm⟩
    · rw [List.concat_eq_append, ← List.append_assoc] at hlc
      obtain rfl := (List.cons.inj (List.append_inj' hlc rfl).2).1
      refine absurd ?_ hc
      rw [hg]
      simp
  · exact ⟨a, hx, ht⟩

theorem append_of_not_mem_left {l : Text} {c : Char} (hc : c ∉ u) (h : u ++ y = l ++ c :: t) :
    ∃ v, y = v ++ c :: t ∧ l = u ++ v := by
  rcases List.append_eq_append_iff.mp h with ⟨a, hl, hy⟩ | ⟨a, hu, ht⟩
  · exact ⟨a, hy, hl⟩
  · cases a with
    | nil =>
      rw [List.append_nil] at hu
      exact ⟨[], ht.symm, by rw [List.append_nil, hu]⟩
    | cons e a =>
      obtain ⟨rfl, -⟩ := List.cons.inj ht
      refine absurd ?_ hc
      rw [hu]
      simp

/-- A match that reaches over no mark and neither ends before it nor begins behind it, in what
separates two texts, is one in the one text or in the other. -/
theorem Found.of_between {p q : Char → Prop} (hr : r.Unanchored) (hover : r.Over p) (hd : ¬p d)
    (hstart : r.Starts q) (hu : ∀ c ∈ u, ¬q c) (hend : r.Ends q) (hg : ∀ c ∈ g, ¬q c)
    (hleft : Breaks word (g ++ [d]).head?) (hright : Breaks word (d :: u).getLast?)
    (h : r.Found word ((x ++ g) ++ d :: (u ++ y))) : r.Found word x ∨ r.Found word y := by
  obtain ⟨l, m, t, heq, hm⟩ := h
  have hdm : d ∉ m := fun hmem => hd (hm.forall_of_over hover d hmem)
  rcases append_eq_mark hdm heq.symm with ⟨t', hx, rfl⟩ | ⟨l', hy, rfl⟩
  · obtain ⟨k, c, rfl, hc⟩ := hm.exists_of_ends hend
    rw [← List.append_assoc l k] at hx
    obtain ⟨v, hxv, rfl⟩ := append_of_not_mem_right (fun hmem => hg c hmem hc) hx
    have hbreak : Breaks word (g ++ d :: (u ++ y)).head? := by
      cases g with
      | nil | cons e g => exact hleft
    rw [List.append_assoc v] at hm
    refine .inl ⟨l, k ++ [c], v, by rw [hxv, ← List.append_assoc], hm.congr_rest hr ?_⟩
    exact any_head?_append_of_breaks hbreak v
  · obtain ⟨c, k, rfl, hc⟩ := hm.exists_of_starts hstart
    rw [List.append_assoc, List.cons_append] at hy
    obtain ⟨v, rfl, rfl⟩ := append_of_not_mem_left (fun hmem => hu c hmem hc) hy
    have hbreak : Breaks word ((x ++ g) ++ d :: u).getLast? := by
      rwa [List.getLast?_append_of_ne_nil _ (List.cons_ne_nil d u)]
    have hassoc : (x ++ g) ++ d :: (u ++ v) = ((x ++ g) ++ d :: u) ++ v := by simp
    rw [hassoc] at hm
    refine .inr ⟨v, c :: k, t, by simp, hm.congr_prev ?_⟩
    exact any_getLast?_append hbreak v

end Between

end Regex

end DeerFlow
