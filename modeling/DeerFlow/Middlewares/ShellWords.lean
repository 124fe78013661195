import DeerFlow.Middlewares.ShellFindings

/-! The words that `shlex` makes of a part of a command, and of a part that goes on. What they come
to before an operator, and what they come to after one, stays together. -/

namespace DeerFlow.Middlewares.ShellAudit
open Regex

/-- No space belongs to a word either. -/
structure ShellClass extends WordClass where
  space : ∀ c, isSpace c = true → isWord c = false

/-- The words, with a space between any two. -/
def shlexText (command : Text) : Option Text := (shlexSplit command).map [' '].intercalate

namespace Lexer

def run (s : Lexer) (z : Text) : Lexer := z.foldl Lexer.step s

def text (s : Lexer) : Text := [' '].intercalate (s.tokens ++ s.token.toList)

def Started (s : Lexer) : Prop := s.tokens ++ s.token.toList ≠ []

/-- What comes before the next character of a word. -/
def gap (s : Lexer) : Text := if s.token = none ∧ s.tokens ≠ [] then [' '] else []

section Steps
variable {s : Lexer} {c : Char} {z : Text}

theorem run_append (s : Lexer) (y z : Text) : s.run (y ++ z) = (s.run y).run z := List.foldl_append

theorem isSpace_of_isShlexSpace (hc : isShlexSpace c = true) : isSpace c = true := by
  simp only [isShlexSpace, Bool.or_eq_true, decide_eq_true_eq] at hc
  rcases hc with ((rfl | rfl) | rfl) | rfl <;> rfl

theorem step_flush (hs : s.quotes = .closed) (hc : isShlexSpace c = true) :
    s.step c = { s with tokens := s.tokens ++ s.token.toList, token := none } := by
  unfold step
  rw [if_pos (by simp [hs, hc])]

theorem step_add (h : ¬(s.quotes = .closed ∧ isShlexSpace c = true)) :
    s.step c = { s with
      quotes := s.quotes.step c
      token := some (s.token.getD [] ++ s.quotes.adds c) } := by
  unfold step
  rw [if_neg (by simpa using h)]

theorem step_quotes (s : Lexer) (c : Char) : (s.step c).quotes = s.quotes.step c := by
  by_cases h : s.quotes = .closed ∧ isShlexSpace c = true
  · rw [step_flush h.1 h.2, h.1, closed_step (isPlain_of_isSpace (isSpace_of_isShlexSpace h.2))]
  · rw [step_add h]

theorem run_quotes (s : Lexer) (z : Text) : (s.run z).quotes = s.quotes.run z := by
  induction z generalizing s with
  | nil => rfl
  | cons c z ih =>
    show ((s.step c).run z).quotes = (s.quotes.step c).run z
    rw [ih, step_quotes]

theorem text_flush (hs : s.quotes = .closed) (hc : isShlexSpace c = true) :
    (s.step c).text = s.text ∧ (s.step c).token = none ∧ (s.Started → (s.step c).Started) := by
  rw [step_flush hs hc]
  unfold text Started
  simp

theorem text_add (h : ¬(s.quotes = .closed ∧ isShlexSpace c = true)) :
    (s.step c).text = s.text ++ (s.gap ++ s.quotes.adds c) := by
  rw [step_add h]
  unfold text gap
  cases htoken : s.token with
  | none =>
    by_cases htokens : s.tokens = []
    · simp [htokens]
    · have hlast : [' '].intercalate (s.tokens ++ [s.quotes.adds c]) = _ :=
        intercalate_append_singleton htokens
      simp [htokens, hlast]
  | some t =>
    rcases List.eq_nil_or_concat s.tokens with htokens | ⟨ts, u, htokens⟩
    · simp [htokens]
    · have hne : s.tokens ≠ [] := by simp [htokens]
      simp [intercalate_append_singleton hne]

theorem started_add (h : ¬(s.quotes = .closed ∧ isShlexSpace c = true)) : (s.step c).Started := by
  rw [step_add h]
  unfold Started
  simp

theorem Started.step (h : s.Started) (c : Char) : (s.step c).Started := by
  by_cases hc : s.quotes = .closed ∧ isShlexSpace c = true
  · exact (text_flush hc.1 hc.2).2.2 h
  · exact started_add hc

theorem Started.run (h : s.Started) (z : Text) : (s.run z).Started := by
  induction z generalizing s with
  | nil => exact h
  | cons c z ih => exact ih (h.step c)

theorem text_run (s : Lexer) (z : Text) : ∃ w, (s.run z).text = s.text ++ w := by
  induction z generalizing s with
  | nil => exact ⟨[], (List.append_nil _).symm⟩
  | cons c z ih =>
    obtain ⟨w, hw⟩ := ih (s.step c)
    by_cases hc : s.quotes = .closed ∧ isShlexSpace c = true
    · rw [(text_flush hc.1 hc.2).1] at hw
      exact ⟨w, hw⟩
    · rw [text_add hc, List.append_assoc] at hw
      exact ⟨_, hw⟩

theorem mem_adds {q : Quotes} {d : Char} (h : d ∈ q.adds c) : d = c ∨ d = '\\' := by
  unfold Quotes.adds at h
  split_ifs at h <;> simp at h <;> tauto

theorem mem_gap {d : Char} (h : d ∈ s.gap) : d = ' ' := by
  unfold gap at h
  split_ifs at h
  · exact List.mem_singleton.mp h
  · cases h

theorem mem_text_run {d : Char} (h : d ∈ (s.run z).text) :
    d ∈ s.text ∨ d ∈ z ∨ d = ' ' ∨ d = '\\' := by
  induction z generalizing s with
  | nil => exact .inl h
  | cons c z ih =>
    rcases ih h with hd | hd | hd
    · by_cases hc : s.quotes = .closed ∧ isShlexSpace c = true
      · rw [(text_flush hc.1 hc.2).1] at hd
        exact .inl hd
      · rw [text_add hc, List.mem_append, List.mem_append] at hd
        rcases hd with hd | hd | hd
        · exact .inl hd
        · exact .inr (.inr (.inl (mem_gap hd)))
        · rcases mem_adds hd with rfl | rfl
          · exact .inr (.inl (List.mem_cons_self ..))
          · exact .inr (.inr (.inr rfl))
    · exact .inr (.inl (List.mem_cons_of_mem _ hd))
    · exact .inr (.inr hd)

end Steps

section Before
variable {W : ShellClass} {s : Lexer} {c d : Char} {sp z : Text}

theorem breaks_of_spaces (hsp : ∀ c ∈ sp, isSpace c = true) (hz : Breaks W.isWord z.head?) :
    Breaks W.isWord (sp ++ z).head? := by
  cases sp with
  | nil => exact hz
  | cons c sp => exact W.space c (hsp c (List.mem_cons_self ..))

theorem adds_closed (hc : isPlain c = true) : Quotes.closed.adds c = [c] := by
  have hstep : Quotes.closed.step c = Quotes.closed := closed_step hc
  unfold Quotes.adds
  rw [if_neg (by decide), if_pos hstep]

theorem run_of_token_none (hs : s.Started) (htoken : s.token = none) (z : Text) :
    ∃ w, (s.run z).text = s.text ++ w ∧ Breaks W.isWord w.head? := by
  induction z generalizing s with
  | nil => exact ⟨[], (List.append_nil _).symm, rfl⟩
  | cons c z ih =>
    by_cases hc : s.quotes = .closed ∧ isShlexSpace c = true
    · obtain ⟨htext, hnone, hstarted⟩ := text_flush hc.1 hc.2
      obtain ⟨w, hw, hbreak⟩ := ih (hstarted hs) hnone
      rw [htext] at hw
      exact ⟨w, hw, hbreak⟩
    · obtain ⟨w, hw⟩ := text_run (s.step c) z
      have hgap : s.gap = [' '] := by
        unfold Started at hs
        rw [htoken, Option.toList_none, List.append_nil] at hs
        exact if_pos ⟨htoken, hs⟩
      rw [text_add hc, hgap, List.append_assoc] at hw
      exact ⟨_, hw, isWord_space W.toWordClass⟩

theorem run_spaces (hs : s.quotes = .closed) (hsp : ∀ c ∈ sp, isSpace c = true) :
    (s.run sp).quotes = .closed ∧
      ∃ w, (s.run sp).text = s.text ++ w ∧ ∀ c ∈ w, isSpace c = true := by
  induction sp generalizing s with
  | nil => exact ⟨hs, [], (List.append_nil _).symm, nofun⟩
  | cons c sp ih =>
    rw [List.forall_mem_cons] at hsp
    have hplain : isPlain c = true := isPlain_of_isSpace hsp.1
    have hstep : (s.step c).quotes = .closed := by rw [step_quotes, hs, closed_step hplain]
    obtain ⟨hclosed, w, hw, hspaces⟩ := ih hstep hsp.2
    refine ⟨hclosed, ?_⟩
    by_cases hc : s.quotes = .closed ∧ isShlexSpace c = true
    · rw [(text_flush hc.1 hc.2).1] at hw
      exact ⟨w, hw, hspaces⟩
    · rw [text_add hc, hs, adds_closed hplain, List.append_assoc] at hw
      refine ⟨_, hw, ?_⟩
      rw [List.forall_mem_append, List.forall_mem_append, List.forall_mem_singleton]
      refine ⟨⟨fun d hd => ?_, hsp.1⟩, hspaces⟩
      rw [mem_gap hd]
      rfl

/-- What has been read is not part of a word that goes on behind the end. -/
theorem run_of_ends (hs : s.Started) (hclosed : s.quotes = .closed)
    (hsp : ∀ c ∈ sp, isSpace c = true) (hd : isPlain d = true) (hword : W.isWord d = false) (z : Text) :
    ∃ w, (s.run (sp ++ d :: z)).text = s.text ++ w ∧ Breaks W.isWord w.head? := by
  obtain ⟨hclosed', w, hw, hspaces⟩ := run_spaces hclosed hsp
  have hstarted : (s.run sp).Started := hs.run sp
  rw [run_append]
  show ∃ w, (((s.run sp).step d).run z).text = _ ∧ _
  by_cases hflush : isShlexSpace d = true
  · obtain ⟨htext, hnone, hstarted'⟩ := text_flush hclosed' hflush
    obtain ⟨v, hv, hbreak⟩ := run_of_token_none (W := W) (hstarted' hstarted) hnone z
    rw [htext, hw, List.append_assoc] at hv
    exact ⟨w ++ v, hv, breaks_of_spaces hspaces hbreak⟩
  · have hadd : ¬((s.run sp).quotes = .closed ∧ isShlexSpace d = true) := fun h => hflush h.2
    obtain ⟨v, hv⟩ := text_run ((s.run sp).step d) z
    rw [text_add hadd, hclosed', adds_closed hd, hw, List.append_assoc, List.append_assoc] at hv
    refine ⟨_, hv, breaks_of_spaces hspaces ?_⟩
    rw [List.append_assoc]
    unfold gap
    split_ifs
    · exact isWord_space W.toWordClass
    · exact hword

end Before

section After
variable {W : ShellClass} {s a b : Lexer} {c : Char} {pre z : Text}

/-- Two lexers in one place, of which the second has read `pre` before. -/
structure Parallel (pre : Text) (a b : Lexer) : Prop where
  quotes : b.quotes = a.quotes
  token : b.token = none ↔ a.token = none
  started : a.Started ∧ b.Started
  text : b.text = pre ++ a.text

theorem Parallel.gap (h : Parallel pre a b) : b.gap = a.gap := by
  have htokens (s : Lexer) (hs : s.Started) (hnone : s.token = none) : s.tokens ≠ [] := by
    unfold Started at hs
    rwa [hnone, Option.toList_none, List.append_nil] at hs
  unfold Lexer.gap
  by_cases hnone : a.token = none
  · rw [if_pos ⟨h.token.mpr hnone, htokens b h.started.2 (h.token.mpr hnone)⟩,
      if_pos ⟨hnone, htokens a h.started.1 hnone⟩]
  · rw [if_neg fun h' => hnone (h.token.mp h'.1), if_neg fun h' => hnone h'.1]

theorem token_add (h : ¬(s.quotes = .closed ∧ isShlexSpace c = true)) : (s.step c).token ≠ none := by
  rw [step_add h]
  exact Option.some_ne_none _

theorem Parallel.step (h : Parallel pre a b) (c : Char) : Parallel pre (a.step c) (b.step c) := by
  have hquotes : (b.step c).quotes = (a.step c).quotes := by
    rw [step_quotes, step_quotes, h.quotes]
  have hstarted := And.intro (h.started.1.step c) (h.started.2.step c)
  by_cases hc : a.quotes = .closed ∧ isShlexSpace c = true
  · obtain ⟨htext, hnone, -⟩ := text_flush hc.1 hc.2
    obtain ⟨htext', hnone', -⟩ := text_flush (h.quotes.trans hc.1) hc.2
    exact ⟨hquotes, iff_of_true hnone' hnone, hstarted, by rw [htext, htext', h.text]⟩
  · have hc' : ¬(b.quotes = .closed ∧ isShlexSpace c = true) := by rwa [h.quotes]
    refine ⟨hquotes, iff_of_false (token_add hc') (token_add hc), hstarted, ?_⟩
    rw [text_add hc, text_add hc', h.text, h.gap, h.quotes, List.append_assoc]

theorem Parallel.run (h : Parallel pre a b) (z : Text) : Parallel pre (a.run z) (b.run z) := by
  induction z generalizing a b with
  | nil => exact h
  | cons c z ih => exact ih (h.step c)

/-- Nothing of a word is being read. -/
def Between (W : ShellClass) (s : Lexer) : Prop :=
  s.quotes = .closed ∧ (s.token = none ∨ Breaks W.isWord s.text.getLast?)

theorem between_init : Between W .init := ⟨rfl, .inl rfl⟩

theorem between_step (hs : s.quotes = .closed) (hc : isPlain c = true) (hword : W.isWord c = false) :
    Between W (s.step c) := by
  refine ⟨by rw [step_quotes, hs, closed_step hc], ?_⟩
  by_cases hflush : isShlexSpace c = true
  · exact .inl (text_flush hs hflush).2.1
  · right
    rw [text_add fun h => hflush h.2, hs, adds_closed hc, ← List.append_assoc, List.getLast?_concat]
    exact hword

/-- From between two words a text is read as from the start. -/
theorem Between.run (hs : Between W s) (hc : isSpace c = false) (z : Text) :
    ∃ pre, (s.run (c :: z)).text = pre ++ (init.run (c :: z)).text ∧
      Breaks W.isWord pre.getLast? := by
  have hno (t : Lexer) : ¬(t.quotes = .closed ∧ isShlexSpace c = true) := by
    rintro ⟨-, hflush⟩
    rw [isSpace_of_isShlexSpace hflush] at hc
    cases hc
  have hinit : (init.step c).text = Quotes.closed.adds c := text_add (hno init)
  have hparallel : Parallel (s.text ++ s.gap) (init.step c) (s.step c) := by
    refine ⟨by rw [step_quotes, step_quotes, hs.1]; rfl, ?_, ?_, ?_⟩
    · exact iff_of_false (token_add (hno s)) (token_add (hno init))
    · exact ⟨started_add (hno init), started_add (hno s)⟩
    · rw [text_add (hno s), hs.1, hinit, List.append_assoc]
  refine ⟨s.text ++ s.gap, (hparallel.run z).text, ?_⟩
  unfold gap
  split_ifs with hgap
  · rw [List.getLast?_concat]
    exact isWord_space W.toWordClass
  · rw [List.append_nil]
    rcases hs.2 with hnone | hbreak
    · have htokens : s.tokens = [] := by
        by_contra hne
        exact hgap ⟨hnone, hne⟩
      unfold text
      rw [hnone, htokens]
      rfl
    · exact hbreak

end After

end Lexer

section Parts
variable {W : ShellClass} {x y L z sp : Text} {c d : Char}

theorem shlexText_eq (z : Text) : shlexText z =
    if Quotes.closed.run z = .closed then some (Lexer.init.run z).text else none := by
  have hquotes : (Lexer.init.run z).quotes = Quotes.closed.run z := Lexer.run_quotes _ z
  rw [← hquotes]
  unfold shlexText shlexSplit
  show Option.map _ (if (Lexer.init.run z).quotes = .closed then _ else _) = _
  split_ifs <;> rfl

theorem shlexText_isSome : (shlexText z).isSome ↔ Quotes.closed.run z = .closed := by
  rw [shlexText_eq]
  split_ifs with h
  · exact iff_of_true rfl h
  · exact iff_of_false (by simp) h

/-- The words of a part stay in front of an operator and what follows it. -/
theorem shlexText_before (hc : isSpace c = false) (hsp : ∀ c ∈ sp, isSpace c = true)
    (hd : isPlain d = true) (hword : W.isWord d = false) (hx : shlexText (c :: z) = some x)
    (hy : shlexText ((c :: z) ++ (sp ++ d :: L)) = some y) : Inside W.isWord x y := by
  rw [shlexText_eq] at hx hy
  obtain ⟨hclosed, hx⟩ := Option.ite_none_right_eq_some.mp hx
  obtain ⟨-, hy⟩ := Option.ite_none_right_eq_some.mp hy
  have hno : ¬(Lexer.init.quotes = .closed ∧ isShlexSpace c = true) := by
    rintro ⟨-, hflush⟩
    rw [Lexer.isSpace_of_isShlexSpace hflush] at hc
    cases hc
  have hstarted : (Lexer.init.run (c :: z)).Started := (Lexer.started_add hno).run z
  have hquotes : (Lexer.init.run (c :: z)).quotes = .closed := by
    rw [Lexer.run_quotes]
    exact hclosed
  obtain ⟨w, hw, hbreak⟩ := Lexer.run_of_ends hstarted hquotes hsp hd hword L
  rw [← Lexer.run_append, Option.some.inj hx, Option.some.inj hy] at hw
  exact ⟨[], w, hw, rfl, hbreak⟩

theorem shlexText_after (hL : Lexer.Between W (Lexer.init.run L)) (hc : isSpace c = false)
    (hx : shlexText (c :: z) = some x) :
    ∃ y, shlexText (L ++ c :: z) = some y ∧ Trails W.isWord x y := by
  rw [shlexText_eq] at hx
  obtain ⟨hclosed, hx⟩ := Option.ite_none_right_eq_some.mp hx
  obtain ⟨pre, hpre, hbreak⟩ := hL.run hc z
  have hrun : Quotes.closed.run (L ++ c :: z) = .closed := by
    have hLclosed := hL.1
    rw [Lexer.run_quotes] at hLclosed
    replace hLclosed : Quotes.closed.run L = .closed := hLclosed
    rw [Quotes.run_append, hLclosed, hclosed]
  refine ⟨(Lexer.init.run (L ++ c :: z)).text, by rw [shlexText_eq, if_pos hrun], pre, ?_, hbreak⟩
  rw [Lexer.run_append, hpre, Option.some.inj hx]

/-- No word has a character that its part has not, but for the spaces and backslashes. -/
theorem not_sound_of_mem_shlexText (hz : ∀ c ∈ z, ¬Sound c) (hx : shlexText z = some x) :
    ∀ c ∈ x, ¬Sound c := by
  rw [shlexText_eq] at hx
  obtain ⟨-, hx⟩ := Option.ite_none_right_eq_some.mp hx
  cases hx
  intro c hc
  rcases Lexer.mem_text_run hc with hinit | hmem | rfl | rfl
  · cases hinit
  · exact hz c hmem
  · decide
  · decide

end Parts

end DeerFlow.Middlewares.ShellAudit
