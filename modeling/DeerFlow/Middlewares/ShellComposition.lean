import DeerFlow.Middlewares.ShellWords

/-! Two commands that an operator joins, and the verdict on them. The verdict on either command is
kept unless what was found in it stands in a text that the operator destroys, and nothing else is
found in what was joined. -/

namespace DeerFlow.Middlewares.ShellAudit
open Regex

inductive ShellOperator where
  | semicolon
  | andAnd
  | orOr
  | pipe
  | ampersand
  | newline

def ShellOperator.text : ShellOperator → Text
  | .semicolon => [';']
  | .andAnd => ['&', '&']
  | .orOr => ['|', '|']
  | .pipe => ['|']
  | .ampersand => ['&']
  | .newline => ['\n']

/-- `_split_compound_command` knows it. -/
def ShellOperator.splits : ShellOperator → Bool
  | .semicolon | .andAnd | .orOr => true
  | .pipe | .ampersand | .newline => false

/-- A command that is not blank, with its quotes closed and no backslash at its end. -/
structure ShellCommand where
  text : Text
  notBlank : ∃ c ∈ text, isSpace c = false
  closed : Quotes.closed.run text = .closed

def compose (c₁ : ShellCommand) (op : ShellOperator) (c₂ : ShellCommand) : Text :=
  c₁.text ++ op.text ++ c₂.text

/-- What is searched of a part. -/
def partTexts (part : Text) : List Text := joinWords part :: (shlexText part).toList

def searchedTexts (command : Text) : List Text :=
  joinWords command :: (splitCompoundCommand command).flatMap partTexts

/-- What stands before the first operator. -/
def firstPart (command : Text) : Text := stripSpace ((segments command).headD [])

/-- What stands after the last operator. -/
def lastPart (command : Text) : Text := stripSpace ((segments command).getLastD [])

/-- The operator and a character next to it are read as another operator. -/
def Fuses (c₁ : ShellCommand) (op : ShellOperator) (c₂ : ShellCommand) : Prop :=
  ¬Seam c₁.text (op.text ++ c₂.text) ∨ op.splits = false ∧ ¬Seam op.text c₂.text

/-- Something of high risk is found in a text that is searched of the one or the other command, and
that is not the same in what they are joined to. -/
inductive Destroys (W : ShellClass) (c₁ : ShellCommand) (op : ShellOperator) (c₂ : ShellCommand) :
    Prop
  /-- The anchored pattern, at the end of the first command. -/
  | whole (h : removesRoot.search W.isWord (joinWords c₁.text) = true)
  /-- The anchored pattern, at the end of its last part. -/
  | last (hop : op.splits = false) {t : Text} (ht : t ∈ partTexts (lastPart c₁.text))
    (h : removesRoot.search W.isWord t = true)
  /-- In the words of its last part, which goes on with a part that `shlex` refuses. -/
  | unparsed (hop : op.splits = false) (hnone : shlexText (firstPart c₂.text) = none) {t : Text}
    (ht : t ∈ shlexText (lastPart c₁.text)) (h : highRisk W.toWordClass t = true)
  /-- In a part of either, where the operator runs together with its neighbour. -/
  | fused (hfuses : Fuses c₁ op c₂) {part t : Text}
    (hpart : part ∈ splitCompoundCommand c₁.text ++ splitCompoundCommand c₂.text)
    (ht : t ∈ partTexts part) (h : highRisk W.toWordClass t = true)

/-- The verdict is no milder than on either command alone. -/
structure KeepsVerdicts (W : ShellClass) (c₁ : ShellCommand) (op : ShellOperator)
    (c₂ : ShellCommand) : Prop where
  left : (classifyCommand W.toWordClass c₁.text).severity ≤
    (classifyCommand W.toWordClass (compose c₁ op c₂)).severity
  right : (classifyCommand W.toWordClass c₂.text).severity ≤
    (classifyCommand W.toWordClass (compose c₁ op c₂)).severity

section Verdicts
variable {W : ShellClass} {command part t : Text}

def Blocked (W : ShellClass) (command : Text) : Prop :=
  ∃ t ∈ searchedTexts command, highRisk W.toWordClass t = true

def Warned (W : ShellClass) (command : Text) : Prop :=
  ∃ part ∈ splitCompoundCommand command, mediumRisk W.toWordClass (joinWords part) = true

theorem any_shlexSplit (part : Text) : (shlexSplit part).any (fun tokens =>
    highRisk W.toWordClass ([' '].intercalate tokens)) =
      (shlexText part).any (highRisk W.toWordClass) := by
  unfold shlexText
  rw [Option.any_map]

theorem classifySingleCommand_eq_block : classifySingleCommand W.toWordClass part = .block ↔
    ∃ t ∈ partTexts part, highRisk W.toWordClass t = true := by
  unfold classifySingleCommand partTexts
  simp only [any_shlexSplit, List.mem_cons, exists_eq_or_imp, Option.mem_toList]
  by_cases hnormal : highRisk W.toWordClass (joinWords part) = true
  · simp [hnormal]
  · rw [if_neg hnormal, or_iff_right hnormal]
    cases shlexText part with
    | none =>
      rw [Option.any_none, if_neg Bool.false_ne_true]
      split_ifs <;> simp
    | some x => split_ifs <;> simp_all

theorem classifySingleCommand_eq_pass : classifySingleCommand W.toWordClass part = .pass ↔
    (¬∃ t ∈ partTexts part, highRisk W.toWordClass t = true) ∧
      mediumRisk W.toWordClass (joinWords part) = false := by
  rw [← classifySingleCommand_eq_block]
  unfold classifySingleCommand
  simp only
  split_ifs with h1 h2 h3 <;> simp_all

theorem worstVerdict_eq_block {worst : Verdict} (hworst : worst ≠ .block) {parts : List Text} :
    worstVerdict W.toWordClass worst parts = .block ↔
      ∃ part ∈ parts, classifySingleCommand W.toWordClass part = .block := by
  induction parts generalizing worst with
  | nil => simp [worstVerdict, hworst]
  | cons part parts ih =>
    rw [worstVerdict, List.exists_mem_cons_iff]
    cases hpart : classifySingleCommand W.toWordClass part with
    | block => simp
    | warn =>
      have hwarn : Verdict.warn ≠ .block := by decide
      have hrest := ih hwarn
      simpa using hrest
    | pass =>
      have hrest := ih hworst
      simpa using hrest

theorem worstVerdict_eq_pass {worst : Verdict} {parts : List Text} :
    worstVerdict W.toWordClass worst parts = .pass ↔
      worst = .pass ∧ ∀ part ∈ parts, classifySingleCommand W.toWordClass part = .pass := by
  induction parts generalizing worst with
  | nil => simp [worstVerdict]
  | cons part parts ih =>
    rw [worstVerdict, List.forall_mem_cons]
    cases classifySingleCommand W.toWordClass part with
    | block => simp
    | warn | pass => simp [ih]

theorem classifyCommand_eq_block : classifyCommand W.toWordClass command = .block ↔
    Blocked W command := by
  unfold classifyCommand Blocked searchedTexts
  rw [List.exists_mem_cons_iff]
  have hpass : Verdict.pass ≠ .block := by decide
  by_cases hwhole : highRisk W.toWordClass (joinWords command) = true
  · simp [hwhole]
  · rw [if_neg hwhole, or_iff_right hwhole, worstVerdict_eq_block hpass]
    simp only [classifySingleCommand_eq_block, List.mem_flatMap]
    constructor
    · rintro ⟨part, hpart, t, ht, h⟩
      exact ⟨t, ⟨part, hpart, ht⟩, h⟩
    · rintro ⟨t, ⟨part, hpart, ht⟩, h⟩
      exact ⟨part, hpart, t, ht, h⟩

theorem classifyCommand_eq_pass : classifyCommand W.toWordClass command = .pass ↔
    ¬Blocked W command ∧ ¬Warned W command := by
  rw [← classifyCommand_eq_block]
  unfold classifyCommand Warned
  have hpass : Verdict.pass ≠ .block := by decide
  by_cases hwhole : highRisk W.toWordClass (joinWords command) = true
  · simp [hwhole]
  · rw [if_neg hwhole, worstVerdict_eq_pass, worstVerdict_eq_block hpass]
    simp only [classifySingleCommand_eq_pass, classifySingleCommand_eq_block]
    push Not
    simp only [ne_eq, Bool.not_eq_true, true_and]
    exact ⟨fun h => ⟨fun part hpart => (h part hpart).1, fun part hpart => (h part hpart).2⟩,
      fun h part hpart => ⟨h.1 part hpart, h.2 part hpart⟩⟩

theorem severity_le {a b : Text} (hblocked : Blocked W a → Blocked W b)
    (hwarned : Warned W a → Warned W b) : (classifyCommand W.toWordClass a).severity ≤
      (classifyCommand W.toWordClass b).severity := by
  cases ha : classifyCommand W.toWordClass a with
  | pass => exact Nat.zero_le _
  | block => rw [classifyCommand_eq_block.mpr (hblocked (classifyCommand_eq_block.mp ha))]
  | warn =>
    have hnot : classifyCommand W.toWordClass b ≠ .pass := by
      intro hb
      obtain ⟨hunblocked, hunwarned⟩ := classifyCommand_eq_pass.mp hb
      have hpass : classifyCommand W.toWordClass a = .pass :=
        classifyCommand_eq_pass.mpr ⟨mt hblocked hunblocked, mt hwarned hunwarned⟩
      rw [ha] at hpass
      cases hpass
    cases hb : classifyCommand W.toWordClass b with
    | pass => exact absurd hb hnot
    | warn => exact Nat.le_refl _
    | block => exact Nat.le_succ _

theorem highRisk_iff : highRisk W.toWordClass t = true ↔
    removesRoot.Found W.isWord t ∨ ∃ r ∈ otherHighRiskPatterns, r.Found W.isWord t := by
  unfold highRisk highRiskPatterns
  simp only [List.any_cons, Bool.or_eq_true, List.any_eq_true, search_iff]

theorem mediumRisk_iff : mediumRisk W.toWordClass t = true ↔
    ∃ r ∈ mediumRiskPatterns, r.Found W.isWord t := by
  unfold mediumRisk
  simp only [List.any_eq_true, search_iff]

/-- Nothing is found without a character of a word. -/
theorem exists_sound_of_highRisk (h : highRisk W.toWordClass t = true) : ∃ c ∈ t, Sound c := by
  unfold highRisk at h
  obtain ⟨r, hr, hfound⟩ := List.any_eq_true.mp h
  exact (search_iff.mp hfound).exists_of_needs (needs_of_highRisk r hr)

end Verdicts

section Parts
variable {W : ShellClass} {r : Regex} {command part s t : Text}

theorem mem_splitCompoundCommand (hclosed : Quotes.closed.run command = .closed) :
    part ∈ splitCompoundCommand command ↔
      (∃ s ∈ segments command, stripSpace s = part ∧ part ≠ []) ∨
      (∀ s ∈ segments command, stripSpace s = []) ∧ part = command := by
  have hquotes : (scanSegments .closed false [] command).2 = .closed :=
    (scan_quotes (skips_false _ _)).trans hclosed
  have hmem : part ∈ ((segments command).map stripSpace).filter (· ≠ []) ↔
      ∃ s ∈ segments command, stripSpace s = part ∧ part ≠ [] := by
    simp only [List.mem_filter, List.mem_map, decide_eq_true_eq]
    constructor
    · rintro ⟨⟨s, hs, heq⟩, hne⟩
      exact ⟨s, hs, heq, hne⟩
    · rintro ⟨s, hs, heq, hne⟩
      exact ⟨⟨s, hs, heq⟩, hne⟩
  have hnil : ((segments command).map stripSpace).filter (· ≠ []) = [] ↔
      ∀ s ∈ segments command, stripSpace s = [] := by
    simp [List.filter_eq_nil_iff]
  unfold splitCompoundCommand
  simp only [hquotes, ne_eq, not_true_eq_false, if_false]
  show part ∈ (if ((segments command).map stripSpace).filter (· ≠ []) = [] then [command]
    else ((segments command).map stripSpace).filter (· ≠ [])) ↔ _
  by_cases hblank : ((segments command).map stripSpace).filter (· ≠ []) = []
  · rw [if_pos hblank, List.mem_singleton, ← hmem, hblank]
    simpa using fun _ => hnil.mp hblank
  · rw [if_neg hblank, hmem, or_iff_left fun h => hblank (hnil.mpr h.1)]

/-- Nothing is found in what has no character of a word. -/
theorem exists_sound_of_mem_partTexts (ht : t ∈ partTexts part)
    (h : highRisk W.toWordClass t = true) : ∃ c ∈ part, Sound c := by
  obtain ⟨c, hc, hsound⟩ := exists_sound_of_highRisk h
  unfold partTexts at ht
  rcases List.mem_cons.mp ht with rfl | hwords
  · rcases mem_joinWords hc with hmem | rfl
    · exact ⟨c, hmem, hsound⟩
    · exact absurd hsound (by decide)
  · by_contra hnone
    push Not at hnone
    exact not_sound_of_mem_shlexText hnone (Option.mem_toList.mp hwords) c hc hsound

theorem stripSpace_ne_nil_of_mem_partTexts (ht : t ∈ partTexts (stripSpace s))
    (h : highRisk W.toWordClass t = true) : stripSpace s ≠ [] := by
  intro hblank
  obtain ⟨c, hc, -⟩ := exists_sound_of_mem_partTexts ht h
  rw [hblank] at hc
  cases hc

theorem exists_segment_of_highRisk (hclosed : Quotes.closed.run command = .closed)
    (hpart : part ∈ splitCompoundCommand command) (ht : t ∈ partTexts part)
    (h : highRisk W.toWordClass t = true) : ∃ s ∈ segments command, stripSpace s = part := by
  rcases (mem_splitCompoundCommand hclosed).mp hpart with ⟨s, hs, heq, -⟩ | ⟨hblank, rfl⟩
  · exact ⟨s, hs, heq⟩
  · obtain ⟨c, hc, hsound⟩ := exists_sound_of_mem_partTexts ht h
    have hspaces : ∀ s ∈ segments part, ∀ c ∈ s, isSpace c = true :=
      fun s hs => stripSpace_eq_nil.mp (hblank s hs)
    exact absurd hsound ((woven_segments part).blank hspaces c hc)

theorem blocked_of_segment (hclosed : Quotes.closed.run command = .closed)
    (hs : s ∈ segments command) (ht : t ∈ partTexts (stripSpace s))
    (h : highRisk W.toWordClass t = true) : Blocked W command := by
  have hne := stripSpace_ne_nil_of_mem_partTexts ht h
  have hpart : stripSpace s ∈ splitCompoundCommand command :=
    (mem_splitCompoundCommand hclosed).mpr (.inl ⟨s, hs, rfl, hne⟩)
  exact ⟨t, List.mem_cons_of_mem _ (List.mem_flatMap.mpr ⟨_, hpart, ht⟩), h⟩

theorem mem_partTexts_of_shlexText (ht : t ∈ shlexText part) : t ∈ partTexts part :=
  List.mem_cons_of_mem _ (Option.mem_toList.mpr ht)

theorem mediumRisk_of_warned (hclosed : Quotes.closed.run command = .closed)
    (h : Warned W command) : mediumRisk W.toWordClass (joinWords command) = true := by
  obtain ⟨part, hpart, hfound⟩ := h
  rcases (mem_splitCompoundCommand hclosed).mp hpart with ⟨s, hs, rfl, -⟩ | ⟨-, rfl⟩
  · rw [joinWords_stripSpace] at hfound
    obtain ⟨r, hr, hfound⟩ := mediumRisk_iff.mp hfound
    have hinside := (woven_segments command).inside (W := W.toWordClass) hs
    exact mediumRisk_iff.mpr ⟨r, hr, hfound.of_inside (unanchored_of_mediumRisk r hr) hinside⟩
  · exact hfound

theorem warned_of_mediumRisk (hclosed : Quotes.closed.run command = .closed)
    (h : mediumRisk W.toWordClass (joinWords command) = true) : Warned W command := by
  obtain ⟨r, hr, hfound⟩ := mediumRisk_iff.mp h
  obtain ⟨s, hs, hs'⟩ := (woven_segments command).exists_found hr hfound
  obtain ⟨c, hc, -⟩ := hs'.exists_of_needs (needs_of_mediumRisk r hr)
  have hne : stripSpace s ≠ [] := by
    intro hblank
    rw [← joinWords_stripSpace, hblank] at hc
    cases hc
  refine ⟨stripSpace s, (mem_splitCompoundCommand hclosed).mpr (.inl ⟨s, hs, rfl, hne⟩), ?_⟩
  rw [joinWords_stripSpace]
  exact mediumRisk_iff.mpr ⟨r, hr, hs'⟩

end Parts

section Joining
variable {W : ShellClass} {r : Regex} {op : ShellOperator} {a b l h sp t : Text}

theorem ShellOperator.closed (op : ShellOperator) : Quotes.closed.run op.text = .closed := by
  cases op <;> decide

theorem ShellOperator.isOperator (hop : op ≠ .newline) : IsOperator op.text := by
  cases op with
  | semicolon => exact .inl (.inl rfl)
  | andAnd => exact .inl (.inr (.inl rfl))
  | orOr => exact .inl (.inr (.inr rfl))
  | pipe => exact .inr (.inl rfl)
  | ampersand => exact .inr (.inr rfl)
  | newline => exact absurd rfl hop

theorem ShellOperator.isSplit (hop : op.splits = true) : IsSplit op.text := by
  cases op with
  | semicolon => exact .inl rfl
  | andAnd => exact .inr (.inl rfl)
  | orOr => exact .inr (.inr rfl)
  | pipe | ampersand | newline => cases hop

theorem ShellOperator.eq_singleton (hop : op.splits = false) : ∃ d, op.text = [d] ∧
    isPlain d = true ∧ d ≠ ';' ∧ ∀ W : ShellClass, W.isWord d = false := by
  cases op with
  | semicolon | andAnd | orOr => cases hop
  | pipe => exact ⟨'|', rfl, by decide, by decide, fun W => W.ascii '|' (by decide)⟩
  | ampersand => exact ⟨'&', rfl, by decide, by decide, fun W => W.ascii '&' (by decide)⟩
  | newline => exact ⟨'\n', rfl, by decide, by decide, fun W => W.space '\n' rfl⟩

theorem compose_closed (c₁ c₂ : ShellCommand) (op : ShellOperator) :
    Quotes.closed.run (compose c₁ op c₂) = .closed := by
  unfold compose
  rw [Quotes.run_append, Quotes.run_append, c₁.closed, op.closed, c₂.closed]

/-- The words before an operator are words of the whole. -/
theorem inside_joined (op : ShellOperator) (ha : joinWords a ≠ []) (b : Text) :
    Inside W.isWord (joinWords a) (joinWords (a ++ op.text ++ b)) := by
  by_cases hop : op = .newline
  · subst hop
    show Inside _ _ (joinWords (a ++ ['\n'] ++ b))
    have hnewline : joinWords ('\n' :: b) = joinWords b := joinWords_cons_of_space rfl
    rw [List.append_assoc, List.singleton_append, joinWords_append, hnewline]
    by_cases hb : joinWords b = []
    · have hgap : wordGap a ('\n' :: b) = [] := by
        unfold wordGap
        simp [hnewline, hb]
      rw [hgap, hb, List.append_nil, List.append_nil]
      exact .refl _
    · have hgap : wordGap a ('\n' :: b) = [' '] :=
        wordGap_of_space (.inr rfl) ha (by rwa [hnewline])
      rw [hgap]
      exact ⟨[], ' ' :: joinWords b, by simp, rfl, isWord_space W.toWordClass⟩
  · exact inside_before (ShellOperator.isOperator hop) a b

/-- The words behind an operator are the last words of the whole. -/
theorem trails_joined (op : ShellOperator) (a : Text) (hb : joinWords b ≠ []) :
    Trails W.isWord (joinWords b) (joinWords (a ++ op.text ++ b)) := by
  by_cases hop : op = .newline
  · subst hop
    show Trails _ _ (joinWords (a ++ ['\n'] ++ b))
    have hnewline : joinWords ('\n' :: b) = joinWords b := joinWords_cons_of_space rfl
    rw [List.append_assoc, List.singleton_append, joinWords_append, hnewline]
    by_cases ha : joinWords a = []
    · have hgap : wordGap a ('\n' :: b) = [] := by
        unfold wordGap
        simp [ha]
      rw [hgap, ha]
      exact ⟨[], rfl, rfl⟩
    · have hgap : wordGap a ('\n' :: b) = [' '] :=
        wordGap_of_space (.inr rfl) ha (by rwa [hnewline])
      rw [hgap]
      refine ⟨joinWords a ++ [' '], rfl, ?_⟩
      rw [List.getLast?_concat]
      exact isWord_space W.toWordClass
  · exact trails_after (ShellOperator.isOperator hop) a b

theorem closed_run_dropWhile (s : Text) :
    Quotes.closed.run (s.dropWhile isSpace) = Quotes.closed.run s := by
  have hspaces : ∀ c ∈ s.takeWhile isSpace, isPlain c = true :=
    fun c hc => isPlain_of_isSpace (List.mem_takeWhile_imp hc)
  conv_rhs => rw [← List.takeWhile_append_dropWhile (p := isSpace) (l := s)]
  rw [Quotes.run_append, closed_run hspaces]

/-- After an operator no word is being read, and after the spaces behind it neither. -/
theorem between_joined (hl : Quotes.closed.run l = .closed) {w : Text} (hne : w ≠ [])
    (hw : ∀ c ∈ w, isPlain c = true ∧ W.isWord c = false) :
    Lexer.Between W (Lexer.init.run ((l ++ w).dropWhile isSpace)) := by
  obtain ⟨v, c, rfl⟩ : ∃ v c, w = v ++ [c] :=
    ⟨_, _, (List.dropLast_append_getLast hne).symm⟩
  rw [List.forall_mem_append, List.forall_mem_singleton] at hw
  obtain ⟨hv, hplain, hword⟩ := hw
  have hclosed : Quotes.closed.run (l ++ v) = .closed := by
    rw [Quotes.run_append, hl, closed_run fun c hc => (hv c hc).1]
  rw [← List.append_assoc, List.dropWhile_append]
  split_ifs with hempty
  · by_cases hspace : isSpace c = true
    · rw [List.dropWhile_cons_of_pos hspace]
      exact Lexer.between_init
    · rw [List.dropWhile_cons_of_neg hspace]
      exact Lexer.between_step rfl hplain hword
  · rw [Lexer.run_append]
    refine Lexer.between_step ?_ hplain hword
    rw [Lexer.run_quotes]
    exact (closed_run_dropWhile _).trans hclosed

theorem joinWords_ne_nil (h : stripSpace a ≠ []) : joinWords a ≠ [] := by
  intro hblank
  exact h (stripSpace_eq_nil.mpr (joinWords_eq_nil.mp hblank))

/-- The part of which `l` and `h` become the ends leaves no quote open, unless they do. -/
theorem merged_closed (hop : op.splits = false) (hl : Quotes.closed.run l = .closed)
    (hne : stripSpace l ≠ []) (hleft : Quotes.closed.run (stripSpace l) = .closed)
    (hright : Quotes.closed.run (stripSpace h) = .closed) :
    Quotes.closed.run (stripSpace (l ++ op.text ++ h)) = .closed := by
  by_cases hblank : stripSpace h = []
  · have hspaces := stripSpace_eq_nil.mp hblank
    obtain ⟨d, hd, hplain, -, -⟩ := ShellOperator.eq_singleton hop
    rw [hd, List.append_assoc, List.singleton_append]
    rcases stripSpace_append_cons hne d h with heq | ⟨sp, u, hsp, hu, heq⟩
    · rw [heq, hleft]
    · have hrest : ∀ c ∈ sp ++ d :: u, isPlain c = true := by
        rw [List.forall_mem_append, List.forall_mem_cons]
        refine ⟨fun c hc => isPlain_of_isSpace (hsp c hc), hplain, fun c hc => ?_⟩
        exact isPlain_of_isSpace (hspaces c (hu.subset hc))
      rw [heq, Quotes.run_append, hleft, closed_run hrest]
  · obtain ⟨sp, hsp, heq⟩ := stripSpace_append (l ++ op.text) hblank
    rw [heq, Quotes.run_append, closed_run_dropWhile, Quotes.run_append, Quotes.run_append, hl,
      op.closed, closed_run fun c hc => isPlain_of_isSpace (hsp c hc), hright]

/-- What is found in the last part before an operator that does not split. -/
theorem exists_found_before (hop : op.splits = false) (hl : Quotes.closed.run l = .closed)
    (hr : r.Unanchored) (hne : stripSpace l ≠ []) (ht : t ∈ partTexts (stripSpace l))
    (hparsed : t ∈ shlexText (stripSpace l) → shlexText (stripSpace h) ≠ none)
    (hfound : r.Found W.isWord t) :
    ∃ t' ∈ partTexts (stripSpace (l ++ op.text ++ h)), r.Found W.isWord t' := by
  rcases List.mem_cons.mp ht with rfl | hwords
  · refine ⟨_, List.mem_cons_self .., hfound.of_inside hr ?_⟩
    rw [joinWords_stripSpace, joinWords_stripSpace]
    exact inside_joined op (joinWords_ne_nil hne) h
  · have hx : shlexText (stripSpace l) = some t := Option.mem_toList.mp hwords
    have hleft : Quotes.closed.run (stripSpace l) = .closed :=
      shlexText_isSome.mp (Option.isSome_of_mem hx)
    have hright : Quotes.closed.run (stripSpace h) = .closed :=
      shlexText_isSome.mp (Option.isSome_iff_ne_none.mpr (hparsed hx))
    obtain ⟨y, hy⟩ := Option.isSome_iff_exists.mp
      (shlexText_isSome.mpr (merged_closed hop hl hne hleft hright))
    refine ⟨y, mem_partTexts_of_shlexText hy, hfound.of_inside hr ?_⟩
    obtain ⟨d, hd, hplain, -, hword⟩ := ShellOperator.eq_singleton hop
    obtain ⟨c, z, hcons⟩ := List.exists_cons_of_ne_nil hne
    rw [hd, List.append_assoc, List.singleton_append] at hy
    rcases stripSpace_append_cons hne d h with heq | ⟨sp, u, hsp, -, heq⟩
    · rw [heq, hx] at hy
      cases hy
      exact .refl _
    · rw [heq, hcons] at hy
      rw [hcons] at hx
      exact shlexText_before (stripSpace_head hcons) hsp hplain (hword W) hx hy

/-- What is found in the first part behind an operator that does not split. -/
theorem exists_found_after (hop : op.splits = false) (hl : Quotes.closed.run l = .closed)
    (hne : stripSpace h ≠ []) (ht : t ∈ partTexts (stripSpace h)) (hfound : r.Found W.isWord t) :
    ∃ t' ∈ partTexts (stripSpace (l ++ op.text ++ h)), r.Found W.isWord t' := by
  rcases List.mem_cons.mp ht with rfl | hwords
  · refine ⟨_, List.mem_cons_self .., Trails.found ?_ hfound⟩
    rw [joinWords_stripSpace, joinWords_stripSpace]
    exact trails_joined op l (joinWords_ne_nil hne)
  · have hx : shlexText (stripSpace h) = some t := Option.mem_toList.mp hwords
    obtain ⟨sp, hsp, heq⟩ := stripSpace_append (l ++ op.text) hne
    obtain ⟨c, z, hcons⟩ := List.exists_cons_of_ne_nil hne
    obtain ⟨d, hd, hplain, -, hword⟩ := ShellOperator.eq_singleton hop
    have hbetween : Lexer.Between W (Lexer.init.run ((l ++ (op.text ++ sp)).dropWhile isSpace)) := by
      refine between_joined hl (by simp [hd]) ?_
      rw [hd, List.singleton_append, List.forall_mem_cons]
      exact ⟨⟨hplain, hword W⟩, fun c hc => ⟨isPlain_of_isSpace (hsp c hc), W.space c (hsp c hc)⟩⟩
    rw [hcons] at hx heq
    obtain ⟨y, hy, htrails⟩ := shlexText_after hbetween (stripSpace_head hcons) hx
    rw [← List.append_assoc, ← heq] at hy
    exact ⟨y, mem_partTexts_of_shlexText hy, htrails.found hfound⟩

end Joining

section Composition
variable {W : ShellClass} {c₁ c₂ : ShellCommand} {op : ShellOperator} {t : Text}

theorem seam_of_not_fuses (h : ¬Fuses c₁ op c₂) :
    Seam c₁.text (op.text ++ c₂.text) ∧ (op.splits = false → Seam op.text c₂.text) := by
  unfold Fuses at h
  push Not at h
  exact h

theorem segments_compose_of_splits (hfuses : ¬Fuses c₁ op c₂) (hop : op.splits = true) :
    segments (compose c₁ op c₂) = segments c₁.text ++ segments c₂.text := by
  unfold compose
  rw [List.append_assoc, segments_append c₁.closed (seam_of_not_fuses hfuses).1,
    segments_split (ShellOperator.isSplit hop), glue_nil_cons _ _ (segments_ne_nil _)]

/-- Any other operator stands in a segment. -/
theorem segments_compose (hfuses : ¬Fuses c₁ op c₂) (hop : op.splits = false) :
    segments (compose c₁ op c₂) = (segments c₁.text).dropLast ++
      ((segments c₁.text).getLastD [] ++ op.text ++ (segments c₂.text).headD []) ::
        (segments c₂.text).tail := by
  obtain ⟨hleft, hright⟩ := seam_of_not_fuses hfuses
  replace hright := hright hop
  obtain ⟨d, hd, hplain, hsemicolon, -⟩ := ShellOperator.eq_singleton hop
  unfold compose
  rw [List.append_assoc, segments_append c₁.closed hleft]
  rw [hd] at hright ⊢
  rw [List.singleton_append, segments_cons hplain hsemicolon hright]
  obtain ⟨s, ss, hsegments⟩ := List.exists_cons_of_ne_nil (segments_ne_nil c₂.text)
  rw [hsegments]
  unfold glue
  simp

theorem mem_dropLast_or_eq {xs : List Text} {s : Text} (h : s ∈ xs) :
    s ∈ xs.dropLast ∨ s = xs.getLastD [] := by
  have hne : xs ≠ [] := List.ne_nil_of_mem h
  rw [← List.dropLast_append_getLast hne, List.mem_append, List.mem_singleton] at h
  rwa [List.getLastD_eq_getLast?, List.getLast?_eq_some_getLast hne, Option.getD_some]

theorem mem_tail_or_eq {xs : List Text} {s : Text} (h : s ∈ xs) : s = xs.headD [] ∨ s ∈ xs.tail := by
  cases xs with
  | nil => cases h
  | cons x xs => exact List.mem_cons.mp h

theorem highRisk_of_unanchored {r : Regex} (hr : r ∈ otherHighRiskPatterns)
    (h : r.Found W.isWord t) : highRisk W.toWordClass t = true :=
  highRisk_iff.mpr (.inr ⟨r, hr, h⟩)

theorem blocked_of_whole (h : highRisk W.toWordClass (joinWords (compose c₁ op c₂)) = true) :
    Blocked W (compose c₁ op c₂) := ⟨_, List.mem_cons_self .., h⟩

theorem joinWords_command_ne_nil (c : ShellCommand) : joinWords c.text ≠ [] := by
  intro h
  obtain ⟨d, hd, hspace⟩ := c.notBlank
  rw [joinWords_eq_nil.mp h d hd] at hspace
  cases hspace

theorem Blocked.left (hkept : ¬Destroys W c₁ op c₂) (h : Blocked W c₁.text) :
    Blocked W (compose c₁ op c₂) := by
  obtain ⟨t, ht, hrisk⟩ := h
  rcases List.mem_cons.mp ht with rfl | ht
  · rcases highRisk_iff.mp hrisk with hroot | ⟨r, hr, hfound⟩
    · exact absurd (.whole (search_iff.mpr hroot)) hkept
    · have hinside := inside_joined (W := W) op (joinWords_command_ne_nil c₁) c₂.text
      exact blocked_of_whole (highRisk_of_unanchored hr
        (hfound.of_inside (unanchored_of_highRisk r hr) hinside))
  · obtain ⟨part, hpart, ht⟩ := List.mem_flatMap.mp ht
    have hfuses : ¬Fuses c₁ op c₂ := fun hfuses =>
      hkept (.fused hfuses (List.mem_append_left _ hpart) ht hrisk)
    obtain ⟨s, hs, rfl⟩ := exists_segment_of_highRisk c₁.closed hpart ht hrisk
    cases hop : op.splits with
    | true =>
      have hmem : s ∈ segments (compose c₁ op c₂) := by
        rw [segments_compose_of_splits hfuses hop]
        exact List.mem_append_left _ hs
      exact blocked_of_segment (compose_closed c₁ c₂ op) hmem ht hrisk
    | false =>
      have hsegments := segments_compose hfuses hop
      rcases mem_dropLast_or_eq hs with hinit | rfl
      · have hmem : s ∈ segments (compose c₁ op c₂) := by
          rw [hsegments]
          exact List.mem_append_left _ hinit
        exact blocked_of_segment (compose_closed c₁ c₂ op) hmem ht hrisk
      · rcases highRisk_iff.mp hrisk with hroot | ⟨r, hr, hfound⟩
        · exact absurd (.last hop ht (search_iff.mpr hroot)) hkept
        · obtain ⟨t', ht', hfound'⟩ := exists_found_before hop (segments_closed c₁.closed _ hs)
            (unanchored_of_highRisk r hr) (stripSpace_ne_nil_of_mem_partTexts ht hrisk) ht
            (fun hwords hnone => hkept (.unparsed hop hnone hwords hrisk)) hfound
          refine blocked_of_segment (compose_closed c₁ c₂ op) ?_ ht'
            (highRisk_of_unanchored hr hfound')
          rw [hsegments]
          exact List.mem_append_right _ (List.mem_cons_self ..)

theorem exists_found_of_highRisk (h : highRisk W.toWordClass t = true) :
    ∃ r ∈ highRiskPatterns, r.Found W.isWord t := by
  unfold highRisk at h
  obtain ⟨r, hr, hfound⟩ := List.any_eq_true.mp h
  exact ⟨r, hr, search_iff.mp hfound⟩

theorem highRisk_of_found {r : Regex} (hr : r ∈ highRiskPatterns) (h : r.Found W.isWord t) :
    highRisk W.toWordClass t = true :=
  List.any_eq_true.mpr ⟨r, hr, search_iff.mpr h⟩

theorem Blocked.right (hkept : ¬Destroys W c₁ op c₂) (h : Blocked W c₂.text) :
    Blocked W (compose c₁ op c₂) := by
  obtain ⟨t, ht, hrisk⟩ := h
  obtain ⟨r, hr, hfound⟩ := exists_found_of_highRisk hrisk
  rcases List.mem_cons.mp ht with rfl | ht
  · have htrails := trails_joined (W := W) op c₁.text (joinWords_command_ne_nil c₂)
    exact blocked_of_whole (highRisk_of_found hr (htrails.found hfound))
  · obtain ⟨part, hpart, ht⟩ := List.mem_flatMap.mp ht
    have hfuses : ¬Fuses c₁ op c₂ := fun hfuses =>
      hkept (.fused hfuses (List.mem_append_right _ hpart) ht hrisk)
    obtain ⟨s, hs, rfl⟩ := exists_segment_of_highRisk c₂.closed hpart ht hrisk
    cases hop : op.splits with
    | true =>
      have hmem : s ∈ segments (compose c₁ op c₂) := by
        rw [segments_compose_of_splits hfuses hop]
        exact List.mem_append_right _ hs
      exact blocked_of_segment (compose_closed c₁ c₂ op) hmem ht hrisk
    | false =>
      have hsegments := segments_compose hfuses hop
      rcases mem_tail_or_eq hs with rfl | htail
      · have hlast : (segments c₁.text).getLastD [] ∈ segments c₁.text := by
          rw [List.getLastD_eq_getLast?, List.getLast?_eq_some_getLast (segments_ne_nil _)]
          exact List.getLast_mem _
        obtain ⟨t', ht', hfound'⟩ := exists_found_after hop (segments_closed c₁.closed _ hlast)
          (stripSpace_ne_nil_of_mem_partTexts ht hrisk) ht hfound
        refine blocked_of_segment (compose_closed c₁ c₂ op) ?_ ht' (highRisk_of_found hr hfound')
        rw [hsegments]
        exact List.mem_append_right _ (List.mem_cons_self ..)
      · have hmem : s ∈ segments (compose c₁ op c₂) := by
          rw [hsegments]
          exact List.mem_append_right _ (List.mem_cons_of_mem _ htail)
        exact blocked_of_segment (compose_closed c₁ c₂ op) hmem ht hrisk

theorem Warned.left (h : Warned W c₁.text) : Warned W (compose c₁ op c₂) := by
  obtain ⟨r, hr, hfound⟩ := mediumRisk_iff.mp (mediumRisk_of_warned c₁.closed h)
  have hinside := inside_joined (W := W) op (joinWords_command_ne_nil c₁) c₂.text
  exact warned_of_mediumRisk (compose_closed c₁ c₂ op)
    (mediumRisk_iff.mpr ⟨r, hr, hfound.of_inside (unanchored_of_mediumRisk r hr) hinside⟩)

theorem Warned.right (h : Warned W c₂.text) : Warned W (compose c₁ op c₂) := by
  obtain ⟨r, hr, hfound⟩ := mediumRisk_iff.mp (mediumRisk_of_warned c₂.closed h)
  have htrails := trails_joined (W := W) op c₁.text (joinWords_command_ne_nil c₂)
  exact warned_of_mediumRisk (compose_closed c₁ c₂ op)
    (mediumRisk_iff.mpr ⟨r, hr, htrails.found hfound⟩)

/-- What the operator destroys has blocked one of the two. -/
theorem Destroys.blocked (h : Destroys W c₁ op c₂) : Blocked W c₁.text ∨ Blocked W c₂.text := by
  have hlast : (segments c₁.text).getLastD [] ∈ segments c₁.text := by
    rw [List.getLastD_eq_getLast?, List.getLast?_eq_some_getLast (segments_ne_nil _)]
    exact List.getLast_mem _
  cases h with
  | whole h =>
    exact .inl ⟨_, List.mem_cons_self .., highRisk_iff.mpr (.inl (search_iff.mp h))⟩
  | last hop ht h =>
    exact .inl (blocked_of_segment c₁.closed hlast ht (highRisk_iff.mpr (.inl (search_iff.mp h))))
  | unparsed hop hnone ht h =>
    exact .inl (blocked_of_segment c₁.closed hlast (mem_partTexts_of_shlexText ht) h)
  | fused hfuses hpart ht h =>
    rcases List.mem_append.mp hpart with hpart | hpart
    · exact .inl ⟨_, List.mem_cons_of_mem _ (List.mem_flatMap.mpr ⟨_, hpart, ht⟩), h⟩
    · exact .inr ⟨_, List.mem_cons_of_mem _ (List.mem_flatMap.mpr ⟨_, hpart, ht⟩), h⟩

theorem severity_of_blocked {command : Text} (h : Blocked W command) :
    (classifyCommand W.toWordClass command).severity = 2 := by
  rw [classifyCommand_eq_block.mpr h]
  rfl

theorem blocked_of_severity {command : Text}
    (h : 2 ≤ (classifyCommand W.toWordClass command).severity) : Blocked W command := by
  refine classifyCommand_eq_block.mp ?_
  cases hverdict : classifyCommand W.toWordClass command with
  | pass | warn =>
    rw [hverdict] at h
    exact absurd h (by decide)
  | block => rfl

/-- Both verdicts are kept if and only if nothing that is found is destroyed, or something of high
risk is found in what the two are joined to. -/
theorem keepsVerdicts_iff (W : ShellClass) (c₁ : ShellCommand) (op : ShellOperator)
    (c₂ : ShellCommand) : KeepsVerdicts W c₁ op c₂ ↔
      (Destroys W c₁ op c₂ →
        ∃ t ∈ searchedTexts (compose c₁ op c₂), highRisk W.toWordClass t = true) := by
  constructor
  · intro hkeeps hdestroys
    rcases hdestroys.blocked with h | h
    · exact blocked_of_severity ((severity_of_blocked h).symm.le.trans hkeeps.left)
    · exact blocked_of_severity ((severity_of_blocked h).symm.le.trans hkeeps.right)
  · intro hkept
    have hblocked (h : ¬Destroys W c₁ op c₂ → Blocked W (compose c₁ op c₂)) :
        Blocked W (compose c₁ op c₂) := by
      by_cases hdestroys : Destroys W c₁ op c₂
      · exact hkept hdestroys
      · exact h hdestroys
    refine ⟨severity_le (fun h => ?_) Warned.left, severity_le (fun h => ?_) Warned.right⟩
    · exact hblocked fun hdestroys => h.left hdestroys
    · exact hblocked fun hdestroys => h.right hdestroys

end Composition

section Piped

/-- Only ASCII letters make words. -/
def asciiShell : ShellClass where
  isWord c := c.isAlphanum || c = '_'
  ascii := asciiWords.ascii
  space c hc := by
    have hunderscore : c ≠ '_' := by
      rintro rfl
      revert hc
      decide
    have hletter : c.isAlphanum = false := by
      simp only [Char.isAlphanum, Char.isAlpha, Char.isUpper, Char.isLower, Char.isDigit, isSpace,
        UInt32.le_iff_toNat_le, Bool.or_eq_true, Bool.and_eq_true, decide_eq_true_eq,
        Bool.or_eq_false_iff, Bool.and_eq_false_iff, decide_eq_false_iff_not, Char.toNat,
        Char.reduceVal, UInt32.reduceToNat] at hc ⊢
      omega
    simp [hletter, hunderscore]

def removesAll : ShellCommand where
  text := "rm -rf /".toList
  notBlank := ⟨'r', by decide, by decide⟩
  closed := by decide

def listsFiles : ShellCommand where
  text := "ls".toList
  notBlank := ⟨'l', by decide, by decide⟩
  closed := by decide

/-- A pipe behind it lets a blocked command pass. -/
theorem piped_passes : ¬KeepsVerdicts asciiShell removesAll .pipe listsFiles := by
  intro h
  have hblock : classifyCommand asciiShell.toWordClass removesAll.text = .block := by
    decide +kernel
  have hpass : classifyCommand asciiShell.toWordClass (compose removesAll .pipe listsFiles) =
      .pass := by
    decide +kernel
  have hle := h.left
  rw [hblock, hpass] at hle
  exact absurd hle (by decide)

end Piped

end DeerFlow.Middlewares.ShellAudit
