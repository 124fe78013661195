import DeerFlow.Middlewares.DurableContext

/-! The bounds of the durable context. The ledger keeps its budget and counts what it omits, and no
field of the context ends the block that it is shown in. -/

namespace DeerFlow.Middlewares

section Plain
variable {c d : Char} {s t text : Text} {lines : List Text}

/-- A text that neither opens a tag nor ends its line. -/
def Plain (text : Text) : Prop := '<' ∉ text ∧ '\n' ∉ text

theorem plain_of_all (h : (text.all fun c => c ≠ '<' && c ≠ '\n') = true) : Plain text := by
  have hall (c : Char) (hc : c ∈ text) : c ≠ '<' ∧ c ≠ '\n' := by
    simpa using List.all_eq_true.mp h c hc
  exact ⟨fun hc => (hall _ hc).1 rfl, fun hc => (hall _ hc).2 rfl⟩

theorem Plain.append (hs : Plain s) (ht : Plain t) : Plain (s ++ t) :=
  ⟨fun h => (List.mem_append.mp h).elim hs.1 ht.1, fun h => (List.mem_append.mp h).elim hs.2 ht.2⟩

theorem eq_of_mem_escapeHtmlChar (h : c ∈ escapeHtmlChar d) (hc : c ∉ "&ampltg;".toList) :
    c = d ∧ c ≠ '<' := by
  unfold escapeHtmlChar at h
  split_ifs at h with hamp hlt hgt
  · have hsub : "&amp;".toList ⊆ "&ampltg;".toList := by decide
    exact absurd (hsub h) hc
  · have hsub : "&lt;".toList ⊆ "&ampltg;".toList := by decide
    exact absurd (hsub h) hc
  · have hsub : "&gt;".toList ⊆ "&ampltg;".toList := by decide
    exact absurd (hsub h) hc
  · obtain rfl := List.mem_singleton.mp h
    exact ⟨rfl, hlt⟩

theorem angle_not_mem_escapeHtml (text : Text) : '<' ∉ escapeHtml text := by
  intro h
  obtain ⟨d, -, hd⟩ := List.mem_flatMap.mp h
  exact (eq_of_mem_escapeHtmlChar hd (by decide)).2 rfl

theorem plain_escapeHtml (h : '\n' ∉ text) : Plain (escapeHtml text) := by
  refine ⟨angle_not_mem_escapeHtml text, fun hmem => ?_⟩
  obtain ⟨d, hd, hc⟩ := List.mem_flatMap.mp hmem
  obtain ⟨rfl, -⟩ := eq_of_mem_escapeHtmlChar hc (by decide)
  exact h hd

theorem newline_not_mem_collapseSpaces (text : Text) : '\n' ∉ collapseSpaces text := by
  refine not_mem_intercalate (by decide) fun word hword hc => ?_
  have hnone := neg_of_mem_splitOnP (List.mem_of_mem_filter hword) hc
  exact absurd hnone (by decide)

theorem plain_escapeContextText (value : Text) : Plain (escapeContextText value) :=
  plain_escapeHtml (newline_not_mem_collapseSpaces value)

theorem angle_not_mem_joinLines (h : ∀ l ∈ lines, '<' ∉ l) : '<' ∉ joinLines lines :=
  not_mem_intercalate (by decide) h

end Plain

section Lines

theorem plain_literal {s : String} {cs : Text} (h : s = String.ofList cs)
    (hcs : (cs.all fun c => c ≠ '<' && c ≠ '\n') = true) : Plain s.toList := by
  rw [toList_literal h]
  exact plain_of_all hcs

theorem plain_statusGuidance (status : Text) (stopReason : Option Text) :
    Plain (statusGuidance status stopReason) := by
  unfold statusGuidance
  split_ifs
  · exact (plain_literal rfl (by decide)).append (plain_literal rfl (by decide))
  · exact (plain_literal rfl (by decide)).append (plain_literal rfl (by decide))
  all_goals exact plain_literal rfl (by decide)

theorem plain_renderEntryLine (entry : LedgerEntry) : Plain (renderEntryLine entry) := by
  have hliteral {text : Text} (h : (text.all fun c => c ≠ '<' && c ≠ '\n') = true) :
      Plain text := plain_of_all h
  have hline : Plain ("- [".toList ++ escapeContextText entry.status ++ "] ".toList ++
      escapeContextText entry.description ++ " (via ".toList ++
      escapeContextText entry.subagentType ++ "; ".toList ++
      statusGuidance entry.status entry.stopReason ++ ")".toList) := by
    refine .append (.append (.append (.append (.append (.append (.append (.append ?_ ?_) ?_) ?_)
      ?_) ?_) ?_) ?_) ?_
    · exact hliteral (by decide)
    · exact plain_escapeContextText _
    · exact hliteral (by decide)
    · exact plain_escapeContextText _
    · exact hliteral (by decide)
    · exact plain_escapeContextText _
    · exact hliteral (by decide)
    · exact plain_statusGuidance _ _
    · exact hliteral (by decide)
  unfold renderEntryLine
  extract_lets line resultBrief
  split_ifs with hbrief
  · exact (hline.append (hliteral (by decide))).append (plain_escapeContextText _)
  · exact hline

theorem plain_omittedLine (omitted : Nat) : Plain (omittedLine omitted) := by
  have hdigits : Plain (toString omitted).toList := by
    have hdigit (c : Char) (hc : c ∈ (toString omitted).toList) : c.isDigit := by
      rw [Nat.toString_eq_ofList_toDigits, String.toList_ofList] at hc
      exact Nat.isDigit_of_mem_toDigits (by decide) (by decide) hc
    exact ⟨fun hc => absurd (hdigit _ hc) (by decide), fun hc => absurd (hdigit _ hc) (by decide)⟩
  refine .append (.append (.append (plain_of_all (by decide)) hdigits) ?_) ?_
  · exact plain_of_all (by decide)
  · exact plain_of_all (by decide)

theorem plain_ledgerHeader : ∀ line ∈ ledgerHeader, Plain line := by
  intro line hline
  rcases List.mem_pair.mp hline with rfl | rfl
  · exact plain_literal rfl (by decide)
  · exact ((plain_literal rfl (by decide)).append (plain_literal rfl (by decide))).append
      (plain_literal rfl (by decide))

end Lines

section Budget
variable {maxChars n : Nat} {header lines : List Text} {line : Text} {entries : List LedgerEntry}

theorem length_joinLines_append (h : lines ≠ []) :
    (joinLines (lines ++ [line])).length = (joinLines lines).length + line.length + 1 := by
  rw [joinLines, intercalate_append_singleton h, List.length_append, List.length_append]
  simp only [List.length_singleton, joinLines]
  omega

theorem fitsBudget_iff : fitsBudget lines line maxChars = true ↔
    (joinLines (lines ++ [line])).length ≤ maxChars := decide_eq_true_iff

theorem addEntryLines_spec (maxChars : Nat) (lines : List Text) (entries : List LedgerEntry) :
    ∃ shown ≤ entries.length,
      addEntryLines maxChars lines entries =
        (lines ++ (entries.take shown).map renderEntryLine, entries.length - shown) ∧
      ((joinLines lines).length ≤ maxChars →
        (joinLines (addEntryLines maxChars lines entries).1).length ≤ maxChars) := by
  induction entries generalizing lines with
  | nil => exact ⟨0, le_rfl, by simp [addEntryLines], fun h => h⟩
  | cons entry older ih =>
    unfold addEntryLines
    extract_lets line
    split_ifs with hfits
    · obtain ⟨shown, hle, heq, hwithin⟩ := ih (lines ++ [line])
      refine ⟨shown + 1, Nat.succ_le_succ hle, ?_, fun _ => hwithin (fitsBudget_iff.mp hfits)⟩
      rw [heq, List.append_assoc, List.length_cons, Nat.add_sub_add_right]
      rfl
    · exact ⟨0, Nat.zero_le _, by simp, fun h => h⟩

/-- The loop gives back the oldest of the shown entries until the omission line fits, and counts
each of them. -/
theorem popLines_spec (hheader : 1 < header.length) (hn : n = entries.length)
    (hfits : ∀ omitted ≤ n, fitsBudget header (omittedLine omitted) maxChars = true) (k : Nat)
    (hk : k ≤ n) :
    ∃ shown ≤ k,
      popLines maxChars (header ++ (entries.take k).map renderEntryLine) (n - k) =
        (header ++ (entries.take shown).map renderEntryLine, n - shown) ∧
      fitsBudget (header ++ (entries.take shown).map renderEntryLine) (omittedLine (n - shown))
        maxChars = true := by
  induction k with
  | zero =>
    have hfit := hfits n le_rfl
    refine ⟨0, le_rfl, ?_, by simpa using hfit⟩
    rw [popLines, List.take_zero, List.map_nil, List.append_nil, Nat.sub_zero, hfit]
    exact dif_neg (by simp)
  | succ k ih =>
    rw [popLines]
    split_ifs with hpop
    · obtain ⟨shown, hle, heq, hfit⟩ := ih (by omega)
      refine ⟨shown, by omega, ?_, hfit⟩
      have hlast : (header ++ (entries.take (k + 1)).map renderEntryLine).dropLast =
          header ++ (entries.take k).map renderEntryLine := by
        rw [List.take_succ_eq_append_getElem (by omega), List.map_append, ← List.append_assoc,
          List.map_singleton, List.dropLast_concat]
      rw [hlast, show n - (k + 1) + 1 = n - k by omega]
      exact heq
    · refine ⟨k + 1, le_rfl, rfl, ?_⟩
      by_contra hfit
      refine hpop ⟨?_, ?_⟩
      · rw [List.length_append]
        omega
      · rw [eq_false_of_ne_true hfit]
        rfl

theorem length_renderDelegationLedger_le (entries : PyList LedgerEntry) (h : 4 ≤ maxChars) :
    (renderDelegationLedger entries maxChars).length ≤ maxChars := by
  unfold renderDelegationLedger
  split_ifs with hnone
  · exact Nat.zero_le _
  · extract_lets rendered
    split_ifs with hwithin
    · exact hwithin
    · have hmark : "\n...".toList.length = 4 := by decide
      rw [List.length_append, List.length_take, hmark]
      omega

theorem length_ledgerHeader : (joinLines ledgerHeader).length ≤ 300 := by
  rw [show ledgerHeader = [_, _ ++ _ ++ _] from congrArg₂ (fun a b => [a, b]) (toList_literal rfl)
    (congrArg₂ (· ++ ·) (congrArg₂ (· ++ ·) (toList_literal rfl) (toList_literal rfl))
      (toList_literal rfl))]
  decide +kernel

theorem length_omittedLine (omitted : Nat) :
    (omittedLine omitted).length ≤ (toString omitted).toList.length + 100 := by
  have hlength (first digits rest last : Text) : (first ++ digits ++ rest ++ last).length =
      digits.length + (first.length + (rest ++ last).length) := by
    simp only [List.length_append]
    omega
  have htext : "- ... ".toList.length +
      (" older delegation entries omitted from this model view because of context ".toList ++
        "budget".toList).length ≤ 100 := by decide
  calc (omittedLine omitted).length = _ := hlength _ _ _ _
    _ ≤ (toString omitted).toList.length + 100 := Nat.add_le_add_left htext _

/-- The header leaves room for the omission line, however many entries are omitted. -/
theorem omittedLine_fits {omitted : Nat} (h : omitted < 2 ^ 63) :
    fitsBudget ledgerHeader (omittedLine omitted) ledgerRenderCharBudget = true := by
  have hdigits : (toString omitted).toList.length ≤ 19 := by
    rw [String.length_toList]
    exact (Nat.length_repr_le_iff (by decide)).mpr (h.trans (by decide))
  have hnil : ledgerHeader ≠ [] := List.cons_ne_nil _ _
  have hheader := length_ledgerHeader
  have hline := length_omittedLine omitted
  rw [fitsBudget_iff, length_joinLines_append hnil]
  unfold ledgerRenderCharBudget
  omega

/-- The lines of the ledger when that many of its entries are shown. -/
def shownLines (entries : List LedgerEntry) (shown : Nat) : List Text :=
  ledgerHeader ++ (entries.reverse.take shown).map renderEntryLine ++
    if shown = entries.length then [] else [omittedLine (entries.length - shown)]

theorem ledgerLines_default (h : entries.length < 2 ^ 63) :
    ∃ shown ≤ entries.length,
      ledgerLines ledgerRenderCharBudget entries = shownLines entries shown ∧
      (joinLines (ledgerLines ledgerRenderCharBudget entries)).length ≤
        ledgerRenderCharBudget := by
  obtain ⟨shown, hle, hadd, hwithin⟩ :=
    addEntryLines_spec ledgerRenderCharBudget ledgerHeader entries.reverse
  rw [List.length_reverse] at hle hadd
  rw [hadd] at hwithin
  unfold ledgerLines shownLines
  rw [hadd]
  by_cases hall : shown = entries.length
  · refine ⟨shown, hle, ?_, ?_⟩
    · simp [hall]
    · have hbudget : 300 ≤ ledgerRenderCharBudget := by decide
      simpa [hall] using hwithin (length_ledgerHeader.trans hbudget)
  · have hfits : ∀ omitted ≤ entries.length,
        fitsBudget ledgerHeader (omittedLine omitted) ledgerRenderCharBudget = true :=
      fun omitted hom => omittedLine_fits (hom.trans_lt h)
    have hlength : entries.length = entries.reverse.length := List.length_reverse.symm
    obtain ⟨rest, hrest, hpop, hfit⟩ := popLines_spec (by decide) hlength hfits shown hle
    have homitted : entries.length - shown ≠ 0 := by omega
    have hne : rest ≠ entries.length := by omega
    refine ⟨rest, by omega, ?_, ?_⟩
    · simp only [if_neg homitted, hpop, hfit, if_true, if_neg hne]
    · simp only [if_neg homitted, hpop, hfit, if_true]
      exact fitsBudget_iff.mp hfit

theorem plain_shownLines (entries : List LedgerEntry) (shown : Nat) :
    ∀ line ∈ shownLines entries shown, Plain line := by
  intro line hline
  rcases List.mem_append.mp hline with hline | hline
  · rcases List.mem_append.mp hline with hline | hline
    · exact plain_ledgerHeader line hline
    · obtain ⟨entry, -, rfl⟩ := List.mem_map.mp hline
      exact plain_renderEntryLine entry
  · split_ifs at hline
    · cases hline
    · rw [List.mem_singleton.mp hline]
      exact plain_omittedLine _

theorem renderDelegationLedger_default (entries : PyList LedgerEntry) (h : entries.items ≠ []) :
    ∃ shown ≤ entries.items.length,
      renderDelegationLedger entries ledgerRenderCharBudget =
        joinLines (shownLines entries.items shown) := by
  obtain ⟨shown, hle, hlines, hwithin⟩ := ledgerLines_default entries.bounded
  refine ⟨shown, hle, ?_⟩
  unfold renderDelegationLedger
  rw [if_neg h]
  exact (if_pos hwithin).trans (congrArg joinLines hlines)

end Budget

section Block
variable {body : Text}

theorem angle_not_mem_summaryBlock (summaryText : Option Text) :
    '<' ∉ summaryBlock summaryText := by
  unfold summaryBlock
  extract_lets summary
  split_ifs with hnone
  · exact List.not_mem_nil
  · have hheading : Plain "## Conversation summary so far".toList := plain_of_all (by decide)
    intro h
    rcases List.mem_append.mp h with h | h
    · exact absurd h (by decide)
    · exact angle_not_mem_escapeHtml _ h

theorem angle_not_mem_ledger (entries : PyList LedgerEntry) :
    '<' ∉ renderDelegationLedger entries ledgerRenderCharBudget := by
  by_cases hnone : entries.items = []
  · rw [renderDelegationLedger, if_pos hnone]
    exact List.not_mem_nil
  · obtain ⟨shown, -, hrender⟩ := renderDelegationLedger_default entries hnone
    rw [hrender]
    exact angle_not_mem_joinLines fun line hline => (plain_shownLines _ _ line hline).1

theorem angle_not_mem_skillLine (entry : SkillEntry) : '<' ∉ skillLine entry := by
  have hrender : '<' ∉ entry.description.render := by
    unfold SkillDescription.render
    split <;> exact angle_not_mem_escapeHtml _
  have hdash : '<' ∉ "- ".toList := by decide
  have hcolon : '<' ∉ ": ".toList := by decide
  have harrow : '<' ∉ " -> ".toList := by decide
  unfold skillLine
  extract_lets description suffix
  have hsuffix : '<' ∉ suffix := by
    unfold suffix
    split_ifs
    · exact fun h => (List.mem_append.mp h).elim hcolon hrender
    · exact List.not_mem_nil
  simp only [List.mem_append, not_or]
  exact ⟨⟨⟨⟨hdash, angle_not_mem_escapeHtml _⟩, hsuffix⟩, harrow⟩, angle_not_mem_escapeHtml _⟩

theorem angle_not_mem_skills (entries : List SkillEntry) : '<' ∉ renderSkillContext entries := by
  unfold renderSkillContext
  split_ifs with hnone
  · exact List.not_mem_nil
  · apply angle_not_mem_joinLines
    intro line hline
    rcases List.mem_cons.mp hline with rfl | hline
    · exact (Plain.append (plain_of_all (by decide)) (plain_of_all (by decide))).1
    · obtain ⟨entry, -, rfl⟩ := List.mem_map.mp hline
      exact angle_not_mem_skillLine entry

def renderBlock (body : Text) : Text :=
  durableContextOpen ++ '\n' :: body ++ '\n' :: durableContextClose

/-- The tags of a block are read only at its ends. -/
theorem renderBlock_tags (hbody : '<' ∉ body) :
    (∀ p, durableContextOpen <+: (renderBlock body).drop p ↔ p = 0) ∧
    ∀ p, durableContextClose <+: (renderBlock body).drop p ↔
      p + durableContextClose.length = (renderBlock body).length := by
  have hfirst : '<' ∉ "durable_context_data>".toList := by decide
  have hlast : '<' ∉ "/durable_context_data>".toList := by decide
  have hinside : '<' ∉ '\n' :: body ++ ['\n'] := by
    simpa using hbody
  have hparts : renderBlock body = durableContextOpen ++ ('\n' :: body ++ ['\n']) ++
      durableContextClose := by simp [renderBlock]
  have hlength : (renderBlock body).length = durableContextOpen.length +
      ('\n' :: body ++ ['\n']).length + durableContextClose.length := by
    rw [hparts, List.length_append, List.length_append]
  have hpositions (word : Text) (p : Nat) (h : '<' :: word <+: (renderBlock body).drop p) :
      p = 0 ∨ p = durableContextOpen.length + ('\n' :: body ++ ['\n']).length := by
    rw [hparts] at h
    exact marked_positions hfirst hinside hlast h
  have hatend : (renderBlock body).drop
      (durableContextOpen.length + ('\n' :: body ++ ['\n']).length) = durableContextClose := by
    rw [hparts, ← List.length_append, List.drop_left]
  have hstart : durableContextOpen <+: renderBlock body := by
    rw [hparts, List.append_assoc]
    exact List.prefix_append _ _
  constructor
  · refine fun p => ⟨fun h => ?_, fun h => ?_⟩
    · rcases hpositions _ p h with hzero | hend
      · exact hzero
      · rw [hend, hatend] at h
        exact absurd h (by decide)
    · rw [h]
      exact hstart
  · refine fun p => ⟨fun h => ?_, fun h => ?_⟩
    · rcases hpositions _ p h with hzero | hend
      · rw [hzero, List.drop_zero] at h
        rcases List.prefix_or_prefix_of_prefix h hstart with h | h
        · exact absurd h (by decide)
        · exact absurd h (by decide)
      · omega
    · have hp : p = durableContextOpen.length + ('\n' :: body ++ ['\n']).length := by omega
      rw [hp]
      exact ⟨[], (List.append_nil _).trans hatend.symm⟩

/-- What is shown is a block, unless there is nothing to show. -/
theorem renderDurableContextData_eq (summaryText : Option Text) (ledger : PyList LedgerEntry)
    (skills : List SkillEntry) :
    if summaryText.getD [] = [] ∧ ledger.items = [] ∧ skills = [] then
      renderDurableContextData summaryText ledger skills = []
    else ∃ body, '<' ∉ body ∧
      renderDurableContextData summaryText ledger skills = renderBlock body := by
  have hsummary : summaryBlock summaryText = [] ↔ summaryText.getD [] = [] := by
    unfold summaryBlock
    extract_lets summary
    split_ifs with hnone
    · exact ⟨fun _ => hnone, fun _ => rfl⟩
    · refine ⟨fun h => ?_, fun h => absurd h hnone⟩
      exact absurd (List.append_eq_nil_iff.mp h).1 (by decide)
  have hledger : renderDelegationLedger ledger ledgerRenderCharBudget = [] ↔
      ledger.items = [] := by
    refine ⟨fun h => ?_, fun h => if_pos h⟩
    by_contra hsome
    obtain ⟨shown, -, hrender⟩ := renderDelegationLedger_default ledger hsome
    exact intercalate_cons_ne_nil (by decide) (hrender.symm.trans h)
  have hskills : renderSkillContext skills = [] ↔ skills = [] := by
    refine ⟨fun h => ?_, fun h => if_pos h⟩
    by_contra hsome
    rw [renderSkillContext, if_neg hsome] at h
    exact intercalate_cons_ne_nil (by decide) h
  unfold renderDurableContextData
  extract_lets dataParts
  have hparts : dataParts = [] ↔
      summaryText.getD [] = [] ∧ ledger.items = [] ∧ skills = [] := by
    rw [← hsummary, ← hledger, ← hskills]
    simp [dataParts]
  by_cases hnone : dataParts = []
  · rw [if_pos (hparts.mp hnone), if_pos hnone]
  · rw [if_neg (fun h => hnone (hparts.mpr h)), if_neg hnone]
    refine ⟨"\n\n".toList.intercalate dataParts, ?_, rfl⟩
    refine not_mem_intercalate (by decide) fun part hpart => ?_
    have hmem := List.mem_of_mem_filter hpart
    simp only [List.mem_cons, List.not_mem_nil, or_false] at hmem
    rcases hmem with rfl | rfl | rfl
    · exact angle_not_mem_summaryBlock summaryText
    · exact angle_not_mem_ledger ledger
    · exact angle_not_mem_skills skills

end Block

/-- The ledger keeps any budget that has room for the cut's mark. In its own budget it shows the
newest entries and counts the rest. What there is to show is one block, whatever is in it. -/
theorem durableContext_bounded (summaryText : Option Text) (ledger : PyList LedgerEntry)
    (skills : List SkillEntry) :
    (∀ maxChars, 4 ≤ maxChars →
      (renderDelegationLedger ledger maxChars).length ≤ maxChars) ∧
    (if ledger.items = [] then renderDelegationLedger ledger ledgerRenderCharBudget = []
      else ∃ shown ≤ ledger.items.length,
        (renderDelegationLedger ledger ledgerRenderCharBudget).splitOn '\n' =
          shownLines ledger.items shown) ∧
    let out := renderDurableContextData summaryText ledger skills
    if summaryText.getD [] = [] ∧ ledger.items = [] ∧ skills = [] then out = []
    else (∀ p, durableContextOpen <+: out.drop p ↔ p = 0) ∧
      ∀ p, durableContextClose <+: out.drop p ↔ p + durableContextClose.length = out.length := by
  refine ⟨fun maxChars h => length_renderDelegationLedger_le ledger h, ?_, ?_⟩
  · split_ifs with hnone
    · exact if_pos hnone
    · obtain ⟨shown, hle, hrender⟩ := renderDelegationLedger_default ledger hnone
      refine ⟨shown, hle, ?_⟩
      rw [hrender]
      apply List.splitOn_intercalate
      · exact fun line hline => (plain_shownLines _ _ line hline).2
      · exact List.append_ne_nil_of_left_ne_nil (List.cons_ne_nil _ _) _
  · intro out
    have hout := renderDurableContextData_eq summaryText ledger skills
    split_ifs with hnone
    · rw [if_pos hnone] at hout
      exact hout
    · rw [if_neg hnone] at hout
      obtain ⟨body, hbody, hblock⟩ := hout
      have hsame : out = renderBlock body := hblock
      rw [hsame]
      exact renderBlock_tags hbody

/-- Where there is nothing to show there is no block. -/
theorem emptyContext_has_no_tags :
    renderDurableContextData none ⟨[], by decide⟩ [] = [] ∧
      ¬ durableContextOpen <:+: renderDurableContextData none ⟨[], by decide⟩ [] := by
  have hempty : renderDurableContextData none ⟨[], by decide⟩ [] = [] := by decide
  refine ⟨hempty, ?_⟩
  rw [hempty]
  decide

end DeerFlow.Middlewares
