import DeerFlow.Middlewares.ToolOutputBudget

/-! What a shortened output keeps. A cut at the end of the head may only move
backwards and one at the start of the tail only forwards; the preview moves both
backwards, so its tail can outgrow its budget, and the inline truncation cannot. -/

namespace DeerFlow.Middlewares.ToolOutputBudget

section Newlines
variable {text : Text} {lo hi pos nl : Nat}

theorem rfindNewline_succ (text : Text) (lo hi : Nat) :
    rfindNewline text lo (hi + 1) =
      if lo ≤ hi ∧ text[hi]? = some '\n' then some hi else rfindNewline text lo hi := by
  rw [rfindNewline, List.range_succ, List.reverse_append, List.reverse_singleton]
  simp only [List.singleton_append, List.find?_cons, rfindNewline]
  split <;> rename_i h
  · rw [if_pos (by simpa using h)]
  · rw [if_neg (by simpa using h)]

theorem rfindNewline_spec (text : Text) (lo hi : Nat) :
    match rfindNewline text lo hi with
    | some nl => lo ≤ nl ∧ nl < hi ∧ text[nl]? = some '\n' ∧
        ∀ i, nl < i → i < hi → text[i]? ≠ some '\n'
    | none => ∀ i, lo ≤ i → i < hi → text[i]? ≠ some '\n' := by
  induction hi with
  | zero => simp [rfindNewline]
  | succ hi ih =>
    rw [rfindNewline_succ]
    by_cases hhere : lo ≤ hi ∧ text[hi]? = some '\n'
    · rw [if_pos hhere]
      exact ⟨hhere.1, Nat.lt_succ_self hi, hhere.2, fun i h h' => by omega⟩
    · rw [if_neg hhere]
      cases hfound : rfindNewline text lo hi with
      | none =>
        rw [hfound] at ih
        intro i hlo hi' hnl
        by_cases hlast : i = hi
        · exact hhere ⟨hlast ▸ hlo, hlast ▸ hnl⟩
        · exact ih i hlo (by omega) hnl
      | some nl =>
        rw [hfound] at ih
        obtain ⟨hlo, hhi, hnl, hlater⟩ := ih
        refine ⟨hlo, by omega, hnl, fun i hnext hi' hnl' => ?_⟩
        by_cases hlast : i = hi
        · exact hhere ⟨by omega, hlast ▸ hnl'⟩
        · exact hlater i hnext (by omega) hnl'

theorem findNewline_some (h : findNewline text lo hi = some nl) : lo ≤ nl ∧ nl < hi := by
  have hmem := List.mem_of_find?_eq_some h
  have hnl := List.find?_some h
  simp only [List.mem_range, Bool.and_eq_true, decide_eq_true_eq] at hmem hnl
  exact ⟨hnl.1, hmem⟩

theorem snapToLineBoundary_le (text : Text) (pos : Nat) : snapToLineBoundary text pos ≤ pos := by
  have hspec := rfindNewline_spec text (pos / 2) pos
  rw [snapToLineBoundary]
  split_ifs
  · exact Nat.le_refl pos
  · split <;> simp_all only <;> omega

theorem le_snapStartToLineBoundary (text : Text) (pos : Nat) :
    pos ≤ snapStartToLineBoundary text pos := by
  rw [snapStartToLineBoundary]
  split_ifs
  · exact Nat.le_refl pos
  · split
    · rename_i nl hfound
      have hbounds := findNewline_some hfound
      omega
    · exact Nat.le_refl pos

theorem lt_snapToLineBoundary_iff (hnl : text[pos]? = some '\n') :
    pos < snapToLineBoundary text hi ↔ pos < hi := by
  have hspec := rfindNewline_spec text (hi / 2) hi
  refine ⟨fun h => h.trans_le (snapToLineBoundary_le text hi), fun h => ?_⟩
  rw [snapToLineBoundary]
  split_ifs
  · exact h
  · split <;> rename_i hfound <;> rw [hfound] at hspec
    · obtain ⟨hlo, hhi, -, hlater⟩ := hspec
      by_contra hle
      exact hlater pos (by omega) h hnl
    · exact h

/-- A cut moves back, but not as far as `bound`, exactly where a line of the second half of
what it ends does so behind `bound`. -/
theorem snapToLineBoundary_between_iff {bound : Nat} (hpos : pos < text.length) :
    bound < snapToLineBoundary text pos ∧ snapToLineBoundary text pos < pos ↔
      text[pos - 1]? ≠ some '\n' ∧
        ∃ nl < pos, pos / 2 ≤ nl ∧ bound ≤ nl ∧ text[nl]? = some '\n' := by
  have hspec := rfindNewline_spec text (pos / 2) pos
  rw [snapToLineBoundary]
  by_cases hzero : pos = 0
  · simp [hzero]
  rw [if_neg (by omega)]
  cases hfound : rfindNewline text (pos / 2) pos with
  | none =>
    rw [hfound] at hspec
    refine ⟨fun h => absurd h.2 (Nat.lt_irrefl pos), fun ⟨_, nl, hlt, hhalf, _, hnl⟩ => ?_⟩
    exact absurd hnl (hspec nl hhalf hlt)
  | some nl =>
    rw [hfound] at hspec
    obtain ⟨hhalf, hlt, hnl, hlater⟩ := hspec
    show bound < nl + 1 ∧ nl + 1 < pos ↔ _
    constructor
    · intro h
      exact ⟨hlater _ (by omega) (by omega), nl, hlt, hhalf, by omega, hnl⟩
    · rintro ⟨hlast, earlier, hearlier, -, hbound, hnl'⟩
      have hbefore : nl ≠ pos - 1 := fun heq => hlast (heq ▸ hnl)
      have hle : earlier ≤ nl := not_lt.mp fun h => hlater earlier h hearlier hnl'
      omega

end Newlines

/-- A prefix and a suffix that do not overlap, each within its budget, and the number of
characters between them. -/
structure Cut.Within (c : Cut) (content : Text) (headChars tailChars : Nat) : Prop where
  head_prefix : c.head <+: content
  tail_suffix : c.tail <:+ content
  head_le : c.head.length ≤ headChars
  tail_le : c.tail.length ≤ tailChars
  disjoint : c.head.length + c.tail.length ≤ content.length
  omitted_eq : c.omitted = content.length - c.head.length - c.tail.length

instance (c : Cut) (content : Text) (headChars tailChars : Nat) :
    Decidable (c.Within content headChars tailChars) :=
  decidable_of_iff
    (c.head <+: content ∧ c.tail <:+ content ∧ c.head.length ≤ headChars ∧
      c.tail.length ≤ tailChars ∧ c.head.length + c.tail.length ≤ content.length ∧
      c.omitted = content.length - c.head.length - c.tail.length)
    ⟨fun ⟨h, t, hh, ht, hd, ho⟩ => ⟨h, t, hh, ht, hd, ho⟩,
      fun ⟨h, t, hh, ht, hd, ho⟩ => ⟨h, t, hh, ht, hd, ho⟩⟩

section Cuts
variable {content : Text} {headEnd tailStart headChars tailChars : Nat}

theorem Cut.length_tail_of (content : Text) (headEnd tailStart : Nat) :
    (Cut.of content headEnd tailStart).tail.length = content.length - tailStart := by
  rw [Cut.of]
  dsimp only
  split_ifs with h
  · exact List.length_drop
  · simp only [List.length_nil]
    omega

theorem Cut.of_within_iff (hhead : headEnd ≤ headChars) (hdisjoint : headEnd ≤ tailStart) :
    (Cut.of content headEnd tailStart).Within content headChars tailChars ↔
      content.length - tailStart ≤ tailChars := by
  have htail := Cut.length_tail_of content headEnd tailStart
  have hlength : (Cut.of content headEnd tailStart).head.length = min headEnd content.length :=
    List.length_take
  refine ⟨fun h => htail ▸ h.tail_le, fun h => ?_⟩
  refine ⟨List.take_prefix _ _, ?_, by omega, by omega, by omega, rfl⟩
  rw [Cut.of]
  dsimp only
  split_ifs
  · exact List.drop_suffix _ _
  · exact List.nil_suffix

end Cuts

section Preview
variable (content : Text) (toolName : String) (virtualPath : Text) (headChars tailChars : Nat)

/-- Where the tail of `tailChars` characters begins, the cut is not moved back over a whole
line of the preview: a line ends there, or the head covers every line that ends in the
second half of what comes before. -/
def TailCutKept : Prop :=
  let tailStart := content.length - tailChars
  tailChars = 0 ∨ (0 < tailStart ∧ content[tailStart - 1]? = some '\n') ∨
    ∀ i < tailStart, tailStart / 2 ≤ i → headChars ≤ i → content[i]? ≠ some '\n'

instance : Decidable (TailCutKept content headChars tailChars) :=
  inferInstanceAs (Decidable (_ ∨ _ ∨ _))

/-- The preview is its head, the reference and its tail, each within its budget. -/
def PreviewWithin : Prop :=
  (previewCut content headChars tailChars).Within content headChars tailChars ∧
    buildPreview content toolName virtualPath headChars tailChars =
      (previewCut content headChars tailChars).head ++
        previewReference toolName virtualPath content.length
          (previewCut content headChars tailChars).omitted ++
        (previewCut content headChars tailChars).tail

variable {content toolName virtualPath headChars tailChars}

theorem previewCut_within_iff :
    (previewCut content headChars tailChars).Within content headChars tailChars ↔
      TailCutKept content headChars tailChars := by
  unfold previewCut
  extract_lets headEnd tailStart snapped
  have hhead : headEnd ≤ min headChars content.length := snapToLineBoundary_le content _
  have hstart : tailStart = max headEnd (content.length - tailChars) := rfl
  have hsnapped : snapped = snapToLineBoundary content tailStart := rfl
  have hsnappedLe := snapToLineBoundary_le content tailStart
  have hcovered : ∀ i, content[i]? = some '\n' →
      (i < headEnd ↔ i < min headChars content.length) :=
    fun i hnl => lt_snapToLineBoundary_iff hnl
  clear_value headEnd tailStart snapped
  have hmoved : content.length - (if headEnd < snapped then snapped else tailStart) ≤ tailChars ↔
      ¬ (headEnd < snapped ∧ snapped < content.length - tailChars) := by
    split_ifs <;> omega
  rw [Cut.of_within_iff (by omega) (by split_ifs <;> omega), hmoved, TailCutKept]
  by_cases hover : content.length - tailChars ≤ headEnd
  · refine iff_of_true (by omega) (.inr (.inr fun i hi _ hpast => ?_))
    omega
  have hstart' : tailStart = content.length - tailChars := by omega
  by_cases htail : tailChars = 0
  · have hend : snapped = content.length := by
      rw [hsnapped, hstart', htail]
      simp [snapToLineBoundary]
    exact iff_of_true (by omega) (.inl htail)
  rw [← hstart', hsnapped, snapToLineBoundary_between_iff (by omega)]
  have hpast : ∀ i < tailStart, content[i]? = some '\n' → (headEnd ≤ i ↔ headChars ≤ i) := by
    intro i hi hnl
    have hlt := hcovered i hnl
    omega
  constructor
  · intro hkept
    by_cases hlast : content[tailStart - 1]? = some '\n'
    · exact .inr (.inl ⟨by omega, hlast⟩)
    · refine .inr (.inr fun i hi hhalf hi' hnl => hkept ⟨hlast, i, hi, hhalf, ?_, hnl⟩)
      exact (hpast i hi hnl).mpr hi'
  · rintro (hnone | ⟨-, hline⟩ | hkept) ⟨hlast, i, hi, hhalf, hi', hnl⟩
    · exact htail hnone
    · exact hlast hline
    · exact hkept i hi hhalf ((hpast i hi hnl).mp hi') hnl

/-- A preview is within its budget exactly where the cut before its tail is not moved back. -/
theorem previewWithin_iff_tailCutKept (content : Text) (toolName : String) (virtualPath : Text)
    (headChars tailChars : Nat) :
    PreviewWithin content toolName virtualPath headChars tailChars ↔
      TailCutKept content headChars tailChars := by
  rw [← previewCut_within_iff]
  exact and_iff_left rfl

/-- Two characters are asked for, and the last line of four is the tail. -/
theorem preview_outgrows_tailChars :
    ¬ PreviewWithin "abcd\nefgh".toList "bash" "/mnt/outputs/bash.txt".toList 1 2 := by
  rintro ⟨hwithin, -⟩
  have htail := hwithin.tail_le
  revert htail
  decide

end Preview

section Fallback
variable (content : Text) (toolName : String) (maxChars headChars tailChars : Nat)

theorem length_toString_mono {m n : Nat} (h : m ≤ n) :
    (toString m).length ≤ (toString n).length := by
  have hpos : 0 < (toString n).length := Nat.length_repr_pos
  have hn := (Nat.length_repr_le_iff hpos).mp (Nat.le_refl (toString n).length)
  exact (Nat.length_repr_le_iff hpos).mpr (h.trans_lt hn)

theorem length_fallbackMarker_mono {m n : Nat} (h : m ≤ n) :
    (fallbackMarker toolName m).length ≤ (fallbackMarker toolName n).length := by
  have hdigits := length_toString_mono h
  simp only [fallbackMarker, String.toList_append, List.length_append, String.length_toList]
  omega

theorem fallbackCut_within :
    let budget := maxChars - markerOverhead content toolName
    (fallbackCut content toolName maxChars headChars tailChars).Within content
      (min headChars budget) (min tailChars (budget - min headChars budget)) := by
  intro budget
  unfold fallbackCut
  extract_lets effectiveHead effectiveTail headEnd
  have hhead : headEnd ≤ min effectiveHead content.length := snapToLineBoundary_le content _
  have htail := le_snapStartToLineBoundary content
    (max headEnd (content.length - effectiveTail))
  clear_value headEnd
  rw [Cut.of_within_iff (by omega) (by omega)]
  show _ ≤ effectiveTail
  clear_value effectiveTail
  omega

variable {content maxChars}

theorem buildFallback_eq_cut (hmax : 0 < maxChars) (hlong : maxChars < content.length)
    (hroom : markerOverhead content toolName < maxChars) :
    buildFallback content toolName maxChars headChars tailChars =
      (fallbackCut content toolName maxChars headChars tailChars).head ++
        fallbackMarker toolName
          (fallbackCut content toolName maxChars headChars tailChars).omitted ++
        (fallbackCut content toolName maxChars headChars tailChars).tail := by
  rw [buildFallback, if_neg (by omega), if_neg (by omega)]

theorem buildFallback_eq_take (hmax : 0 < maxChars) (hlong : maxChars < content.length)
    (hroom : maxChars ≤ markerOverhead content toolName) :
    buildFallback content toolName maxChars headChars tailChars = content.take maxChars := by
  rw [buildFallback, if_neg (by omega), if_pos hroom]

theorem length_buildFallback_le (hmax : 0 < maxChars) :
    (buildFallback content toolName maxChars headChars tailChars).length ≤ maxChars := by
  by_cases hlong : content.length ≤ maxChars
  · rw [buildFallback, if_pos (.inr hlong)]
    exact hlong
  rw [not_le] at hlong
  by_cases hroom : maxChars ≤ markerOverhead content toolName
  · rw [buildFallback_eq_take _ _ _ hmax hlong hroom]
    exact List.length_take_le _ _
  · rw [buildFallback_eq_cut _ _ _ hmax hlong (by omega)]
    have hwithin := fallbackCut_within content toolName maxChars headChars tailChars
    have hhead := hwithin.head_le
    have htail := hwithin.tail_le
    have homitted := hwithin.omitted_eq
    -- the marker is reserved with the largest number that it can carry
    have hmarker : (fallbackMarker toolName
        (fallbackCut content toolName maxChars headChars tailChars).omitted).length ≤
          markerOverhead content toolName := length_fallbackMarker_mono toolName (by omega)
    simp only [List.length_append]
    omega

/-- Within its cap, a prefix or a cut that says what it leaves out. -/
def Truncated (content : Text) (toolName : String) (maxChars headChars tailChars : Nat)
    (text : Text) : Prop :=
  text.length ≤ maxChars ∧ (text <+: content ∨ ∃ cut : Cut,
    cut.Within content headChars tailChars ∧
    text = cut.head ++ fallbackMarker toolName cut.omitted ++ cut.tail)

theorem buildFallback_truncated (hmax : 0 < maxChars) (hlong : maxChars < content.length) :
    Truncated content toolName maxChars headChars tailChars
      (buildFallback content toolName maxChars headChars tailChars) := by
  refine ⟨length_buildFallback_le toolName headChars tailChars hmax, ?_⟩
  by_cases hroom : maxChars ≤ markerOverhead content toolName
  · rw [buildFallback_eq_take _ _ _ hmax hlong hroom]
    exact .inl (List.take_prefix _ _)
  · have hwithin := fallbackCut_within content toolName maxChars headChars tailChars
    refine .inr ⟨_, { hwithin with head_le := ?_, tail_le := ?_ },
      buildFallback_eq_cut _ _ _ hmax hlong (by omega)⟩
    · exact hwithin.head_le.trans (Nat.min_le_left _ _)
    · exact hwithin.tail_le.trans (Nat.min_le_left _ _)

end Fallback

section History
variable (config : ToolOutputConfig)

/-- A message without a name is exempt under either of the names that stand in for it. -/
def ToolMessage.Exempt (m : ToolMessage) : Prop :=
  m.nameOr "unknown" ∈ config.exemptTools ∨ m.nameOr "" ∈ config.exemptTools

instance (m : ToolMessage) : Decidable (m.Exempt config) :=
  inferInstanceAs (Decidable (_ ∨ _))

theorem budgetContent_unavailable (toolName : String) (content : Text) :
    budgetContent config .unavailable toolName content =
      if 0 < config.fallbackMaxChars ∧ config.fallbackMaxChars < content.length then
        some (buildFallback content toolName config.fallbackMaxChars
          config.fallbackHeadChars config.fallbackTailChars)
      else none := by
  have hsave : Storage.unavailable.save toolName content = none := rfl
  rw [budgetContent]
  simp only [hsave, ite_self]
  split_ifs <;> first | rfl | omega

theorem of_patchToolMessage_unavailable {m patched : ToolMessage}
    (hpatch : patchToolMessage config .unavailable m = some patched) :
    ∃ text, messageText m.content = some text ∧ 0 < config.fallbackMaxChars ∧
      config.fallbackMaxChars < text.length ∧
      messageText patched.content = some (buildFallback text (m.nameOr "unknown")
        config.fallbackMaxChars config.fallbackHeadChars config.fallbackTailChars) := by
  rw [patchToolMessage] at hpatch
  split_ifs at hpatch
  obtain ⟨text, htext, hbudget⟩ := Option.bind_eq_some_iff.mp hpatch
  obtain ⟨replacement, hreplacement, rfl⟩ := Option.map_eq_some_iff.mp hbudget
  rw [budgetContent_unavailable] at hreplacement
  split_ifs at hreplacement with hover
  cases hreplacement
  refine ⟨text, htext, hover.1, hover.2, ?_⟩
  simp only [messageText, String.toList_ofList]

/-- What stands in a message's place has a text within the cap. -/
theorem length_le_of_patchToolMessage {m patched : ToolMessage} {text : Text}
    (hpatch : patchToolMessage config .unavailable m = some patched)
    (htext : messageText patched.content = some text) :
    text.length ≤ config.fallbackMaxChars := by
  obtain ⟨content, -, hcap, -, hpatched⟩ := of_patchToolMessage_unavailable config hpatch
  cases htext.symm.trans hpatched
  exact length_buildFallback_le _ _ _ hcap

theorem length_le_of_patch_none {m : ToolMessage} {text : Text}
    (hpatch : patchToolMessage config .unavailable m = none)
    (hname : m.nameOr "unknown" ∉ config.exemptTools)
    (htext : messageText m.content = some text) (hcap : 0 < config.fallbackMaxChars) :
    text.length ≤ config.fallbackMaxChars := by
  rw [patchToolMessage] at hpatch
  rw [if_neg hname, htext, Option.bind_some, Option.map_eq_none_iff,
    budgetContent_unavailable] at hpatch
  split_ifs at hpatch with hover
  omega

theorem length_le_of_not_overBudget {m : ToolMessage} {text : Text}
    (hunder : toolMessageOverBudget config m = false)
    (hname : m.nameOr "" ∉ config.exemptTools)
    (htext : messageText m.content = some text) (hcap : 0 < config.fallbackMaxChars) :
    text.length ≤ config.fallbackMaxChars := by
  have hnot := mt (toolMessageOverBudget_iff config m).mpr (Bool.eq_false_iff.mp hunder)
  by_contra hlong
  exact hnot ⟨hname, text, htext, .inr ⟨hcap, not_le.mp hlong⟩⟩

theorem patch_getD_patch (m : Message) :
    ((m.patch config .unavailable).getD m).patch config .unavailable = none := by
  cases hpatch : m.patch config .unavailable with
  | none => exact hpatch
  | some patched =>
    cases m with
    | other content => cases hpatch
    | tool m =>
      obtain ⟨shorter, hshorter, rfl⟩ := Option.map_eq_some_iff.mp hpatch
      rw [Option.getD_some, Message.patch, Option.map_eq_none_iff]
      cases hagain : patchToolMessage config .unavailable shorter with
      | none => rfl
      | some again =>
        obtain ⟨text, htext, -, hlong, -⟩ := of_patchToolMessage_unavailable config hagain
        exact absurd hlong (not_lt.mpr (length_le_of_patchToolMessage config hshorter htext))

theorem patchModelMessages_eq (messages : List Message) :
    patchModelMessages config messages =
      if messages.any (Message.overBudget config) ∧
          messages.any (fun m => (m.patch config .unavailable).isSome) then
        some (messages.map fun m => (m.patch config .unavailable).getD m)
      else none := by
  rw [patchModelMessages, patchMessages_eq]
  simp only [List.map_map, List.any_map, Function.comp_def]
  split_ifs <;> simp_all

/-- After the call's messages are cut to the cap there is nothing left to cut. -/
theorem patchModelMessages_again (messages : List Message) :
    patchModelMessages config ((patchModelMessages config messages).getD messages) = none := by
  cases hpatched : patchModelMessages config messages with
  | none => exact hpatched
  | some patched =>
    rw [patchModelMessages_eq] at hpatched
    split_ifs at hpatched
    cases hpatched
    rw [Option.getD_some, patchModelMessages_eq]
    simp [Function.comp_def, patch_getD_patch]

variable {config} in
theorem length_le_of_mem_wrapModelCall {messages : List Message} {m : ToolMessage} {text : Text}
    (henabled : config.enabled = true) (hcap : 0 < config.fallbackMaxChars)
    (hm : .tool m ∈ wrapModelCall config messages) (hexempt : ¬ m.Exempt config)
    (htext : messageText m.content = some text) : text.length ≤ config.fallbackMaxChars := by
  obtain ⟨hunknown, hempty⟩ := not_or.mp hexempt
  rw [wrapModelCall, if_pos henabled, patchModelMessages_eq] at hm
  split_ifs at hm with hpatched
  · rw [Option.getD_some] at hm
    obtain ⟨original, -, hm⟩ := List.mem_map.mp hm
    cases original with
    | other content => cases hm
    | tool original =>
      cases hpatch : patchToolMessage config .unavailable original with
      | none =>
        simp only [Message.patch, hpatch, Option.map_none, Option.getD_none] at hm
        cases hm
        exact length_le_of_patch_none config hpatch hunknown htext hcap
      | some patched =>
        simp only [Message.patch, hpatch, Option.map_some, Option.getD_some] at hm
        cases hm
        exact length_le_of_patchToolMessage config hpatch htext
  · rw [Option.getD_none] at hm
    rw [not_and_or] at hpatched
    rcases hpatched with hunder | hsame
    · have hmessage := fun h => hunder (List.any_eq_true.mpr ⟨.tool m, hm, h⟩)
      exact length_le_of_not_overBudget config (Bool.eq_false_iff.mpr hmessage) hempty htext hcap
    · have hmessage := fun h => hsame (List.any_eq_true.mpr ⟨.tool m, hm, h⟩)
      have hnone : patchToolMessage config .unavailable m = none := by
        simpa [Message.patch] using hmessage
      exact length_le_of_patch_none config hnone hunknown htext hcap

/-- Inline truncation stays within its cap and says what it leaves out, no long output that
is not exempt reaches the model while the budget is enabled, and one pass is enough. -/
theorem inline_truncation_bounded :
    (∀ content toolName maxChars headChars tailChars,
      (maxChars = 0 ∨ content.length ≤ maxChars →
        buildFallback content toolName maxChars headChars tailChars = content) ∧
      (0 < maxChars → maxChars < content.length →
        Truncated content toolName maxChars headChars tailChars
          (buildFallback content toolName maxChars headChars tailChars))) ∧
    (∀ (config : ToolOutputConfig) (messages : List Message) (m : ToolMessage) (text : Text),
      config.enabled = true → 0 < config.fallbackMaxChars →
      .tool m ∈ wrapModelCall config messages → ¬ m.Exempt config →
      messageText m.content = some text → text.length ≤ config.fallbackMaxChars) ∧
    ∀ (config : ToolOutputConfig) (messages : List Message),
      patchModelMessages config ((patchModelMessages config messages).getD messages) = none := by
  refine ⟨fun content toolName maxChars headChars tailChars => ⟨fun h => if_pos h, ?_⟩,
    fun _ _ _ _ => length_le_of_mem_wrapModelCall, patchModelMessages_again⟩
  exact fun hmax hlong => buildFallback_truncated toolName headChars tailChars hmax hlong

namespace CutRun

/-- Two short lines around a long one. -/
def output : Text := "first line\n".toList ++ List.replicate 160 'x' ++ "\nlast line".toList

def kept : Text := "first line\n".toList ++ fallbackMarker "bash" 161 ++ "last line".toList

def budget : ToolOutputConfig := ⟨true, 0, 0, 0, 170, 16, 12, [], []⟩

def message (text : Text) : ToolMessage := ⟨.str (.ofList text), some "bash", "call", [], []⟩

theorem markerOverhead_output : markerOverhead output "bash" = 141 := by
  rw [markerOverhead, fallbackMarker]
  simp only [String.toList_append, List.length_append, String.length_toList]
  decide +kernel

theorem buildFallback_output : buildFallback output "bash" 170 16 12 = kept := by
  have hroom : markerOverhead output "bash" < 170 := by
    rw [markerOverhead_output]
    decide
  have hcut : fallbackCut output "bash" 170 16 12 = .of output 11 172 := by
    unfold fallbackCut
    rw [markerOverhead_output]
    exact congrArg₂ (Cut.of output) (show _ = 11 by decide +kernel) (show _ = 172 by decide +kernel)
  have hhead : (Cut.of output 11 172).head = "first line\n".toList := by decide +kernel
  have htail : (Cut.of output 11 172).tail = "last line".toList := by decide +kernel
  have homitted : (Cut.of output 11 172).omitted = 161 := by decide +kernel
  unfold kept
  rw [buildFallback_eq_cut _ _ _ (by decide) (by decide +kernel) hroom, hcut, hhead, htail, homitted]

theorem patchToolMessage_output :
    patchToolMessage budget .unavailable (message output) = some (message kept) := by
  have hbudget : budgetContent budget .unavailable "bash" output = some kept := by
    rw [budgetContent_unavailable, if_pos ⟨by decide, by decide +kernel⟩]
    exact congrArg some buildFallback_output
  have htext : messageText (message output).content = some output :=
    congrArg some String.toList_ofList
  have hname : (message output).nameOr "unknown" ∉ budget.exemptTools := List.not_mem_nil
  rw [patchToolMessage, if_neg hname, htext, Option.bind_some]
  exact congrArg (Option.map _) hbudget

end CutRun

/-- Head, marker and tail stand in the place of the output when the model is called. -/
theorem long_output_is_cut :
    (buildFallback CutRun.output "bash" 170 16 12 = CutRun.kept ∧
      Truncated CutRun.output "bash" 170 16 12
        (buildFallback CutRun.output "bash" 170 16 12)) ∧
    wrapModelCall CutRun.budget [.tool (CutRun.message CutRun.output)] =
      [.tool (CutRun.message CutRun.kept)] ∧ CutRun.kept.length ≤ 170 := by
  have hover : toolMessageOverBudget CutRun.budget (CutRun.message CutRun.output) = true :=
    (toolMessageOverBudget_iff _ _).mpr ⟨List.not_mem_nil, CutRun.output,
      congrArg some String.toList_ofList, .inr ⟨by decide, by decide +kernel⟩⟩
  have henabled : CutRun.budget.enabled = true := rfl
  have hcut : wrapModelCall CutRun.budget [.tool (CutRun.message CutRun.output)] =
      [.tool (CutRun.message CutRun.kept)] := by
    rw [wrapModelCall, if_pos henabled, patchModelMessages_eq]
    simp [Message.overBudget, Message.patch, hover, CutRun.patchToolMessage_output]
  refine ⟨⟨CutRun.buildFallback_output, ?_⟩, hcut, ?_⟩
  · exact (inline_truncation_bounded.1 CutRun.output "bash" 170 16 12).2 (by decide)
      (by decide +kernel)
  · exact inline_truncation_bounded.2.1 CutRun.budget _ (CutRun.message CutRun.kept) CutRun.kept
      henabled (by decide) (hcut ▸ List.mem_singleton_self _) (by decide)
      (congrArg some String.toList_ofList)

/-- Without the budget a long output reaches the model. -/
theorem disabled_budget_keeps_output :
    ¬ ∀ (config : ToolOutputConfig) (messages : List Message) (m : ToolMessage) (text : Text),
      0 < config.fallbackMaxChars → .tool m ∈ wrapModelCall config messages →
      ¬ m.Exempt config → messageText m.content = some text →
      text.length ≤ config.fallbackMaxChars := by
  intro h
  let config : ToolOutputConfig := ⟨false, 0, 0, 0, 1, 0, 0, [], []⟩
  let m : ToolMessage := ⟨.str "abc", some "bash", "call", [], []⟩
  have hlength := h config [.tool m] m "abc".toList (by decide) (by decide) (by decide) rfl
  revert hlength
  decide

end History

end DeerFlow.Middlewares.ToolOutputBudget
