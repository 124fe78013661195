import DeerFlow.Lib.Overlap
import DeerFlow.Runtime.Value
import DeerFlow.Sandbox.LocalSandbox

/-! Masking the injected secrets in the output of a command. The values are replaced one after
another, so a value that can be laid over the marker may come back with a later replacement. -/

namespace DeerFlow.Sandbox
open Scan

def secretRedaction : Text := "[redacted]".toList

def minMaskLength : Nat := 8

def maskedValues (injectedEnv : Dict Text) : List Text :=
  sortedReverse List.length
    (injectedEnv.values.filter fun v => v ≠ [] ∧ minMaskLength ≤ v.length)

def maskSecretValues (output : Text) (injectedEnv : Option (Dict Text)) : Text :=
  match injectedEnv with
  | none => output
  | some env =>
    if env = [] ∨ output = [] then output
    else (maskedValues env).foldl (fun output value => replaceAll value secretRedaction output)
      output

/-- None of the values is in the masked text, nor is what they covered before. -/
structure Masked (values : List Text) (output masked : Text) : Prop where
  absent : ∀ v ∈ values, ¬ v <:+: masked
  covered : ∀ i j, Stretch values output i j → ¬ slice output i j <:+: masked

theorem masked_iff {values : List Text} {output masked : Text} :
    Masked values output masked ↔ ∀ v ∈ values, ¬ v <:+: masked := by
  refine ⟨Masked.absent, fun h => ⟨h, fun i j hstretch hin => ?_⟩⟩
  obtain ⟨v, hv, hocc⟩ := hstretch.occurrence
  exact h v hv (hocc.trans hin)

section Values
variable {env : Dict Text} {v : Text}

theorem mem_maskedValues : v ∈ maskedValues env ↔ v ∈ env.values ∧ minMaskLength ≤ v.length := by
  have hlong : minMaskLength ≤ v.length → v ≠ [] := by
    rintro h rfl
    cases h
  rw [maskedValues, sortedReverse, List.mem_insertionSort, List.mem_filter, decide_eq_true_eq]
  exact and_congr_right fun _ => and_iff_right_of_imp hlong

theorem ne_nil_of_mem (h : v ∈ maskedValues env) : v ≠ [] := by
  have hlong := (mem_maskedValues.mp h).2
  rintro rfl
  cases hlong

end Values

section Replacing
variable {u : Text} {values : List Text} {text : Text}

theorem replaceAll_eq_mark {old : Text} (hold : old ≠ []) (new text : Text) :
    replaceAll old new text = mark old new text := by
  rw [replaceAll, if_neg hold, mark]
  refine congrArg (List.flatMap · _) (funext fun p => ?_)
  cases p <;> rfl

def maskAll (values : List Text) (text : Text) : Text :=
  values.foldl (fun output value => replaceAll value secretRedaction output) text

theorem maskAll_cons (v : Text) (values : List Text) (text : Text) :
    maskAll (v :: values) text = maskAll values (replaceAll v secretRedaction text) := rfl

theorem absent_maskAll (hne : ∀ v ∈ values, v ≠ []) (hu : u ≠ [])
    (hclear : ¬ Overlaps u secretRedaction) (h : ¬ u <:+: text) : ¬ u <:+: maskAll values text := by
  induction values generalizing text with
  | nil => exact h
  | cons v values ih =>
    have hv := hne v List.mem_cons_self
    rw [maskAll_cons, replaceAll_eq_mark hv]
    refine ih (fun w hw => hne w (List.mem_cons_of_mem v hw)) fun hin => ?_
    exact h (infix_of_mark hu hclear hin)

theorem masked_of_clear (hne : ∀ v ∈ values, v ≠ []) (hu : u ∈ values)
    (hclear : ¬ Overlaps u secretRedaction) : ¬ u <:+: maskAll values text := by
  induction values generalizing text with
  | nil => cases hu
  | cons v values ih =>
    have hv := hne v List.mem_cons_self
    have hrest : ∀ w ∈ values, w ≠ [] := fun w hw => hne w (List.mem_cons_of_mem v hw)
    rw [maskAll_cons]
    rcases List.mem_cons.mp hu with rfl | hu
    · refine absent_maskAll hrest hv hclear ?_
      rw [replaceAll_eq_mark hv]
      exact absent_from_mark hv hclear
    · exact ih hrest hu

theorem maskAll_eq_self (hne : ∀ v ∈ values, v ≠ []) (h : ∀ v ∈ values, ¬ v <:+: text) :
    maskAll values text = text := by
  induction values with
  | nil => rfl
  | cons v values ih =>
    have hv := hne v List.mem_cons_self
    rw [maskAll_cons, replaceAll_eq_mark hv, mark_of_absent (h v List.mem_cons_self)]
    exact ih (fun w hw => hne w (List.mem_cons_of_mem v hw))
      fun w hw => h w (List.mem_cons_of_mem v hw)

/-- The marker stays, and it comes as soon as one of the values occurs. -/
theorem redaction_maskAll (hne : ∀ v ∈ values, v ≠ [])
    (h : secretRedaction <:+: text ∨ ∃ v ∈ values, v <:+: text) :
    secretRedaction <:+: maskAll values text := by
  induction values generalizing text with
  | nil => exact h.resolve_right fun ⟨_, hv, _⟩ => by cases hv
  | cons v values ih =>
    have hv := hne v List.mem_cons_self
    rw [maskAll_cons, replaceAll_eq_mark hv]
    refine ih (fun w hw => hne w (List.mem_cons_of_mem v hw)) ?_
    by_cases hin : v <:+: text
    · exact .inl (marker_occurs hv hin)
    · rw [mark_of_absent hin]
      refine h.imp id fun ⟨w, hw, hocc⟩ => ⟨w, ?_, hocc⟩
      rcases List.mem_cons.mp hw with rfl | hw
      · exact absurd hocc hin
      · exact hw

end Replacing

/-- A value that can be laid over the marker contains one that cannot. -/
def Guarded (values : List Text) : Prop :=
  ∀ v ∈ values, Overlaps v secretRedaction →
    ∃ u ∈ values, u <:+: v ∧ ¬ Overlaps u secretRedaction

section Masking
variable {injectedEnv : Option (Dict Text)} {output : Text}

def secrets (injectedEnv : Option (Dict Text)) : List Text := maskedValues (injectedEnv.getD [])

theorem ne_nil_of_secret {v : Text} (h : v ∈ secrets injectedEnv) : v ≠ [] := ne_nil_of_mem h

theorem maskSecretValues_eq (injectedEnv : Option (Dict Text)) (output : Text) :
    maskSecretValues output injectedEnv = maskAll (secrets injectedEnv) output := by
  cases injectedEnv with
  | none => rfl
  | some env =>
    rw [maskSecretValues]
    split
    · next hempty =>
      refine (maskAll_eq_self (fun v => ne_nil_of_mem) fun v hv hin => ?_).symm
      rcases hempty with rfl | rfl
      · cases (mem_maskedValues.mp hv).1
      · exact ne_nil_of_mem hv (List.infix_nil.mp hin)
    · rfl

theorem masked_of_guarded (h : Guarded (secrets injectedEnv)) :
    Masked (secrets injectedEnv) output (maskSecretValues output injectedEnv) := by
  rw [masked_iff, maskSecretValues_eq]
  intro v hv
  by_cases hover : Overlaps v secretRedaction
  · obtain ⟨u, hu, hin, hclear⟩ := h v hv hover
    exact fun hout => masked_of_clear (fun w => ne_nil_of_secret) hu hclear (hin.trans hout)
  · exact masked_of_clear (fun w => ne_nil_of_secret) hv hover

theorem masked_of_absent (h : ∀ v ∈ secrets injectedEnv, ¬ v <:+: output) :
    Masked (secrets injectedEnv) output (maskSecretValues output injectedEnv) := by
  rw [masked_iff, maskSecretValues_eq, maskAll_eq_self (fun v => ne_nil_of_secret) h]
  exact h

/-- A value that is part of the marker is given away by every replacement. -/
theorem absent_of_masked (hinside : ∃ v ∈ secrets injectedEnv, v <:+: secretRedaction)
    (h : Masked (secrets injectedEnv) output (maskSecretValues output injectedEnv)) :
    ∀ v ∈ secrets injectedEnv, ¬ v <:+: output := by
  intro v hv hin
  obtain ⟨u, hu, hmarker⟩ := hinside
  refine h.absent u hu (hmarker.trans ?_)
  rw [maskSecretValues_eq]
  exact redaction_maskAll (fun w => ne_nil_of_secret) (.inr ⟨v, hv, hin⟩)

/-- The output is masked if every secret that can be laid over the marker contains one that cannot,
or if no secret is in it; where a secret is part of the marker, only then. -/
theorem secrets_masked (injectedEnv : Option (Dict Text)) (output : Text) :
    (Guarded (secrets injectedEnv) ∨ (∀ v ∈ secrets injectedEnv, ¬ v <:+: output) →
      Masked (secrets injectedEnv) output (maskSecretValues output injectedEnv)) ∧
    ((∃ v ∈ secrets injectedEnv, v <:+: secretRedaction) →
      (Masked (secrets injectedEnv) output (maskSecretValues output injectedEnv) ↔
        ∀ v ∈ secrets injectedEnv, ¬ v <:+: output)) := by
  refine ⟨fun h => h.elim masked_of_guarded masked_of_absent, fun hinside => ?_⟩
  exact ⟨absent_of_masked hinside, masked_of_absent⟩

end Masking

/-- The value ends up behind the bracket of the marker that replaced it. -/
theorem bracket_brings_secret_back :
    ∃ (injectedEnv : Option (Dict Text)) (output : Text),
      ¬ Masked (secrets injectedEnv) output (maskSecretValues output injectedEnv) := by
  refine ⟨some [("TOKEN", "]abcdefg".toList)], "]abcdefgabcdefg".toList, fun h => ?_⟩
  refine h.absent "]abcdefg".toList (by decide) ?_
  exact ⟨"[redacted".toList, [], by decide⟩

end DeerFlow.Sandbox
