import DeerFlow.Lib.Json

/-! Texts that are shortened with a note of what is left out. The room for the note is
reserved before its numbers are known, from larger ones, so the note must not grow when
its numbers become smaller. -/

namespace DeerFlow

theorem length_toDigits_mono {m n : Nat} (h : m ≤ n) :
    (Nat.toDigits 10 m).length ≤ (Nat.toDigits 10 n).length := by
  have hn := (Nat.length_toDigits_le_iff (b := 10) (n := n) (by decide)
    Nat.length_toDigits_pos).mp le_rfl
  exact (Nat.length_toDigits_le_iff (by decide) Nat.length_toDigits_pos).mpr (h.trans_lt hn)

section Shortening
variable {text out : Text} {maxChars : Nat}

/-- A prefix and a suffix around a note of how many characters are between them. -/
def SkipsMiddle (marker : Nat → Text) (text out : Text) : Prop :=
  ∃ head skipped tail, text = head ++ skipped ++ tail ∧
    out = head ++ marker skipped.length ++ tail

/-- A prefix and a note of its length and of the whole. -/
def ShowsFirst (marker : Nat → Nat → Text) (text out : Text) : Prop :=
  ∃ shown rest, text = shown ++ rest ∧ out = shown ++ marker shown.length text.length

/-- What fits is unchanged, and what does not is a prefix or is cut as stated. -/
structure Shortened (Cut : Text → Text → Prop) (text : Text) (maxChars : Nat) (out : Text) :
    Prop where
  length_le : out.length ≤ maxChars
  same : text.length ≤ maxChars → out = text
  cut : maxChars < text.length → out <+: text ∨ Cut text out

/-- The text but for its middle, which leaves room for the longest note. -/
def shortenMiddle (marker : Nat → Text) (text : Text) (maxChars : Nat) : Text :=
  if maxChars = 0 then text
  else if text.length ≤ maxChars then text
  else
    let total := text.length
    let markerMaxLen := (marker total).length
    let kept := maxChars - markerMaxLen
    if kept = 0 then text.take maxChars
    else
      let headLen := kept / 2
      let tailLen := kept - headLen
      let skipped := total - kept
      text.take headLen ++ marker skipped ++
        (if 0 < tailLen then text.drop (text.length - tailLen) else [])

def shortenTail (marker : Nat → Nat → Text) (text : Text) (maxChars : Nat) : Text :=
  if maxChars = 0 then text
  else if text.length ≤ maxChars then text
  else
    let total := text.length
    let markerMaxLen := (marker total total).length
    let kept := maxChars - markerMaxLen
    if kept = 0 then text.take maxChars
    else text.take kept ++ marker kept total

theorem take_shortened {Cut : Text → Text → Prop} (hlong : maxChars < text.length) :
    Shortened Cut text maxChars (text.take maxChars) where
  length_le := List.length_take_le _ _
  same h := absurd h (Nat.not_le.mpr hlong)
  cut _ := .inl (List.take_prefix _ _)

theorem self_shortened {Cut : Text → Text → Prop} (hfits : text.length ≤ maxChars) :
    Shortened Cut text maxChars text where
  length_le := hfits
  same _ := rfl
  cut h := absurd hfits (Nat.not_le.mpr h)

theorem shortenMiddle_shortened {marker : Nat → Text}
    (hmarker : ∀ m n, m ≤ n → (marker m).length ≤ (marker n).length) (hmax : 1 ≤ maxChars)
    (text : Text) :
    Shortened (SkipsMiddle marker) text maxChars (shortenMiddle marker text maxChars) := by
  unfold shortenMiddle
  rw [if_neg (Nat.ne_of_gt hmax)]
  by_cases hfits : text.length ≤ maxChars
  · rw [if_pos hfits]
    exact self_shortened hfits
  · have hlong := Nat.not_le.mp hfits
    rw [if_neg hfits]
    extract_lets total markerMaxLen kept headLen tailLen skipped
    split
    · exact take_shortened hlong
    · next hroom =>
      have hhead : headLen + tailLen = kept := Nat.add_sub_cancel' (Nat.div_le_self _ _)
      have htail : 0 < tailLen := by omega
      have hreserved : kept + markerMaxLen = maxChars := by omega
      have hnote : (marker skipped).length ≤ markerMaxLen := hmarker _ _ (Nat.sub_le _ _)
      have hstart : text.length - tailLen = headLen + skipped := by omega
      rw [if_pos htail]
      refine ⟨?_, fun h => absurd h hfits, fun _ => .inr ?_⟩
      · simp only [List.length_append, List.length_take, List.length_drop]
        omega
      · refine ⟨text.take headLen, (text.drop headLen).take skipped,
          text.drop (text.length - tailLen), ?_, ?_⟩
        · rw [hstart, ← List.drop_drop, List.append_assoc, List.take_append_drop,
            List.take_append_drop]
        · rw [List.length_take, List.length_drop, Nat.min_eq_left (by omega)]

theorem shortenTail_shortened {marker : Nat → Nat → Text}
    (hmarker : ∀ m n, m ≤ n → (marker m n).length ≤ (marker n n).length) (hmax : 1 ≤ maxChars)
    (text : Text) :
    Shortened (ShowsFirst marker) text maxChars (shortenTail marker text maxChars) := by
  unfold shortenTail
  rw [if_neg (Nat.ne_of_gt hmax)]
  by_cases hfits : text.length ≤ maxChars
  · rw [if_pos hfits]
    exact self_shortened hfits
  · have hlong := Nat.not_le.mp hfits
    rw [if_neg hfits]
    extract_lets total markerMaxLen kept
    split
    · exact take_shortened hlong
    · next hroom =>
      have hkept : kept ≤ text.length := by omega
      have hnote : (marker kept total).length ≤ markerMaxLen := hmarker _ _ hkept
      have hshown : (text.take kept).length = kept := by
        rw [List.length_take, Nat.min_eq_left hkept]
      refine ⟨?_, fun h => absurd h hfits, fun _ => .inr ?_⟩
      · rw [List.length_append, hshown]
        omega
      · refine ⟨text.take kept, text.drop kept, (List.take_append_drop kept text).symm, ?_⟩
        rw [hshown]

end Shortening

end DeerFlow
