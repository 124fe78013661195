import DeerFlow.Lib.Shortening

/-! The outputs of the sandbox tools are cut to a number of characters. The error of a
failed write has a second budget inside the first: what its header leaves. -/

namespace DeerFlow.Sandbox

def bashMarker (skipped : Nat) : Text :=
  "\n... [middle truncated: ".toList ++ Nat.toDigits 10 skipped ++ " chars skipped] ...\n".toList

def writeFileErrorMarker (skipped : Nat) : Text :=
  "\n... [write_file error truncated: ".toList ++ Nat.toDigits 10 skipped ++
    " chars skipped] ...\n".toList

def readFileMarker (kept total : Nat) : Text :=
  "\n... [truncated: showing first ".toList ++ Nat.toDigits 10 kept ++ " of ".toList ++
    Nat.toDigits 10 total ++
    " chars. Use start_line/end_line to read a specific range] ...".toList

def lsMarker (kept total : Nat) : Text :=
  "\n... [truncated: showing first ".toList ++ Nat.toDigits 10 kept ++ " of ".toList ++
    Nat.toDigits 10 total ++
    " chars. Use a more specific path to see fewer results] ...".toList

def truncateBashOutput (output : Text) (maxChars : Nat) : Text :=
  shortenMiddle bashMarker output maxChars

def truncateReadFileOutput (output : Text) (maxChars : Nat) : Text :=
  shortenTail readFileMarker output maxChars

def truncateLsOutput (output : Text) (maxChars : Nat) : Text :=
  shortenTail lsMarker output maxChars

def truncateWriteFileErrorDetail (detail : Text) (maxChars : Nat) : Text :=
  shortenMiddle writeFileErrorMarker detail maxChars

/-- `detail` is the sanitized text of the error. -/
def formatWriteFileError (requestedPath detail : Text) (maxChars : Nat) : Text :=
  let header := "Error: Failed to write file '".toList ++ requestedPath ++ "'".toList
  if maxChars = 0 then header ++ ": ".toList ++ detail
  else
    let detailBudget : Int := maxChars - header.length - 2
    if detailBudget ≤ 0 then
      truncateWriteFileErrorDetail (header ++ ": ".toList ++ detail) maxChars
    else header ++ ": ".toList ++ truncateWriteFileErrorDetail detail detailBudget.toNat

section Markers
variable {m n : Nat}

theorem length_bashMarker_mono (h : m ≤ n) : (bashMarker m).length ≤ (bashMarker n).length := by
  have hdigits := length_toDigits_mono h
  unfold bashMarker
  rw [List.length_append, List.length_append, List.length_append, List.length_append]
  exact Nat.add_le_add_right (Nat.add_le_add_left hdigits _) _

theorem length_writeFileErrorMarker_mono (h : m ≤ n) :
    (writeFileErrorMarker m).length ≤ (writeFileErrorMarker n).length := by
  have hdigits := length_toDigits_mono h
  unfold writeFileErrorMarker
  rw [List.length_append, List.length_append, List.length_append, List.length_append]
  exact Nat.add_le_add_right (Nat.add_le_add_left hdigits _) _

theorem length_readFileMarker_mono (h : m ≤ n) :
    (readFileMarker m n).length ≤ (readFileMarker n n).length := by
  have hdigits := length_toDigits_mono h
  unfold readFileMarker
  repeat rw [List.length_append]
  refine Nat.add_le_add_right (Nat.add_le_add_right (Nat.add_le_add_right ?_ _) _) _
  exact Nat.add_le_add_left hdigits _

theorem length_lsMarker_mono (h : m ≤ n) : (lsMarker m n).length ≤ (lsMarker n n).length := by
  have hdigits := length_toDigits_mono h
  unfold lsMarker
  repeat rw [List.length_append]
  refine Nat.add_le_add_right (Nat.add_le_add_right (Nat.add_le_add_right ?_ _) _) _
  exact Nat.add_le_add_left hdigits _

end Markers

section Bounds
variable {maxChars : Nat}

theorem truncateWriteFileErrorDetail_shortened (hmax : 1 ≤ maxChars) (detail : Text) :
    Shortened (SkipsMiddle writeFileErrorMarker) detail maxChars
      (truncateWriteFileErrorDetail detail maxChars) :=
  shortenMiddle_shortened (fun _ _ => length_writeFileErrorMarker_mono) hmax detail

/-- The detail is never left whole because its own budget is zero. -/
theorem length_formatWriteFileError_le (hmax : 1 ≤ maxChars) (requestedPath detail : Text) :
    (formatWriteFileError requestedPath detail maxChars).length ≤ maxChars := by
  unfold formatWriteFileError
  extract_lets header detailBudget
  rw [if_neg (Nat.ne_of_gt hmax)]
  split
  · exact (truncateWriteFileErrorDetail_shortened hmax _).length_le
  · next hbudget =>
    have hroom : 1 ≤ detailBudget.toNat := by omega
    have hdetail := (truncateWriteFileErrorDetail_shortened hroom detail).length_le
    have hseparator : ": ".toList.length = 2 := rfl
    simp only [List.length_append, hseparator]
    omega

/-- Every cut stays within its number of characters and states its own numbers. -/
theorem sandbox_output_truncated (maxChars : Nat) (hmax : 1 ≤ maxChars) :
    (∀ output, Shortened (SkipsMiddle bashMarker) output maxChars
      (truncateBashOutput output maxChars)) ∧
    (∀ output, Shortened (ShowsFirst readFileMarker) output maxChars
      (truncateReadFileOutput output maxChars)) ∧
    (∀ output, Shortened (ShowsFirst lsMarker) output maxChars
      (truncateLsOutput output maxChars)) ∧
    (∀ detail, Shortened (SkipsMiddle writeFileErrorMarker) detail maxChars
      (truncateWriteFileErrorDetail detail maxChars)) ∧
    ∀ requestedPath detail,
      (formatWriteFileError requestedPath detail maxChars).length ≤ maxChars := by
  refine ⟨fun output => ?_, fun output => ?_, fun output => ?_, fun detail => ?_,
    length_formatWriteFileError_le hmax⟩
  · exact shortenMiddle_shortened (fun _ _ => length_bashMarker_mono) hmax output
  · exact shortenTail_shortened (fun _ _ => length_readFileMarker_mono) hmax output
  · exact shortenTail_shortened (fun _ _ => length_lsMarker_mono) hmax output
  · exact truncateWriteFileErrorDetail_shortened hmax detail

theorem sandbox_output_truncated_short :
    (formatWriteFileError "a".toList "denied".toList 5).length ≤ 5 :=
  (sandbox_output_truncated 5 (by decide)).2.2.2.2 "a".toList "denied".toList

end Bounds

end DeerFlow.Sandbox
