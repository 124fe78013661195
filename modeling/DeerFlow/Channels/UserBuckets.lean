import DeerFlow.Sandbox.AioIsolation

/-! The user ids under which the files and the memory of external identities are stored. An identity
that has a character to replace is told from the others by a digest, and one that has none keeps
its name, which may be the name that another identity was given. -/

namespace DeerFlow.Channels
open Sandbox

section UserIds

/-- What `_UNSAFE_USER_ID_CHAR_RE` does not match. -/
def isUserIdChar (c : Char) : Bool := c.isAlphanum || c = '_' || c = '-'

inductive UserIdError where
  | empty
  | invalid (userId : Text)
  deriving DecidableEq

/-- `_validate_user_id`. -/
def validateUserId (userId : Text) : Except UserIdError Text :=
  if accepted userId then .ok userId else .error (.invalid userId)

def sanitized (raw : Text) : Text := raw.map fun c => if isUserIdChar c then c else '-'

/-- The first `_SAFE_USER_ID_DIGEST_HEX_LEN` digits of the SHA-256. -/
def userIdDigest (raw : Text) : Text := (hexdigest (Sha256.sha256 (encode raw))).take 16

def makeSafeUserId (raw : Text) : Except UserIdError Text :=
  if raw = [] then .error .empty
  else if sanitized raw = raw then .ok raw
  else .ok (sanitized raw ++ '-' :: userIdDigest raw)

/-- The name that is given to `raw`, of which a character is replaced, is `other` itself. -/
def NamedAs (raw other : Text) : Prop :=
  sanitized raw ≠ raw ∧ other = sanitized raw ++ '-' :: userIdDigest raw

/-- The two identities have user ids of their own, which `_validate_user_id` accepts. -/
structure KeptApart (raw₁ raw₂ : Text) : Prop where
  distinct : makeSafeUserId raw₁ ≠ makeSafeUserId raw₂
  valid : ∀ raw ∈ [raw₁, raw₂], ∃ userId, makeSafeUserId raw = .ok userId ∧
    validateUserId userId = .ok userId

end UserIds

section Characters
variable {raw other : Text}

theorem isUserIdChar_sanitized {c : Char} (hc : c ∈ sanitized raw) : isUserIdChar c = true := by
  obtain ⟨d, -, rfl⟩ := List.mem_map.mp hc
  split_ifs with hd
  · exact hd
  · decide

theorem isUserIdChar_digitChar (n : Nat) : isUserIdChar (Nat.digitChar (n % 16)) = true := by
  have hall : ∀ m < 16, isUserIdChar (Nat.digitChar m) = true := by decide
  exact hall _ (Nat.mod_lt _ (by decide))

theorem isUserIdChar_userIdDigest {c : Char} (hc : c ∈ userIdDigest raw) :
    isUserIdChar c = true := by
  have hmem := List.mem_of_mem_take hc
  obtain ⟨w, -, hw⟩ := List.mem_flatMap.mp hmem
  obtain ⟨i, -, rfl⟩ := List.mem_map.mp hw
  exact isUserIdChar_digitChar _

theorem length_userIdDigest (raw : Text) : (userIdDigest raw).length = 16 := rfl

theorem validateUserId_of_forall (hne : raw ≠ []) (h : ∀ c ∈ raw, isUserIdChar c = true) :
    validateUserId raw = .ok raw := by
  have hlast : raw.getLast? ≠ some '\n' := by
    intro hlast
    have hsafe := h _ (List.mem_of_getLast? hlast)
    exact absurd hsafe (by decide)
  have haccepted : accepted raw = true := by
    unfold accepted
    rw [if_neg hlast, Bool.and_eq_true, List.all_eq_true]
    exact ⟨by simp [hne], h⟩
  unfold validateUserId
  rw [if_pos haccepted]

theorem forall_of_sanitized_eq (h : sanitized raw = raw) : ∀ c ∈ raw, isUserIdChar c = true := by
  intro c hc
  rw [← h] at hc
  exact isUserIdChar_sanitized hc

theorem sanitized_of_forall (h : ∀ c ∈ raw, isUserIdChar c = true) : sanitized raw = raw := by
  unfold sanitized
  rw [List.map_congr_left fun c hc => if_pos (h c hc), List.map_id']

theorem forall_name (raw : Text) :
    ∀ c ∈ sanitized raw ++ '-' :: userIdDigest raw, isUserIdChar c = true := by
  rw [List.forall_mem_append, List.forall_mem_cons]
  exact ⟨fun c hc => isUserIdChar_sanitized hc, by decide,
    fun c hc => isUserIdChar_userIdDigest hc⟩

theorem exists_makeSafeUserId (hne : raw ≠ []) : ∃ userId, makeSafeUserId raw = .ok userId ∧
    validateUserId userId = .ok userId := by
  unfold makeSafeUserId
  rw [if_neg hne]
  by_cases hsafe : sanitized raw = raw
  · rw [if_pos hsafe]
    exact ⟨raw, rfl, validateUserId_of_forall hne (forall_of_sanitized_eq hsafe)⟩
  · rw [if_neg hsafe]
    exact ⟨_, rfl, validateUserId_of_forall (by simp) (forall_name raw)⟩

end Characters

section Apart
variable {raw₁ raw₂ : Text}

theorem makeSafeUserId_safe (hne : raw₁ ≠ []) (h : sanitized raw₁ = raw₁) :
    makeSafeUserId raw₁ = .ok raw₁ := by
  unfold makeSafeUserId
  rw [if_neg hne, if_pos h]

theorem makeSafeUserId_lossy (hne : raw₁ ≠ []) (h : sanitized raw₁ ≠ raw₁) :
    makeSafeUserId raw₁ = .ok (sanitized raw₁ ++ '-' :: userIdDigest raw₁) := by
  unfold makeSafeUserId
  rw [if_neg hne, if_neg h]

theorem userIdDigest_eq_of_names (h : sanitized raw₁ ++ '-' :: userIdDigest raw₁ =
    sanitized raw₂ ++ '-' :: userIdDigest raw₂) : userIdDigest raw₁ = userIdDigest raw₂ := by
  have hlength : ('-' :: userIdDigest raw₁).length = ('-' :: userIdDigest raw₂).length := by
    rw [List.length_cons, List.length_cons, length_userIdDigest, length_userIdDigest]
  exact (List.cons.inj (List.append_inj' h hlength).2).2

theorem NamedAs.makeSafeUserId_eq (hne : raw₁ ≠ []) (h : NamedAs raw₁ raw₂) :
    makeSafeUserId raw₁ = makeSafeUserId raw₂ := by
  obtain ⟨hlossy, rfl⟩ := h
  have hsafe := sanitized_of_forall (forall_name raw₁)
  rw [makeSafeUserId_lossy hne hlossy, makeSafeUserId_safe (by simp) hsafe]

theorem namedAs_of_makeSafeUserId_eq (hne₁ : raw₁ ≠ []) (hne₂ : raw₂ ≠ []) (hne : raw₁ ≠ raw₂)
    (hdigest : userIdDigest raw₁ = userIdDigest raw₂ → raw₁ = raw₂)
    (h : makeSafeUserId raw₁ = makeSafeUserId raw₂) : NamedAs raw₁ raw₂ ∨ NamedAs raw₂ raw₁ := by
  by_cases h₁ : sanitized raw₁ = raw₁
  · rw [makeSafeUserId_safe hne₁ h₁] at h
    by_cases h₂ : sanitized raw₂ = raw₂
    · rw [makeSafeUserId_safe hne₂ h₂] at h
      exact absurd (Except.ok.inj h) hne
    · rw [makeSafeUserId_lossy hne₂ h₂] at h
      exact .inr ⟨h₂, Except.ok.inj h⟩
  · rw [makeSafeUserId_lossy hne₁ h₁] at h
    by_cases h₂ : sanitized raw₂ = raw₂
    · rw [makeSafeUserId_safe hne₂ h₂] at h
      exact .inl ⟨h₁, (Except.ok.inj h).symm⟩
    · rw [makeSafeUserId_lossy hne₂ h₂] at h
      exact absurd (hdigest (userIdDigest_eq_of_names (Except.ok.inj h))) hne

/-- Two identities are kept apart unless one of them is the name that the other is given. -/
theorem keptApart_iff (hne₁ : raw₁ ≠ []) (hne₂ : raw₂ ≠ []) (hne : raw₁ ≠ raw₂)
    (hdigest : userIdDigest raw₁ = userIdDigest raw₂ → raw₁ = raw₂) :
    KeptApart raw₁ raw₂ ↔ ¬NamedAs raw₁ raw₂ ∧ ¬NamedAs raw₂ raw₁ := by
  constructor
  · intro h
    exact ⟨fun hnamed => h.distinct (hnamed.makeSafeUserId_eq hne₁),
      fun hnamed => h.distinct (hnamed.makeSafeUserId_eq hne₂).symm⟩
  · rintro ⟨hleft, hright⟩
    refine ⟨fun h => ?_, ?_⟩
    · rcases namedAs_of_makeSafeUserId_eq hne₁ hne₂ hne hdigest h with hnamed | hnamed
      · exact hleft hnamed
      · exact hright hnamed
    · rw [List.forall_mem_cons, List.forall_mem_singleton]
      exact ⟨exists_makeSafeUserId hne₁, exists_makeSafeUserId hne₂⟩

theorem keptApart_channel_ids : "a:b".toList ≠ [] ∧ "a.b".toList ≠ [] ∧
    (KeptApart "a:b".toList "a.b".toList ↔
      ¬NamedAs "a:b".toList "a.b".toList ∧ ¬NamedAs "a.b".toList "a:b".toList) := by
  have hdigest : userIdDigest "a:b".toList ≠ userIdDigest "a.b".toList := by decide +kernel
  exact ⟨by decide, by decide, keptApart_iff (by decide) (by decide) (by decide)
    fun h => absurd h hdigest⟩

/-- The safe identity is the name of the other one. -/
theorem colliding_ids : "a:b".toList ≠ "a-b-6783a31eabf68ccc".toList ∧
    userIdDigest "a:b".toList ≠ userIdDigest "a-b-6783a31eabf68ccc".toList ∧
    ¬KeptApart "a:b".toList "a-b-6783a31eabf68ccc".toList := by
  have hsame : makeSafeUserId "a:b".toList = makeSafeUserId "a-b-6783a31eabf68ccc".toList := by
    decide +kernel
  exact ⟨by decide, by decide +kernel, fun h => h.distinct hsame⟩

end Apart

end DeerFlow.Channels
