import DeerFlow.Lib.Except
import DeerFlow.Lib.Words
import DeerFlow.Runtime.AuthorizationContext
import DeerFlow.Sandbox.AioIsolation

/-! An authorization context survives its encoding: it is read back from its dictionary, from any
spelling of it, and its hash tells it from every other one. -/

namespace DeerFlow
open Sandbox (encode hexdigest hexWord hexWord_injective)

section Canonical

/-- `\u` and four hexadecimal digits. -/
def unicodeEscape (n : Nat) : Text :=
  '\\' :: 'u' :: [3, 2, 1, 0].map fun i => Nat.digitChar (n / 16 ^ i % 16)

/-- What `ensure_ascii` makes of a character; those beyond the first plane are two surrogates. -/
def asciiEscape (c : Char) : Text :=
  match escapes.find? fun e => e.2 = c with
  | some e => ['\\', e.1]
  | none =>
    if 32 ≤ c.toNat ∧ c.toNat < 127 then [c]
    else if c.toNat < 0x10000 then unicodeEscape c.toNat
    else unicodeEscape (0xd800 + (c.toNat - 0x10000) / 0x400) ++
      unicodeEscape (0xdc00 + (c.toNat - 0x10000) % 0x400)

def asciiQuote (s : String) : Text := '"' :: s.toList.flatMap asciiEscape ++ ['"']

mutual

/-- `json.dumps` with `ensure_ascii` and without spaces; `str` renders the floats. -/
@[grind =]
def compactJson (str : Value → String) : Value → Text
  | .none => "null".toList
  | .bool b => if b then "true".toList else "false".toList
  | .int n => intText n
  | .float q => (str (.float q)).toList
  | .str s => asciiQuote s
  | .list [] => "[]".toList
  | .list (x :: xs) => '[' :: compactJson str x ++ compactTail str xs ++ [']']
  | .dict [] => "\x7b\x7d".toList
  | .dict ((k, v) :: items) =>
    '\x7b' :: asciiQuote k ++ ':' :: compactJson str v ++ compactItems str items ++ ['\x7d']

def compactTail (str : Value → String) : List Value → Text
  | [] => []
  | x :: xs => ',' :: compactJson str x ++ compactTail str xs

def compactItems (str : Value → String) : List (String × Value) → Text
  | [] => []
  | (k, v) :: items => ',' :: asciiQuote k ++ ':' :: compactJson str v ++ compactItems str items

end

/-- `sort_keys` puts the items of the payload in the order of their keys. -/
def canonicalJson (str : Value → String) (payload : Dict Value) : Text :=
  compactJson str (.dict (payload.insertionSort fun x y => x.1 ≤ y.1))

/-- `str` of a string is the string. -/
structure PyStr where
  str : Value → String
  str_str : ∀ s, str (.str s) = s

/-- The digest is the SHA-256 of the canonical JSON. -/
def PyStr.rendering (S : PyStr) : Rendering where
  str := S.str
  digest payload := String.ofList (hexdigest (Sha256.sha256 (encode (canonicalJson S.str payload))))

end Canonical

section Reading
variable {R : Rendering} {v : Dict Value} {c : AuthorizationContext}

def fieldOf (v : Dict Value) (k : String) : Value := (v.get k).getD .none

/-- The rules between the mode of a scope and its resources. -/
def Consistent (c : AuthorizationContext) : Prop :=
  ¬(c.scopeMode = .resourceSet ∧ c.allowedSiteIds = [] ∧ c.allowedProjectIds = []) ∧
  ¬(c.scopeMode = .scopeRef ∧ c.scopeRef = none) ∧
  ¬((c.scopeMode = .tenantAll ∨ c.scopeMode = .none) ∧
    (c.allowedSiteIds ≠ [] ∨ c.allowedProjectIds ≠ [] ∨ c.scopeRef ≠ none))

/-- Each field is read from its key. -/
structure FieldsRead (R : Rendering) (v : Dict Value) (c : AuthorizationContext) : Prop where
  principalId : R.requiredId (fieldOf v "principal_id") "principal_id" = .ok c.principalId
  tenantId : R.requiredId (fieldOf v "tenant_id") "tenant_id" = .ok c.tenantId
  tenantCode : R.requiredId (fieldOf v "tenant_code") "tenant_code" = .ok c.tenantCode
  systemCode : R.requiredId (fieldOf v "system_code") "system_code" = .ok c.systemCode
  roleCodes : R.idTuple (fieldOf v "role_codes") "role_codes" = .ok c.roleCodes
  scopeMode : ScopeMode.ofText (R.textOf (fieldOf v "scope_mode")) = some c.scopeMode
  allowedSiteIds : R.idTuple (fieldOf v "allowed_site_ids") "allowed_site_ids" =
    .ok c.allowedSiteIds
  allowedProjectIds : R.idTuple (fieldOf v "allowed_project_ids") "allowed_project_ids" =
    .ok c.allowedProjectIds
  scopeRef : R.optionalId (fieldOf v "scope_ref") "scope_ref" = .ok c.scopeRef
  permissionVersion : R.requiredId (fieldOf v "permission_version") "permission_version" =
    .ok c.permissionVersion
  consistent : Consistent c
  scopeHash : c.scopeHash = R.computeScopeHash c
  supplied : R.textOf (fieldOf v "scope_hash") = "" ∨
    R.textOf (fieldOf v "scope_hash") = c.scopeHash

/-- What is done with the fields when all of them have been read. -/
def Rendering.checkContext (R : Rendering) (v : Dict Value) (c : AuthorizationContext) :
    Except AuthorizationContextError AuthorizationContext :=
  if c.scopeMode = .resourceSet ∧ c.allowedSiteIds = [] ∧ c.allowedProjectIds = [] then
    .error ⟨"resource_set scope must contain at least one resource"⟩
  else if c.scopeMode = .scopeRef ∧ c.scopeRef = none then
    .error ⟨"scope_ref mode requires scope_ref"⟩
  else if (c.scopeMode = .tenantAll ∨ c.scopeMode = .none) ∧
      (c.allowedSiteIds ≠ [] ∨ c.allowedProjectIds ≠ [] ∨ c.scopeRef ≠ none) then
    .error ⟨c.scopeMode.text ++ " scope cannot carry resources"⟩
  else if R.textOf (fieldOf v "scope_hash") ≠ "" ∧
      R.textOf (fieldOf v "scope_hash") ≠ R.computeScopeHash c then
    .error ⟨"scope_hash does not match authorization context"⟩
  else .ok { c with scopeHash := R.computeScopeHash c }

theorem checkContext_eq_ok {d : AuthorizationContext} : R.checkContext v d = .ok c ↔
    Consistent d ∧ (R.textOf (fieldOf v "scope_hash") = "" ∨
      R.textOf (fieldOf v "scope_hash") = R.computeScopeHash d) ∧
    { d with scopeHash := R.computeScopeHash d } = c := by
  unfold Rendering.checkContext Consistent
  split_ifs with h1 h2 h3 h4
  · exact ⟨nofun, fun h => absurd h1 h.1.1⟩
  · exact ⟨nofun, fun h => absurd h2 h.1.2.1⟩
  · exact ⟨nofun, fun h => absurd h3 h.1.2.2⟩
  · refine ⟨nofun, fun h => ?_⟩
    rcases h.2.1 with hempty | hsame
    · exact absurd hempty h4.1
    · exact absurd hsame h4.2
  · have hsupplied : R.textOf (fieldOf v "scope_hash") = "" ∨
        R.textOf (fieldOf v "scope_hash") = R.computeScopeHash d := by
      by_contra hnone
      push Not at hnone
      exact h4 hnone
    exact ⟨fun h => ⟨⟨h1, h2, h3⟩, hsupplied, Except.ok.inj h⟩, fun h => congrArg _ h.2.2⟩

def knownMode : Option ScopeMode → Except AuthorizationContextError ScopeMode
  | some m => .ok m
  | none => .error ⟨"Invalid scope_mode"⟩

theorem fromMapping_eq (R : Rendering) (v : Dict Value) : R.fromMapping v = (do
    let principalId ← R.requiredId (fieldOf v "principal_id") "principal_id"
    let tenantId ← R.requiredId (fieldOf v "tenant_id") "tenant_id"
    let tenantCode ← R.requiredId (fieldOf v "tenant_code") "tenant_code"
    let systemCode ← R.requiredId (fieldOf v "system_code") "system_code"
    let roleCodes ← R.idTuple (fieldOf v "role_codes") "role_codes"
    let scopeMode ← knownMode (ScopeMode.ofText (R.textOf (fieldOf v "scope_mode")))
    let allowedSiteIds ← R.idTuple (fieldOf v "allowed_site_ids") "allowed_site_ids"
    let allowedProjectIds ← R.idTuple (fieldOf v "allowed_project_ids") "allowed_project_ids"
    let scopeRef ← R.optionalId (fieldOf v "scope_ref") "scope_ref"
    let permissionVersion ← R.requiredId (fieldOf v "permission_version") "permission_version"
    R.checkContext v ⟨principalId, tenantId, tenantCode, systemCode, roleCodes, scopeMode,
      allowedSiteIds, allowedProjectIds, scopeRef, permissionVersion, ""⟩) := by
  unfold Rendering.fromMapping Rendering.checkContext fieldOf
  simp only
  cases ScopeMode.ofText (R.textOf ((v.get "scope_mode").getD .none)) with
  | none | some m => simp only [knownMode]

theorem knownMode_eq_ok {mode : Option ScopeMode} {m : ScopeMode} :
    knownMode mode = .ok m ↔ mode = some m := by
  cases mode with
  | none => exact ⟨nofun, nofun⟩
  | some m' =>
    exact ⟨fun h => congrArg some (Except.ok.inj h), fun h => congrArg _ (Option.some.inj h)⟩

theorem fromMapping_eq_ok : R.fromMapping v = .ok c ↔ FieldsRead R v c := by
  rw [fromMapping_eq]
  simp only [bind_eq_ok, checkContext_eq_ok, knownMode_eq_ok]
  constructor
  · rintro ⟨principalId, h1, tenantId, h2, tenantCode, h3, systemCode, h4, roleCodes, h5, scopeMode,
      h6, allowedSiteIds, h7, allowedProjectIds, h8, scopeRef, h9, permissionVersion, h10,
      hconsistent, hsupplied, rfl⟩
    exact ⟨h1, h2, h3, h4, h5, h6, h7, h8, h9, h10, hconsistent, rfl, hsupplied⟩
  · intro h
    refine ⟨_, h.principalId, _, h.tenantId, _, h.tenantCode, _, h.systemCode, _, h.roleCodes, _,
      h.scopeMode, _, h.allowedSiteIds, _, h.allowedProjectIds, _, h.scopeRef, _,
      h.permissionVersion, h.consistent, ?_, ?_⟩
    · exact h.supplied.imp_right fun heq => heq.trans h.scopeHash
    · show { c with scopeHash := R.computeScopeHash c } = c
      rw [← h.scopeHash]

end Reading

section Ids
variable {R : Rendering} {S : PyStr} {s field : String} {value : Value} {ids texts : List String}

theorem strip_of_forall (h : ∀ c ∈ s.toList, isSpace c = false) : strip s = s := by
  have hdrop (l : Text) (hl : ∀ c ∈ l, isSpace c = false) : l.dropWhile isSpace = l := by
    cases l with
    | nil => rfl
    | cons c l =>
      rw [List.dropWhile_cons_of_neg]
      simp [hl c (List.mem_cons_self ..)]
  unfold strip
  rw [hdrop _ h, hdrop, List.reverse_reverse, String.ofList_toList]
  exact fun c hc => h c (List.mem_reverse.mp hc)

/-- What stands between the quotes as it is. -/
def isPlainIdChar (c : Char) : Bool := c.isAlphanum || c = '_' || c = '.' || c = ':' || c = '-'

def Plain (s : String) : Prop := ∀ c ∈ s.toList, isPlainIdChar c = true

theorem plain_text (mode : ScopeMode) : Plain mode.text := by
  refine List.all_eq_true.mp ?_
  cases mode with
  | tenantAll | resourceSet | scopeRef | none => decide

theorem isSpace_of_plain {c : Char} (h : isPlainIdChar c = true) : isSpace c = false := by
  have hascii : c.isAlphanum = true → isSpace c = false := by
    simp only [Char.isAlphanum, Char.isAlpha, Char.isUpper, Char.isLower, Char.isDigit, isSpace,
      UInt32.le_iff_toNat_le, Bool.or_eq_true, Bool.and_eq_true, decide_eq_true_eq,
      Bool.or_eq_false_iff, Bool.and_eq_false_iff, decide_eq_false_iff_not, Char.toNat,
      Char.reduceVal, UInt32.reduceToNat]
    omega
  simp only [isPlainIdChar, Bool.or_eq_true, decide_eq_true_eq] at h
  rcases h with (((h | rfl) | rfl) | rfl) | rfl
  · exact hascii h
  · decide
  · decide
  · decide
  · decide

theorem plain_of_safeId (h : safeId s = true) : ∀ c ∈ s.toList, isPlainIdChar c = true := by
  unfold safeId at h
  simp only [Bool.and_eq_true, List.all_eq_true] at h
  exact h.2

theorem strip_of_safeId (h : safeId s = true) : strip s = s :=
  strip_of_forall fun c hc => isSpace_of_plain (plain_of_safeId h c hc)

theorem ne_empty_of_safeId (h : safeId s = true) : s ≠ "" := by
  rintro rfl
  revert h
  decide

theorem textOf_str (s : String) : S.rendering.textOf (.str s) = strip s := by
  show strip (if (Value.str s).truthy = true then S.str (.str s) else "") = strip s
  rw [S.str_str]
  by_cases hs : s = ""
  · subst hs
    rfl
  · have htruthy : (Value.str s).truthy = true := decide_eq_true hs
    rw [if_pos htruthy]

theorem requiredId_eq_ok : R.requiredId value field = .ok s ↔
    R.textOf value = s ∧ safeId s = true := by
  unfold Rendering.requiredId
  simp only
  split_ifs with hsafe
  · constructor
    · intro h
      cases h
      exact ⟨rfl, hsafe⟩
    · rintro ⟨rfl, -⟩
      rfl
  · refine ⟨nofun, ?_⟩
    rintro ⟨rfl, h⟩
    exact absurd h hsafe

theorem requiredId_str (h : safeId s = true) (field : String) :
    S.rendering.requiredId (.str s) field = .ok s :=
  requiredId_eq_ok.2 ⟨(textOf_str s).trans (strip_of_safeId h), h⟩

theorem pairwise_sorted (xs : List String) : (sorted xs).Pairwise (· ≤ ·) :=
  List.pairwise_insertionSort (· ≤ ·) xs

/-- Without repetitions and in order there is one list of some ids. -/
theorem sorted_dedup_congr (h : ∀ s, s ∈ ids ↔ s ∈ texts) :
    sorted ids.dedup = sorted texts.dedup := by
  have hperm : ids.dedup.Perm texts.dedup := by
    rw [List.perm_ext_iff_of_nodup (List.nodup_dedup _) (List.nodup_dedup _)]
    intro s
    rw [List.mem_dedup, List.mem_dedup, h]
  refine List.Perm.eq_of_pairwise' (pairwise_sorted _) (pairwise_sorted _) ?_
  exact (List.perm_insertionSort _ _).trans (hperm.trans (List.perm_insertionSort _ _).symm)

theorem mem_sorted_dedup : s ∈ sorted texts.dedup ↔ s ∈ texts := by
  unfold sorted
  rw [List.mem_insertionSort, List.mem_dedup]

/-- Ids that were read as a list. -/
structure IdList (ids : List String) : Prop where
  safe : ∀ s ∈ ids, safeId s = true
  sorted : sorted ids.dedup = ids
  bounded : ids.length ≤ Rendering.maxResourceIds

theorem idList_sorted_dedup (hsafe : ∀ s ∈ texts, safeId s = true)
    (hlength : texts.length ≤ Rendering.maxResourceIds) : IdList (sorted texts.dedup) where
  safe s hs := hsafe s (mem_sorted_dedup.1 hs)
  sorted := sorted_dedup_congr fun _ => mem_sorted_dedup
  bounded := by
    unfold DeerFlow.sorted
    rw [List.length_insertionSort]
    exact (List.dedup_sublist texts).length_le.trans hlength

theorem idTuple_list {items : List Value} : R.idTuple (.list items) field = .ok ids ↔
    items.length ≤ Rendering.maxResourceIds ∧
      ∃ texts, items.mapM (fun item => R.requiredId item field) = .ok texts ∧
        sorted texts.dedup = ids := by
  unfold Rendering.idTuple
  simp only
  split_ifs with hlong
  · exact ⟨nofun, fun h => absurd hlong (Nat.not_lt.mpr h.1)⟩
  · have hshort := Nat.not_lt.mp hlong
    rw [bind_eq_ok]
    constructor
    · rintro ⟨texts, htexts, h⟩
      exact ⟨hshort, texts, htexts, Except.ok.inj h⟩
    · rintro ⟨-, texts, htexts, h⟩
      exact ⟨texts, htexts, congrArg _ h⟩

theorem idList_of_idTuple (h : R.idTuple value field = .ok ids) : IdList ids := by
  cases value with
  | none =>
    cases h
    exact ⟨nofun, rfl, Nat.zero_le _⟩
  | list items =>
    obtain ⟨hlength, texts, htexts, rfl⟩ := idTuple_list.1 h
    refine idList_sorted_dedup (fun s hs => ?_) ?_
    · obtain ⟨item, -, hitem⟩ := exists_of_mem_mapM htexts hs
      exact (requiredId_eq_ok.1 hitem).2
    · rwa [← (mapM_eq_ok.mp htexts).length_eq]
  | bool | int | float | str | dict => cases h

theorem idTuple_map_str (h : IdList ids) (field : String) :
    S.rendering.idTuple (.list (ids.map .str)) field = .ok ids := by
  refine idTuple_list.2 ⟨?_, ids, ?_, h.sorted⟩
  · rw [List.length_map]
    exact h.bounded
  · rw [mapM_eq_ok, List.forall₂_map_left_iff, List.forall₂_same]
    exact fun s hs => requiredId_str (h.safe s hs) field

theorem safeId_of_optionalId {ref : Option String} (h : R.optionalId value field = .ok ref) :
    ∀ s ∈ ref, safeId s = true := by
  intro s hs
  have hsome {v : Value} (hv : some <$> R.requiredId v field = .ok ref) : safeId s = true := by
    obtain ⟨t, ht, rfl⟩ := map_eq_ok.mp hv
    cases hs
    exact (requiredId_eq_ok.1 ht).2
  have hcase (text : String) (hv : (if text = "" then .ok none
      else some <$> R.requiredId (.str text) field) = .ok ref) : safeId s = true := by
    split_ifs at hv with hempty
    · cases hv
      cases hs
    · exact hsome hv
  cases value with
  | none =>
    cases h
    cases hs
  | bool | int | float | str | list | dict => exact hcase _ h

theorem optionalId_str (h : safeId s = true) (field : String) :
    S.rendering.optionalId (.str s) field = .ok (some s) := by
  show (if strip (S.str (.str s)) = "" then .ok none
    else some <$> S.rendering.requiredId (.str (strip (S.str (.str s)))) field) = _
  rw [S.str_str, strip_of_safeId h, if_neg (ne_empty_of_safeId h), requiredId_str h]
  rfl

end Ids

section RoundTrip
variable {S : PyStr} {v : Dict Value} {c : AuthorizationContext}

theorem isHexDigit (n : Nat) : isPlainIdChar (Nat.digitChar (n % 16)) = true := by
  have hall : ∀ m < 16, isPlainIdChar (Nat.digitChar m) = true := by decide
  exact hall _ (Nat.mod_lt _ (by decide))

theorem plain_hexdigest (digest : Sha256.State) :
    ∀ c ∈ hexdigest digest, isPlainIdChar c = true := by
  intro c hc
  obtain ⟨w, -, hw⟩ := List.mem_flatMap.mp hc
  obtain ⟨i, -, rfl⟩ := List.mem_map.mp hw
  exact isHexDigit _

theorem strip_computeScopeHash (c : AuthorizationContext) :
    strip (S.rendering.computeScopeHash c) = S.rendering.computeScopeHash c := by
  refine strip_of_forall fun d hd => isSpace_of_plain ?_
  have hmem : d ∈ (String.ofList (hexdigest _)).toList := hd
  rw [String.toList_ofList] at hmem
  exact plain_hexdigest _ d hmem

theorem ofText_text (mode : ScopeMode) :
    ScopeMode.ofText (S.rendering.textOf (.str mode.text)) = some mode := by
  have hstrip : strip mode.text = mode.text :=
    strip_of_forall fun c hc => isSpace_of_plain (plain_text mode c hc)
  rw [textOf_str, hstrip]
  cases mode <;> rfl

theorem fieldOf_scopeRef (c : AuthorizationContext) : fieldOf c.toRuntimeDict "scope_ref" =
    match c.scopeRef with | some r => .str r | none => .none := rfl

theorem FieldsRead.toRuntimeDict (h : FieldsRead S.rendering v c) :
    FieldsRead S.rendering c.toRuntimeDict c where
  principalId := requiredId_str (requiredId_eq_ok.1 h.principalId).2 _
  tenantId := requiredId_str (requiredId_eq_ok.1 h.tenantId).2 _
  tenantCode := requiredId_str (requiredId_eq_ok.1 h.tenantCode).2 _
  systemCode := requiredId_str (requiredId_eq_ok.1 h.systemCode).2 _
  roleCodes := idTuple_map_str (idList_of_idTuple h.roleCodes) _
  scopeMode := ofText_text c.scopeMode
  allowedSiteIds := idTuple_map_str (idList_of_idTuple h.allowedSiteIds) _
  allowedProjectIds := idTuple_map_str (idList_of_idTuple h.allowedProjectIds) _
  scopeRef := by
    have hsafe := safeId_of_optionalId h.scopeRef
    rw [fieldOf_scopeRef]
    cases href : c.scopeRef with
    | none => rfl
    | some r => exact optionalId_str (hsafe r href) _
  permissionVersion := requiredId_str (requiredId_eq_ok.1 h.permissionVersion).2 _
  consistent := h.consistent
  scopeHash := h.scopeHash
  supplied := by
    right
    have hfield : fieldOf c.toRuntimeDict "scope_hash" = .str c.scopeHash := rfl
    rw [hfield, textOf_str, h.scopeHash, strip_computeScopeHash]

end RoundTrip

section Spellings
variable {S : PyStr} {v v' : Dict Value} {c : AuthorizationContext} {x y : Value} {field : String}
  {ids : List String}

/-- One value, or two texts that differ in the white space around them. -/
inductive SameText : Value → Value → Prop
  | refl (x : Value) : SameText x x
  | spaced {s t : String} (h : strip s = strip t) : SameText (.str s) (.str t)

/-- One value, or two lists of the same entries, in any order and number within the limit. -/
inductive SameEntries : Value → Value → Prop
  | refl (x : Value) : SameEntries x x
  | list {xs ys : List Value} (hlength : ys.length ≤ Rendering.maxResourceIds)
    (hleft : ∀ x ∈ xs, ∃ y ∈ ys, SameText x y) (hright : ∀ y ∈ ys, ∃ x ∈ xs, SameText x y) :
    SameEntries (.list xs) (.list ys)

def textFields : List String :=
  ["principal_id", "tenant_id", "tenant_code", "system_code", "scope_mode", "scope_ref",
    "permission_version", "scope_hash"]

def listFields : List String := ["role_codes", "allowed_site_ids", "allowed_project_ids"]

/-- Another spelling of a mapping. -/
structure Respelled (v v' : Dict Value) : Prop where
  texts : ∀ k ∈ textFields, SameText (fieldOf v k) (fieldOf v' k)
  lists : ∀ k ∈ listFields, SameEntries (fieldOf v k) (fieldOf v' k)

theorem SameText.textOf (h : SameText x y) : S.rendering.textOf x = S.rendering.textOf y := by
  cases h with
  | refl => rfl
  | spaced h => rw [textOf_str, textOf_str, h]

theorem SameText.requiredId (h : SameText x y) :
    S.rendering.requiredId x field = S.rendering.requiredId y field := by
  unfold Rendering.requiredId
  rw [h.textOf]

theorem SameText.optionalId (h : SameText x y) :
    S.rendering.optionalId x field = S.rendering.optionalId y field := by
  cases h with
  | refl => rfl
  | @spaced s t h =>
    show (if strip (S.str (.str s)) = "" then .ok none
        else some <$> S.rendering.requiredId (.str (strip (S.str (.str s)))) field) =
      (if strip (S.str (.str t)) = "" then .ok none
        else some <$> S.rendering.requiredId (.str (strip (S.str (.str t)))) field)
    rw [S.str_str, S.str_str, h]

theorem SameEntries.idTuple (h : SameEntries x y) (hids : S.rendering.idTuple x field = .ok ids) :
    S.rendering.idTuple y field = .ok ids := by
  cases h with
  | refl => exact hids
  | @list xs ys hlength hleft hright =>
    obtain ⟨-, texts, htexts, rfl⟩ := idTuple_list.1 hids
    have hread : ∀ y ∈ ys, ∃ s, S.rendering.requiredId y field = .ok s ∧ s ∈ texts := by
      intro y hy
      obtain ⟨x, hx, hsame⟩ := hright y hy
      obtain ⟨s, hs, hmem⟩ := exists_of_forall₂_left (mapM_eq_ok.mp htexts) hx
      exact ⟨s, hsame.requiredId ▸ hmem, hs⟩
    obtain ⟨texts', htexts', hsub⟩ := exists_mapM_eq_ok hread
    refine idTuple_list.2 ⟨hlength, texts', htexts', sorted_dedup_congr fun s => ⟨?_, ?_⟩⟩
    · intro hs
      obtain ⟨y, -, hmem⟩ := exists_of_forall₂_right hsub hs
      exact hmem
    · intro hs
      obtain ⟨x, hx, hxs⟩ := exists_of_mem_mapM htexts hs
      obtain ⟨y, hy, hsame⟩ := hleft x hx
      obtain ⟨t, ht, hyt⟩ := exists_of_forall₂_left (mapM_eq_ok.mp htexts') hy
      rw [← hsame.requiredId, hxs] at hyt
      rwa [← Except.ok.inj hyt] at ht

theorem FieldsRead.respelled (h : FieldsRead S.rendering v c) (hv : Respelled v v') :
    FieldsRead S.rendering v' c where
  principalId := (hv.texts "principal_id" (by decide)).requiredId.symm.trans h.principalId
  tenantId := (hv.texts "tenant_id" (by decide)).requiredId.symm.trans h.tenantId
  tenantCode := (hv.texts "tenant_code" (by decide)).requiredId.symm.trans h.tenantCode
  systemCode := (hv.texts "system_code" (by decide)).requiredId.symm.trans h.systemCode
  roleCodes := (hv.lists "role_codes" (by decide)).idTuple h.roleCodes
  scopeMode := (hv.texts "scope_mode" (by decide)).textOf ▸ h.scopeMode
  allowedSiteIds := (hv.lists "allowed_site_ids" (by decide)).idTuple h.allowedSiteIds
  allowedProjectIds := (hv.lists "allowed_project_ids" (by decide)).idTuple h.allowedProjectIds
  scopeRef := (hv.texts "scope_ref" (by decide)).optionalId.symm.trans h.scopeRef
  permissionVersion :=
    (hv.texts "permission_version" (by decide)).requiredId.symm.trans h.permissionVersion
  consistent := h.consistent
  scopeHash := h.scopeHash
  supplied := (hv.texts "scope_hash" (by decide)).textOf ▸ h.supplied

end Spellings

section Unambiguous
variable {str : Value → String} {s t : String} {r u : Text} {v w : Value}

/-- A text is cut at the first of a character in one way. -/
theorem append_cons_inj {q : Char} {a b : Text} (ha : q ∉ a) (hb : q ∉ b)
    (h : a ++ q :: r = b ++ q :: u) : a = b ∧ r = u := by
  induction a generalizing b with
  | nil =>
    cases b with
    | nil => exact ⟨rfl, (List.cons.inj h).2⟩
    | cons c b => exact absurd (List.mem_cons.mpr (.inl (List.cons.inj h).1)) hb
  | cons c a ih =>
    rw [List.mem_cons, not_or] at ha
    cases b with
    | nil => exact absurd (List.cons.inj h).1.symm ha.1
    | cons d b =>
      rw [List.mem_cons, not_or] at hb
      obtain ⟨rfl, htail⟩ := List.cons.inj h
      obtain ⟨rfl, hrest⟩ := ih ha.2 hb.2 htail
      exact ⟨rfl, hrest⟩

theorem asciiEscape_plain {c : Char} (h : isPlainIdChar c = true) : asciiEscape c = [c] := by
  have hnone : escapes.find? (fun e => e.2 = c) = none := by
    rw [List.find?_eq_none]
    intro e he
    have hescapes : ∀ e ∈ escapes, isPlainIdChar e.2 = false := by decide
    have hplain := hescapes e he
    simp only [decide_eq_true_eq]
    rintro rfl
    rw [h] at hplain
    cases hplain
  have hprintable : 32 ≤ c.toNat ∧ c.toNat < 127 := by
    simp only [isPlainIdChar, Bool.or_eq_true, decide_eq_true_eq] at h
    rcases h with (((h | rfl) | rfl) | rfl) | rfl
    · simp only [Char.isAlphanum, Char.isAlpha, Char.isUpper, Char.isLower, Char.isDigit,
        UInt32.le_iff_toNat_le, Bool.or_eq_true, Bool.and_eq_true, decide_eq_true_eq,
        Char.reduceVal, UInt32.reduceToNat] at h
      simp only [Char.toNat]
      omega
    · decide
    · decide
    · decide
    · decide
  unfold asciiEscape
  rw [hnone]
  exact if_pos hprintable

theorem asciiQuote_plain (h : Plain s) : asciiQuote s = '"' :: s.toList ++ ['"'] := by
  have hescape : s.toList.flatMap asciiEscape = s.toList := by
    rw [List.flatMap_congr fun c hc => asciiEscape_plain (h c hc), List.flatMap_singleton']
  unfold asciiQuote
  rw [hescape]

theorem not_mem_quote (h : Plain s) : '"' ∉ s.toList := by
  intro hmem
  have hplain := h _ hmem
  revert hplain
  decide

/-- The texts of two values are told apart, whatever follows. -/
def Apart (str : Value → String) (v w : Value) : Prop :=
  ∀ r u, compactJson str v ++ r = compactJson str w ++ u → v = w ∧ r = u

theorem asciiQuote_inj (hs : Plain s) (ht : Plain t) (h : asciiQuote s ++ r = asciiQuote t ++ u) :
    s = t ∧ r = u := by
  rw [asciiQuote_plain hs, asciiQuote_plain ht] at h
  have htail : s.toList ++ '"' :: r = t.toList ++ '"' :: u := by simpa using h
  obtain ⟨hst, hru⟩ := append_cons_inj (not_mem_quote hs) (not_mem_quote ht) htail
  exact ⟨String.toList_inj.mp hst, hru⟩

theorem apart_str (hs : Plain s) (ht : Plain t) : Apart str (.str s) (.str t) := by
  intro r u h
  obtain ⟨rfl, hru⟩ := asciiQuote_inj hs ht h
  exact ⟨rfl, hru⟩

def refValue : Option String → Value
  | some s => .str s
  | none => .none

/-- What stands for a reference that is missing is no text. -/
theorem apart_refValue {a b : Option String} (ha : ∀ s ∈ a, Plain s) (hb : ∀ s ∈ b, Plain s) :
    Apart str (refValue a) (refValue b) := by
  intro r u h
  cases a with
  | none =>
    cases b with
    | none => exact ⟨rfl, List.append_cancel_left h⟩
    | some t => exact absurd (List.cons.inj h).1 (by decide)
  | some s =>
    cases b with
    | none => exact absurd (List.cons.inj h).1 (by decide)
    | some t => exact apart_str (ha s rfl) (hb t rfl) r u h

theorem compactTail_inj {xs ys : List String} (hxs : ∀ s ∈ xs, Plain s) (hys : ∀ s ∈ ys, Plain s)
    (h : compactTail str (xs.map .str) ++ ']' :: r = compactTail str (ys.map .str) ++ ']' :: u) :
    xs = ys ∧ r = u := by
  induction xs generalizing ys with
  | nil =>
    cases ys with
    | nil => exact ⟨rfl, (List.cons.inj h).2⟩
    | cons t ys => exact absurd (List.cons.inj h).1 (by decide)
  | cons s xs ih =>
    rw [List.forall_mem_cons] at hxs
    cases ys with
    | nil => exact absurd (List.cons.inj h).1 (by decide)
    | cons t ys =>
      rw [List.forall_mem_cons] at hys
      have htail : asciiQuote s ++ (compactTail str (xs.map .str) ++ ']' :: r) =
          asciiQuote t ++ (compactTail str (ys.map .str) ++ ']' :: u) := by
        simpa [compactTail, compactJson] using h
      obtain ⟨rfl, hrest⟩ := asciiQuote_inj hxs.1 hys.1 htail
      obtain ⟨rfl, hru⟩ := ih hxs.2 hys.2 hrest
      exact ⟨rfl, hru⟩

theorem apart_list {xs ys : List String} (hxs : ∀ s ∈ xs, Plain s) (hys : ∀ s ∈ ys, Plain s) :
    Apart str (.list (xs.map .str)) (.list (ys.map .str)) := by
  intro r u h
  cases xs with
  | nil =>
    cases ys with
    | nil => exact ⟨rfl, List.append_cancel_left h⟩
    | cons t ys =>
      have hquote : asciiQuote t = '"' :: (t.toList.flatMap asciiEscape ++ ['"']) := rfl
      simp [compactJson, hquote] at h
  | cons s xs =>
    rw [List.forall_mem_cons] at hxs
    cases ys with
    | nil =>
      have hquote : asciiQuote s = '"' :: (s.toList.flatMap asciiEscape ++ ['"']) := rfl
      simp [compactJson, hquote] at h
    | cons t ys =>
      rw [List.forall_mem_cons] at hys
      have htail : asciiQuote s ++ (compactTail str (xs.map .str) ++ ']' :: r) =
          asciiQuote t ++ (compactTail str (ys.map .str) ++ ']' :: u) := by
        simpa [compactJson] using h
      obtain ⟨rfl, hrest⟩ := asciiQuote_inj hxs.1 hys.1 htail
      obtain ⟨rfl, hru⟩ := compactTail_inj hxs.2 hys.2 hrest
      exact ⟨rfl, hru⟩

/-- Items of the same keys, of which each value is told apart. -/
theorem compactItems_inj {xs ys : List (String × Value)}
    (hitems : List.Forall₂ (fun x y => x.1 = y.1 ∧ Apart str x.2 y.2) xs ys)
    (h : compactItems str xs ++ r = compactItems str ys ++ u) : xs = ys := by
  induction hitems generalizing r u with
  | nil => rfl
  | @cons x y xs ys hxy _ ih =>
    obtain ⟨k, v⟩ := x
    obtain ⟨l, w⟩ := y
    obtain ⟨rfl, hvalue⟩ := hxy
    have htail : compactJson str v ++ (compactItems str xs ++ r) =
        compactJson str w ++ (compactItems str ys ++ u) := by
      simpa [compactItems] using h
    obtain ⟨rfl, hrest⟩ := hvalue _ _ htail
    rw [ih hrest]

theorem compactJson_dict_inj {xs ys : List (String × Value)}
    (hitems : List.Forall₂ (fun x y => x.1 = y.1 ∧ Apart str x.2 y.2) xs ys)
    (h : compactJson str (.dict xs) = compactJson str (.dict ys)) : xs = ys := by
  cases hitems with
  | nil => rfl
  | @cons x y xs ys hxy hitems =>
    obtain ⟨k, v⟩ := x
    obtain ⟨l, w⟩ := y
    obtain ⟨rfl, hvalue⟩ := hxy
    have htail : compactJson str v ++ (compactItems str xs ++ ['\x7d']) =
        compactJson str w ++ (compactItems str ys ++ ['\x7d']) := by
      simpa [compactJson] using h
    obtain ⟨rfl, hrest⟩ := hvalue _ _ htail
    rw [compactItems_inj hitems hrest]

end Unambiguous

section Hashing

theorem encode_injective : Function.Injective encode := by
  intro a b h
  have hbytes (t : Text) : encode t = (t.flatMap String.utf8EncodeChar).map (·.toBitVec) := by
    rw [List.map_flatMap]
    rfl
  have hinj : Function.Injective fun w : UInt8 => w.toBitVec := fun _ _ => UInt8.toBitVec_inj.mp
  have hutf : a.utf8Encode = b.utf8Encode := by
    rw [hbytes, hbytes] at h
    exact congrArg List.toByteArray (List.map_injective_iff.mpr hinj h)
  have hdecode := congrArg ByteArray.utf8Decode? hutf
  rw [List.utf8Decode?_utf8Encode, List.utf8Decode?_utf8Encode] at hdecode
  simpa using hdecode

theorem flatMap_hexWord_inj {ws vs : List Sha256.Word} (hlength : ws.length = vs.length)
    (h : ws.flatMap hexWord = vs.flatMap hexWord) : ws = vs := by
  induction ws generalizing vs with
  | nil => exact (List.length_eq_zero_iff.mp hlength.symm).symm
  | cons w ws ih =>
    cases vs with
    | nil => cases hlength
    | cons v vs =>
      rw [List.flatMap_cons, List.flatMap_cons] at h
      obtain ⟨hhead, htail⟩ := List.append_inj h rfl
      rw [hexWord_injective hhead, ih (Nat.succ.inj hlength) htail]

theorem hexdigest_injective : Function.Injective hexdigest := by
  intro x y h
  have hwords : [x.a, x.b, x.c, x.d, x.e, x.f, x.g, x.h] =
      [y.a, y.b, y.c, y.d, y.e, y.f, y.g, y.h] := flatMap_hexWord_inj rfl h
  cases x
  cases y
  simpa using hwords

end Hashing

section Boundary
variable {S : PyStr} {v v₁ v₂ : Dict Value} {c c₁ c₂ : AuthorizationContext}

/-- What is hashed of a context. -/
def scopePayload (c : AuthorizationContext) : Dict Value :=
  [("allowed_project_ids", .list ((sorted c.allowedProjectIds).map .str)),
    ("allowed_site_ids", .list ((sorted c.allowedSiteIds).map .str)),
    ("permission_version", .str c.permissionVersion),
    ("principal_id", .str c.principalId),
    ("role_codes", .list ((sorted c.roleCodes).map .str)),
    ("scope_mode", .str c.scopeMode.text),
    ("scope_ref", refValue c.scopeRef),
    ("system_code", .str c.systemCode),
    ("tenant_code", .str c.tenantCode),
    ("tenant_id", .str c.tenantId)]

def payloadBytes (S : PyStr) (c : AuthorizationContext) : List Sha256.Byte :=
  encode (canonicalJson S.str (scopePayload c))

theorem computeScopeHash_eq (c : AuthorizationContext) : S.rendering.computeScopeHash c =
    String.ofList (hexdigest (Sha256.sha256 (payloadBytes S c))) := rfl

theorem canonicalJson_scopePayload (c : AuthorizationContext) :
    canonicalJson S.str (scopePayload c) = compactJson S.str (.dict (scopePayload c)) := by
  have hkeys : ((scopePayload c).map Prod.fst).Pairwise (· ≤ ·) := by
    show ["allowed_project_ids", "allowed_site_ids", "permission_version", "principal_id",
      "role_codes", "scope_mode", "scope_ref", "system_code", "tenant_code", "tenant_id"].Pairwise
        (· ≤ ·)
    decide +kernel
  unfold canonicalJson
  rw [(List.pairwise_map.mp hkeys).insertionSort_eq]

theorem IdList.plain {ids : List String} (h : IdList ids) : ∀ s ∈ DeerFlow.sorted ids, Plain s := by
  intro s hs
  exact plain_of_safeId (h.safe s (List.mem_insertionSort (· ≤ ·) |>.mp hs))

theorem IdList.sorted_eq {ids : List String} (h : IdList ids) : DeerFlow.sorted ids = ids := by
  have hpairwise := pairwise_sorted ids.dedup
  rw [h.sorted] at hpairwise
  exact hpairwise.insertionSort_eq

theorem ScopeMode.text_inj {m n : ScopeMode} (h : m.text = n.text) : m = n := by
  have hmode := congrArg ScopeMode.ofText h
  have hread (m : ScopeMode) : ScopeMode.ofText m.text = some m := by
    cases m <;> rfl
  rw [hread, hread] at hmode
  exact Option.some.inj hmode

/-- The payloads of two contexts are written differently unless they are one. -/
theorem scopePayload_inj (h₁ : FieldsRead S.rendering v₁ c₁) (h₂ : FieldsRead S.rendering v₂ c₂)
    (h : payloadBytes S c₁ = payloadBytes S c₂) : scopePayload c₁ = scopePayload c₂ := by
  have htext := encode_injective h
  rw [canonicalJson_scopePayload, canonicalJson_scopePayload] at htext
  have hid {x y : Value} {s t field : String} (hs : S.rendering.requiredId x field = .ok s)
      (ht : S.rendering.requiredId y field = .ok t) : Apart S.str (.str s) (.str t) :=
    apart_str (plain_of_safeId (requiredId_eq_ok.1 hs).2)
      (plain_of_safeId (requiredId_eq_ok.1 ht).2)
  have hids {x y : Value} {ids ids' : List String} {field : String}
      (hs : S.rendering.idTuple x field = .ok ids) (ht : S.rendering.idTuple y field = .ok ids') :
      Apart S.str (.list ((sorted ids).map .str)) (.list ((sorted ids').map .str)) :=
    apart_list (idList_of_idTuple hs).plain (idList_of_idTuple ht).plain
  have href : Apart S.str (refValue c₁.scopeRef) (refValue c₂.scopeRef) :=
    apart_refValue (fun s hs => plain_of_safeId (safeId_of_optionalId h₁.scopeRef s hs))
      fun s hs => plain_of_safeId (safeId_of_optionalId h₂.scopeRef s hs)
  refine compactJson_dict_inj ?_ htext
  exact .cons ⟨rfl, hids h₁.allowedProjectIds h₂.allowedProjectIds⟩
    (.cons ⟨rfl, hids h₁.allowedSiteIds h₂.allowedSiteIds⟩
    (.cons ⟨rfl, hid h₁.permissionVersion h₂.permissionVersion⟩
    (.cons ⟨rfl, hid h₁.principalId h₂.principalId⟩
    (.cons ⟨rfl, hids h₁.roleCodes h₂.roleCodes⟩
    (.cons ⟨rfl, apart_str (plain_text _) (plain_text _)⟩
    (.cons ⟨rfl, href⟩
    (.cons ⟨rfl, hid h₁.systemCode h₂.systemCode⟩
    (.cons ⟨rfl, hid h₁.tenantCode h₂.tenantCode⟩
    (.cons ⟨rfl, hid h₁.tenantId h₂.tenantId⟩ .nil)))))))))

/-- A context is what is hashed of it. -/
theorem eq_of_scopePayload (h₁ : FieldsRead S.rendering v₁ c₁) (h₂ : FieldsRead S.rendering v₂ c₂)
    (hpayload : scopePayload c₁ = scopePayload c₂) (hhash : c₁.scopeHash = c₂.scopeHash) :
    c₁ = c₂ := by
  have hlist {xs ys : List String} (hxs : IdList xs) (hys : IdList ys)
      (h : (sorted xs).map Value.str = (sorted ys).map Value.str) : xs = ys := by
    have hinj : Function.Injective Value.str := fun _ _ => Value.str.inj
    rw [hxs.sorted_eq, hys.sorted_eq] at h
    exact List.map_injective_iff.mpr hinj h
  have href : refValue c₁.scopeRef = refValue c₂.scopeRef → c₁.scopeRef = c₂.scopeRef := by
    cases c₁.scopeRef with
    | none =>
      cases c₂.scopeRef with
      | none => exact fun _ => rfl
      | some t => exact nofun
    | some s =>
      cases c₂.scopeRef with
      | none => exact nofun
      | some t => exact fun h => congrArg some (Value.str.inj h)
  simp only [scopePayload, List.cons.injEq, Prod.mk.injEq, true_and, Value.str.injEq,
    Value.list.injEq, and_true] at hpayload
  obtain ⟨hprojects, hsites, hversion, hprincipal, hroles, hmode, hscope, hsystem, hcode,
    htenant⟩ := hpayload
  replace hprojects := hlist (idList_of_idTuple h₁.allowedProjectIds)
    (idList_of_idTuple h₂.allowedProjectIds) hprojects
  replace hsites := hlist (idList_of_idTuple h₁.allowedSiteIds)
    (idList_of_idTuple h₂.allowedSiteIds) hsites
  replace hroles := hlist (idList_of_idTuple h₁.roleCodes) (idList_of_idTuple h₂.roleCodes) hroles
  replace hmode := ScopeMode.text_inj hmode
  replace hscope := href hscope
  cases c₁
  cases c₂
  simp_all

/-- A context that was read is read again from its dictionary and from any other spelling, and no
other context that was read has its hash, unless SHA-256 has a collision there. -/
theorem fromMapping_survives (h : S.rendering.fromMapping v = .ok c) :
    S.rendering.fromMapping c.toRuntimeDict = .ok c ∧
    (∀ v', Respelled v v' → S.rendering.fromMapping v' = .ok c) ∧
    ∀ v' c', S.rendering.fromMapping v' = .ok c' →
      (Sha256.sha256 (payloadBytes S c) = Sha256.sha256 (payloadBytes S c') →
        payloadBytes S c = payloadBytes S c') →
      c.scopeHash = c'.scopeHash → c = c' := by
  rw [fromMapping_eq_ok] at h
  refine ⟨fromMapping_eq_ok.2 h.toRuntimeDict, fun v' hv => ?_, fun v' c' h' hfree hhash => ?_⟩
  · exact fromMapping_eq_ok.2 (h.respelled hv)
  · rw [fromMapping_eq_ok] at h'
    have hdigest : Sha256.sha256 (payloadBytes S c) = Sha256.sha256 (payloadBytes S c') := by
      have hhex := hhash
      rw [h.scopeHash, h'.scopeHash, computeScopeHash_eq, computeScopeHash_eq,
        String.ofList_inj] at hhex
      exact hexdigest_injective hhex
    exact eq_of_scopePayload h h' (scopePayload_inj h h' (hfree hdigest)) hhash

/-- `str` of what stands in the mapping below. -/
def plainStr : PyStr where
  str
    | .none => "None"
    | .bool b => if b then "True" else "False"
    | .int n => String.ofList (intText n)
    | .str s => s
    | .float _ | .list _ | .dict _ => ""
  str_str _ := rfl

def clerkMapping : Dict Value :=
  [("principal_id", .str " u1"), ("tenant_id", .str "t1"), ("tenant_code", .str "acme"),
    ("system_code", .str "erp"), ("scope_mode", .str "resource_set"),
    ("role_codes", .list [.str "viewer ", .str "editor", .str "viewer"]),
    ("allowed_site_ids", .list [.str "s1"]), ("permission_version", .int 7)]

def unhashedClerk : AuthorizationContext where
  principalId := "u1"
  tenantId := "t1"
  tenantCode := "acme"
  systemCode := "erp"
  roleCodes := ["editor", "viewer"]
  scopeMode := .resourceSet
  allowedSiteIds := ["s1"]
  allowedProjectIds := []
  scopeRef := none
  permissionVersion := "7"
  scopeHash := ""

def clerk : AuthorizationContext :=
  { unhashedClerk with scopeHash := plainStr.rendering.computeScopeHash unhashedClerk }

theorem fromMapping_clerkMapping :
    plainStr.rendering.fromMapping clerkMapping = .ok clerk := by
  rw [fromMapping_eq_ok]
  constructor
  case consistent =>
    unfold Consistent
    decide
  case scopeHash => rfl
  case supplied => exact .inl (by decide +kernel)
  all_goals decide +kernel

theorem fromMapping_clerk : plainStr.rendering.fromMapping clerk.toRuntimeDict = .ok clerk :=
  (fromMapping_survives fromMapping_clerkMapping).1

end Boundary

end DeerFlow
