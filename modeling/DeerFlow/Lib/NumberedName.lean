import Mathlib

/-! Names made of a stem and one or two numbers. -/

namespace DeerFlow

theorem toString_injective {i j : Nat} (h : toString i = toString j) : i = j := by
  have hdigits := congrArg (fun s : String => Nat.ofDigitChars 10 s.toList 0) h
  simpa [Nat.toString_eq_ofList_toDigits] using hdigits

theorem numberedName_injective {stem : String} {i j i' j' : Nat}
    (h : stem ++ toString i ++ "_" ++ toString j = stem ++ toString i' ++ "_" ++ toString j') :
    i = i' ∧ j = j' := by
  have hlist := congrArg String.toList h
  simp only [String.toList_append, List.append_assoc] at hlist
  have hrest : (toString i).toList ++ '_' :: (toString j).toList =
      (toString i').toList ++ '_' :: (toString j').toList := List.append_cancel_left hlist
  rw [List.append_cons_inj_of_notMem (by simp) (by simp)] at hrest
  exact ⟨toString_injective (String.ext hrest.1), toString_injective (String.ext hrest.2.2)⟩

theorem stem_toString_injective {stem : String} {i i' : Nat}
    (h : stem ++ toString i = stem ++ toString i') : i = i' := by
  have hlist := congrArg String.toList h
  rw [String.toList_append, String.toList_append] at hlist
  exact toString_injective (String.ext (List.append_cancel_left hlist))

theorem stem_toString_ne_numberedName {stem : String} {i i' j : Nat} :
    stem ++ toString i ≠ stem ++ toString i' ++ "_" ++ toString j := by
  intro h
  have hlist := congrArg String.toList h
  simp only [String.toList_append, List.append_assoc] at hlist
  have hrest : (toString i).toList = (toString i').toList ++ '_' :: (toString j).toList :=
    List.append_cancel_left hlist
  have hmem : '_' ∈ (toString i).toList := by
    rw [hrest]
    exact List.mem_append_right _ List.mem_cons_self
  exact absurd hmem (by simp)

end DeerFlow
