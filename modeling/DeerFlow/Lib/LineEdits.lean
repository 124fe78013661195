import Mathlib

/-! Edits that turn one list into another: what is kept, deleted and inserted, in hunks that leave
out unchanged stretches between them. -/

namespace DeerFlow

inductive LineEdit (α : Type*) where
  | keep (x : α)
  | delete (x : α)
  | insert (x : α)
  deriving DecidableEq

namespace LineEdit
variable {α : Type*}

def old? : LineEdit α → Option α
  | .keep x | .delete x => some x
  | .insert _ => none

def new? : LineEdit α → Option α
  | .keep x | .insert x => some x
  | .delete _ => none

def deleted? : LineEdit α → Option α
  | .delete x => some x
  | .keep _ | .insert _ => none

def inserted? : LineEdit α → Option α
  | .insert x => some x
  | .keep _ | .delete _ => none

end LineEdit

section Edits
open LineEdit
variable {α : Type*}

def deletedBy (es : List (LineEdit α)) : List α := es.filterMap deleted?

def insertedBy (es : List (LineEdit α)) : List α := es.filterMap inserted?

theorem length_filterMap_edits (es : List (LineEdit α)) :
    (es.filterMap old?).length + (insertedBy es).length =
      (es.filterMap new?).length + (deletedBy es).length := by
  induction es with
  | nil => rfl
  | cons e es ih =>
    unfold insertedBy deletedBy at ih ⊢
    cases e with
    | keep x | delete x | insert x =>
      simp [List.filterMap_cons, old?, new?, deleted?, inserted?]
      omega

inductive Patches : List (List (LineEdit α)) → List α → List α → Prop
  | same (xs : List α) : Patches [] xs xs
  | hunk {hs : List (List (LineEdit α))} {xs ys : List α} (skipped : List α)
      (es : List (LineEdit α)) (h : Patches hs xs ys) :
      Patches (es :: hs) (skipped ++ es.filterMap old? ++ xs)
        (skipped ++ es.filterMap new? ++ ys)

theorem insertedBy_append (es fs : List (LineEdit α)) :
    insertedBy (es ++ fs) = insertedBy es ++ insertedBy fs := List.filterMap_append ..

theorem deletedBy_append (es fs : List (LineEdit α)) :
    deletedBy (es ++ fs) = deletedBy es ++ deletedBy fs := List.filterMap_append ..

theorem Patches.length_eq {hs : List (List (LineEdit α))} {xs ys : List α}
    (h : Patches hs xs ys) :
    xs.length + (insertedBy hs.flatten).length = ys.length + (deletedBy hs.flatten).length := by
  induction h with
  | same xs => rfl
  | hunk skipped es h ih =>
    have hes := length_filterMap_edits es
    rw [List.flatten_cons, insertedBy_append, deletedBy_append]
    simp only [List.length_append]
    omega

end Edits

end DeerFlow
