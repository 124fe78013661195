import DeerFlow.Lib.Scan

/-! Rewriting the paths in a text. The text is laid out as what is to be kept and as the paths that
stand in it. A pass that finds its matches inside of the paths changes nothing else, and neither do
such passes one after another. -/

namespace DeerFlow.Rewriting
open Scan

section Relation
variable (inPath inRun : Char → Bool) (separators : List Char) (IsRoot : Text → Prop)

/-- A root with nothing behind it, or with a separator and what a path goes on with. -/
def IsPath (path : Text) : Prop :=
  ∃ root rest, IsRoot root ∧ root ≠ [] ∧ path = root ++ rest ∧
    (∀ c ∈ rest.head?, c ∈ separators) ∧ ∀ c ∈ rest, inRun c = true

/-- Only whole paths are changed, and only with no path character before them. -/
inductive Rewritten : Option Char → Text → Text → Prop
  | done (before : Option Char) : Rewritten before [] []
  | keep {before : Option Char} (c : Char) {s t : Text} :
      Rewritten (some c) s t → Rewritten before (c :: s) (c :: t)
  | change {before : Option Char} {path s : Text} (new : Text) {t : Text} :
      (∀ c ∈ before, inPath c = false) → IsPath inRun separators IsRoot path →
      (∀ c ∈ s.head?, inRun c = false) →
      Rewritten path.getLast? s t → Rewritten before (path ++ s) (new ++ t)

/-- The path is in the text, where no path goes on behind it, with no path character before it. -/
def Stands (before : Option Char) (s path : Text) : Prop :=
  ∃ u v, s = u ++ (path ++ v) ∧ (∀ c ∈ u.getLast?.or before, inPath c = false) ∧
    IsPath inRun separators IsRoot path ∧ (∀ c ∈ v.head?, inRun c = false)

end Relation

section Unchanged
variable {inPath inRun : Char → Bool} {separators : List Char} {IsRoot : Text → Prop}
  {before : Option Char} {s t u path : Text} {c : Char}

theorem getLast?_cons_or (c : Char) (u : Text) (before : Option Char) :
    (c :: u).getLast?.or before = u.getLast?.or (some c) := by
  rw [List.getLast?_cons]
  cases u.getLast? with
  | none | some d => rfl

theorem Stands.cons (h : Stands inPath inRun separators IsRoot (some c) s path) :
    Stands inPath inRun separators IsRoot before (c :: s) path := by
  obtain ⟨u, v, rfl, hbefore, hpath, hbehind⟩ := h
  refine ⟨c :: u, v, rfl, ?_, hpath, hbehind⟩
  rw [getLast?_cons_or]
  exact hbefore

theorem Rewritten.eq_of_not_stands (h : Rewritten inPath inRun separators IsRoot before s t)
    (hnone : ∀ path, ¬ Stands inPath inRun separators IsRoot before s path) : t = s := by
  induction h with
  | done => rfl
  | keep c _ ih => rw [ih fun path hstands => hnone path hstands.cons]
  | @change before path s new t hbefore hpath hbehind _ _ =>
    exact absurd ⟨[], s, rfl, hbefore, hpath, hbehind⟩ (hnone path)

theorem Rewritten.append (u : Text)
    (h : Rewritten inPath inRun separators IsRoot (u.getLast?.or before) s t) :
    Rewritten inPath inRun separators IsRoot before (u ++ s) (u ++ t) := by
  induction u generalizing before with
  | nil => exact h
  | cons c u ih =>
    rw [getLast?_cons_or] at h
    exact .keep c (ih h)

/-- No path stands where every root has a path character before it, or a path goes on behind it
without a separator. -/
theorem not_stands
    (h : ∀ i ∈ List.range (s.length + 1), ∀ root, IsRoot root → root <+: s.drop i →
      ((s.take i).getLast?.or before).any inPath = true ∨
        (s.drop (i + root.length)).head?.any (fun c => inRun c && !separators.contains c) = true)
    (path : Text) : ¬ Stands inPath inRun separators IsRoot before s path := by
  rintro ⟨u, v, rfl, hbefore, ⟨root, rest, hroot, -, rfl, hrest, -⟩, hbehind⟩
  have hi : u.length ∈ List.range ((u ++ (root ++ rest ++ v)).length + 1) := by
    rw [List.mem_range, List.length_append]
    omega
  have hdrop : (u ++ (root ++ rest ++ v)).drop u.length = root ++ (rest ++ v) := by
    rw [List.drop_left, List.append_assoc]
  have hroot' : root <+: (u ++ (root ++ rest ++ v)).drop u.length := by
    rw [hdrop]
    exact List.prefix_append root _
  rcases h u.length hi root hroot hroot' with hleft | hright
  · rw [List.take_left] at hleft
    obtain ⟨c, hc, hin⟩ := (Option.any_eq_true _ _).mp hleft
    rw [hbefore c hc] at hin
    cases hin
  · rw [← List.drop_drop, hdrop, List.drop_left] at hright
    obtain ⟨c, hc, hin⟩ := (Option.any_eq_true _ _).mp hright
    rw [Bool.and_eq_true, Bool.not_eq_true', List.contains_eq_mem, decide_eq_false_iff_not] at hin
    cases rest with
    | nil =>
      have hout := hbehind c hc
      rw [hin.1] at hout
      cases hout
    | cons d rest =>
      obtain rfl : d = c := Option.some.inj hc
      exact hin.2 (hrest d rfl)

theorem not_stands_of_mem {roots : List Text} (hroots : ∀ root, IsRoot root → root ∈ roots)
    (h : ∀ i ∈ List.range (s.length + 1), ∀ root ∈ roots, root <+: s.drop i →
      ((s.take i).getLast?.or before).any inPath = true ∨
        (s.drop (i + root.length)).head?.any (fun c => inRun c && !separators.contains c) = true)
    (path : Text) : ¬ Stands inPath inRun separators IsRoot before s path :=
  not_stands (fun i hi root hroot => h i hi root (hroots root hroot)) path

end Unchanged

/-- A part of a text: what is kept, or a path with the pieces that it is read in by now. -/
inductive Part where
  | kept (text : Text)
  | path (original : Text) (now : List Piece)

namespace Part
variable {ε : Type} (f : Text → Except ε Text)

def original : Part → Text
  | kept u => u
  | path p _ => p

def pieces : Part → List Piece
  | kept u => u.map .char
  | path _ ps => ps

/-- The path is one of the same place. -/
def Same : Part → Part → Prop
  | kept u, kept v => u = v
  | path p _, path q _ => p = q
  | _, _ => False

/-- The matches in the path are replaced. -/
def Next : Part → Part → Prop
  | kept u, kept v => u = v
  | path p ps, path q qs => p = q ∧ (ps.mapM (Piece.replace f)).map List.flatten = .ok (render qs)
  | _, _ => False

end Part

/-- The text as it was at first. -/
def sourceText (parts : List Part) : Text := parts.flatMap Part.original

def piecesOf (parts : List Part) : List Piece := parts.flatMap Part.pieces

section Layout
variable (inPath inRun : Char → Bool) (separators : List Char) (IsRoot : Text → Prop)

/-- The paths are not changed yet, and each stands in the text. -/
def Laid : Option Char → List Part → Prop
  | _, [] => True
  | before, .kept u :: parts => Laid (u.getLast?.or before) parts
  | before, .path p ps :: parts =>
    render ps = p ∧ (∀ c ∈ before, inPath c = false) ∧ IsPath inRun separators IsRoot p ∧
      (∀ c ∈ (sourceText parts).head?, inRun c = false) ∧ Laid p.getLast? parts

end Layout

/-- Every pass finds its matches inside of the paths, as the passes before it left them. -/
def Inside {ε : Type} : List (Pattern × (Text → Except ε Text)) → List Part → Prop
  | [], _ => True
  | (find, f) :: passes, parts =>
    scan find (render (piecesOf parts)) = piecesOf parts ∧
      ∃ parts', List.Forall₂ (Part.Next f) parts parts' ∧ Inside passes parts'

section Passes
variable {ε : Type} {inPath inRun : Char → Bool} {separators : List Char} {IsRoot : Text → Prop}
  {before : Option Char} {parts parts' : List Part} {find : Pattern} {f : Text → Except ε Text}
  {passes : List (Pattern × (Text → Except ε Text))} {out : Text}

theorem Part.Next.same {p q : Part} (h : p.Next f q) : p.Same q := by
  cases p with
  | kept u =>
    cases q with
    | kept v => exact h
    | path => exact h
  | path =>
    cases q with
    | kept => exact h
    | path => exact h.1

theorem Part.Same.refl (p : Part) : p.Same p := by
  cases p with
  | kept | path => rfl

theorem Part.Same.trans {p q r : Part} (h : p.Same q) (h' : q.Same r) : p.Same r := by
  cases p <;> cases q <;> cases r <;> simp_all [Part.Same]

theorem same_trans {mid : List Part} (h : List.Forall₂ Part.Same parts mid)
    (h' : List.Forall₂ Part.Same mid parts') : List.Forall₂ Part.Same parts parts' := by
  induction h generalizing parts' with
  | nil => exact h'
  | cons hpq _ ih =>
    cases h' with
    | cons hqr hrest => exact .cons (hpq.trans hqr) (ih hrest)

theorem render_chars (u : Text) : render (u.map .char) = u := by
  unfold render
  rw [List.flatMap_map]
  exact List.flatMap_singleton' u

theorem replace_chars (u : Text) :
    (u.map Piece.char).mapM (Piece.replace f) = .ok (u.map fun c => [c]) := by
  induction u with
  | nil => rfl
  | cons c u ih =>
    rw [List.map_cons, List.mapM_cons, ih]
    rfl

theorem render_cons (p : Part) (parts : List Part) :
    render (piecesOf (p :: parts)) = render p.pieces ++ render (piecesOf parts) := by
  unfold render piecesOf
  rw [List.flatMap_cons, List.flatMap_append]

/-- What a pass makes of the pieces of the parts. -/
theorem mapM_piecesOf (h : List.Forall₂ (Part.Next f) parts parts') :
    ((piecesOf parts).mapM (Piece.replace f)).map List.flatten =
      .ok (render (piecesOf parts')) := by
  induction h with
  | nil => rfl
  | @cons p q parts parts' hpq _ ih =>
    have hhead : (p.pieces.mapM (Piece.replace f)).map List.flatten = .ok (render q.pieces) := by
      cases p with
      | kept u =>
        cases q with
        | kept v =>
          obtain rfl : u = v := hpq
          show ((u.map Piece.char).mapM (Piece.replace f)).map List.flatten =
            .ok (render (u.map .char))
          rw [replace_chars, render_chars]
          exact congrArg Except.ok (List.flatMap_singleton' u)
        | path => exact hpq.elim
      | path =>
        cases q with
        | kept => exact hpq.elim
        | path => exact hpq.2
    obtain ⟨xs, hxs, hx⟩ := map_eq_ok.mp hhead
    obtain ⟨ys, hys, hy⟩ := map_eq_ok.mp ih
    have hcons : piecesOf (p :: parts) = p.pieces ++ piecesOf parts := List.flatMap_cons
    rw [render_cons, hcons, List.mapM_append, hxs, hys, ← hx, ← hy, ← List.flatten_append]
    rfl

theorem Laid.render_eq (h : Laid inPath inRun separators IsRoot before parts) :
    render (piecesOf parts) = sourceText parts := by
  induction parts generalizing before with
  | nil => rfl
  | cons p parts ih =>
    have hcons : sourceText (p :: parts) = p.original ++ sourceText parts := List.flatMap_cons
    rw [render_cons, hcons]
    cases p with
    | kept u =>
      rw [ih h]
      exact congrArg (· ++ sourceText parts) (render_chars u)
    | path p ps =>
      obtain ⟨hnow, -, -, -, hrest⟩ := h
      rw [ih hrest]
      exact congrArg (· ++ sourceText parts) hnow

/-- Where the places stay the same, only paths that stand in the text are changed. -/
theorem Laid.rewritten (h : Laid inPath inRun separators IsRoot before parts)
    (hsame : List.Forall₂ Part.Same parts parts') :
    Rewritten inPath inRun separators IsRoot before (sourceText parts) (render (piecesOf parts')) := by
  induction hsame generalizing before with
  | nil => exact .done before
  | @cons p q parts parts' hpq _ ih =>
    have hcons : sourceText (p :: parts) = p.original ++ sourceText parts := List.flatMap_cons
    rw [render_cons, hcons]
    cases p with
    | kept u =>
      cases q with
      | kept v =>
        obtain rfl : u = v := hpq
        show Rewritten _ _ _ _ before (u ++ sourceText parts) (render (u.map .char) ++ _)
        rw [render_chars]
        exact .append u (ih h)
      | path => exact hpq.elim
    | path p ps =>
      cases q with
      | kept => exact hpq.elim
      | path q qs =>
        obtain ⟨-, hbefore, hpath, hbehind, hrest⟩ := h
        exact .change (render qs) hbefore hpath hbehind (ih hrest)

/-- The passes leave every place where it is. -/
theorem same_of_inside (hin : Inside passes parts)
    (h : passes.foldlM (fun s p => sub p.1 p.2 s) (render (piecesOf parts)) = .ok out) :
    ∃ parts', List.Forall₂ Part.Same parts parts' ∧ render (piecesOf parts') = out := by
  induction passes generalizing parts with
  | nil => exact ⟨parts, List.forall₂_same.mpr fun p _ => Part.Same.refl p, Except.ok.inj h⟩
  | cons pass passes ih =>
    obtain ⟨find, f⟩ := pass
    obtain ⟨hscan, next, hnext, hin⟩ := hin
    have hsub : sub find f (render (piecesOf parts)) = .ok (render (piecesOf next)) := by
      unfold sub
      rw [hscan]
      exact mapM_piecesOf hnext
    rw [List.foldlM_cons, hsub] at h
    obtain ⟨parts', hsame, hout⟩ := ih hin h
    exact ⟨parts', same_trans (hnext.imp fun _ _ => Part.Next.same) hsame, hout⟩

/-- Passes whose matches are inside of the paths that stand in a text change only these. -/
theorem rewritten_of_inside (hlaid : Laid inPath inRun separators IsRoot before parts)
    (hin : Inside passes parts)
    (h : passes.foldlM (fun s p => sub p.1 p.2 s) (sourceText parts) = .ok out) :
    Rewritten inPath inRun separators IsRoot before (sourceText parts) out := by
  rw [← hlaid.render_eq] at h
  obtain ⟨parts', hsame, rfl⟩ := same_of_inside hin h
  exact hlaid.rewritten hsame

end Passes

end DeerFlow.Rewriting
