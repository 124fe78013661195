import DeerFlow.Lib.Joined
import DeerFlow.Lib.Json

/-! POSIX paths as Python's `posixpath` and `pathlib` read them, and `Path.resolve` where no
component is a symbolic link. An absolute path is the list of its components. -/

namespace DeerFlow.Posix

def isAbs (path : Text) : Bool := "/".toList.isPrefixOf path

def comps (path : Text) : List Text :=
  (path.splitOn '/').filter fun comp => comp ≠ [] ∧ comp ≠ ['.']

/-- One component in `normpath`, where those before it are kept last first. -/
def normStep (absolute : Bool) (kept : List Text) (comp : Text) : List Text :=
  if comp ≠ "..".toList ∨ (absolute = false ∧ kept = []) ∨ kept.head? = some "..".toList then
    comp :: kept
  else kept.tail

/-- Two slashes at the start are kept, any other number of them is one. -/
def initialSlashes (path : Text) : Nat :=
  if "//".toList.isPrefixOf path ∧ ¬ "///".toList.isPrefixOf path then 2
  else if isAbs path then 1 else 0

def normpath (path : Text) : Text :=
  let kept := (comps path).foldl (normStep (isAbs path)) []
  let text := List.replicate (initialSlashes path) '/' ++ ['/'].intercalate kept.reverse
  if text = [] then ".".toList else text

def below (cs : List Text) : Text := cs.flatMap ('/' :: ·)

def absolute (cs : List Text) : Text := if cs = [] then ['/'] else below cs

def descend (kept : List Text) (comp : Text) : List Text :=
  if comp = "..".toList then kept.tail else comp :: kept

/-- Where components lead from an absolute path. -/
def walk (start cs : List Text) : List Text := (cs.foldl descend start.reverse).reverse

/-- `root / relative`. -/
def join (root relative : Text) : Text :=
  if root.getLast? = some '/' then root ++ relative else root ++ '/' :: relative

def dirname (path : Text) : Text :=
  let head := (path.reverse.dropWhile (· ≠ '/')).reverse
  if head.all (· = '/') then head else (head.reverse.dropWhile (· = '/')).reverse

/-- A component that leads one level down. -/
structure Proper (comp : Text) : Prop where
  nonempty : comp ≠ []
  notDot : comp ≠ ['.']
  notUp : comp ≠ "..".toList
  noSlash : '/' ∉ comp

instance (comp : Text) : Decidable (Proper comp) :=
  decidable_of_iff (comp ≠ [] ∧ comp ≠ ['.'] ∧ comp ≠ "..".toList ∧ '/' ∉ comp)
    ⟨fun ⟨h₁, h₂, h₃, h₄⟩ => ⟨h₁, h₂, h₃, h₄⟩, fun ⟨h₁, h₂, h₃, h₄⟩ => ⟨h₁, h₂, h₃, h₄⟩⟩

structure AbsPath where
  comps : List Text
  proper : ∀ c ∈ comps, Proper c

theorem proper_nil : ∀ c ∈ ([] : List Text), Proper c := fun _ hc => by cases hc

/-- `Path.resolve` in a working directory. -/
def resolve (cwd : AbsPath) (path : Text) : Text :=
  absolute (walk (if isAbs path then [] else cwd.comps) (comps path))

section Components
variable {cs ds : List Text} {a path : Text}

theorem below_append (cs ds : List Text) : below (cs ++ ds) = below cs ++ below ds :=
  List.flatMap_append

theorem comps_append_slash (a b : Text) : comps (a ++ '/' :: b) = comps a ++ comps b := by
  unfold comps
  rw [List.splitOn_append_cons_self, List.filter_append]

theorem comps_of_proper (h : Proper a) : comps a = [a] := by
  unfold comps
  rw [List.splitOn_eq_singleton h.noSlash]
  exact List.filter_cons_of_pos (decide_eq_true ⟨h.nonempty, h.notDot⟩)

theorem comps_append_below (hcs : ∀ c ∈ cs, Proper c) (a : Text) :
    comps (a ++ below cs) = comps a ++ cs := by
  -- the text before the components varies: each step moves one component into it
  induction cs generalizing a with
  | nil =>
    rw [List.append_nil]
    exact congrArg comps (List.append_nil a)
  | cons c cs ih =>
    have hrest : ∀ d ∈ cs, Proper d := fun d hd => hcs d (List.mem_cons_of_mem c hd)
    have htext : a ++ below (c :: cs) = a ++ '/' :: (c ++ below cs) := rfl
    rw [htext, comps_append_slash, ih hrest, comps_of_proper (hcs c List.mem_cons_self)]
    rfl

theorem comps_below (hcs : ∀ c ∈ cs, Proper c) : comps (below cs) = cs :=
  comps_append_below hcs []

theorem splitOn_cons (c : Char) (s : Text) : ∃ part rest, s.splitOn '/' = part :: rest ∧
    (c :: s).splitOn '/' = if c = '/' then [] :: part :: rest else (c :: part) :: rest := by
  obtain ⟨part, rest, hs⟩ := List.exists_cons_of_ne_nil (List.splitOn_ne_nil '/' s)
  refine ⟨part, rest, hs, ?_⟩
  rw [List.splitOn_cons_eq_if_modifyHead, hs]
  simp only [beq_iff_eq, List.modifyHead_cons]

theorem splitOn_part {s : Text} (h : a ∈ s.splitOn '/') : '/' ∉ a ∧ a ⊆ s := by
  induction s generalizing a with
  | nil =>
    rw [List.mem_singleton.mp h]
    exact ⟨List.not_mem_nil, List.Subset.refl []⟩
  | cons c s ih =>
    obtain ⟨part, rest, hs, hcons⟩ := splitOn_cons c s
    have hpart : ∀ {d : Text}, d ∈ part :: rest → '/' ∉ d ∧ d ⊆ s := fun hd => ih (hs ▸ hd)
    rw [hcons] at h
    split at h
    · rcases List.mem_cons.mp h with rfl | h
      · exact ⟨List.not_mem_nil, List.nil_subset _⟩
      · exact (hpart h).imp_right fun hsub => List.subset_cons_of_subset c hsub
    · next hc =>
      rcases List.mem_cons.mp h with rfl | h
      · obtain ⟨hno, hsub⟩ := hpart List.mem_cons_self
        refine ⟨fun hmem => ?_, List.cons_subset_cons c hsub⟩
        rcases List.mem_cons.mp hmem with he | hmem
        · exact hc he.symm
        · exact hno hmem
      · exact (hpart (List.mem_cons_of_mem part h)).imp_right fun hsub =>
          List.subset_cons_of_subset c hsub

theorem comps_absolute (hcs : ∀ c ∈ cs, Proper c) : comps (absolute cs) = cs := by
  unfold absolute
  split
  · next he => rw [he]; rfl
  · exact comps_below hcs

theorem mem_of_mem_comps (h : a ∈ comps path) : a ≠ [] ∧ a ≠ ['.'] ∧ '/' ∉ a ∧ a ⊆ path := by
  obtain ⟨hmem, hkept⟩ := List.mem_filter.mp h
  obtain ⟨hne, hdot⟩ := of_decide_eq_true hkept
  exact ⟨hne, hdot, splitOn_part hmem⟩

theorem below_splitOn (s : Text) : below (s.splitOn '/') = '/' :: s := by
  induction s with
  | nil => rfl
  | cons c s ih =>
    obtain ⟨part, rest, hs, hcons⟩ := splitOn_cons c s
    rw [hs] at ih
    have htext : part ++ below rest = s := (List.cons.inj ih).2
    rw [hcons]
    split
    · next hc =>
      rw [hc]
      exact congrArg (fun t => '/' :: '/' :: t) htext
    · exact congrArg (fun t => '/' :: c :: t) htext

theorem length_below_of_sublist (h : cs.Sublist ds) : (below cs).length ≤ (below ds).length :=
  (h.flatMap _).length_le

theorem length_below_comps (s : Text) : (below (comps s)).length ≤ s.length + 1 := by
  have hall : (below (s.splitOn '/')).length = s.length + 1 := by rw [below_splitOn, List.length_cons]
  rw [← hall]
  exact length_below_of_sublist List.filter_sublist

theorem getLast?_below (hcs : ∀ c ∈ cs, Proper c) : (below cs).getLast? ≠ some '/' := by
  rcases List.eq_nil_or_concat cs with rfl | ⟨init, c, rfl⟩
  · exact nofun
  · rw [List.concat_eq_append] at hcs ⊢
    have hc := hcs c (List.mem_append_right init List.mem_cons_self)
    -- the last component ends the text, and it has no slash
    have htext : below (init ++ [c]) = (below init ++ ['/']) ++ c := by
      rw [below_append, show below [c] = '/' :: (c ++ []) from rfl, List.append_nil,
        List.append_assoc]
      rfl
    intro hlast
    rw [htext, List.getLast?_append, List.getLast?_eq_some_getLast hc.nonempty] at hlast
    exact hc.noSlash (Option.some.inj hlast ▸ List.getLast_mem hc.nonempty)

/-- A path lies below another exactly if its components go on from those of the other. -/
theorem below_prefix_iff (hcs : ∀ c ∈ cs, Proper c) (hds : ∀ d ∈ ds, Proper d) :
    (below ds = below cs ∨ below cs ++ ['/'] <+: below ds) ↔ cs <+: ds := by
  constructor
  · rintro (he | ⟨rest, he⟩)
    · have hsame := congrArg comps he
      rw [comps_below hds, comps_below hcs] at hsame
      exact ⟨[], by rw [List.append_nil, hsame]⟩
    · have hsame := congrArg comps he
      rw [comps_below hds, List.append_assoc, List.singleton_append, comps_append_slash,
        comps_below hcs] at hsame
      exact ⟨comps rest, hsame⟩
  · rintro ⟨rest, rfl⟩
    rw [below_append]
    cases rest with
    | nil => exact .inl (List.append_nil _)
    | cons c rest =>
      refine .inr ⟨c ++ below rest, ?_⟩
      rw [List.append_assoc]
      rfl

end Components

section Normpath
variable {cs : List Text} {path : Text}

theorem below_cons_eq (c : Text) (cs : List Text) :
    below (c :: cs) = '/' :: ['/'].intercalate (c :: cs) := by
  induction cs generalizing c with
  | nil =>
    rw [List.intercalate_singleton]
    exact congrArg _ (List.append_nil c)
  | cons d cs ih =>
    have htext : below (c :: d :: cs) = '/' :: (c ++ below (d :: cs)) := rfl
    rw [htext, ih, List.intercalate_cons_cons, List.append_assoc]
    rfl

theorem comps_intercalate (hcs : ∀ c ∈ cs, Proper c) : comps (['/'].intercalate cs) = cs := by
  cases cs with
  | nil => rfl
  | cons c cs =>
    have hbelow := comps_below hcs
    rw [below_cons_eq] at hbelow
    exact (comps_append_slash [] _).symm.trans hbelow

theorem comps_normpath (hrel : isAbs path = false) (hup : "..".toList ∉ comps path) :
    comps (normpath path) = comps path := by
  have hproper : ∀ c ∈ comps path, Proper c := fun c hc =>
    have ⟨hne, hdot, hslash, _⟩ := mem_of_mem_comps hc
    ⟨hne, hdot, fun he => hup (he ▸ hc), hslash⟩
  have hfold : ∀ (cs kept : List Text), (∀ c ∈ cs, Proper c) →
      cs.foldl (normStep false) kept = cs.reverse ++ kept := by
    intro cs
    induction cs with
    | nil => exact fun _ _ => rfl
    | cons c cs ih =>
      intro kept hcs
      have hc : normStep false kept c = c :: kept := if_pos (.inl (hcs c List.mem_cons_self).notUp)
      rw [List.foldl_cons, hc, ih _ fun d hd => hcs d (List.mem_cons_of_mem c hd),
        List.reverse_cons, List.append_assoc]
      rfl
  have hslashes : initialSlashes path = 0 := by
    have hdouble : "//".toList.isPrefixOf path = false := by
      cases path with
      | nil => rfl
      | cons c path =>
        have hc : ('/' == c) = false := by simpa [isAbs, List.isPrefixOf] using hrel
        simp [List.isPrefixOf, hc]
    unfold initialSlashes
    rw [hdouble, hrel, if_neg fun h => Bool.false_ne_true h.1, if_neg Bool.false_ne_true]
  unfold normpath
  rw [hslashes, hrel, hfold _ _ hproper]
  simp only [List.replicate_zero, List.nil_append, List.append_nil, List.reverse_reverse]
  split
  · next hnil =>
    cases hcs : comps path with
    | nil => rfl
    | cons c cs =>
      rw [hcs] at hnil hproper
      exact absurd hnil (intercalate_cons_ne_nil (hproper c List.mem_cons_self).nonempty)
  · exact comps_intercalate hproper

end Normpath

section Walk
variable {cs start : List Text}

theorem walk_of_proper (start : List Text) (hcs : ∀ c ∈ cs, c ≠ "..".toList) :
    walk start cs = start ++ cs := by
  -- components are kept last first, so the induction is over any that are already kept
  have hfold : ∀ kept : List Text, cs.foldl descend kept = cs.reverse ++ kept := by
    induction cs with
    | nil => exact fun _ => rfl
    | cons c cs ih =>
      intro kept
      have hc : descend kept c = c :: kept := if_neg (hcs c List.mem_cons_self)
      rw [List.foldl_cons, hc, ih fun d hd => hcs d (List.mem_cons_of_mem c hd),
        List.reverse_cons, List.append_assoc]
      rfl
  unfold walk
  rw [hfold, List.reverse_append, List.reverse_reverse, List.reverse_reverse]

theorem walk_append (start cs ds : List Text) : walk start (cs ++ ds) = walk (walk start cs) ds := by
  unfold walk
  rw [List.foldl_append, List.reverse_reverse]

theorem walk_proper (hstart : ∀ c ∈ start, Proper c)
    (hcs : ∀ c ∈ cs, c ≠ [] ∧ c ≠ ['.'] ∧ '/' ∉ c) : ∀ c ∈ walk start cs, Proper c := by
  have hfold : ∀ kept : List Text, (∀ c ∈ kept, Proper c) → ∀ c ∈ cs.foldl descend kept, Proper c := by
    induction cs with
    | nil => exact fun _ hkept => hkept
    | cons d cs ih =>
      intro kept hkept
      refine ih (fun c hc => hcs c (List.mem_cons_of_mem d hc)) _ fun c hc => ?_
      unfold descend at hc
      split at hc
      · exact hkept c (List.mem_of_mem_tail hc)
      · next hup =>
        rcases List.mem_cons.mp hc with rfl | hc
        · obtain ⟨hne, hdot, hslash⟩ := hcs c List.mem_cons_self
          exact ⟨hne, hdot, hup, hslash⟩
        · exact hkept c hc
  intro c hc
  exact hfold start.reverse (fun d hd => hstart d (List.mem_reverse.mp hd)) c
    (List.mem_reverse.mp hc)

theorem mem_walk {c : Text} (h : c ∈ walk start cs) : c ∈ start ∨ c ∈ cs := by
  have hfold : ∀ kept : List Text, c ∈ cs.foldl descend kept → c ∈ kept ∨ c ∈ cs := by
    clear h
    induction cs with
    | nil => exact fun _ hc => .inl hc
    | cons d cs ih =>
      intro kept hc
      rcases ih _ hc with hc | hc
      · unfold descend at hc
        split at hc
        · exact .inl (List.mem_of_mem_tail hc)
        · rcases List.mem_cons.mp hc with rfl | hc
          · exact .inr List.mem_cons_self
          · exact .inl hc
      · exact .inr (List.mem_cons_of_mem d hc)
  rcases hfold start.reverse (List.mem_reverse.mp h) with hc | hc
  · exact .inl (List.mem_reverse.mp hc)
  · exact .inr hc

theorem length_below_walk (start cs : List Text) :
    (below (walk start cs)).length ≤ (below start).length + (below cs).length := by
  have hfold : ∀ kept : List Text, (below (cs.foldl descend kept).reverse).length ≤
      (below kept.reverse).length + (below cs).length := by
    induction cs with
    | nil => exact fun _ => Nat.le_refl _
    | cons d cs ih =>
      intro kept
      refine (ih (descend kept d)).trans ?_
      have hcons : (below (d :: cs)).length = d.length + 1 + (below cs).length := by
        have htext : below (d :: cs) = '/' :: (d ++ below cs) := rfl
        rw [htext, List.length_cons, List.length_append]
        omega
      have hstep : (below (descend kept d).reverse).length ≤
          (below kept.reverse).length + (d.length + 1) := by
        unfold descend
        split
        · exact (length_below_of_sublist (List.reverse_sublist.mpr (List.tail_sublist kept))).trans
            (Nat.le_add_right _ _)
        · have hone : (below [d]).length = d.length + 1 := by
            rw [show below [d] = '/' :: (d ++ []) from rfl, List.append_nil]
            rfl
          rw [List.reverse_cons, below_append, List.length_append, hone]
      omega
  have h := hfold start.reverse
  rw [List.reverse_reverse] at h
  exact h

theorem resolve_proper (cwd : AbsPath) (path : Text) :
    ∃ cs, (∀ c ∈ cs, Proper c) ∧ resolve cwd path = absolute cs := by
  refine ⟨_, walk_proper (fun c hc => ?_) fun c hc => ?_, rfl⟩
  · split at hc
    · cases hc
    · exact cwd.proper c hc
  · obtain ⟨hne, hdot, hslash, -⟩ := mem_of_mem_comps hc
    exact ⟨hne, hdot, hslash⟩

theorem mem_resolve {cwd : AbsPath} {path : Text} {c : Char} (habs : isAbs path = true)
    (h : c ∈ resolve cwd path) : c = '/' ∨ c ∈ path := by
  unfold resolve at h
  rw [if_pos habs] at h
  unfold absolute at h
  split at h
  · exact .inl (List.mem_singleton.mp h)
  · obtain ⟨comp, hcomp, hc⟩ := List.mem_flatMap.mp h
    rcases List.mem_cons.mp hc with hc | hc
    · exact .inl hc
    · rcases mem_walk hcomp with hnil | hin
      · cases hnil
      · exact .inr ((mem_of_mem_comps hin).2.2.2 hc)

theorem isAbs_below (hne : cs ≠ []) (rest : Text) : isAbs (below cs ++ rest) = true := by
  obtain ⟨c, cs, rfl⟩ := List.exists_cons_of_ne_nil hne
  rfl

theorem resolve_below (hcs : ∀ c ∈ cs, Proper c) (hne : cs ≠ []) (cwd : AbsPath) (relative : Text) :
    resolve cwd (below cs ++ '/' :: relative) = absolute (walk cs (comps relative)) := by
  have hwalk : walk [] cs = cs := walk_of_proper [] fun c hc => (hcs c hc).notUp
  unfold resolve
  rw [if_pos (isAbs_below hne _), comps_append_slash, comps_below hcs, walk_append, hwalk]

theorem resolve_of_proper (hcs : ∀ c ∈ cs, Proper c) (hne : cs ≠ []) (cwd : AbsPath) :
    resolve cwd (below cs) = below cs := by
  have hwalk : walk [] cs = cs := walk_of_proper [] fun c hc => (hcs c hc).notUp
  have habs := isAbs_below hne []
  rw [List.append_nil] at habs
  unfold resolve
  rw [if_pos habs, comps_below hcs, hwalk]
  exact if_neg hne

end Walk

section Links
variable {cs : List Text} {cwd : AbsPath}

/-- What `Path.resolve` does on any host: the path it leads to has no symbolic link in it, and
how the components are spelled does not matter. -/
structure Resolves (resolve : Text → Text) : Prop where
  clean : ∀ path, ∃ cs, (∀ c ∈ cs, Proper c) ∧ resolve path = absolute cs
  idem : ∀ path, resolve (resolve path) = resolve path
  noNull : ∀ path, '\x00' ∉ path → '\x00' ∉ resolve path
  congr : ∀ path path', isAbs path = true → isAbs path' = true → comps path = comps path' →
    resolve path = resolve path'

theorem isAbs_absolute (cs : List Text) : isAbs (absolute cs) = true := by
  unfold absolute
  split
  · rfl
  · next hne =>
    have habs := isAbs_below hne []
    rwa [List.append_nil] at habs

theorem resolve_absolute (hcs : ∀ c ∈ cs, Proper c) : resolve cwd (absolute cs) = absolute cs := by
  have hwalk : walk [] cs = cs := walk_of_proper [] fun c hc => (hcs c hc).notUp
  rw [resolve, if_pos (isAbs_absolute cs), comps_absolute hcs, hwalk]

theorem mem_absolute {c : Char} (h : c ∈ absolute cs) : c = '/' ∨ ∃ comp ∈ cs, c ∈ comp := by
  unfold absolute at h
  split at h
  · exact .inl (List.mem_singleton.mp h)
  · obtain ⟨comp, hcomp, hc⟩ := List.mem_flatMap.mp h
    exact (List.mem_cons.mp hc).imp_right fun hc => ⟨comp, hcomp, hc⟩

theorem resolves_resolve (hcwd : ∀ c ∈ cwd.comps, '\x00' ∉ c) : Resolves (resolve cwd) where
  clean := resolve_proper cwd
  idem path := by
    obtain ⟨cs, hcs, hpath⟩ := resolve_proper cwd path
    rw [hpath, resolve_absolute hcs]
  noNull path hpath hnull := by
    rcases mem_absolute hnull with hslash | ⟨comp, hcomp, hc⟩
    · cases hslash
    rcases mem_walk hcomp with hstart | hin
    · split at hstart
      · cases hstart
      · exact hcwd comp hstart hc
    · exact hpath ((mem_of_mem_comps hin).2.2.2 hc)
  congr path path' habs habs' hcomps := by
    rw [resolve, resolve, if_pos habs, if_pos habs', hcomps]

end Links

end DeerFlow.Posix
