import DeerFlow.Lib.Except
import DeerFlow.Lib.PosixPath

/-! A tree of files with symbolic links: where a path leads, and how `pathlib` makes directories
and files in it one change after another. A path is the list of its components. -/

namespace DeerFlow.FileTree

abbrev Path := List Text
abbrev Bytes := List UInt8

inductive Node
  | dir
  | file (content : Bytes)
  | symlink (target : Text)
  deriving DecidableEq, Repr

abbrev Tree := Path → Option Node

/-- The walk along components up to the first symbolic link: where it leads, or the directory of
the link, its target and the components left. -/
def scan (t : Tree) : Path → List Text → Path ⊕ (Path × Text × List Text)
  | done, [] => .inl done
  | done, comp :: rest =>
    if comp = "..".toList then scan t done.dropLast rest
    else match t (done ++ [comp]) with
      | some (.symlink target) => .inr (done, target, rest)
      | _ => scan t (done ++ [comp]) rest

def follow (t : Tree) : Nat → Path → List Text → Option Path
  | links, done, comps =>
    match scan t done comps with
    | .inl path => some path
    | .inr (dir, target, rest) =>
      match links with
      | 0 => none
      | links + 1 =>
        follow t links (if Posix.isAbs target then [] else dir) (Posix.comps target ++ rest)

/-- How many links one path may lead through. -/
def maxLinks : Nat := 40

/-- Where an absolute path leads, whether or not anything is there. -/
def realpath (t : Tree) (path : Path) : Option Path := follow t maxLinks [] path

/-- `Path.resolve`. -/
def resolve (t : Tree) (cwd : Path) (path : Text) : Option Path :=
  realpath t (if Posix.isAbs path then Posix.comps path else cwd ++ Posix.comps path)

inductive Change
  | mkdir (path : Path)
  | create (path : Path)
  | write (path : Path) (chunk : Bytes)
  deriving DecidableEq, Repr

namespace Change

def path : Change → Path
  | mkdir path | create path | write path _ => path

def bytes : Change → Nat
  | mkdir _ | create _ => 0
  | write _ chunk => chunk.length

def apply (t : Tree) : Change → Tree
  | mkdir path => Function.update t path (some .dir)
  | create path => Function.update t path (some (.file []))
  | write path chunk =>
    match t path with
    | some (.file content) => Function.update t path (some (.file (content ++ chunk)))
    | _ => t

end Change

def replay (t : Tree) (log : List Change) : Tree := log.foldl Change.apply t

def written (log : List Change) : Nat := (log.map Change.bytes).sum

/-- A tree with everything that was done to it. -/
structure Disk where
  tree : Tree
  log : List Change

namespace Disk

def fresh (t : Tree) : Disk := ⟨t, []⟩

def after (d : Disk) (c : Change) : Disk := ⟨c.apply d.tree, d.log ++ [c]⟩

@[simp] theorem tree_after (d : Disk) (c : Change) : (d.after c).tree = c.apply d.tree := rfl

@[simp] theorem log_after (d : Disk) (c : Change) : (d.after c).log = d.log ++ [c] := rfl

end Disk

inductive OsError
  | fileExists
  | notFound
  | notDirectory
  | isDirectory
  | linkLoop
  deriving DecidableEq, Repr

abbrev OnDisk := Fallible Disk OsError

def perform {ε : Type} (c : Change) : Fallible Disk ε Unit := modify fun d => d.after c

def isFile : Option Node → Bool
  | some (.file _) => true
  | _ => false

/-- Why a path in a directory that is not there cannot be used. -/
def missing (t : Tree) (dir : Path) : OsError :=
  if dir.inits.any fun up => isFile (t up) then .notDirectory else .notFound

def isDir (t : Tree) (path : Path) : Bool :=
  (realpath t path).any fun dir => decide (t dir = some .dir)

/-- Which directory `os.mkdir` makes. -/
def osMkdir (t : Tree) (parent : Path) (name : Text) : Except OsError Path :=
  match realpath t parent with
  | none => .error .linkLoop
  | some dir =>
    if t dir ≠ some .dir then .error (missing t dir)
    else if t (dir ++ [name]) = none then .ok (dir ++ [name])
    else .error .fileExists

/-- `Path.mkdir(exist_ok=True)`. -/
def mkdirOnce (parent : Path) (name : Text) : OnDisk Unit := do
  let d ← get
  match osMkdir d.tree parent name with
  | .ok path => perform (.mkdir path)
  | .error .notFound => throw .notFound
  | .error e => if isDir d.tree (parent ++ [name]) then pure () else throw e

/-- `Path.mkdir(parents=True, exist_ok=True)` of a path given from its last component. -/
def makeDirs : List Text → OnDisk Unit
  | [] => do
    let d ← get
    if isDir d.tree [] then pure () else throw .fileExists
  | name :: up => do
    let d ← get
    match osMkdir d.tree up.reverse name with
    | .ok path => perform (.mkdir path)
    | .error .notFound => do
      makeDirs up
      mkdirOnce up.reverse name
    | .error e => if isDir d.tree (up.reverse ++ [name]) then pure () else throw e

def mkdir (path : Path) : OnDisk Unit := makeDirs path.reverse

/-- `Path.open("wb")`: the file it opens is empty then. -/
def openWb (path : Path) : OnDisk Path := do
  let d ← get
  match realpath d.tree path with
  | none => throw .linkLoop
  | some dst =>
    match d.tree dst with
    | some .dir => throw .isDirectory
    | some _ => do
      perform (.create dst)
      pure dst
    | none =>
      if d.tree dst.dropLast = some .dir then do
        perform (.create dst)
        pure dst
      else throw (missing d.tree dst.dropLast)

section Replay
variable {t : Tree} {log : List Change} {p : Path}

theorem replay_append (t : Tree) (log more : List Change) :
    replay t (log ++ more) = replay (replay t log) more := List.foldl_append

theorem written_append (log more : List Change) :
    written (log ++ more) = written log + written more := by
  unfold written
  rw [List.map_append, List.sum_append]

theorem written_mono {moment : List Change} (h : moment <+: log) :
    written moment ≤ written log := by
  obtain ⟨rest, rfl⟩ := h
  rw [written_append]
  exact Nat.le_add_right _ _

theorem Change.apply_write {content : Bytes} (h : t p = some (.file content)) (chunk : Bytes) :
    (Change.write p chunk).apply t = Function.update t p (some (.file (content ++ chunk))) := by
  simp only [Change.apply, h]

/-- A change at a path leaves a directory or a file there, and nothing changes elsewhere. -/
theorem Change.apply_cases (c : Change) (t : Tree) (p : Path) :
    c.apply t p = t p ∨ c = .mkdir p ∧ c.apply t p = some .dir ∨
      c ≠ .mkdir p ∧ c.path = p ∧ ∃ content, c.apply t p = some (.file content) := by
  cases c with
  | mkdir path =>
    by_cases hp : p = path
    · exact .inr (.inl ⟨congrArg _ hp.symm, hp ▸ Function.update_self ..⟩)
    · exact .inl (Function.update_of_ne hp ..)
  | create path =>
    by_cases hp : p = path
    · exact .inr (.inr ⟨nofun, hp.symm, [], hp ▸ Function.update_self ..⟩)
    · exact .inl (Function.update_of_ne hp ..)
  | write path chunk =>
    by_cases hfile : ∃ content, t path = some (.file content)
    · obtain ⟨content, hfile⟩ := hfile
      rw [Change.apply_write hfile]
      by_cases hp : p = path
      · exact .inr (.inr ⟨nofun, hp.symm, content ++ chunk, hp ▸ Function.update_self ..⟩)
      · exact .inl (Function.update_of_ne hp ..)
    · have hsame : (Change.write path chunk).apply t = t := by
        simp only [Change.apply]
        split
        · next content hcontent => exact absurd ⟨content, hcontent⟩ hfile
        · rfl
      exact .inl (congrFun hsame p)

theorem Change.apply_of_ne {c : Change} (h : c.path ≠ p) (t : Tree) : c.apply t p = t p := by
  rcases c.apply_cases t p with hsame | ⟨rfl, -⟩ | ⟨-, hp, -⟩
  · exact hsame
  · exact absurd rfl h
  · exact absurd hp h

/-- What no change of a log undoes holds at the end of it. -/
theorem replay_keeps {motive : Option Node → Prop} (h : motive (t p))
    (hkeeps : ∀ c ∈ log, ∀ t : Tree, motive (t p) → motive (c.apply t p)) :
    motive (replay t log p) := by
  induction log generalizing t with
  | nil => exact h
  | cons c log ih =>
    exact ih (hkeeps c List.mem_cons_self t h) fun c' hc' => hkeeps c' (List.mem_cons_of_mem c hc')

theorem Change.apply_symlink {c : Change} {target : Text}
    (h : c.apply t p = some (.symlink target)) : t p = some (.symlink target) := by
  rcases c.apply_cases t p with hsame | ⟨-, hdir⟩ | ⟨-, -, content, hfile⟩
  · exact hsame.symm.trans h
  · rw [hdir] at h
    cases h
  · rw [hfile] at h
    cases h

theorem replay_symlink {target : Text} (h : replay t log p = some (.symlink target)) :
    t p = some (.symlink target) := by
  have hkeeps : replay t log p = some (.symlink target) → t p = some (.symlink target) :=
    replay_keeps (motive := fun node => node = some (.symlink target) → t p = some (.symlink target))
      id fun c _ t' ht' hc => ht' (Change.apply_symlink hc)
  exact hkeeps h

theorem ne_none_of_replay (h : replay t log p = none) : t p = none := by
  by_contra hsome
  have hkeeps : replay t log p ≠ none := by
    refine replay_keeps (motive := fun node => node ≠ none) hsome fun c _ t' ht' => ?_
    rcases c.apply_cases t' p with hsame | ⟨-, hdir⟩ | ⟨-, -, content, hfile⟩
    · rwa [hsame]
    · rw [hdir]
      exact nofun
    · rw [hfile]
      exact nofun
  exact hkeeps h

end Replay

/-- On the way to a directory, or in it. -/
def Near (root p : Path) : Prop := p <+: root ∨ root <+: p

def LinkFree (t : Tree) (root : Path) : Prop :=
  ∀ p, Near root p → ∀ target, t p ≠ some (.symlink target)

/-- What confines a change to a directory: no file is made or written outside it, and of the
directories above it only missing ones are made. -/
def Within (start : Tree) (root : Path) : Change → Prop
  | .mkdir p => root <+: p ∨ p <+: root ∧ start p = none
  | .create p | .write p _ => root <+: p

structure Confined (start : Tree) (root : Path) (d : Disk) : Prop where
  replays : d.tree = replay start d.log
  linkFree : LinkFree d.tree root
  within : ∀ c ∈ d.log, Within start root c

section Links
variable {t : Tree} {root p q : Path}

theorem Near.of_prefix (h : Near root p) (hq : q <+: p) : Near root q := by
  rcases h with h | h
  · exact .inl (hq.trans h)
  · exact List.prefix_or_prefix_of_prefix hq h

theorem scan_eq {done comps : List Text}
    (hlinks : ∀ p, p <+: done ++ comps → ∀ target, t p ≠ some (.symlink target))
    (hup : "..".toList ∉ comps) : scan t done comps = .inl (done ++ comps) := by
  induction comps generalizing done with
  | nil => rw [List.append_nil]; rfl
  | cons comp comps ih =>
    obtain ⟨hcomp, hrest⟩ := not_or.mp (mt List.mem_cons.mpr hup)
    have hsplit : done ++ comp :: comps = done ++ [comp] ++ comps := by
      rw [List.append_assoc]
      rfl
    rw [hsplit] at hlinks ⊢
    have hnext := hlinks (done ++ [comp]) (List.prefix_append ..)
    rw [scan, if_neg (Ne.symm hcomp)]
    split
    · next target htarget => exact absurd htarget (hnext target)
    · exact ih hlinks hrest

theorem realpath_eq (hfree : LinkFree t root) (hp : Near root p) (hup : "..".toList ∉ p) :
    realpath t p = some p := by
  have hscan : scan t [] p = .inl p := scan_eq (fun q hq => hfree q (hp.of_prefix hq)) hup
  rw [realpath, maxLinks, follow, hscan]

theorem notUp_of_scan {done comps : List Text} (hdone : "..".toList ∉ done) :
    (∀ p, scan t done comps = .inl p → "..".toList ∉ p) ∧
      ∀ dir target rest, scan t done comps = .inr (dir, target, rest) → "..".toList ∉ dir := by
  induction comps generalizing done with
  | nil => exact ⟨fun p h => Sum.inl.inj h ▸ hdone, nofun⟩
  | cons comp comps ih =>
    rw [scan]
    split
    · exact ih fun h => hdone (List.mem_of_mem_dropLast h)
    · next hcomp =>
      split
      · refine ⟨nofun, fun dir target rest h => ?_⟩
        obtain ⟨rfl, -⟩ := Prod.mk.inj (Sum.inr.inj h)
        exact hdone
      · refine ih fun h => ?_
        rcases List.mem_append.mp h with h | h
        · exact hdone h
        · exact hcomp (List.mem_singleton.mp h).symm

theorem notUp_of_follow {links : Nat} {done comps : List Text} (hdone : "..".toList ∉ done)
    (h : follow t links done comps = some p) : "..".toList ∉ p := by
  induction links generalizing done comps with
  | zero =>
    rw [follow] at h
    split at h
    · next hscan =>
      cases h
      exact (notUp_of_scan hdone).1 _ hscan
    · cases h
  | succ links ih =>
    rw [follow] at h
    split at h
    · next hscan =>
      cases h
      exact (notUp_of_scan hdone).1 _ hscan
    · next dir target rest hscan =>
      refine ih ?_ h
      split
      · exact List.not_mem_nil
      · exact (notUp_of_scan hdone).2 dir target rest hscan

theorem notUp_of_resolve {cwd : Path} {path : Text} (h : resolve t cwd path = some p) :
    "..".toList ∉ p := notUp_of_follow List.not_mem_nil h

end Links

namespace Confined
variable {start : Tree} {root p : Path} {d : Disk} {c : Change}

theorem fresh (h : LinkFree start root) : Confined start root (.fresh start) where
  replays := rfl
  linkFree := h
  within := nofun

theorem after (h : Confined start root d) (hc : Within start root c) :
    Confined start root (d.after c) where
  replays := by
    rw [Disk.tree_after, Disk.log_after, replay_append, ← h.replays]
    rfl
  linkFree p hp target htarget := h.linkFree p hp target (Change.apply_symlink htarget)
  within c' hc' := by
    rcases List.mem_append.mp hc' with hc' | hc'
    · exact h.within c' hc'
    · obtain rfl := List.mem_singleton.mp hc'
      exact hc

theorem none_start (h : Confined start root d) (hp : d.tree p = none) : start p = none :=
  ne_none_of_replay (h.replays ▸ hp)

theorem mkdir (h : Confined start root d) (hp : Near root p) (hnone : d.tree p = none) :
    Confined start root (d.after (.mkdir p)) := by
  refine h.after ?_
  rcases hp with hp | hp
  · exact .inr ⟨hp, h.none_start hnone⟩
  · exact .inl hp

end Confined

/-- What confined changes leave behind differs from the start in directories and files of the
root, and in directories above it that were missing. -/
theorem replay_of_within {start : Tree} {root p : Path} {log : List Change}
    (h : ∀ c ∈ log, Within start root c) (hp : replay start log p ≠ start p) :
    root <+: p ∧ (replay start log p = some .dir ∨
        ∃ content, replay start log p = some (.file content)) ∨
      p <+: root ∧ start p = none ∧ replay start log p = some .dir := by
  have hkeeps : replay start log p = start p ∨
      root <+: p ∧ (replay start log p = some .dir ∨
        ∃ content, replay start log p = some (.file content)) ∨
      p <+: root ∧ start p = none ∧ replay start log p = some .dir := by
    refine replay_keeps (motive := fun node => node = start p ∨
      root <+: p ∧ (node = some .dir ∨ ∃ content, node = some (.file content)) ∨
      p <+: root ∧ start p = none ∧ node = some .dir) (.inl rfl) fun c hc t ht => ?_
    rcases c.apply_cases t p with hsame | ⟨rfl, hdir⟩ | ⟨hne, rfl, content, hfile⟩
    · rwa [hsame]
    · rcases h _ hc with hroot | ⟨hroot, hnone⟩
      · exact .inr (.inl ⟨hroot, .inl hdir⟩)
      · exact .inr (.inr ⟨hroot, hnone, hdir⟩)
    · have hroot : root <+: c.path := by
        have hc' := h c hc
        cases c with
        | mkdir path => exact absurd rfl hne
        | create path | write path chunk => exact hc'
      exact .inr (.inl ⟨hroot, .inr ⟨content, hfile⟩⟩)
  exact hkeeps.resolve_left hp

section Rules
variable {inv : Disk → Prop} {root p : Path} {d : Disk}

theorem perform_bind {ε β : Type} {c : Change} {f : Unit → Fallible Disk ε β}
    {raised : Disk → Prop} {returned : β → Disk → Prop}
    (h : EndsIn (f ()) (d.after c) raised returned) :
    EndsIn (perform c >>= f) d raised returned := h

theorem osMkdir_eq_ok {t : Tree} {parent : Path} {name : Text} (hfree : LinkFree t root)
    (hp : Near root (parent ++ [name])) (hup : "..".toList ∉ parent ++ [name])
    (h : osMkdir t parent name = .ok p) : p = parent ++ [name] ∧ t p = none := by
  have hparent : realpath t parent = some parent :=
    realpath_eq hfree (hp.of_prefix (List.prefix_append ..)) fun hmem =>
      hup (List.mem_append_left _ hmem)
  rw [osMkdir, hparent] at h
  simp only at h
  split_ifs at h with hdir hnone
  cases h
  exact ⟨rfl, hnone⟩

/-- What any missing directory near the root may be made under. -/
structure Allows (root : Path) (inv : Disk → Prop) : Prop where
  linkFree : ∀ d, inv d → LinkFree d.tree root
  mkdir : ∀ d p, inv d → Near root p → d.tree p = none → inv (d.after (.mkdir p))

theorem mkdirOnce_ends (hallows : Allows root inv) {parent : Path} {name : Text}
    (hp : Near root (parent ++ [name])) (hup : "..".toList ∉ parent ++ [name]) (h : inv d) :
    EndsIn (mkdirOnce parent name) d inv fun _ => inv := by
  unfold mkdirOnce
  refine .get_bind ?_
  split
  · next path hok =>
    obtain ⟨rfl, hnone⟩ := osMkdir_eq_ok (hallows.linkFree d h) hp hup hok
    exact .modify (hallows.mkdir d _ h hp hnone)
  · exact .throw h
  · split
    · exact .pure h
    · exact .throw h

theorem makeDirs_ends (hallows : Allows root inv) {up : List Text} (hp : Near root up.reverse)
    (hup : "..".toList ∉ up) (h : inv d) : EndsIn (makeDirs up) d inv fun _ => inv := by
  induction up generalizing d with
  | nil =>
    unfold makeDirs
    refine .get_bind ?_
    split
    · exact .pure h
    · exact .throw h
  | cons name up ih =>
    have hup' : "..".toList ∉ up.reverse ++ [name] := by
      rw [← List.reverse_cons, List.mem_reverse]
      exact hup
    rw [List.reverse_cons] at hp
    unfold makeDirs
    refine .get_bind ?_
    split
    · next path hok =>
      obtain ⟨rfl, hnone⟩ := osMkdir_eq_ok (hallows.linkFree d h) hp hup' hok
      exact .modify (hallows.mkdir d _ h hp hnone)
    · have hparents := ih (hp.of_prefix (List.prefix_append ..))
        (fun hmem => hup (List.mem_cons_of_mem _ hmem)) h
      exact hparents.bind fun _ d' h' => mkdirOnce_ends hallows hp hup' h'
    · split
      · exact .pure h
      · exact .throw h

theorem mkdir_ends (hallows : Allows root inv) (hp : Near root p) (hup : "..".toList ∉ p)
    (h : inv d) : EndsIn (mkdir p) d inv fun _ => inv := by
  refine makeDirs_ends hallows ?_ (fun hmem => hup (List.mem_reverse.mp hmem)) h
  rwa [List.reverse_reverse]

theorem openWb_ends (hfree : LinkFree d.tree root) (hp : Near root p) (hup : "..".toList ∉ p) :
    EndsIn (openWb p) d (fun d' => d' = d) fun dst d' => dst = p ∧ d' = d.after (.create p) ∧
      d.tree p ≠ some .dir := by
  unfold openWb
  refine .get_bind ?_
  rw [realpath_eq hfree hp hup]
  simp only
  split
  · exact .throw rfl
  · next node hnot hnode =>
    refine perform_bind (.pure ⟨rfl, rfl, fun hdir => hnot ?_⟩)
    exact Option.some.inj (hnode.symm.trans hdir)
  · next hnone =>
    split
    · refine perform_bind (.pure ⟨rfl, rfl, fun hdir => ?_⟩)
      rw [hdir] at hnone
      cases hnone
    · exact .throw rfl

end Rules

end DeerFlow.FileTree
