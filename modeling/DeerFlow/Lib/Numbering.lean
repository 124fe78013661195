import Mathlib

/-! Numbers given out for keys, and two ways to give the next one: counting on
from the last, and counting on from the greatest of those still kept. The first
never gives a number again; the second does as soon as the last is gone. -/

namespace DeerFlow.Numbering
variable {κ : Type*} {xs ys : List (κ × ℤ)} {k : κ} {n : ℤ}

def Ascending (xs : List (κ × ℤ)) : Prop := xs.Pairwise fun x y => x.1 = y.1 → x.2 < y.2

/-- `n` is above all numbers of `k`. -/
def Above (xs : List (κ × ℤ)) (k : κ) (n : ℤ) : Prop := ∀ x ∈ xs, x.1 = k → x.2 < n

/-- `j` numbers for `k`, from `n + 1` on. -/
def block (k : κ) (n : ℤ) : ℕ → List (κ × ℤ)
  | 0 => []
  | j + 1 => (k, n + 1) :: block k (n + 1) j

theorem mem_block {j : ℕ} {x : κ × ℤ} (h : x ∈ block k n j) : x.1 = k ∧ n < x.2 := by
  induction j generalizing n with
  | zero => cases h
  | succ j ih =>
    rcases List.mem_cons.mp h with rfl | h
    · exact ⟨rfl, Int.lt_succ n⟩
    · have hx := ih h
      exact ⟨hx.1, by omega⟩

theorem ascending_block (k : κ) (n : ℤ) (j : ℕ) : Ascending (block k n j) := by
  induction j generalizing n with
  | zero => exact .nil
  | succ j ih =>
    refine List.pairwise_cons.mpr ⟨fun x hx _ => ?_, ih (n + 1)⟩
    exact (mem_block hx).2

theorem Ascending.append_block (h : Ascending xs) (habove : Above xs k (n + 1)) (j : ℕ) :
    Ascending (xs ++ block k n j) := by
  refine List.pairwise_append.mpr ⟨h, ascending_block k n j, fun x hx y hy hxy => ?_⟩
  have hy := mem_block hy
  have hx := habove x hx (hxy.trans hy.1)
  omega

theorem Ascending.above_of_append (h : Ascending (xs ++ (k, n) :: ys)) : Above xs k n :=
  fun x hx hk => (List.pairwise_append.mp h).2.2 x hx (k, n) (List.mem_cons_self ..) hk

section Counter
variable [DecidableEq κ]

/-- A counter that no number given for its key exceeds. -/
structure Counts (counter : κ → ℤ) (xs : List (κ × ℤ)) : Prop where
  ascending : Ascending xs
  le : ∀ x ∈ xs, x.2 ≤ counter x.1

theorem Counts.next {counter counter' : κ → ℤ} (h : Counts counter xs)
    (hself : counter' k = counter k + 1) (hother : ∀ l, l ≠ k → counter' l = counter l) :
    Counts counter' (xs ++ [(k, counter k + 1)]) := by
  constructor
  · have habove : Above xs k (counter k + 1) := by
      rintro x hx rfl
      have := h.le x hx
      omega
    exact h.ascending.append_block habove 1
  · intro x hx
    rcases List.mem_append.mp hx with hx | hx
    · have hle := h.le x hx
      by_cases hk : x.1 = k
      · rw [hk] at hle ⊢
        omega
      · rwa [hother _ hk]
    · rw [List.mem_singleton.mp hx, hself]

end Counter

section Last
variable [DecidableEq κ]

/-- What was given last for `k`. -/
def last? (xs : List (κ × ℤ)) (k : κ) : Option (κ × ℤ) := (xs.filter fun x => x.1 = k).getLast?

theorem Ascending.le_last (h : Ascending xs) {l x : κ × ℤ} (hl : last? xs k = some l)
    (hx : x ∈ xs) (hk : x.1 = k) : x.2 ≤ l.2 ∧ (x.2 = l.2 → x = l) := by
  have hmem : x ∈ xs.filter fun x => x.1 = k := by simpa using ⟨hx, hk⟩
  obtain ⟨front, hfront⟩ := List.getLast?_eq_some_iff.mp hl
  have hl : l.1 = k := by
    have : l ∈ xs.filter fun x => x.1 = k := by simp [hfront]
    simpa using (List.mem_filter.mp this).2
  have hfilter : Ascending (front ++ [l]) := hfront ▸ h.filter _
  rw [hfront] at hmem
  rcases List.mem_append.mp hmem with hmem | hmem
  · have hlt := (List.pairwise_append.mp hfilter).2.2 x hmem l (List.mem_singleton_self _)
      (hk.trans hl.symm)
    exact ⟨le_of_lt hlt, fun he => absurd he (ne_of_lt hlt)⟩
  · obtain rfl := List.mem_singleton.mp hmem
    exact ⟨le_rfl, fun _ => rfl⟩

theorem last?_eq_none : last? xs k = none ↔ ∀ x ∈ xs, x.1 ≠ k := by
  simp [last?]

theorem last?_mem {l : κ × ℤ} (h : last? xs k = some l) : l ∈ xs ∧ l.1 = k := by
  have hmem := List.mem_of_getLast? h
  simpa using hmem

/-- Counting on from the greatest number `n` of those kept gives a new number just when the
number given last for the key is among them. -/
theorem Ascending.above_iff_last_mem (h : Ascending xs) (hpos : ∀ x ∈ xs, 0 < x.2)
    {kept : List (κ × ℤ)} (hkept : ∀ x ∈ kept, x ∈ xs) (hmax : ∀ x ∈ kept, x.1 = k → x.2 ≤ n)
    (hn : (k, n) ∈ kept ∨ n = 0) :
    Above xs k (n + 1) ↔ ∀ l, last? xs k = some l → l ∈ kept := by
  constructor
  · intro habove l hl
    obtain ⟨hmem, hk⟩ := last?_mem hl
    have hlt := habove l hmem hk
    have hlpos := hpos l hmem
    rcases hn with hn | rfl
    · have hle := (h.le_last hl (hkept _ hn) rfl)
      have heq : ((k, n) : κ × ℤ) = l := hle.2 (by
        have := hle.1
        simp only at this ⊢
        omega)
      exact heq ▸ hn
    · omega
  · intro hlast x hx hk
    rcases hl : last? xs k with _ | l
    · exact absurd hk (last?_eq_none.mp hl x hx)
    · have hle := (h.le_last hl hx hk).1
      have hln := hmax l (hlast l hl) (last?_mem hl).2
      omega

end Last

end DeerFlow.Numbering
