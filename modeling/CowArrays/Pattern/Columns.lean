import CowArrays.Failure

/-!
Sets of columns, the rows of a sparsity pattern: ascending lists without repetition, so that two
sets are equal exactly when they have the same members.
-/

namespace CowArrays

structure Columns where
  toList : List Nat
  ascending : toList.Pairwise (· < ·)
  deriving DecidableEq

namespace Columns

@[ext] theorem ext {a b : Columns} (h : a.toList = b.toList) : a = b := by
  cases a; cases b; congr

def empty : Columns := ⟨[], .nil⟩

def below (n : Nat) : Columns := ⟨List.range n, List.pairwise_lt_range⟩

def insertSorted (c : Nat) : List Nat → List Nat
  | [] => [c]
  | x :: xs => if c < x then c :: x :: xs else if c = x then x :: xs else x :: insertSorted c xs

theorem mem_insertSorted {c x : Nat} {xs : List Nat} :
    x ∈ insertSorted c xs ↔ x = c ∨ x ∈ xs := by
  induction xs with
  | nil => simp [insertSorted]
  | cons y ys ih => grind [insertSorted]

theorem pairwise_insertSorted {c : Nat} {xs : List Nat} (h : xs.Pairwise (· < ·)) :
    (insertSorted c xs).Pairwise (· < ·) := by
  induction xs with
  | nil => simp [insertSorted]
  | cons y ys ih =>
    have hy := List.pairwise_cons.1 h
    unfold insertSorted
    split
    · rename_i hc
      exact List.pairwise_cons.2 ⟨fun z hz => by
        rcases List.mem_cons.1 hz with rfl | hz
        · exact hc
        · exact Nat.lt_trans hc (hy.1 z hz), h⟩
    · split
      · exact h
      · refine List.pairwise_cons.2 ⟨fun z hz => ?_, ih hy.2⟩
        rcases mem_insertSorted.1 hz with rfl | hz
        · omega
        · exact hy.1 z hz

instance : Membership Nat Columns := ⟨fun s c => c ∈ s.toList⟩

instance (c : Nat) (s : Columns) : Decidable (c ∈ s) := inferInstanceAs (Decidable (c ∈ s.toList))

def contains (s : Columns) (c : Nat) : Bool := s.toList.contains c

def size (s : Columns) : Nat := s.toList.length

def insert (s : Columns) (c : Nat) : Columns :=
  ⟨insertSorted c s.toList, pairwise_insertSorted s.ascending⟩

def erase (s : Columns) (c : Nat) : Columns :=
  ⟨s.toList.filter (· != c), s.ascending.filter _⟩

def insertAll (s : Columns) (cs : List Nat) : Columns := cs.foldl insert s

def ofList (cs : List Nat) : Columns := empty.insertAll cs

theorem mem_def {s : Columns} {c : Nat} : c ∈ s ↔ c ∈ s.toList := Iff.rfl

theorem contains_iff {s : Columns} {c : Nat} : s.contains c = true ↔ c ∈ s := by
  simp [contains, mem_def]

theorem mem_below {n c : Nat} : c ∈ below n ↔ c < n := by simp [mem_def, below]

theorem mem_insert {s : Columns} {c x : Nat} : x ∈ s.insert c ↔ x = c ∨ x ∈ s := mem_insertSorted

theorem mem_insertAll {s : Columns} {cs : List Nat} {x : Nat} :
    x ∈ s.insertAll cs ↔ x ∈ cs ∨ x ∈ s := by
  induction cs generalizing s with
  | nil => simp [insertAll]
  | cons c cs ih => exact (ih (s := s.insert c)).trans (by simp [mem_insert]; grind)

theorem mem_ofList {cs : List Nat} {x : Nat} : x ∈ ofList cs ↔ x ∈ cs := by
  have h : x ∉ empty := List.not_mem_nil
  simp [ofList, mem_insertAll, h]

theorem eq_of_ascending {xs ys : List Nat} (hx : xs.Pairwise (· < ·)) (hy : ys.Pairwise (· < ·))
    (h : ∀ c, c ∈ xs ↔ c ∈ ys) : xs = ys := by
  induction xs generalizing ys with
  | nil => exact (List.eq_nil_iff_forall_not_mem.2 fun c hc => by simpa using (h c).2 hc).symm
  | cons x xs ih =>
    cases ys with
    | nil => simpa using (h x).1 List.mem_cons_self
    | cons y ys =>
      have ⟨hx, hxs⟩ := List.pairwise_cons.1 hx
      have ⟨hy, hys⟩ := List.pairwise_cons.1 hy
      obtain rfl : x = y := by
        have := (h x).1 List.mem_cons_self
        have := (h y).2 List.mem_cons_self
        grind
      exact congrArg _ (ih hxs hys fun c => by have := h c; grind)

theorem eq_iff_mem {a b : Columns} : a = b ↔ ∀ c, c ∈ a ↔ c ∈ b :=
  ⟨fun h _ => h ▸ Iff.rfl, fun h => ext (eq_of_ascending a.ascending b.ascending h)⟩

/-- The members of a list that pass a test, tested from the left. The first test that fails
decides. -/
def keepFrom (test : Nat → Attempt Bool) :
    (cs : List Nat) → Attempt { kept : List Nat // kept.Sublist cs }
  | [] => .ok ⟨[], .slnil⟩
  | c :: cs => do
    let passes ← test c
    let ⟨kept, h⟩ ← keepFrom test cs
    return if passes then ⟨c :: kept, h.cons_cons c⟩ else ⟨kept, h.cons c⟩

/-- The columns that pass a test, tested in ascending order. -/
def keep (s : Columns) (test : Nat → Attempt Bool) : Attempt Columns := do
  let ⟨kept, h⟩ ← keepFrom test s.toList
  return ⟨kept, s.ascending.sublist h⟩

end Columns
end CowArrays
