import Mathlib

/-!
# The flag of a `RefCell`

What a `RefCell` knows of its guards is one number, an `isize`: how many share the value,
or -1 while one has it to itself. `Counts` says that the number is right,
and the laws are that every operation keeps it so.
-/

namespace BorrowFlag

def unused : Int := 0

/-- `BorrowRef::new`; `max` is the largest number, after which the sum is negative. -/
def share (max : Nat) (flag : Int) : Option Int :=
  if 0 ≤ flag ∧ flag < max then some (flag + 1) else none

/-- `BorrowRefMut::new`. -/
def exclude (flag : Int) : Option Int := if flag = unused then some (-1) else none

/-- A shared guard is dropped. -/
def unshare (flag : Int) : Int := flag - 1

/-- The guard that has the value to itself is dropped. -/
def unexclude (flag : Int) : Int := flag + 1

/-- There are so many guards of either kind. -/
structure Counts (max : Nat) (flag : Int) (shared exclusive : Nat) : Prop where
  sum : flag = shared - exclusive
  one : exclusive ≤ 1
  alone : exclusive = 1 → shared = 0
  bounded : shared ≤ max

variable {max shared exclusive : Nat} {flag flag' : Int}

namespace Counts

theorem unused : Counts max unused 0 0 := ⟨rfl, by omega, by omega, by omega⟩

theorem share (counts : Counts max flag shared exclusive)
    (shares : BorrowFlag.share max flag = some flag') :
    Counts max flag' (shared + 1) exclusive := by
  obtain ⟨sum, one, alone, bounded⟩ := counts
  unfold BorrowFlag.share at shares
  split at shares
  next free =>
    cases shares
    constructor <;> omega
  next => cases shares

theorem exclude (counts : Counts max flag shared exclusive)
    (excludes : BorrowFlag.exclude flag = some flag') :
    Counts max flag' shared (exclusive + 1) := by
  obtain ⟨sum, one, alone, bounded⟩ := counts
  unfold BorrowFlag.exclude BorrowFlag.unused at excludes
  split at excludes
  next free =>
    cases excludes
    constructor <;> omega
  next => cases excludes

theorem unshare (counts : Counts max flag (shared + 1) exclusive) :
    Counts max (BorrowFlag.unshare flag) shared exclusive := by
  obtain ⟨sum, one, alone, bounded⟩ := counts
  unfold BorrowFlag.unshare
  constructor <;> omega

theorem unexclude (counts : Counts max flag shared (exclusive + 1)) :
    Counts max (BorrowFlag.unexclude flag) shared exclusive := by
  obtain ⟨sum, one, alone, bounded⟩ := counts
  unfold BorrowFlag.unexclude
  constructor <;> omega

/-- A new guard can share the value unless one has it to itself, or there are too many. -/
theorem share_iff (counts : Counts max flag shared exclusive) :
    (BorrowFlag.share max flag).isSome ↔ exclusive = 0 ∧ shared < max := by
  obtain ⟨sum, one, alone, bounded⟩ := counts
  unfold BorrowFlag.share
  split <;> simp only [Option.isSome_some, Option.isSome_none, true_iff, false_iff,
    Bool.false_eq_true] <;> omega

/-- A new guard can have the value to itself while there is no other one. -/
theorem exclude_iff (counts : Counts max flag shared exclusive) :
    (BorrowFlag.exclude flag).isSome ↔ exclusive = 0 ∧ shared = 0 := by
  obtain ⟨sum, one, alone, bounded⟩ := counts
  unfold BorrowFlag.exclude BorrowFlag.unused
  split <;> simp only [Option.isSome_some, Option.isSome_none, true_iff, false_iff,
    Bool.false_eq_true] <;> omega

end Counts

end BorrowFlag
