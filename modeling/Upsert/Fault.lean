/-! # Faults

A fault is a broken promise rather than an answer: a count that leaves the 64-bit words, a division
by zero, or a plan asked for with an average record size of zero. Counts are added, subtracted,
multiplied and divided with the operations of `Upsert.Checked`, each of which names its fault;
nothing wraps around.
-/

namespace Upsert

/-- What went wrong in an operation that is not allowed to fail. -/
inductive Fault where
  | addOverflow
  | subOverflow
  | mulOverflow
  | divByZero
  | nonPositiveRecordSize
deriving DecidableEq, Repr

/-- The text of a fault. -/
def Fault.message : Fault → String
  | .addOverflow => "attempt to add with overflow"
  | .subOverflow => "attempt to subtract with overflow"
  | .mulOverflow => "attempt to multiply with overflow"
  | .divByZero => "attempt to divide by zero"
  | .nonPositiveRecordSize => "average record size must be positive"

/-! ## Arithmetic on counts -/

namespace Checked

/-- The sum of two counts. -/
def add (a b : UInt64) : Except Fault UInt64 :=
  if a.toNat + b.toNat < UInt64.size then .ok (a + b) else .error .addOverflow

/-- The difference of two counts. -/
def sub (a b : UInt64) : Except Fault UInt64 :=
  if b ≤ a then .ok (a - b) else .error .subOverflow

/-- The product of two counts. -/
def mul (a b : UInt64) : Except Fault UInt64 :=
  if a.toNat * b.toNat < UInt64.size then .ok (a * b) else .error .mulOverflow

/-- The quotient of two counts, rounded down. -/
def div (a b : UInt64) : Except Fault UInt64 :=
  if b = 0 then .error .divByZero else .ok (a / b)

/-- The sum of a list of counts, from the left. -/
def sum (counts : List UInt64) : Except Fault UInt64 := counts.foldlM add 0

theorem add_eq_ok_iff {a b c : UInt64} : add a b = .ok c ↔ c.toNat = a.toNat + b.toNat := by
  unfold add
  split
  · rename_i h
    have hsum : (a + b).toNat = a.toNat + b.toNat := by
      rw [UInt64.toNat_add]
      exact Nat.mod_eq_of_lt h
    rw [Except.ok.injEq, ← hsum, UInt64.toNat_inj]
    exact eq_comm
  · rename_i h
    have hlt := c.toNat_lt_size
    constructor
    · intro heq
      cases heq
    · intro heq
      omega

theorem sub_eq_ok_iff {a b c : UInt64} : sub a b = .ok c ↔ a.toNat = b.toNat + c.toNat := by
  unfold sub
  split
  · rename_i h
    have hle : b.toNat ≤ a.toNat := UInt64.le_iff_toNat_le.mp h
    have hsub : (a - b).toNat = a.toNat - b.toNat := UInt64.toNat_sub_of_le a b h
    rw [Except.ok.injEq, ← UInt64.toNat_inj]
    omega
  · rename_i h
    have hlt : ¬ b.toNat ≤ a.toNat := fun hle => h (UInt64.le_iff_toNat_le.mpr hle)
    constructor
    · intro heq
      cases heq
    · intro heq
      omega

theorem mul_eq_ok_iff {a b c : UInt64} : mul a b = .ok c ↔ c.toNat = a.toNat * b.toNat := by
  unfold mul
  split
  · rename_i h
    have hmul : (a * b).toNat = a.toNat * b.toNat := by
      rw [UInt64.toNat_mul]
      exact Nat.mod_eq_of_lt h
    rw [Except.ok.injEq, ← hmul, UInt64.toNat_inj]
    exact eq_comm
  · rename_i h
    have hlt := c.toNat_lt_size
    constructor
    · intro heq
      cases heq
    · intro heq
      omega

end Checked

/-- The quotient of two counts, rounded up. -/
def ceilDiv (a b : UInt64) : UInt64 :=
  a / b + if a % b = 0 then 0 else 1

/-- The quotient of two counts, rounded up, where the divisor may turn out to be zero. -/
def Checked.ceilDiv (a b : UInt64) : Except Fault UInt64 :=
  if b = 0 then .error .divByZero else .ok (Upsert.ceilDiv a b)

end Upsert
