import Upsert.Binary64.Rounding

/-! # Arithmetic on doubles

Each operation takes the exact value of its operands, computes in whole numbers, and rounds once
with `rounded`. The comparison of numbers goes through `position?`, in which the two zeros coincide
and NaN has no place: every comparison with NaN is false.
-/

namespace Upsert.Binary64

/-- The value of a finite double in quanta. -/
def signedQuanta (negative : Bool) (magnitude : Magnitude) : Int :=
  if negative then -(magnitude.quanta : Int) else magnitude.quanta

/-- The place of a number on the line, in quanta; the infinities stand just past all finite
doubles, and NaN has no place. -/
def position? : Binary64 → Option Int
  | .nan => none
  | .infinite true => some (-(limit : Int))
  | .infinite false => some limit
  | .finite negative magnitude => some (signedQuanta negative magnitude)

/-- `x` is less than `y`. -/
def lt (x y : Binary64) : Bool :=
  match x.position?, y.position? with
  | some a, some b => decide (a < b)
  | _, _ => false

/-- `x` and `y` are the same number; the zeros are, and NaN is not the same as itself. -/
def same (x y : Binary64) : Bool :=
  match x.position?, y.position? with
  | some a, some b => decide (a = b)
  | _, _ => false

/-- `x` is not greater than `y`. -/
def le (x y : Binary64) : Bool :=
  match x.position?, y.position? with
  | some a, some b => decide (a ≤ b)
  | _, _ => false

theorem exists_position? {x : Binary64} (h : x ≠ .nan) : ∃ a, x.position? = some a := by
  match x with
  | .nan => exact absurd rfl h
  | .infinite true => exact ⟨_, rfl⟩
  | .infinite false => exact ⟨_, rfl⟩
  | .finite _ _ => exact ⟨_, rfl⟩

theorem lt_eq_true_iff {x y : Binary64} :
    x.lt y = true ↔ ∃ a b, x.position? = some a ∧ y.position? = some b ∧ a < b := by
  unfold lt
  cases x.position? <;> cases y.position? <;> simp

theorem le_eq_true_iff {x y : Binary64} :
    x.le y = true ↔ ∃ a b, x.position? = some a ∧ y.position? = some b ∧ a ≤ b := by
  unfold le
  cases x.position? <;> cases y.position? <;> simp

theorem same_eq_true_iff {x y : Binary64} :
    x.same y = true ↔ ∃ a, x.position? = some a ∧ y.position? = some a := by
  unfold same
  cases x.position? <;> cases y.position? <;> simp [eq_comm]

/-- A number is less than another exactly where the other is not less than it or the same. -/
theorem lt_eq_not_le {x y : Binary64} (hx : x ≠ .nan) (hy : y ≠ .nan) : x.lt y = !y.le x := by
  obtain ⟨a, ha⟩ := exists_position? hx
  obtain ⟨b, hb⟩ := exists_position? hy
  simp only [lt, le, ha, hb]
  rw [← decide_not, decide_eq_decide]
  omega

theorem lt_of_le_of_lt {x y z : Binary64} (hxy : x.le y = true) (hyz : y.lt z = true) :
    x.lt z = true := by
  obtain ⟨a, b, ha, hb, hab⟩ := le_eq_true_iff.mp hxy
  obtain ⟨b', c, hb', hc, hbc⟩ := lt_eq_true_iff.mp hyz
  cases hb.symm.trans hb'
  exact lt_eq_true_iff.mpr ⟨a, c, ha, hc, Int.lt_of_le_of_lt hab hbc⟩

/-- Of two like numbers both are less than a third one, or none is. -/
theorem lt_congr_left {x y : Binary64} (h : x.same y = true) (z : Binary64) : x.lt z = y.lt z := by
  obtain ⟨a, ha, hb⟩ := same_eq_true_iff.mp h
  rw [lt, lt, ha, hb]

@[simp] theorem nan_le (x : Binary64) : Binary64.nan.le x = false := rfl

@[simp] theorem lt_nan (x : Binary64) : x.lt .nan = false := by
  unfold lt
  cases x.position? <;> rfl

/-- The double nearest to a natural number. -/
def ofNat (n : Nat) : Binary64 := rounded false (n * one) 1

/-- The sum. An exact zero is negative only as the sum of two negative zeros. -/
def add : Binary64 → Binary64 → Binary64
  | .finite s a, .finite t b =>
    let sum := signedQuanta s a + signedQuanta t b
    if sum = 0 then zero (s && t) else rounded (decide (sum < 0)) sum.natAbs 1
  | .infinite s, .infinite t => if s = t then .infinite s else .nan
  | .infinite s, .finite .. => .infinite s
  | .finite .., .infinite t => .infinite t
  | .nan, _ => .nan
  | _, .nan => .nan

/-- The product. -/
def mul : Binary64 → Binary64 → Binary64
  | .finite s a, .finite t b => rounded (s != t) (a.quanta * b.quanta) one
  | .infinite s, .infinite t => .infinite (s != t)
  | .infinite s, .finite t b => if b.quanta = 0 then .nan else .infinite (s != t)
  | .finite s a, .infinite t => if a.quanta = 0 then .nan else .infinite (s != t)
  | .nan, _ => .nan
  | _, .nan => .nan

/-- The quotient. -/
def div : Binary64 → Binary64 → Binary64
  | .finite s a, .finite t b =>
    if b.quanta = 0 then
      if a.quanta = 0 then .nan else .infinite (s != t)
    else
      rounded (s != t) (a.quanta * one) b.quanta
  | .infinite _, .infinite _ => .nan
  | .infinite s, .finite t _ => .infinite (s != t)
  | .finite s _, .infinite t => zero (s != t)
  | .nan, _ => .nan
  | _, .nan => .nan

instance : Add Binary64 := ⟨add⟩

instance : Mul Binary64 := ⟨mul⟩

instance : Div Binary64 := ⟨div⟩

/-- The greatest 64-bit word. -/
def greatestWord : Nat := UInt64.size - 1

/-- The whole part of a number as a word: a negative number and NaN give zero, and a number past
the greatest word gives the greatest word. -/
def toWord : Binary64 → UInt64
  | .finite false magnitude => UInt64.ofNat (min (magnitude.quanta / one) greatestWord)
  | .infinite false => UInt64.ofNat greatestWord
  | _ => 0

end Upsert.Binary64
