import Mathlib.Data.BitVec
import Mathlib.Tactic

/-! Arithmetic that stops where a result does not fit. -/

namespace Dexe.Bits

variable {w : ℕ} {a b c : BitVec w}

def checkedAdd (a b : BitVec w) : Option (BitVec w) :=
  if a.toNat + b.toNat < 2 ^ w then some (a + b) else none

def checkedNeg (a : BitVec w) : Option (BitVec w) := if a = BitVec.intMin w then none else some (-a)

lemma checkedAdd_of_lt (h : a.toNat + b.toNat < 2 ^ w) : checkedAdd a b = some (a + b) := if_pos h

lemma checkedAdd_eq_none_iff : checkedAdd a b = none ↔ 2 ^ w ≤ a.toNat + b.toNat := by
  rw [checkedAdd]
  split <;> simp_all

lemma lt_add_iff (h : a.toNat + b.toNat < 2 ^ w) : c < a + b ↔ c.toNat < a.toNat + b.toNat := by
  rw [BitVec.lt_def, BitVec.toNat_add, Nat.mod_eq_of_lt h]

end Dexe.Bits
