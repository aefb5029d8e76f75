import Mathlib.Data.BitVec
import Mathlib.Tactic

/-! Fields of a word: `w` bits from bit `o` on. -/

namespace Dexe.Bits

variable {n : ℕ}

def ones (n w : ℕ) : BitVec n := BitVec.ofNat n (2 ^ w - 1)

def mask (n o w : ℕ) : BitVec n := ones n w <<< o

def field (o w : ℕ) (x : BitVec n) : BitVec n := x >>> o &&& ones n w

def insert (o w : ℕ) (x v : BitVec n) : BitVec n :=
  (x &&& ~~~ mask n o w) ||| ((v &&& ones n w) <<< o)

section Bitwise

variable {o w i : ℕ}

lemma getLsbD_ones (hi : i < n) : (ones n w).getLsbD i = decide (i < w) := by
  rw [ones, BitVec.getLsbD_ofNat, Nat.testBit_two_pow_sub_one, decide_eq_true hi, Bool.true_and]

lemma getLsbD_mask (hi : i < n) : (mask n o w).getLsbD i = decide (o ≤ i ∧ i < o + w) := by
  rw [mask, BitVec.getLsbD_shiftLeft, getLsbD_ones (by omega)]
  by_cases ho : i < o
  · simp [ho]
  · have hw : i - o < w ↔ i < o + w := by omega
    simp [hi, ho, hw, Nat.not_lt.mp ho]

lemma getLsbD_field (x : BitVec n) (hi : i < n) :
    (field o w x).getLsbD i = (x.getLsbD (o + i) && decide (i < w)) := by
  rw [field, BitVec.getLsbD_and, BitVec.getLsbD_ushiftRight, getLsbD_ones hi]

lemma getLsbD_insert (x v : BitVec n) (hi : i < n) :
    (insert o w x v).getLsbD i = if o ≤ i ∧ i < o + w then v.getLsbD (i - o) else x.getLsbD i := by
  rw [insert, BitVec.getLsbD_or, BitVec.getLsbD_and, BitVec.getLsbD_not, getLsbD_mask hi,
    BitVec.getLsbD_shiftLeft, BitVec.getLsbD_and, getLsbD_ones (by omega)]
  by_cases hf : o ≤ i ∧ i < o + w
  · have hw : i - o < w := by omega
    simp [hf, hi, hw]
  · have hout : ¬ i < o → ¬ i - o < w := by omega
    by_cases ho : i < o <;> simp [hf, hi, ho, hout]

lemma insert_field (x : BitVec n) : insert o w x (field o w x) = x := by
  apply BitVec.eq_of_getLsbD_eq
  intro i hi
  rw [getLsbD_insert x _ hi, getLsbD_field x (by omega)]
  split
  · rename_i hf
    have hw : i - o < w := by omega
    simp [Nat.add_sub_cancel' hf.1, hw]
  · rfl

lemma insert_eq_add (x v : BitVec n) :
    insert o w x v = (x &&& ~~~ mask n o w) + ((v &&& ones n w) <<< o) := by
  rw [insert, BitVec.add_eq_or_of_and_eq_zero]
  apply BitVec.eq_of_getLsbD_eq
  intro i hi
  rw [BitVec.getLsbD_and, BitVec.getLsbD_and, BitVec.getLsbD_not, getLsbD_mask hi,
    BitVec.getLsbD_shiftLeft, BitVec.getLsbD_and, getLsbD_ones (by omega), BitVec.getLsbD_zero]
  by_cases ho : i < o
  · simp [ho]
  · have hw : i - o < w ↔ i < o + w := by omega
    simp only [hi, ho, hw, Nat.not_lt.mp ho]
    by_cases hf : i < o + w <;> simp [hf]

end Bitwise

lemma toNat_ones {w : ℕ} (hw : w ≤ n) : (ones n w).toNat = 2 ^ w - 1 := by
  have hle : 2 ^ w ≤ 2 ^ n := Nat.pow_le_pow_right (by norm_num) hw
  have hpos : 0 < 2 ^ w := Nat.two_pow_pos w
  rw [ones, BitVec.toNat_ofNat, Nat.mod_eq_of_lt (by omega)]

lemma toNat_and_ones {w : ℕ} (hw : w ≤ n) (x : BitVec n) :
    (x &&& ones n w).toNat = x.toNat % 2 ^ w := by
  rw [BitVec.toNat_and, toNat_ones hw, Nat.and_two_pow_sub_one_eq_mod]

lemma eq_and_ones_iff {w : ℕ} (hw : w ≤ n) {d x : BitVec n} :
    x = (d + x) &&& ones n w ↔ d &&& ones n w = 0 ∧ x.toNat < 2 ^ w := by
  have hdvd : 2 ^ w ∣ 2 ^ n := pow_dvd_pow 2 hw
  have hpos : 0 < 2 ^ w := Nat.two_pow_pos w
  have hzero : d &&& ones n w = 0 ↔ d.toNat % 2 ^ w = 0 := by
    rw [← BitVec.toNat_inj, toNat_and_ones hw]
    exact Iff.rfl
  rw [hzero, ← BitVec.toNat_inj, toNat_and_ones hw, BitVec.toNat_add, Nat.mod_mod_of_dvd _ hdvd]
  constructor
  · intro h
    have hlt : x.toNat < 2 ^ w := h ▸ Nat.mod_lt _ hpos
    refine ⟨?_, hlt⟩
    have hmod : 0 + x.toNat ≡ d.toNat + x.toNat [MOD 2 ^ w] := by
      rw [Nat.ModEq, Nat.zero_add, Nat.mod_eq_of_lt hlt, ← h]
    exact (hmod.add_right_cancel' _).symm
  · rintro ⟨hd, hlt⟩
    rw [Nat.add_mod, hd, Nat.zero_add, Nat.mod_mod, Nat.mod_eq_of_lt hlt]

lemma toNat_field_lt {o w : ℕ} (hw : w ≤ n) (x : BitVec n) : (field o w x).toNat < 2 ^ w := by
  rw [field, toNat_and_ones hw]
  exact Nat.mod_lt _ (Nat.two_pow_pos w)

def carry (n w : ℕ) (a b : BitVec n) : BitVec n :=
  if 2 ^ w ≤ a.toNat + b.toNat then BitVec.ofNat n (2 ^ w) else 0

def borrow (n w : ℕ) (a b : BitVec n) : BitVec n :=
  if a.toNat < b.toNat then BitVec.ofNat n (2 ^ w) else 0

section

variable {w : ℕ} {a b : BitVec n}

lemma and_ones_add (hw : w < n) (ha : a.toNat < 2 ^ w) (hb : b.toNat < 2 ^ w) :
    (a + b &&& ones n w) + carry n w a b = a + b := by
  have hpow : 2 ^ (w + 1) ≤ 2 ^ n := Nat.pow_le_pow_right (by norm_num) hw
  rw [pow_succ] at hpow
  have hsum : (a + b).toNat = a.toNat + b.toNat := by
    rw [BitVec.toNat_add, Nat.mod_eq_of_lt (by omega)]
  apply BitVec.eq_of_toNat_eq
  rw [BitVec.toNat_add, toNat_and_ones hw.le, hsum, carry]
  split
  · rename_i hcarry
    have hmod : (a.toNat + b.toNat) % 2 ^ w = a.toNat + b.toNat - 2 ^ w := by
      rw [Nat.mod_eq_sub_mod hcarry, Nat.mod_eq_of_lt (by omega)]
    rw [BitVec.toNat_ofNat, Nat.mod_eq_of_lt (a := 2 ^ w) (by omega), hmod,
      Nat.sub_add_cancel hcarry, Nat.mod_eq_of_lt (by omega)]
  · have hzero : (0 : BitVec n).toNat = 0 := BitVec.toNat_zero
    rw [hzero, Nat.mod_eq_of_lt (a := a.toNat + b.toNat) (by omega), Nat.add_zero,
      Nat.mod_eq_of_lt (by omega)]

lemma and_ones_sub (hw : w < n) (ha : a.toNat < 2 ^ w) (hb : b.toNat < 2 ^ w) :
    (a - b &&& ones n w) = a - b + borrow n w a b := by
  have hpow : 2 ^ (w + 1) ≤ 2 ^ n := Nat.pow_le_pow_right (by norm_num) hw
  rw [pow_succ] at hpow
  apply BitVec.eq_of_toNat_eq
  rw [toNat_and_ones hw.le, BitVec.toNat_add, BitVec.toNat_sub, borrow]
  split
  · rename_i hlt
    -- below zero both sides are counted down from the power of two
    have hdiff : 2 ^ n - b.toNat + a.toNat = 2 ^ n - 2 ^ w + (2 ^ w - b.toNat + a.toNat) := by omega
    have hdvd : 2 ^ w ∣ 2 ^ n - 2 ^ w := Nat.dvd_sub (pow_dvd_pow 2 hw.le) (dvd_refl _)
    have hleft : (2 ^ n - b.toNat + a.toNat) % 2 ^ w = 2 ^ w - b.toNat + a.toNat := by
      rw [hdiff, Nat.add_mod, Nat.mod_eq_zero_of_dvd hdvd, Nat.zero_add, Nat.mod_mod,
        Nat.mod_eq_of_lt (by omega)]
    have hright : 2 ^ n - b.toNat + a.toNat + 2 ^ w = 2 ^ w - b.toNat + a.toNat + 2 ^ n := by omega
    rw [Nat.mod_eq_of_lt (a := 2 ^ n - b.toNat + a.toNat) (by omega), hleft, BitVec.toNat_ofNat,
      Nat.mod_eq_of_lt (a := 2 ^ w) (by omega), hright, Nat.add_mod_right,
      Nat.mod_eq_of_lt (by omega)]
  · have hzero : (0 : BitVec n).toNat = 0 := BitVec.toNat_zero
    have hdiff : 2 ^ n - b.toNat + a.toNat = a.toNat - b.toNat + 2 ^ n := by omega
    rw [hzero, hdiff, Nat.add_mod_right, Nat.mod_eq_of_lt (a := a.toNat - b.toNat) (by omega),
      Nat.mod_eq_of_lt (by omega), Nat.add_zero, Nat.mod_eq_of_lt (by omega)]

end

end Dexe.Bits
