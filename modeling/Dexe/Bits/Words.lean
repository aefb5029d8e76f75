import Mathlib.Tactic

/-! Operations on words that give one operand back. -/

namespace Dexe.Bits

variable {w : ℕ}

lemma toNat_eq_zero_iff {x : BitVec w} : x.toNat = 0 ↔ x = 0 := by
  rw [← BitVec.toNat_inj]
  rfl

lemma and_not_eq_zero_iff (a b : BitVec w) : a &&& ~~~ b = 0 ↔ a &&& b = a := by
  have hbit : ∀ x y : Bool, (x && !y) = false ↔ (x && y) = x := by decide
  constructor
  · intro h
    apply BitVec.eq_of_getLsbD_eq
    intro i hi
    have hi' := congrArg (BitVec.getLsbD · i) h
    simp only [BitVec.getLsbD_and, BitVec.getLsbD_not, hi, decide_true, Bool.true_and] at hi' ⊢
    exact (hbit _ _).mp (by simpa using hi')
  · intro h
    rw [← h]
    apply BitVec.eq_of_getLsbD_eq
    intro i hi
    simp only [BitVec.getLsbD_and, BitVec.getLsbD_not, hi, decide_true, Bool.true_and]
    cases a.getLsbD i <;> cases b.getLsbD i <;> simp

lemma or_eq_left_iff (a b : BitVec w) : a ||| b = a ↔ b &&& ~~~ a = 0 := by
  rw [and_not_eq_zero_iff]
  constructor
  · intro h
    rw [← h]
    apply BitVec.eq_of_getLsbD_eq
    intro i _
    simp only [BitVec.getLsbD_or, BitVec.getLsbD_and]
    cases a.getLsbD i <;> cases b.getLsbD i <;> rfl
  · intro h
    rw [← h]
    apply BitVec.eq_of_getLsbD_eq
    intro i _
    simp only [BitVec.getLsbD_or, BitVec.getLsbD_and]
    cases a.getLsbD i <;> cases b.getLsbD i <;> rfl

lemma shiftLeft_eq_self_iff {a : BitVec w} {n : ℕ} : a <<< n = a ↔ n = 0 ∨ a = 0 := by
  constructor
  · intro h
    by_cases hn : n = 0
    · exact .inl hn
    · right
      -- bit by bit: each bit is one further down, or none
      have hbit : ∀ i, a.getLsbD i = false := by
        intro i
        induction i using Nat.strong_induction_on with
        | _ i ih =>
          rw [← h, BitVec.getLsbD_shiftLeft]
          by_cases hi : i < n
          · simp [hi]
          · simp [ih (i - n) (by omega)]
      exact BitVec.eq_of_getLsbD_eq fun i _ => by rw [hbit i]; simp
  · rintro (rfl | rfl)
    · exact BitVec.shiftLeft_zero a
    · exact BitVec.zero_shiftLeft n

lemma shiftRight_eq_self_iff {a : BitVec w} {n : ℕ} : a >>> n = a ↔ n = 0 ∨ a = 0 := by
  constructor
  · intro h
    by_contra hne
    obtain ⟨hn, ha⟩ := not_or.mp hne
    have hpos : 0 < a.toNat := Nat.pos_of_ne_zero fun h0 => ha (BitVec.eq_of_toNat_eq h0)
    have hdiv := congrArg BitVec.toNat h
    rw [BitVec.toNat_ushiftRight, Nat.shiftRight_eq_div_pow] at hdiv
    have hlt := Nat.div_lt_self hpos (Nat.one_lt_two_pow hn)
    omega
  · rintro (rfl | rfl)
    · exact BitVec.ushiftRight_zero a
    · exact BitVec.zero_ushiftRight

lemma sshiftRight_eq_ushiftRight_iff {a : BitVec w} {n : ℕ} :
    a.sshiftRight n = a >>> n ↔ n = 0 ∨ a.msb = false := by
  constructor
  · intro h
    by_contra hne
    obtain ⟨hn, ha⟩ := not_or.mp hne
    have hmsb := congrArg BitVec.msb h
    rw [BitVec.msb_sshiftRight, BitVec.msb_ushiftRight] at hmsb
    exact ha (by simpa [Nat.pos_of_ne_zero hn] using hmsb)
  · rintro (rfl | h)
    · rw [BitVec.sshiftRight_zero, BitVec.ushiftRight_zero]
    · exact BitVec.sshiftRight_eq_of_msb_false h

lemma not_ne_self (a : BitVec 64) : ~~~ a ≠ a := by
  intro h
  have hbit := congrArg (BitVec.getLsbD · 0) h
  simp only [BitVec.getLsbD_not] at hbit
  cases hb : a.getLsbD 0 <;> rw [hb] at hbit <;> simp at hbit

lemma neg_eq_self_iff {a : BitVec 64} : -a = a ↔ a = 0 ∨ a = BitVec.intMin 64 := by
  have hmin : (BitVec.intMin 64).toNat = 2 ^ 63 := rfl
  rw [← BitVec.toNat_inj, ← BitVec.toNat_inj, ← BitVec.toNat_inj, hmin, BitVec.toNat_neg]
  have hlt := a.isLt
  have hzero : (0 : BitVec 64).toNat = 0 := rfl
  rw [hzero]
  omega

end Dexe.Bits
