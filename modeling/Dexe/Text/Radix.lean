import Dexe.Text.Numeral

/-! One text of digits, read in two radices. -/

namespace Dexe.Text

variable {r k j m n : ℕ} {s : Text} {c : Char}

lemma toDigit_lt {d : ℕ} (h : toDigit r c = some d) : d < r := by
  rw [toDigit] at h
  simpa using (Option.filter_eq_some_iff.mp h).2

lemma toDigit_mono {r' d : ℕ} (hr : r ≤ r') (h : toDigit r c = some d) : toDigit r' c = some d := by
  rw [toDigit] at h ⊢
  obtain ⟨hd, hlt⟩ := Option.filter_eq_some_iff.mp h
  have hlt' : d < r := by simpa using hlt
  rw [Option.filter_eq_some_iff]
  exact ⟨hd, by simpa using hlt'.trans_le hr⟩

lemma toNat_lt_of_toDigit {d : ℕ} (h : toDigit r c = some d) : c.toNat < 128 := by
  have hrange : ('0' ≤ c ∧ c ≤ '9') ∨ ('a' ≤ c ∧ c ≤ 'z') ∨ ('A' ≤ c ∧ c ≤ 'Z') := by
    rw [toDigit] at h
    by_contra hno
    simp only [not_or] at hno
    simp [hno.1, hno.2.1, hno.2.2] at h
  have hval : c.toNat ≤ 57 ∨ c.toNat ≤ 122 ∨ c.toNat ≤ 90 :=
    hrange.imp And.right (Or.imp And.right And.right)
  omega

lemma decimal_toDigit {d : ℕ} (h : toDigit 10 c = some d) :
    lowerChar c = [c] ∧ c.isAlpha = false := by
  have hall : ∀ k < 128, (toDigit 10 (Char.ofNat k)).isSome →
      lowerChar (Char.ofNat k) = [Char.ofNat k] ∧ (Char.ofNat k).isAlpha = false := by decide
  have hk := hall c.toNat (toNat_lt_of_toDigit h)
  rw [Char.ofNat_toNat, h] at hk
  exact hk rfl

lemma toDigit_lowerChar {d : ℕ} (h : toDigit 16 c = some d) {c' : Char} (hc : c' ∈ lowerChar c) :
    (toDigit 16 c').isSome := by
  have hall : ∀ k < 128, (toDigit 16 (Char.ofNat k)).isSome →
      ∀ c' ∈ lowerChar (Char.ofNat k), (toDigit 16 c').isSome := by decide
  have hk := hall c.toNat (toNat_lt_of_toDigit h)
  rw [Char.ofNat_toNat, h] at hk
  exact hk rfl c' hc

lemma le_digitsFrom (hr : 0 < r) (h : digitsFrom r k s = some n) : k ≤ n := by
  induction s generalizing k with
  | nil =>
    cases h
    exact le_rfl
  | cons c s ih =>
    obtain ⟨d, -, h⟩ := Option.bind_eq_some_iff.mp h
    have hle := ih h
    have hmul : k ≤ k * r := Nat.le_mul_of_pos_right k hr
    omega

lemma digitsFrom_mono {r' : ℕ} (hr : r ≤ r') (h : digitsFrom r k s = some m) (j : ℕ) :
    ∃ n, digitsFrom r' j s = some n := by
  induction s generalizing k j with
  | nil => exact ⟨j, rfl⟩
  | cons c s ih =>
    obtain ⟨d, hd, h⟩ := Option.bind_eq_some_iff.mp h
    obtain ⟨n, hn⟩ := ih h (j * r' + d)
    exact ⟨n, by rw [digitsFrom, toDigit_mono hr hd, Option.bind_some, hn]⟩

lemma digitsFrom_lt {r' : ℕ} (hr : r ≤ r') (hpos : 0 < r) (hk : k < j)
    (h : digitsFrom r k s = some m) (h' : digitsFrom r' j s = some n) : m < n := by
  induction s generalizing k j with
  | nil =>
    cases h
    cases h'
    exact hk
  | cons c s ih =>
    obtain ⟨d, hd, h⟩ := Option.bind_eq_some_iff.mp h
    obtain ⟨d', hd', h'⟩ := Option.bind_eq_some_iff.mp h'
    obtain rfl : d = d' := Option.some.inj ((toDigit_mono hr hd).symm.trans hd')
    refine ih ?_ h h'
    have hlt : k * r < j * r := Nat.mul_lt_mul_of_pos_right hk hpos
    have hle : j * r ≤ j * r' := Nat.mul_le_mul_left j hr
    omega

theorem digitsFrom_eq_iff {r' : ℕ} (hr : r < r') (hpos : 0 < r) (h : digitsFrom r 0 s = some m)
    (h' : digitsFrom r' 0 s = some n) : n = m ↔ m < r := by
  induction s with
  | nil =>
    cases h
    cases h'
    exact iff_of_true rfl hpos
  | cons c s ih =>
    obtain ⟨d, hd, h⟩ := Option.bind_eq_some_iff.mp h
    obtain ⟨d', hd', h'⟩ := Option.bind_eq_some_iff.mp h'
    obtain rfl : d = d' := Option.some.inj ((toDigit_mono hr.le hd).symm.trans hd')
    rw [Nat.zero_mul, Nat.zero_add] at h h'
    rcases Nat.eq_zero_or_pos d with rfl | hdpos
    · exact ih h h'
    · cases s with
      | nil =>
        cases h
        cases h'
        exact iff_of_true rfl (toDigit_lt hd)
      | cons c' s =>
        -- the second digit already has another weight
        obtain ⟨e, he, h⟩ := Option.bind_eq_some_iff.mp h
        obtain ⟨e', he', h'⟩ := Option.bind_eq_some_iff.mp h'
        obtain rfl : e = e' := Option.some.inj ((toDigit_mono hr.le he).symm.trans he')
        have hweight : d * r < d * r' := Nat.mul_lt_mul_of_pos_left hr hdpos
        have hlt := digitsFrom_lt hr.le hpos (by omega) h h'
        have hge := le_digitsFrom hpos h
        have hone : r ≤ d * r := Nat.le_mul_of_pos_left r hdpos
        exact iff_of_false (by omega) (by omega)

lemma digitsFrom_zero {r' : ℕ} (hr : 0 < r) (hr' : 0 < r') (h : digitsFrom r' 0 s = some 0) :
    digitsFrom r 0 s = some 0 := by
  induction s with
  | nil => rfl
  | cons c s ih =>
    obtain ⟨d, hd, h⟩ := Option.bind_eq_some_iff.mp h
    have hle := le_digitsFrom hr' h
    obtain rfl : d = 0 := by omega
    have hzero : toDigit r c = some 0 := by
      rw [toDigit] at hd ⊢
      rw [Option.filter_eq_some_iff] at hd ⊢
      exact ⟨hd.1, by simpa using hr⟩
    rw [Nat.zero_mul, Nat.zero_add] at h
    rw [digitsFrom, hzero, Option.bind_some, Nat.zero_mul, Nat.zero_add]
    exact ih h

lemma digits_eq_some_iff : digits r s = some n ↔ s ≠ [] ∧ digitsFrom r 0 s = some n := by
  rw [digits]
  split
  · rename_i h
    exact iff_of_false (by simp) fun hne => hne.1 h
  · rename_i h
    exact (and_iff_right h).symm

def dropPlus (s : Text) : Text := if s.head? = some '+' then s.tail else s

def IsNumber (r bound : ℕ) (s : Text) : Prop := ∃ n, digits r (dropPlus s) = some n ∧ n < bound

lemma u64FromStrRadix_eq_some_iff {a : U64} :
    u64FromStrRadix s r = some a ↔
      ∃ n, digits r (dropPlus s) = some n ∧ n < 2 ^ 64 ∧ a = BitVec.ofNat 64 n := by
  rw [u64FromStrRadix, ← dropPlus]
  simp only [Option.bind_eq_some_iff]
  refine exists_congr fun n => and_congr_right fun _ => ?_
  split
  · rename_i hlt
    exact ⟨fun h => ⟨hlt, (Option.some.inj h).symm⟩, fun h => congrArg some h.2.symm⟩
  · rename_i hge
    exact iff_of_false (by simp) fun h => hge h.1

end Dexe.Text
