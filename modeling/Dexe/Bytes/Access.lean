import Dexe.Bytes
import Mathlib.Data.BitVec

/-! Which bytes an access reads and writes. -/

namespace Dexe.Memory

variable {mem mem' : Memory} {a a' b : BitVec 64} {n : ℕ}

def byteOf (v i : ℕ) : BitVec 8 := BitVec.ofNat 8 (v / 256 ^ i)

lemma byteOf_succ (v i : ℕ) : byteOf v (i + 1) = byteOf (v / 256) i := by
  rw [byteOf, byteOf, pow_succ', Nat.div_div_eq_div_mul]

lemma toNat_sub_succ (h : b ≠ a) : (b - a).toNat = (b - (a + 1)).toNat + 1 := by
  have hne : b - a ≠ 0 := fun h0 => h (sub_eq_zero.mp h0)
  have hpos : (b - a).toNat ≠ 0 := fun h0 => hne (BitVec.eq_of_toNat_eq h0)
  have hsub : b - (a + 1) = b - a - 1 := by
    rw [sub_add_eq_sub_sub]
  have hone : (1 : BitVec 64).toNat = 1 := rfl
  have hlt := (b - a).isLt
  rw [hsub]
  generalize b - a = d at *
  rw [BitVec.toNat_sub, hone]
  omega

theorem store_apply (mem : Memory) (a b : BitVec 64) (hn : n ≤ 2 ^ 64) (v : ℕ) :
    mem.store a n v b = if (b - a).toNat < n then byteOf v (b - a).toNat else mem b := by
  induction n generalizing mem a v with
  | zero => rfl
  | succ n ih =>
    rw [store, ih _ _ (by omega)]
    by_cases hb : b = a
    · have hself : (b - (a + 1)).toNat = 2 ^ 64 - 1 := by
        rw [hb, sub_add_eq_sub_sub, sub_self]
        rfl
      rw [hself, if_neg (by omega), hb, Function.update_self, sub_self, if_pos (by simp)]
      simp [byteOf]
    · have hdist := toNat_sub_succ hb
      rw [hdist, byteOf_succ, Function.update_of_ne hb]
      simp only [Nat.add_lt_add_iff_right]

lemma load_lt (mem : Memory) (a : BitVec 64) (n : ℕ) : mem.load a n < 256 ^ n := by
  induction n generalizing a with
  | zero => simp [load]
  | succ n ih =>
    have hrest := ih (a + 1)
    have hbyte := (mem a).isLt
    rw [load, pow_succ]
    omega

lemma add_succ (a : BitVec 64) (i : ℕ) :
    a + BitVec.ofNat 64 (i + 1) = a + 1 + BitVec.ofNat 64 i := by
  rw [BitVec.ofNat_add, add_comm (BitVec.ofNat 64 i), ← add_assoc]
  rfl

theorem load_eq_iff :
    mem.load a n = mem'.load a' n ↔
      ∀ i < n, mem (a + BitVec.ofNat 64 i) = mem' (a' + BitVec.ofNat 64 i) := by
  induction n generalizing a a' with
  | zero => simp [load]
  | succ n ih =>
    have hsplit : mem.load a (n + 1) = mem'.load a' (n + 1) ↔
        mem a = mem' a' ∧ mem.load (a + 1) n = mem'.load (a' + 1) n := by
      rw [load, load, ← BitVec.toNat_inj]
      have hbyte := (mem a).isLt
      have hbyte' := (mem' a').isLt
      omega
    rw [hsplit, ih]
    constructor
    · rintro ⟨h0, h⟩ i hi
      cases i with
      | zero => simpa using h0
      | succ i =>
        rw [add_succ, add_succ]
        exact h i (by omega)
    · intro h
      refine ⟨by simpa using h 0 (by omega), fun i hi => ?_⟩
      rw [← add_succ, ← add_succ]
      exact h (i + 1) (by omega)

lemma byteOf_load (mem : Memory) (a : BitVec 64) {i : ℕ} (hi : i < n) :
    byteOf (mem.load a n) i = mem (a + BitVec.ofNat 64 i) := by
  induction n generalizing a i with
  | zero => omega
  | succ n ih =>
    have hbyte := (mem a).isLt
    cases i with
    | zero =>
      rw [byteOf, load, pow_zero, Nat.div_one]
      apply BitVec.eq_of_toNat_eq
      simp
      omega
    | succ i =>
      have hdiv : mem.load a (n + 1) / 256 = mem.load (a + 1) n := by
        rw [load]
        omega
      rw [byteOf_succ, hdiv, ih (a + 1) (by omega), add_succ]

lemma load_mod (mem : Memory) (a : BitVec 64) {k : ℕ} (hk : k ≤ n) :
    mem.load a n % 256 ^ k = mem.load a k := by
  induction k generalizing a n with
  | zero => simp [load, Nat.mod_one]
  | succ k ih =>
    cases n with
    | zero => omega
    | succ n =>
      have hrest := ih (n := n) (a + 1) (by omega)
      have hbyte := (mem a).isLt
      have hlow : ((mem a).toNat + 256 * load mem (a + 1) n) % 256 = (mem a).toNat := by omega
      have hhigh : ((mem a).toNat + 256 * load mem (a + 1) n) / 256 = load mem (a + 1) n := by omega
      rw [load, load, ← hrest, pow_succ', Nat.mod_mul, hlow, hhigh]

lemma toNat_load64 (mem : Memory) (a : BitVec 64) : (mem.load64 a).toNat = mem.load a 8 := by
  have hlt := mem.load_lt a 8
  rw [load64, BitVec.toNat_ofNat, Nat.mod_eq_of_lt (by simpa using hlt)]

lemma load64_eq_iff :
    mem.load64 a = mem'.load64 a' ↔
      ∀ i < 8, mem (a + BitVec.ofNat 64 i) = mem' (a' + BitVec.ofNat 64 i) := by
  rw [← BitVec.toNat_inj, toNat_load64, toNat_load64, load_eq_iff]

lemma offset_sub (a b : BitVec 64) : a + BitVec.ofNat 64 (b - a).toNat = b := by
  rw [BitVec.ofNat_toNat, BitVec.setWidth_eq, add_sub_cancel]

lemma sub_offset (a : BitVec 64) {i : ℕ} (hi : i < 2 ^ 64) :
    (a + BitVec.ofNat 64 i - a).toNat = i := by
  rw [add_sub_cancel_left, BitVec.toNat_ofNat, Nat.mod_eq_of_lt hi]

theorem store64_frame_iff (P : BitVec 64 → Prop) (v : BitVec 64) :
    (∀ b, P b → mem.store64 a v b = mem b) ↔
      ∀ i < 8, P (a + BitVec.ofNat 64 i) → mem (a + BitVec.ofNat 64 i) = byteOf v.toNat i := by
  constructor
  · intro h i hi hP
    have hkept := h _ hP
    rw [store64, store_apply mem a _ (by norm_num), sub_offset a (by omega), if_pos hi] at hkept
    exact hkept.symm
  · intro h b hP
    rw [store64, store_apply mem a b (by norm_num)]
    split
    · rename_i hlt
      have hb := offset_sub a b
      rw [← h _ hlt (by rwa [hb]), hb]
    · rfl

theorem store64_overwrites_iff (v : BitVec 64) :
    (∀ mem', mem.store64 a v b = store64 mem' a v b) ↔ (b - a).toNat < 8 := by
  simp only [store64, store_apply _ a b (n := 8) (by norm_num)]
  constructor
  · intro h
    by_contra hge
    have hother := h fun b => mem b + 1
    rw [if_neg hge, if_neg hge] at hother
    exact absurd hother (by simp)
  · intro h mem'
    rw [if_pos h, if_pos h]

lemma byteOf_load64 (mem : Memory) (a : BitVec 64) {i : ℕ} (hi : i < 8) :
    byteOf (mem.load64 a).toNat i = mem (a + BitVec.ofNat 64 i) := by
  rw [toNat_load64, byteOf_load mem a hi]

lemma eq_of_byteOf {x y : ℕ} (hx : x < 256 ^ n) (hy : y < 256 ^ n)
    (h : ∀ i < n, byteOf x i = byteOf y i) : x = y := by
  induction n generalizing x y with
  | zero => omega
  | succ n ih =>
    rw [pow_succ] at hx hy
    have hlow : x % 256 = y % 256 := by
      have h0 := congrArg BitVec.toNat (h 0 (by omega))
      simpa [byteOf] using h0
    have hhigh : x / 256 = y / 256 := by
      refine ih (by omega) (by omega) fun i hi => ?_
      rw [← byteOf_succ, ← byteOf_succ]
      exact h (i + 1) (by omega)
    omega

lemma load64_store64 (mem : Memory) (a v : BitVec 64) : (mem.store64 a v).load64 a = v := by
  apply BitVec.eq_of_toNat_eq
  refine eq_of_byteOf (n := 8) (by omega) (by omega) fun i hi => ?_
  rw [byteOf_load64 _ _ hi, store64, store_apply mem a _ (by norm_num),
    sub_offset a (by omega), if_pos hi]

lemma store64_eq_self_iff {v : BitVec 64} : mem.store64 a v = mem ↔ v = mem.load64 a := by
  constructor
  · intro h
    rw [← load64_store64 mem a v, h]
  · rintro rfl
    funext b
    refine (store64_frame_iff (fun _ => True) _).mpr ?_ b trivial
    intro i hi _
    exact (byteOf_load64 mem a hi).symm

end Dexe.Memory
