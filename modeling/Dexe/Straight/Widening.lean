import Dexe.Bytes.Access
import Dexe.Straight.Parts
import Dexe.X86.Widening

/-! Extending moves: the emitted C copies all 64 bits, or loads eight bytes. -/

namespace Dexe.X86

namespace Narrow

variable (src : Narrow) (s : State)

def offset : Narrow → ℕ
  | part r => r.part.offset
  | mem _ _ => 0

def Direct : Narrow → Prop
  | part _ => True
  | mem m _ => m.Direct s.regs

instance : Decidable (src.Direct s) :=
  match src with
  | part _ => inferInstanceAs (Decidable True)
  | mem m _ => inferInstanceAs (Decidable (m.Direct s.regs))

def whole : Narrow → U64
  | part r => s.regs r.parent
  | mem m _ => s.mem.load64 (m.ref.address s.regs)

lemma value_eq_field (h : src.Direct s) :
    src.value s = Bits.field src.offset src.width (src.whole s) := by
  cases src with
  | part r => rfl
  | mem m size =>
    have haddress : m.address s.regs = m.ref.address s.regs := h
    have hpow : 2 ^ (8 * size.bytes) = 256 ^ size.bytes := by rw [pow_mul]; norm_num
    have hload := s.mem.load_lt (m.ref.address s.regs) size.bytes
    have hbound : 256 ^ size.bytes ≤ 2 ^ 64 := by cases size <;> decide
    apply BitVec.eq_of_toNat_eq
    show (BitVec.ofNat 64 (s.mem.load (m.address s.regs) size.bytes)).toNat =
      (s.mem.load64 (m.ref.address s.regs) >>> 0 &&& Bits.ones 64 (8 * size.bytes)).toNat
    rw [haddress, BitVec.ushiftRight_zero, Bits.toNat_and_ones (by cases size <;> decide),
      Memory.toNat_load64, hpow, Memory.load_mod _ _ size.bytes_le, BitVec.toNat_ofNat,
      Nat.mod_eq_of_lt (by omega)]

lemma width_pos : 0 < src.width := by
  cases src with
  | part r => cases hr : r.part <;> simp [width, hr, Part.width]
  | mem m size => cases size <;> simp [width, Size.bytes]

lemma width_le : src.width ≤ 64 := by
  cases src with
  | part r => exact r.width_lt.le
  | mem m size => cases size <;> simp [width, Size.bytes]

variable {src}

lemma eq_high (h : src.offset ≠ 0) : src.offset = 8 ∧ src.width = 8 := by
  cases src with
  | part r =>
    have hpart : ∀ p : Part, p.offset ≠ 0 → p.offset = 8 ∧ p.width = 8 := by
      intro p hp
      cases p <;> simp_all [Part.offset, Part.width]
    exact hpart r.part h
  | mem m size => exact absurd rfl h

end Narrow

lemma Target.width_of_lt {t : Target} (h : 8 < t.width) :
    t.width = 16 ∨ t.width = 32 ∨ t.width = 64 := by
  cases t with
  | whole r => exact .inr (.inr rfl)
  | part r =>
    have hpart : ∀ p : Part, 8 < p.width → p.width = 16 ∨ p.width = 32 ∨ p.width = 64 := by
      intro p hp
      cases p <;> simp_all [Part.width]
    exact hpart r.part h

namespace WideningOp

variable (op : WideningOp)

lemma number_eq (w : ℕ) (v : U64) :
    op.number w v = if op.signed then (v.toNat : ℤ).bmod (2 ^ w) else (v.toNat : ℤ) % 2 ^ w := by
  rw [number]
  split
  · rw [BitVec.toInt_setWidth]
  · rw [BitVec.toNat_setWidth]
    simp

def Holds (w : ℕ) (z : ℤ) : Prop :=
  if op.signed then -2 ^ (w - 1) ≤ z ∧ z < 2 ^ (w - 1) else z < 2 ^ w

end WideningOp

/-- The 64 bits that are copied, cut to the destination, are the number that the narrow value is.
Where the address is off, the two are read from different places. -/
def WideningInsn.Fits (s : State) (i : WideningInsn) : Prop :=
  let z := i.op.number i.dst.width (i.src.whole s)
  if i.src.Direct s then
    if i.src.offset = 0 then i.op.Holds i.src.width z else z = 0 ∨ i.op.signed = true ∧ z = -1
  else z = i.op.number i.src.width (i.src.value s)

namespace WideningInsn

variable (i : WideningInsn) (s : State)

lemma number_field {n : ℕ} (op : WideningOp) (hn : n ≤ 64) (v : U64) :
    op.number n (Bits.field 0 n v) = op.number n v := by
  have hset : (Bits.field 0 n v).setWidth n = v.setWidth n := by
    apply BitVec.eq_of_toNat_eq
    rw [Bits.field, BitVec.ushiftRight_zero, BitVec.toNat_setWidth, Bits.toNat_and_ones hn,
      Nat.mod_mod, BitVec.toNat_setWidth]
  rw [WideningOp.number, WideningOp.number, hset]

lemma number_value : i.op.number i.dst.width (i.dst.value s) =
    i.op.number i.dst.width (s.regs i.dst.parent) := by
  obtain ⟨op, dst, src, hw⟩ := i
  cases dst with
  | whole r => rfl
  | part r =>
    have hsrc : 8 ≤ src.width := by
      cases src with
      | part p => cases hp : p.part <;> simp [Narrow.width, hp, Part.width]
      | mem m size => cases size <;> simp [Narrow.width, Size.bytes]
    have hoffset : r.part.offset = 0 := by
      have hw' : src.width < r.part.width := hw
      cases hr : r.part with
      | high =>
        rw [hr] at hw'
        exact absurd (hsrc.trans_lt hw') (by decide)
      | _ => rfl
    show op.number r.part.width (r.value s) = op.number r.part.width (s.regs r.parent)
    rw [SubReg.value, hoffset, number_field op r.width_lt.le]

lemma low_iff {n w : ℕ} (hn : 0 < n) (hnw : n ≤ w) (op : WideningOp) (v : U64) :
    op.number w v = op.number n v ↔ op.Holds n (op.number w v) := by
  have hdvd : 2 ^ n ∣ 2 ^ w := pow_dvd_pow 2 hnw
  have hpow : (2 : ℤ) ^ n = 2 * 2 ^ (n - 1) := by
    rw [← pow_succ']
    congr 1
    omega
  rw [WideningOp.Holds, op.number_eq, op.number_eq]
  split
  · have hmod : (v.toNat : ℤ).bmod (2 ^ n) = ((v.toNat : ℤ).bmod (2 ^ w)).bmod (2 ^ n) :=
      (Int.bmod_bmod_of_dvd hdvd).symm
    rw [hmod]
    generalize (v.toNat : ℤ).bmod (2 ^ w) = z
    have hcast : ((2 ^ n : ℕ) : ℤ) = 2 * 2 ^ (n - 1) := by exact_mod_cast hpow
    rw [eq_comm, Int.bmod_eq_iff (Nat.two_pow_pos n), hcast, sub_self]
    simp only [dvd_zero, and_true]
    omega
  · have hmod : (v.toNat : ℤ) % 2 ^ n = (v.toNat : ℤ) % 2 ^ w % 2 ^ n :=
      (Int.emod_emod_of_dvd _ (by exact_mod_cast hdvd)).symm
    have hnonneg : 0 ≤ (v.toNat : ℤ) % 2 ^ w := Int.emod_nonneg _ (by positivity)
    rw [hmod]
    generalize (v.toNat : ℤ) % 2 ^ w = z at *
    constructor
    · intro h
      rw [h]
      exact Int.emod_lt_of_pos _ (by positivity)
    · intro h
      exact (Int.emod_eq_of_lt hnonneg h).symm

lemma number_cond (op : WideningOp) (w : ℕ) (v : U64) :
    op.number w v =
      if op.signed = true ∧ 2 ^ w ≤ 2 * (v.toNat % 2 ^ w) then ((v.toNat % 2 ^ w : ℕ) : ℤ) - 2 ^ w
      else (v.toNat % 2 ^ w : ℕ) := by
  rw [WideningOp.number, BitVec.toInt_eq_toNat_cond, BitVec.toNat_setWidth]
  by_cases hneg : 2 * (v.toNat % 2 ^ w) < 2 ^ w
  · simp [hneg, Nat.not_le.mpr hneg]
  · simp [hneg, Nat.not_lt.mp hneg]

lemma high_iff {w : ℕ} (hw : w = 16 ∨ w = 32 ∨ w = 64) (op : WideningOp) (v : U64) :
    op.number w v = op.number 8 (Bits.field 8 8 v) ↔
      op.number w v = 0 ∨ op.signed = true ∧ op.number w v = -1 := by
  have hdvd : 256 ∣ 2 ^ (w - 8) := by rcases hw with rfl | rfl | rfl <;> norm_num
  have hpow : 2 ^ w = 256 * 2 ^ (w - 8) := by rcases hw with rfl | rfl | rfl <;> norm_num
  have hfield : (Bits.field 8 8 v).toNat = v.toNat % 2 ^ w / 256 % 256 := by
    rw [Bits.field, Bits.toNat_and_ones (by norm_num), BitVec.toNat_ushiftRight,
      Nat.shiftRight_eq_div_pow, hpow, Nat.mod_mul_right_div_self, Nat.mod_mod_of_dvd _ hdvd]
    norm_num
  have hlt := Nat.mod_lt v.toNat (Nat.two_pow_pos w)
  rw [number_cond, number_cond, hfield]
  generalize v.toNat % 2 ^ w = y at *
  have hlow : y < 256 → y / 256 % 256 = 0 := by omega
  have hhigh : 2 ^ w ≤ y + 256 → y / 256 % 256 = 255 := by
    rcases hw with rfl | rfl | rfl <;> norm_num at hlt ⊢ <;> omega
  have hbyte : y / 256 % 256 < 256 := by omega
  generalize y / 256 % 256 = b at *
  generalize op.signed = t
  rcases hw with rfl | rfl | rfl <;> cases t <;> norm_num at hlt hhigh ⊢ <;> omega

end WideningInsn

end Dexe.X86

namespace Dexe.Straight

open Std Ir X86 Clang Backend

variable (symbols : SymbolTable) (funcNames : TreeMap U64 Text) {σ : Clang.State} {s : X86.State}
  {d : DisassembledInsn} (versions : Versions)

lemma isMove_widening (op : WideningOp) : IsMove op.mnemonic := by
  cases op <;> exact ⟨by decide, by decide⟩

lemma emittedEnds_widening {i : WideningInsn}
    (h : PrintsAs d i.op.mnemonic [i.dst.name, i.src.text])
    (hm : Matches σ s) (s' : X86.State) :
    EmittedEnds symbols funcNames [d] versions σ s' ↔
      s.set i.dst.parent (i.src.whole s) = s' := by
  have hmove := isMove_widening i.op
  have hdst := not_memory_of_plain (plain_target i.dst)
  obtain ⟨op, dst, src, hw⟩ := i
  cases src with
  | part r =>
    exact emittedEnds_mov symbols funcNames versions hmove (piece_target dst) hdst
      (defines_target dst) (readAs_part r) (not_memory_of_plain (plain_part r)) h hm s'
  | mem m size =>
    exact emittedEnds_load symbols funcNames versions hmove (piece_target dst) hdst
      (defines_target dst) h hm s'

/-- An extending move leaves the extension of the narrow value exactly where the bits around the
value are the ones that it is to be extended by. -/
theorem widening_iff {i : WideningInsn} (h : PrintsAs d i.op.mnemonic [i.dst.name, i.src.text])
    (hm : Matches σ s) :
    (∃ s', EmittedEnds symbols funcNames [d] versions σ s' ∧
        i.op.number i.dst.width (i.dst.value s') = i.op.number i.src.width (i.src.value s)) ↔
      i.Fits s := by
  have hends : (∃ s', EmittedEnds symbols funcNames [d] versions σ s' ∧
        i.op.number i.dst.width (i.dst.value s') = i.op.number i.src.width (i.src.value s)) ↔
      i.op.number i.dst.width (i.src.whole s) = i.op.number i.src.width (i.src.value s) := by
    simp only [emittedEnds_widening symbols funcNames versions h hm, exists_eq_left',
      i.number_value, State.set_regs_self]
  rw [hends, WideningInsn.Fits]
  by_cases hdirect : i.src.Direct s
  · rw [if_pos hdirect, i.src.value_eq_field s hdirect]
    by_cases hlow : i.src.offset = 0
    · rw [if_pos hlow, hlow, WideningInsn.number_field _ i.src.width_le]
      exact WideningInsn.low_iff i.src.width_pos i.wider.le i.op _
    · obtain ⟨hoffset, hwidth⟩ := i.src.eq_high hlow
      have hwider := i.wider
      rw [hwidth] at hwider
      rw [if_neg hlow, hoffset, hwidth]
      exact WideningInsn.high_iff (i.dst.width_of_lt hwider) i.op _
  · rw [if_neg hdirect]

def zeroExtended : DisassembledInsn := ⟨0x1000, 3, "movzx", "eax, bl", []⟩

def zeroExtend : WideningInsn :=
  ⟨.movzx, .part ⟨.rax, .dword, by decide⟩, .part .bl, by decide⟩

lemma printsAs_zeroExtended :
    PrintsAs zeroExtended zeroExtend.op.mnemonic [zeroExtend.dst.name, zeroExtend.src.text] :=
  ⟨rfl, by decide⟩

theorem zeroExtended_differs :
    ¬ ∃ s', EmittedEnds ∅ ∅ [zeroExtended] Versions.initial (fieldsOf (sample 0 0x1234 0 0)) s' ∧
      zeroExtend.op.number zeroExtend.dst.width (zeroExtend.dst.value s') =
        zeroExtend.op.number zeroExtend.src.width
          (zeroExtend.src.value (sample 0 0x1234 0 0)) := by
  rintro ⟨s', hends, hvalue⟩
  rw [emittedEnds_widening ∅ ∅ _ printsAs_zeroExtended (matches_fieldsOf _)] at hends
  rw [← hends] at hvalue
  exact absurd hvalue (by decide)

theorem zeroExtended_iff :
    (∃ s', EmittedEnds ∅ ∅ [zeroExtended] Versions.initial (fieldsOf (sample 0 0x1234 0 0)) s' ∧
        zeroExtend.op.number zeroExtend.dst.width (zeroExtend.dst.value s') =
          zeroExtend.op.number zeroExtend.src.width
            (zeroExtend.src.value (sample 0 0x1234 0 0))) ↔
      zeroExtend.Fits (sample 0 0x1234 0 0) :=
  widening_iff ∅ ∅ _ printsAs_zeroExtended (matches_fieldsOf _)

end Dexe.Straight
