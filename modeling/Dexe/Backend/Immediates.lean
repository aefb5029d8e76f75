import Dexe.Backend.Addresses

/-! The emitted literal of a printed immediate. -/

namespace Dexe

open Text

/-- The texts that a number is printed as. Negative numbers have a sign, except the least one; the
others are unsigned, and single digits may do without a prefix. -/
inductive X86.PrintsImmediate (v : U64) : Text → Prop
  | dec (h : v.toNat < 10) : PrintsImmediate v (dec v.toNat)
  | hex : PrintsImmediate v ("0x" ++ hex v.toNat)
  | minusDec (h : v.toInt < 0) (hlt : v.toInt.natAbs < 10) :
    PrintsImmediate v ('-' :: Text.dec v.toInt.natAbs)
  | minusHex (h : v.toInt < 0) (hlow : -2 ^ 63 < v.toInt) :
    PrintsImmediate v ('-' :: ("0x" ++ Text.hex v.toInt.natAbs))

namespace Ir

open X86

lemma neg_ofNat_natAbs {v : U64} (h : v.toInt < 0) : -BitVec.ofNat 64 v.toInt.natAbs = v := by
  have habs : v.toInt = -(v.toInt.natAbs : ℤ) := by omega
  rw [← BitVec.ofInt_natCast, ← BitVec.ofInt_neg, ← habs, BitVec.ofInt_toInt]

lemma parseImmediate_printed {v : U64} {t : Text} (h : PrintsImmediate v t) :
    parseImmediate t = some v := by
  cases h with
  | dec h =>
    have hdec : magnitudeText v.toNat = dec v.toNat := if_pos h
    rw [← hdec, parseImmediate_magnitude v.isLt, BitVec.ofNat_toNat, BitVec.setWidth_eq]
  | hex =>
    rw [parseImmediate_hexOperand (hexOperand_hex v.toNat) v.isLt, BitVec.ofNat_toNat,
      BitVec.setWidth_eq]
  | minusDec h hlt =>
    have hdec : magnitudeText v.toInt.natAbs = dec v.toInt.natAbs := if_pos hlt
    rw [← hdec, parseImmediate_negative (by omega), neg_ofNat_natAbs h]
  | minusHex h hlow =>
    rw [parseImmediate_minusHex (by omega), neg_ofNat_natAbs h]

end Ir

namespace Backend

open Clang Ir X86

lemma readsAs_emitOperand (op : Operand) : ReadsAs (emitOperand op) (operandTree op) := by
  rw [← operandTree_text]
  exact readsAs_text (fits_operandTree (by decide) op)

lemma readsAs_cast (ty : TypeName) (op : Operand) :
    ReadsAs ("(" ++ ty.text ++ ")" ++ emitOperand op) (.cast ty (operandTree op)) := by
  have hfits : (Expr.cast ty (operandTree op)).Fits 1 :=
    ⟨by decide, fits_operandTree (by decide) op⟩
  rw [← operandTree_text]
  exact readsAs_text hfits

/-- A printed number is read, and the literal that is emitted for it is that number, whether it is
taken as unsigned or as signed. -/
theorem emitOperand_immediate (v : U64) {t : Text} (h : PrintsImmediate v t) :
    ∃ n, parseImmediate t = some n ∧
      ∃ e, ReadsAs (emitOperand (.imm n)) e ∧
        ReadsAs ("(uint64_t)" ++ emitOperand (.imm n)) (.cast .uint64 e) ∧
        ReadsAs ("(int64_t)" ++ emitOperand (.imm n)) (.cast .int64 e) ∧
        ∀ σ : Clang.State, eval σ (.cast .uint64 e) = some ⟨.u64, v⟩ ∧
          eval σ (.cast .int64 e) = some ⟨.i64, v⟩ := by
  refine ⟨v, parseImmediate_printed h, operandTree (.imm v), readsAs_emitOperand _,
    readsAs_cast .uint64 _, readsAs_cast .int64 _, fun σ => ?_⟩
  have hvalue : HasInt σ (operandTree (.imm v)) v := hasInt_operandTree (.imm v)
  exact ⟨hvalue.cast .uint64 (by decide), hvalue.cast .int64 (by decide)⟩

theorem intMin_immediate :
    ∃ n, parseImmediate "0x8000000000000000" = some n ∧
      ∃ e, ReadsAs (emitOperand (.imm n)) e ∧
        ReadsAs ("(uint64_t)" ++ emitOperand (.imm n)) (.cast .uint64 e) ∧
        ReadsAs ("(int64_t)" ++ emitOperand (.imm n)) (.cast .int64 e) ∧
        ∀ σ : Clang.State, eval σ (.cast .uint64 e) = some ⟨.u64, BitVec.intMin 64⟩ ∧
          eval σ (.cast .int64 e) = some ⟨.i64, BitVec.intMin 64⟩ := by
  have htext : ("0x8000000000000000" : Text) = "0x" ++ Text.hex (BitVec.intMin 64).toNat := by
    decide
  apply emitOperand_immediate (BitVec.intMin 64)
  rw [htext]
  exact .hex

end Backend

end Dexe
