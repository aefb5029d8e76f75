import Dexe.Ir.PrintedOperands
import Dexe.X86.Parts

/-! Parts of registers, read back by the lifter. -/

namespace Dexe.Ir

open Text X86

lemma partName_text {r : Reg} {part : Part} {t : Text} (h : r.partName part = some t) :
    (t ≠ [] ∧ ∀ c ∈ t, c.isAlphanum = true) ∧
      parseRegister t = some r.base ∧ dstRegister t = some r.base := by
  cases part <;> cases r <;> cases h <;> decide

lemma part_text (r : SubReg) :
    (r.name ≠ [] ∧ ∀ c ∈ r.name, c.isAlphanum = true) ∧
      parseRegister r.name = some r.parent.base ∧ dstRegister r.name = some r.parent.base :=
  partName_text (Option.some_get r.named).symm

lemma plain_part (r : SubReg) : ∀ c ∈ r.name, Plain c :=
  fun c hc => (inTerm_of_alphanum ((part_text r).1.2 c hc)).toPlain

lemma piece_part (r : SubReg) : Piece r.name := .of_plain (part_text r).1.1 (plain_part r)

lemma parseSingleOperand_part (r : SubReg) (versions : Versions) :
    parseSingleOperand r.name versions = some (.var (versions.currentVar r.parent.base)) := by
  have hplain := plain_part r
  simp only [parseSingleOperand, (trimmed_of_plain hplain).trim_eq,
    if_neg (not_memory_of_plain hplain), (part_text r).2.1]

end Dexe.Ir
