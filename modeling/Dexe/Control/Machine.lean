import Dexe.Control.Lines
import Dexe.Ir.HexOperands

/-! A function as the machine steps through it: a list of instructions, with the outcomes of the
conditional jumps coming from outside. -/

namespace Dexe.Control

open Cfg Ir Trace

def unconditional : List Text := ["ret", "retn", "hlt", "int3", "ud2"]

def jumpTo (insns : List DisassembledInsn) (opStr : Text) : Option (List DisassembledInsn) :=
  (hexOperand opStr).bind fun n => fromFirst (fun t => t.address.toNat = n) insns

def machineNext (insns : List DisassembledInsn) :
    List DisassembledInsn → Move (List DisassembledInsn) U64
  | [] => .stop none
  | i :: rest =>
    if i.mnemonic = "jmp" then
      (jumpTo insns i.opStr).elim .stuck fun s => .go (some i.address) s
    else if i.mnemonic ∈ condJumps then
      (jumpTo insns i.opStr).elim .stuck fun s => .test (some i.address) s rest
    else if i.mnemonic ∈ unconditional then .stop (some i.address)
    else .go (some i.address) rest

/-- Every jump goes to an instruction of the list, and every instruction that is neither a jump
nor a stop is lifted to something that control runs through. -/
def DirectJumps (insns : List DisassembledInsn) : Prop :=
  ∀ i ∈ insns, if IsJump i.mnemonic then ∃ t ∈ insns, hexOperand i.opStr = some t.address.toNat
    else i.mnemonic ∈ unconditional ∨ transferOf i = none

instance (insns : List DisassembledInsn) : Decidable (DirectJumps insns) :=
  inferInstanceAs (Decidable (∀ i ∈ insns, _))

lemma transferOf_unconditional {i : DisassembledInsn} (h : i.mnemonic ∈ unconditional) :
    transferOf i = some .ret := by
  have hall : ∀ m ∈ unconditional, armOf (lockedMnemonic m).1 (lockedMnemonic m).2 = .ret ∨
      armOf (lockedMnemonic m).1 (lockedMnemonic m).2 = .trap := by
    decide
  rcases hall _ h with harm | harm <;> rw [transferOf, armOfInsn, harm] <;> rfl

section Jumps

variable {i : DisassembledInsn} {a : U64} (h : hexOperand i.opStr = some a.toNat)

include h

lemma parseImmediate_target : parseImmediate i.opStr.trim = some a := by
  rw [(Text.Trimmed.of_forall fun c hc => (plain_of_hexOperand h c hc).1).trim_eq,
    parseImmediate_hexOperand h a.isLt, BitVec.ofNat_toNat, BitVec.setWidth_eq]

lemma parseHexTarget_target : parseHexTarget i.opStr = some a := by
  rw [parseHexTarget_hexOperand h a.isLt, BitVec.ofNat_toNat, BitVec.setWidth_eq]

lemma transferOf_jmp (hm : i.mnemonic = "jmp") : transferOf i = some (.jump a) := by
  simp [transferOf, armOfInsn_jmp hm, parseOperands_hexOperand h, armTransfer, jmpTarget,
    parseImmediate_target h]

lemma transferOf_condJump (hm : i.mnemonic ∈ condJumps) : transferOf i = some (.branch a) := by
  simp [transferOf, armOfInsn_condJump hm, parseOperands_hexOperand h, armTransfer, jccTarget,
    parseImmediate_target h]

end Jumps

end Dexe.Control
