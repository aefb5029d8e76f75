import Dexe.Ir.Definitions

/-! Lifted instructions without the versions of their variables. They do not depend on what was
lifted before. -/

namespace Dexe

def VarId.erase (v : VarId) : VarId := ⟨v.base, 0⟩

def Operand.erase : Operand → Operand
  | var v => var v.erase
  | imm n => imm n
  | mem base index scale disp => mem (base.map VarId.erase) (index.map VarId.erase) scale disp

def CallTarget.erase : CallTarget → CallTarget
  | indirect op => indirect op.erase
  | target => target

namespace Opcode

def erase : Opcode → Opcode
  | mov dst src => mov dst.erase src.erase
  | load dst addr => load dst.erase addr.erase
  | store addr src => store addr.erase src.erase
  | add dst lhs rhs => add dst.erase lhs.erase rhs.erase
  | sub dst lhs rhs => sub dst.erase lhs.erase rhs.erase
  | mul dst lhs rhs => mul dst.erase lhs.erase rhs.erase
  | and dst lhs rhs => and dst.erase lhs.erase rhs.erase
  | or dst lhs rhs => or dst.erase lhs.erase rhs.erase
  | xor dst lhs rhs => xor dst.erase lhs.erase rhs.erase
  | shl dst lhs rhs => shl dst.erase lhs.erase rhs.erase
  | shr dst lhs rhs => shr dst.erase lhs.erase rhs.erase
  | not dst src => not dst.erase src.erase
  | neg dst src => neg dst.erase src.erase
  | lea dst addr => lea dst.erase addr.erase
  | cmp lhs rhs => cmp lhs.erase rhs.erase
  | test lhs rhs => test lhs.erase rhs.erase
  | cmovcc condition dst src => cmovcc condition dst.erase src.erase
  | setcc condition dst => setcc condition dst.erase
  | call target fallthrough => call target.erase fallthrough
  | push src => push src.erase
  | pop dst => pop dst.erase
  | atomicRMW op addr src => atomicRMW op addr.erase src.erase
  | op => op

end Opcode

def IRInstruction.erase (ir : IRInstruction) : IRInstruction := ⟨ir.addr, ir.opcode.erase⟩

@[simp] lemma Operand.erase_var (v : VarId) : (var v).erase = var v.erase := rfl

@[simp] lemma Operand.erase_imm (n : I64) : (imm n).erase = imm n := rfl

@[simp] lemma Operand.erase_current (versions : Versions) (op : Operand) :
    (op.current versions).erase = op.erase := by
  cases op with
  | mem base index scale disp => cases base <;> cases index <;> rfl
  | _ => rfl

namespace Ir

open Versions

@[simp] lemma erase_newVersion (versions : Versions) (base : VarBase) :
    (versions.newVersion base).1.erase = ⟨base, 0⟩ := rfl

@[simp] lemma erase_currentVar (versions : Versions) (base : VarBase) :
    (versions.currentVar base).erase = ⟨base, 0⟩ := rfl

def erased (x : Lifted) : Option Opcode := x.map fun p => p.1.erase

@[simp] lemma erased_some (p : Opcode × Versions) : erased (some p) = some p.1.erase := rfl

@[simp] lemma erased_none : erased none = none := rfl

lemma parseSingleOperand_from (s : Text) :
    ∃ x : Option Operand, ∀ versions,
      parseSingleOperand s versions = x.map (Operand.current versions) :=
  ⟨parseSingleOperand s initial, fun versions => parseSingleOperand_current versions initial s⟩

lemma parseMemoryOperand_from (s : Text) :
    ∃ x : Option Operand, ∀ versions,
      parseMemoryOperand s versions = x.map (Operand.current versions) :=
  ⟨parseMemoryOperand s initial, fun versions => parseMemoryOperand_current versions initial s⟩

section Arms

variable (operands : List Text) (m : Text) (addr : U64) (versions w : Versions)

lemma liftBinaryAlu_erased :
    erased (liftBinaryAlu m operands addr versions) = erased (liftBinaryAlu m operands addr w) := by
  rcases operands with _ | ⟨first, _ | ⟨second, more⟩⟩
  · rfl
  · rfl
  · obtain ⟨rhs, hrhs⟩ := parseSingleOperand_from
      ((second :: more).getLast (List.cons_ne_nil second more))
    obtain ⟨lhs, hlhs⟩ := parseSingleOperand_from (if more = [] then first else second)
    simp only [liftBinaryAlu, hrhs, hlhs]
    cases rhs with
    | none => rfl
    | some rhs =>
      cases lhs with
      | none => rfl
      | some lhs =>
        simp only [Option.map_some, Option.bind_eq_bind, Option.bind_some, Option.pure_def,
          erased_some, apply_ite Opcode.erase]
        simp only [Opcode.erase, Operand.erase_current, erase_newVersion]

lemma liftMov_erased :
    erased (liftMov operands m addr versions) = erased (liftMov operands m addr w) := by
  rcases operands with _ | ⟨first, _ | ⟨second, more⟩⟩
  · rfl
  · rfl
  · obtain ⟨dst, hdst⟩ := parseMemoryOperand_from first
    obtain ⟨src, hsrc⟩ := parseSingleOperand_from second
    obtain ⟨loaded, hloaded⟩ := parseMemoryOperand_from second
    simp only [liftMov, hdst, hsrc, hloaded]
    split
    · cases dst <;> cases src <;> simp [Opcode.erase]
    · split
      · cases loaded <;> simp [Opcode.erase]
      · cases src <;> simp [Opcode.erase]

lemma liftUnaryReg_erased :
    erased (liftUnaryReg m operands addr versions) = erased (liftUnaryReg m operands addr w) := by
  cases operands with
  | nil => rfl
  | cons first more =>
    simp only [liftUnaryReg]
    split
    · rfl
    · split
      · rfl
      · split <;> rfl

lemma liftCall_erased (target : Text) (fallthrough : U64) :
    (liftCall target versions fallthrough).map Opcode.erase =
      (liftCall target w fallthrough).map Opcode.erase := by
  obtain ⟨x, hx⟩ := parseMemoryOperand_from target.trim
  simp only [liftCall, hx]
  split
  · cases x <;> simp [Opcode.erase, CallTarget.erase]
  · split
    · rfl
    · split <;> rfl

lemma liftJmp_erased (target : Text) :
    (liftJmp target versions).map Opcode.erase = (liftJmp target w).map Opcode.erase := by
  obtain ⟨x, hx⟩ := parseMemoryOperand_from target.trim
  simp only [liftJmp, hx]
  split
  · rfl
  · split
    · cases x <;> simp [Opcode.erase, CallTarget.erase]
    · split <;> rfl

lemma liftArm_erased (arm : Arm) (insn : DisassembledInsn) :
    erased (liftArm arm m operands insn versions) = erased (liftArm arm m operands insn w) := by
  have hpair : ∀ (x : Option Opcode) (u : Versions),
      erased (x.map fun op => (op, u)) = x.map Opcode.erase := by
    intro x u
    cases x <;> rfl
  cases arm with
  | mov => exact liftMov_erased operands m insn.address versions w
  | alu => exact liftBinaryAlu_erased operands m insn.address versions w
  | not => exact liftUnaryReg_erased operands "not" insn.address versions w
  | neg => exact liftUnaryReg_erased operands "neg" insn.address versions w
  | lea =>
    rcases operands with _ | ⟨first, _ | ⟨second, more⟩⟩
    · rfl
    · rfl
    · obtain ⟨x, hx⟩ := parseMemoryOperand_from second
      simp only [liftArm, hx]
      cases x <;> simp [Opcode.erase]
  | mul =>
    rcases operands with _ | ⟨first, _ | ⟨second, more⟩⟩
    · exact liftBinaryAlu_erased [] "imul" insn.address versions w
    · obtain ⟨x, hx⟩ := parseSingleOperand_from first
      simp only [liftArm, hx]
      cases x <;> simp [Opcode.erase]
    · exact liftBinaryAlu_erased (first :: second :: more) "imul" insn.address versions w
  | cmp | test =>
    rcases operands with _ | ⟨first, _ | ⟨second, more⟩⟩
    · rfl
    · rfl
    · obtain ⟨x, hx⟩ := parseSingleOperand_from first
      obtain ⟨y, hy⟩ := parseSingleOperand_from second
      simp only [liftArm, hx, hy]
      cases x <;> cases y <;> simp [Opcode.erase]
  | push =>
    cases operands with
    | nil => rfl
    | cons first more =>
      obtain ⟨x, hx⟩ := parseSingleOperand_from first
      simp only [liftArm, hx]
      cases x <;> simp [Opcode.erase]
  | call =>
    cases operands with
    | nil => rfl
    | cons first more =>
      simp only [liftArm, hpair]
      exact liftCall_erased versions w first _
  | jmp =>
    cases operands with
    | nil => rfl
    | cons first more =>
      simp only [liftArm, hpair]
      exact liftJmp_erased versions w first
  | lock =>
    rcases operands with _ | ⟨first, _ | ⟨second, more⟩⟩
    · rfl
    · rfl
    · obtain ⟨x, hx⟩ := parseSingleOperand_from first
      obtain ⟨y, hy⟩ := parseSingleOperand_from second
      simp only [liftArm, hx, hy]
      cases x <;> cases y <;> simp [Opcode.erase]
  | cmov =>
    rcases operands with _ | ⟨first, _ | ⟨second, more⟩⟩
    · rfl
    · rfl
    · obtain ⟨x, hx⟩ := parseSingleOperand_from second
      simp only [liftArm, hx]
      cases x <;> simp [Opcode.erase]
  | pop | set | inc | dec => cases operands <;> rfl
  | _ => rfl

end Arms

def liftErased (insn : DisassembledInsn) (versions : Versions) : Option (List IRInstruction) :=
  (liftInsn insn versions).map fun p => p.1.map IRInstruction.erase

lemma liftBefore_erased (arm : Arm) (versions w : Versions) :
    (liftBefore arm versions).1.map Opcode.erase = (liftBefore arm w).1.map Opcode.erase := by
  cases arm <;> rfl

lemma liftErased_eq (insn : DisassembledInsn) (versions : Versions) :
    liftErased insn versions =
      (erased (liftArm (armOfInsn insn) (lockedMnemonic insn.mnemonic).2 (parseOperands insn.opStr)
        insn (liftBefore (armOfInsn insn) versions).2)).map fun op =>
          ((liftBefore (armOfInsn insn) versions).1.map Opcode.erase ++ [op]).map fun op =>
            ⟨insn.address, op⟩ := by
  rw [liftErased, liftInsn, armOfInsn]
  simp only [Option.bind_eq_bind]
  cases liftArm (armOf (lockedMnemonic insn.mnemonic).1 (lockedMnemonic insn.mnemonic).2)
      (lockedMnemonic insn.mnemonic).2 (parseOperands insn.opStr) insn
      (liftBefore (armOf (lockedMnemonic insn.mnemonic).1 (lockedMnemonic insn.mnemonic).2)
        versions).2 with
  | none => rfl
  | some p => simp [IRInstruction.erase]

lemma liftErased_any (insn : DisassembledInsn) (versions w : Versions) :
    liftErased insn versions = liftErased insn w := by
  rw [liftErased_eq, liftErased_eq, liftBefore_erased _ versions w, liftArm_erased]

end Ir

end Dexe
