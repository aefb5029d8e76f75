import Dexe.Bits.Fields
import Dexe.X86.Semantics

/-! Registers of 8, 16 and 32 bits, which are parts of the registers of 64 bits. -/

namespace Dexe.X86

inductive Part
  | low | high | word | dword
  deriving DecidableEq, Repr

namespace Part

def width : Part → ℕ
  | low | high => 8
  | word => 16
  | dword => 32

def offset : Part → ℕ
  | high => 8
  | _ => 0

end Part

namespace Reg

def lowName : Reg → Text
  | rax => "al"
  | rbx => "bl"
  | rcx => "cl"
  | rdx => "dl"
  | rsi => "sil"
  | rdi => "dil"
  | rsp => "spl"
  | rbp => "bpl"
  | r8 => "r8b"
  | r9 => "r9b"
  | r10 => "r10b"
  | r11 => "r11b"
  | r12 => "r12b"
  | r13 => "r13b"
  | r14 => "r14b"
  | r15 => "r15b"

def highName : Reg → Option Text
  | rax => some "ah"
  | rbx => some "bh"
  | rcx => some "ch"
  | rdx => some "dh"
  | _ => none

def wordName : Reg → Text
  | rax => "ax"
  | rbx => "bx"
  | rcx => "cx"
  | rdx => "dx"
  | rsi => "si"
  | rdi => "di"
  | rsp => "sp"
  | rbp => "bp"
  | r8 => "r8w"
  | r9 => "r9w"
  | r10 => "r10w"
  | r11 => "r11w"
  | r12 => "r12w"
  | r13 => "r13w"
  | r14 => "r14w"
  | r15 => "r15w"

def dwordName : Reg → Text
  | rax => "eax"
  | rbx => "ebx"
  | rcx => "ecx"
  | rdx => "edx"
  | rsi => "esi"
  | rdi => "edi"
  | rsp => "esp"
  | rbp => "ebp"
  | r8 => "r8d"
  | r9 => "r9d"
  | r10 => "r10d"
  | r11 => "r11d"
  | r12 => "r12d"
  | r13 => "r13d"
  | r14 => "r14d"
  | r15 => "r15d"

def partName (r : Reg) : Part → Option Text
  | .low => some r.lowName
  | .high => r.highName
  | .word => some r.wordName
  | .dword => some r.dwordName

end Reg

structure SubReg where
  parent : Reg
  part : Part
  named : (parent.partName part).isSome
  deriving DecidableEq

namespace SubReg

def al : SubReg := ⟨.rax, .low, by decide⟩

def bl : SubReg := ⟨.rbx, .low, by decide⟩

def name (r : SubReg) : Text := (r.parent.partName r.part).get r.named

def value (r : SubReg) (s : State) : U64 :=
  Bits.field r.part.offset r.part.width (s.regs r.parent)

/-- What a write leaves of the parent: 32 bits are extended by zeros, fewer are put in place. -/
def merge (r : SubReg) (old v : U64) : U64 :=
  match r.part with
  | .dword => v &&& Bits.ones 64 32
  | part => Bits.insert part.offset part.width old v

end SubReg

def State.setPart (s : State) (r : SubReg) (v : U64) : State :=
  s.set r.parent (r.merge (s.regs r.parent) v)

inductive PartOp
  | mov
  | alu (op : AluOp) (h : op ≠ .imul)

namespace PartOp

def mnemonic : PartOp → Text
  | mov => "mov"
  | alu op _ => op.mnemonic

def result : PartOp → U64 → U64 → U64
  | mov, _, b => b
  | alu op _, a, b => op.result a b

end PartOp

structure PartInsn where
  op : PartOp
  dst : SubReg
  src : SubReg
  width_eq : src.part.width = dst.part.width

def State.stepPart (s : State) (i : PartInsn) : State :=
  s.setPart i.dst (i.op.result (i.dst.value s) (i.src.value s))

end Dexe.X86
