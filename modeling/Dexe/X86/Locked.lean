import Dexe.X86.Semantics

/-! Instructions with a `lock` prefix, which read a word in memory, change it and write it back. -/

namespace Dexe.X86

inductive Locked
  | alu (op : AluOp) (h : op ≠ .imul) (src : Stored)
  | inc
  | dec
  | xadd (src : Reg)
  | cmpxchg (src : Reg)

namespace Locked

def name : Locked → Text
  | alu op _ _ => op.mnemonic
  | inc => "inc"
  | dec => "dec"
  | xadd _ => "xadd"
  | cmpxchg _ => "cmpxchg"

def mnemonic (i : Locked) : Text := "lock " ++ i.name

def operands (m : MemRef) : Locked → List Text
  | alu _ _ src => [m.text, src.source.text]
  | inc | dec => [m.text]
  | xadd src | cmpxchg src => [m.text, src.name]

def result (s : State) (old : U64) : Locked → U64
  | alu op _ src => op.result old (s.read src.source)
  | inc => UnaryOp.inc.result old
  | dec => UnaryOp.dec.result old
  | xadd src => old + s.regs src
  | cmpxchg src => if s.regs .rax = old then s.regs src else old

def writes : Locked → Option Reg
  | xadd src => some src
  | cmpxchg _ => some .rax
  | _ => none

end Locked

def State.lockedStep (s : State) (i : Locked) (m : MemRef) : State :=
  let a := m.address s.regs
  let old := s.mem.load64 a
  { regs := i.writes.elim s.regs fun r => Function.update s.regs r old
    mem := s.mem.store64 a (i.result s old) }

/-- The emitted C has an atomic operation for the instruction, and has nothing to change in memory
with it. -/
def Locked.Passive (s : State) (old : U64) : Locked → Prop
  | alu _ _ _ | inc | dec => False
  | xadd src => s.regs src = 0
  | cmpxchg src => s.regs .rax ≠ old ∨ s.regs src = old

end Dexe.X86
