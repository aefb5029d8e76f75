import Dexe.Bytes
import Dexe.X86.Syntax

/-! What the instructions do to the registers and to memory. -/

namespace Dexe.X86

def MemRef.address (m : MemRef) (regs : Reg → U64) : U64 :=
  m.base.elim 0 regs + m.index.elim 0 (fun i => regs i.1 * BitVec.ofNat 64 i.2.factor) +
    m.disp.elim 0 Numeral.value

structure State where
  regs : Reg → U64
  mem : Memory

namespace State

variable (s : State)

def set (r : Reg) (v : U64) : State := { s with regs := Function.update s.regs r v }

def read : Source → U64
  | .reg r => s.regs r
  | .imm n => n.value
  | .mem m => s.mem.load64 (m.address s.regs)

variable {s}

lemma set_eq_set_iff {r : Reg} {v w : U64} : s.set r v = s.set r w ↔ v = w := by
  constructor
  · intro h
    have hregs : (s.set r v).regs r = (s.set r w).regs r := by rw [h]
    simpa [set] using hregs
  · rintro rfl
    rfl

lemma set_regs_self (r : Reg) (v : U64) : (s.set r v).regs r = v := by simp [set]

lemma set_regs_of_ne {r r' : Reg} (h : r' ≠ r) (v : U64) : (s.set r v).regs r' = s.regs r' := by
  simp [set, h]

lemma set_set (r : Reg) (v w : U64) : (s.set r v).set r w = s.set r w := by simp [set]

lemma eq_set_iff {r : Reg} {v : U64} : s = s.set r v ↔ s.regs r = v := by
  constructor
  · intro h
    rw [h, set_regs_self]
  · rintro rfl
    rw [set, Function.update_eq_self]

end State

def AluOp.result : AluOp → U64 → U64 → U64
  | add, a, b => a + b
  | sub, a, b => a - b
  | and, a, b => a &&& b
  | or, a, b => a ||| b
  | xor, a, b => a ^^^ b
  | imul, a, b => a * b

def UnaryOp.result : UnaryOp → U64 → U64
  | not, a => ~~~ a
  | neg, a => -a
  | inc, a => a + 1
  | dec, a => a - 1

def step (s : State) : Insn → State
  | .mov dst src => s.set dst (s.read src)
  | .store dst src => { s with mem := s.mem.store64 (dst.address s.regs) (s.read src.source) }
  | .lea dst src => s.set dst (src.address s.regs)
  | .alu op dst src => s.set dst (op.result (s.regs dst) (s.read src))
  | .imul dst lhs rhs => s.set dst (s.read lhs.source * rhs.value)
  | .unary op dst => s.set dst (op.result (s.regs dst))
  | .compare _ _ _ => s

def run (s : State) (code : List Insn) : State := code.foldl step s

end Dexe.X86
