import Mathlib.Tactic

/-! Byte memory with little-endian access. -/

namespace Dexe

abbrev Memory := BitVec 64 → BitVec 8

namespace Memory

def load (mem : Memory) (a : BitVec 64) : ℕ → ℕ
  | 0 => 0
  | n + 1 => (mem a).toNat + 256 * load mem (a + 1) n

def store (mem : Memory) (a : BitVec 64) : ℕ → ℕ → Memory
  | 0, _ => mem
  | n + 1, v => store (Function.update mem a (BitVec.ofNat 8 v)) (a + 1) n (v / 256)

def load64 (mem : Memory) (a : BitVec 64) : BitVec 64 := BitVec.ofNat 64 (mem.load a 8)

def store64 (mem : Memory) (a v : BitVec 64) : Memory := mem.store a 8 v.toNat

end Memory

end Dexe
