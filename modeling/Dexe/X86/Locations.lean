import Dexe.X86.Operands

/-! Addresses that instructions load from, store to or only compute. -/

namespace Dexe.X86

structure Location where
  ref : MemRef
  half : Bool
  ripBase : Bool
  segment : Option (Segment × U64)

namespace Location

variable (l : Location) (next : U64)

def operand : MemOperand := ⟨l.ref, l.half, if l.ripBase then some next else none, l.segment⟩

def ripValue : U64 := if l.ripBase then next else 0

def segmentBase : U64 := l.segment.elim 0 Prod.snd

/-- Nothing is lost when base, index and displacement alone are taken, in 64 bits, for the address
above a segment base: what is left out is zero. With registers of 32 bits that is only to be so in
their bits, and the address above the segment base has to have no others. -/
def Kept (base : U64) (regs : Reg → U64) : Prop :=
  if l.half then
    (base + l.ripValue next) &&& Bits.ones 64 32 = 0 ∧
      (l.ref.address regs - base).toNat < 2 ^ 32
  else base + l.ripValue next = 0

end Location

structure RegisterName where
  text : Text
  ne_nil : text ≠ []
  alphanum : ∀ c ∈ text, c.isAlphanum = true

inductive Moved
  | reg (r : RegisterName)
  | imm (n : Numeral)

def Moved.text : Moved → Text
  | reg r => r.text
  | imm n => n.text

inductive MoveName
  | mov | movabs | movzx | movsx | movsxd | movq | movd
  deriving DecidableEq, Repr

def MoveName.mnemonic : MoveName → Text
  | mov => "mov"
  | movabs => "movabs"
  | movzx => "movzx"
  | movsx => "movsx"
  | movsxd => "movsxd"
  | movq => "movq"
  | movd => "movd"

inductive Use
  | lea (dst : RegisterName)
  | load (m : MoveName) (dst : RegisterName)
  | store (m : MoveName) (src : Moved)

namespace Use

def mnemonic : Use → Text
  | lea _ => "lea"
  | load m _ | store m _ => m.mnemonic

def operands (address : Text) : Use → List Text
  | lea dst | load _ dst => [dst.text, address]
  | store _ src => [address, src.text]

end Use

end Dexe.X86
