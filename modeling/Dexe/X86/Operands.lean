import Dexe.X86.Parts

/-! Memory operands of any size, addressed by registers of 32 or 64 bits, relative to the next
instruction or in a segment. -/

namespace Dexe.X86

inductive Size
  | byte | word | dword | qword
  deriving DecidableEq, Repr

namespace Size

def bytes : Size → ℕ
  | byte => 1
  | word => 2
  | dword => 4
  | qword => 8

def ptr : Size → Text
  | byte => "byte ptr "
  | word => "word ptr "
  | dword => "dword ptr "
  | qword => "qword ptr "

lemma bytes_le (size : Size) : size.bytes ≤ 8 := by cases size <;> decide

lemma eq_qword {size : Size} (h : 8 ≤ size.bytes) : size = .qword := by
  cases size <;> first | rfl | exact absurd h (by decide)

end Size

inductive Segment
  | cs | ds | es | ss | fs | gs
  deriving DecidableEq, Repr

def Segment.name : Segment → Text
  | cs => "cs"
  | ds => "ds"
  | es => "es"
  | ss => "ss"
  | fs => "fs"
  | gs => "gs"

/-- What a memory operand is relative to, with the values that the processor adds: the address of
the next instruction for `rip`, and the base of a segment. Registers of 32 bits give an address of
32 bits before that base is added. -/
structure MemOperand where
  ref : MemRef
  half : Bool
  rip : Option U64
  segment : Option (Segment × U64)

namespace MemOperand

variable (m : MemOperand)

def offset (regs : Reg → U64) : U64 :=
  let a := m.rip.getD 0 + m.ref.address regs
  if m.half then a &&& Bits.ones 64 32 else a

def address (regs : Reg → U64) : U64 := m.segment.elim 0 Prod.snd + m.offset regs

def registerName (r : Reg) : Text := if m.half then r.dwordName else r.name

def ripTerm : Term := ⟨false, if m.half then "eip" else "rip"⟩

def terms : List Term :=
  m.rip.toList.map (fun _ => m.ripTerm) ++ m.ref.namedTerms m.registerName

def segmentText : Text := m.segment.elim [] fun p => p.1.name ++ ":"

def sizedText (size : Text) : Text := size ++ m.segmentText ++ ("[" ++ termsText m.terms ++ "]")

def text (size : Size) : Text := size.ptr ++ m.segmentText ++ ("[" ++ termsText m.terms ++ "]")

def Direct (regs : Reg → U64) : Prop := m.address regs = m.ref.address regs

instance (regs : Reg → U64) : Decidable (m.Direct regs) := inferInstanceAs (Decidable (_ = _))

end MemOperand

end Dexe.X86
