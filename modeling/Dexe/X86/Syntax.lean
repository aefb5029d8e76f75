import Dexe.Text.Numeral

/-! Instructions on 64-bit registers, as a disassembler prints them in Intel syntax. -/

namespace Dexe.X86

inductive Reg
  | rax | rbx | rcx | rdx | rsi | rdi | rsp | rbp
  | r8 | r9 | r10 | r11 | r12 | r13 | r14 | r15
  deriving DecidableEq, Repr

def Reg.name : Reg → Text
  | rax => "rax"
  | rbx => "rbx"
  | rcx => "rcx"
  | rdx => "rdx"
  | rsi => "rsi"
  | rdi => "rdi"
  | rsp => "rsp"
  | rbp => "rbp"
  | r8 => "r8"
  | r9 => "r9"
  | r10 => "r10"
  | r11 => "r11"
  | r12 => "r12"
  | r13 => "r13"
  | r14 => "r14"
  | r15 => "r15"

def magnitudeText (n : ℕ) : Text := if n < 10 then Text.dec n else "0x" ++ Text.hex n

structure Numeral where
  negative : Bool
  magnitude : ℕ
  bound : magnitude < if negative then 2 ^ 63 else 2 ^ 64
  deriving DecidableEq, Repr

namespace Numeral

def text (n : Numeral) : Text :=
  if n.negative then "-" ++ magnitudeText n.magnitude else magnitudeText n.magnitude

def value (n : Numeral) : U64 :=
  if n.negative then -BitVec.ofNat 64 n.magnitude else BitVec.ofNat 64 n.magnitude

end Numeral

inductive Scale
  | one | two | four | eight
  deriving DecidableEq, Repr

def Scale.factor : Scale → ℕ
  | one => 1
  | two => 2
  | four => 4
  | eight => 8

structure Term where
  negative : Bool
  text : Text

def Term.signed (t : Term) : Text := if t.negative then '-' :: t.text else t.text

def laterTerms : List Term → Text
  | [] => []
  | t :: ts => (if t.negative then " - " else " + ") ++ t.text ++ laterTerms ts

def termsText : List Term → Text
  | [] => []
  | t :: ts => t.signed ++ laterTerms ts

structure MemRef where
  base : Option Reg
  index : Option (Reg × Scale)
  disp : Option Numeral

namespace MemRef

def indexText (r : Reg) (scale : Scale) : Text :=
  match scale with
  | .one => r.name
  | scale => r.name ++ "*" ++ Text.dec scale.factor

def terms (m : MemRef) : List Term :=
  m.base.toList.map (fun r => ⟨false, r.name⟩) ++
    m.index.toList.map (fun i => ⟨false, indexText i.1 i.2⟩) ++
    m.disp.toList.map (fun n => ⟨n.negative, magnitudeText n.magnitude⟩)

def scaledText (t : Text) : Scale → Text
  | .one => t
  | scale => t ++ "*" ++ Text.dec scale.factor

def namedTerms (name : Reg → Text) (m : MemRef) : List Term :=
  m.base.toList.map (fun r => ⟨false, name r⟩) ++
    m.index.toList.map (fun i => ⟨false, scaledText (name i.1) i.2⟩) ++
    m.disp.toList.map (fun n => ⟨n.negative, magnitudeText n.magnitude⟩)

def bracketText (m : MemRef) : Text := "[" ++ termsText m.terms ++ "]"

def text (m : MemRef) : Text := "qword ptr " ++ m.bracketText

end MemRef

inductive Source
  | reg (r : Reg)
  | imm (n : Numeral)
  | mem (m : MemRef)

def Source.text : Source → Text
  | reg r => r.name
  | imm n => n.text
  | mem m => m.text

inductive Stored
  | reg (r : Reg)
  | imm (n : Numeral)

def Stored.source : Stored → Source
  | reg r => .reg r
  | imm n => .imm n

inductive Factor
  | reg (r : Reg)
  | mem (m : MemRef)

def Factor.source : Factor → Source
  | reg r => .reg r
  | mem m => .mem m

inductive AluOp
  | add | sub | and | or | xor | imul
  deriving DecidableEq, Repr

lemma AluOp.add_ne_imul : AluOp.add ≠ .imul := by decide

lemma AluOp.not_imul (h : AluOp.imul ≠ .imul) : False := h rfl

inductive UnaryOp
  | not | neg | inc | dec
  deriving DecidableEq, Repr

inductive CompareOp
  | cmp | test
  deriving DecidableEq, Repr

inductive Insn
  | mov (dst : Reg) (src : Source)
  | store (dst : MemRef) (src : Stored)
  | lea (dst : Reg) (src : MemRef)
  | alu (op : AluOp) (dst : Reg) (src : Source)
  | imul (dst : Reg) (lhs : Factor) (rhs : Numeral)
  | unary (op : UnaryOp) (dst : Reg)
  | compare (op : CompareOp) (lhs : Reg) (rhs : Source)

def AluOp.mnemonic : AluOp → Text
  | add => "add"
  | sub => "sub"
  | and => "and"
  | or => "or"
  | xor => "xor"
  | imul => "imul"

def UnaryOp.mnemonic : UnaryOp → Text
  | not => "not"
  | neg => "neg"
  | inc => "inc"
  | dec => "dec"

def CompareOp.mnemonic : CompareOp → Text
  | cmp => "cmp"
  | test => "test"

namespace Insn

def mnemonics : Insn → List Text
  | mov _ _ | store _ _ => ["mov", "movabs"]
  | lea _ _ => ["lea"]
  | alu op _ _ => [op.mnemonic]
  | imul _ _ _ => ["imul"]
  | unary op _ => [op.mnemonic]
  | compare op _ _ => [op.mnemonic]

def operands : Insn → List (List Text)
  | mov dst src => [[dst.name, src.text]]
  | store dst src => [[dst.text, src.source.text]]
  | lea dst src => [[dst.name, src.bracketText], [dst.name, src.text]]
  | alu _ dst src => [[dst.name, src.text]]
  | imul dst lhs rhs => [[dst.name, lhs.source.text, rhs.text]]
  | unary _ dst => [[dst.name]]
  | compare _ lhs rhs => [[lhs.name, rhs.text]]

end Insn

def operandsText : List Text → Text
  | [] => []
  | [t] => t
  | t :: ts => t ++ ", " ++ operandsText ts

end Dexe.X86
