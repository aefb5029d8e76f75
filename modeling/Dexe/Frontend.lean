import Dexe.Text.Numeral
import Std.Data.TreeMap
import Std.Data.TreeSet

/-! Function discovery (`frontend.rs`). Capstone is a parameter: what it decodes is an
instruction stream, or an error. -/

namespace Dexe

open Std

abbrev SymbolTable := TreeMap U64 Text

inductive BinaryFormat
  | elf | pe | unknown
  deriving DecidableEq, Repr

structure BinaryInfo where
  format : BinaryFormat
  entryPoint : U64
  textSectionAddr : U64
  textData : List UInt8
  symbols : SymbolTable

structure DisassembledInsn where
  address : U64
  size : BitVec 8
  mnemonic : Text
  opStr : Text
  bytes : List UInt8
  deriving DecidableEq, Repr

structure DisassembledFunction where
  name : Text
  startAddr : U64
  endAddr : U64
  instructions : List DisassembledInsn
  deriving DecidableEq, Repr

/-- The two calls the frontend makes: building the x86-64 handle and decoding the whole
text section. The decoded instructions come already converted by `insn_to_owned`. -/
structure Capstone where
  build : Except Text Unit
  disasmAll : List UInt8 → U64 → Except Text (List DisassembledInsn)

namespace Frontend

def parseHexTarget (opStr : Text) : Option U64 :=
  let s := opStr.trim
  if s.startsWith "0x" || s.startsWith "0X" then Text.u64FromStrRadix (s.drop 2) 16
  else Text.u64FromStrRadix s 16

variable (textStart textEnd : U64)

def inText (addr : U64) : Prop := textStart ≤ addr ∧ addr < textEnd

instance (addr : U64) : Decidable (inText textStart textEnd addr) :=
  inferInstanceAs (Decidable (_ ∧ _))

def symbolStarts (symbols : SymbolTable) (starts : TreeSet U64) : TreeSet U64 :=
  symbols.keys.foldl
    (fun s addr => if inText textStart textEnd addr then s.insert addr else s) starts

def entryStart (entryPoint : U64) (starts : TreeSet U64) : TreeSet U64 :=
  if inText textStart textEnd entryPoint then starts.insert entryPoint else starts

def isPrologue (insn : DisassembledInsn) : Prop :=
  insn.bytes.head? = some 0x55 ∧ insn.mnemonic = "push" ∧ insn.opStr.contains "rbp" = true

instance (insn : DisassembledInsn) : Decidable (isPrologue insn) :=
  inferInstanceAs (Decidable (_ ∧ _ ∧ _))

def prologueStarts (insns : List DisassembledInsn) (starts : TreeSet U64) : TreeSet U64 :=
  insns.foldl (fun s insn => if isPrologue insn then s.insert insn.address else s) starts

def callStarts (addrToIdx : TreeMap U64 ℕ) (insns : List DisassembledInsn)
    (starts : TreeSet U64) : TreeSet U64 :=
  insns.foldl (fun s (insn : DisassembledInsn) =>
    if insn.mnemonic = "call" then
      match parseHexTarget insn.opStr with
      | some target =>
        if inText textStart textEnd target ∧ addrToIdx.contains target then s.insert target else s
      | none => s
    else s) starts

def addrToIdx (insns : List DisassembledInsn) : TreeMap U64 ℕ :=
  insns.zipIdx.foldl (fun m p => m.insert p.1.address p.2) ∅

def funcStarts (info : BinaryInfo) (insns : List DisassembledInsn) : TreeSet U64 :=
  let textStart := info.textSectionAddr
  let textEnd := textStart + BitVec.ofNat 64 info.textData.length
  callStarts textStart textEnd (addrToIdx insns) insns <|
    prologueStarts insns <|
      entryStart textStart textEnd info.entryPoint <|
        symbolStarts textStart textEnd info.symbols ∅

def funcName (symbols : SymbolTable) (start : U64) : Text :=
  symbols[start]?.getD ("func_0x" ++ Text.hex start.toNat)

def functionAt (symbols : SymbolTable) (insns : List DisassembledInsn) (start stop : U64) :
    Option DisassembledFunction :=
  let funcInsns := insns.filter fun i => decide (start ≤ i.address ∧ i.address < stop)
  if funcInsns = [] then none
  else some ⟨funcName symbols start, start, stop, funcInsns⟩

def splitFunctions (symbols : SymbolTable) (insns : List DisassembledInsn) (starts : List U64)
    (textEnd : U64) : List DisassembledFunction :=
  starts.zipIdx.filterMap fun p =>
    functionAt symbols insns p.1 (starts[p.2 + 1]?.getD textEnd)

def discoverFunctions (cs : Capstone) (info : BinaryInfo) :
    Except Text (List DisassembledFunction) := do
  cs.build.mapError fun e => "capstone init: " ++ e
  let insns ← (cs.disasmAll info.textData info.textSectionAddr).mapError
    fun e => "capstone disasm: " ++ e
  let starts := (funcStarts info insns).toList
  let textEnd := info.textSectionAddr + BitVec.ofNat 64 info.textData.length
  return splitFunctions info.symbols insns starts textEnd

end Frontend

end Dexe
