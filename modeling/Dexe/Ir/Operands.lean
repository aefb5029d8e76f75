import Dexe.Ir.Syntax

/-! Parsing of operand texts (`ir.rs`). A result `none` is a panic of the source. -/

namespace Dexe.Ir

open Versions

def registerNames : List (VarBase × List Text) :=
  [(.rax, ["rax", "eax", "ax", "al", "ah"]),
    (.rbx, ["rbx", "ebx", "bx", "bl", "bh"]),
    (.rcx, ["rcx", "ecx", "cx", "cl", "ch"]),
    (.rdx, ["rdx", "edx", "dx", "dl", "dh"]),
    (.rsi, ["rsi", "esi", "si", "sil"]),
    (.rdi, ["rdi", "edi", "di", "dil"]),
    (.rsp, ["rsp", "esp", "sp", "spl"]),
    (.rbp, ["rbp", "ebp", "bp", "bpl"]),
    (.r8, ["r8", "r8d", "r8w", "r8b"]),
    (.r9, ["r9", "r9d", "r9w", "r9b"]),
    (.r10, ["r10", "r10d", "r10w", "r10b"]),
    (.r11, ["r11", "r11d", "r11w", "r11b"]),
    (.r12, ["r12", "r12d", "r12w", "r12b"]),
    (.r13, ["r13", "r13d", "r13w", "r13b"]),
    (.r14, ["r14", "r14d", "r14w", "r14b"]),
    (.r15, ["r15", "r15d", "r15w", "r15b"]),
    (.rflags, ["rflags", "eflags", "flags"])]

def parseRegister (s : Text) : Option VarBase :=
  let s := s.trim.toLowercase
  (registerNames.find? fun p => s ∈ p.2).map Prod.fst

def hexPrefix (s : Text) : Option Text := (s.stripPrefix "0x").or (s.stripPrefix "0X")

def parseImmediate (s : Text) : Option I64 :=
  let s := s.trim
  if s = [] then none
  else match s.stripPrefix "-" with
    | some rest =>
      let rest := rest.trim
      match hexPrefix rest with
      | some hex => (Text.i64FromStrRadix hex 16).map fun v => -v
      | none => (Text.i64FromStrRadix rest 10).map fun v => -v
    | none =>
      match hexPrefix s with
      | some hex => Text.u64FromStrRadix hex 16
      | none => Text.i64FromStrRadix s 10

structure SplitState where
  result : List Text
  current : Text
  bracketDepth : BitVec 32

def pushPiece (result : List Text) (current : Text) : List Text :=
  let piece := current.trim
  if piece = [] then result else result ++ [piece]

def splitStep (s : SplitState) (ch : Char) : SplitState :=
  if ch = '[' then ⟨s.result, s.current ++ [ch], s.bracketDepth + 1⟩
  else if ch = ']' then
    -- `saturating_sub`
    ⟨s.result, s.current ++ [ch], if s.bracketDepth = 0 then 0 else s.bracketDepth - 1⟩
  else if ch = ',' ∧ s.bracketDepth = 0 then ⟨pushPiece s.result s.current, [], s.bracketDepth⟩
  else ⟨s.result, s.current ++ [ch], s.bracketDepth⟩

def parseOperands (opStr : Text) : List Text :=
  let opStr := opStr.trim
  if opStr = [] then []
  else
    let s := opStr.foldl splitStep ⟨[], [], 0⟩
    pushPiece s.result s.current

def sizePrefixes : List Text :=
  ["xmmword ptr ", "ymmword ptr ", "zmmword ptr ", "tbyte ptr ", "tword ptr ", "oword ptr ",
    "qword ptr ", "dword ptr ", "word ptr ", "byte ptr "]

/-- A text whose lower case starts with one of the prefixes starts with as many ASCII
characters, so cutting characters is cutting bytes here. -/
def stripSizePrefix (s : Text) : Text :=
  let lower := s.toLowercase
  match sizePrefixes.find? fun p => lower.startsWith p with
  | some p => s.drop p.length
  | none => s

structure AddressState where
  baseReg : Option VarId
  indexReg : Option VarId
  scale : BitVec 8
  disp : I64

def addressStep (versions : Versions) (s : AddressState) (term : Text) : AddressState :=
  if '*' ∈ term then
    match (term.splitOn '*').map Text.trim with
    | [first, second] =>
      let (regPart, scalePart) :=
        if (parseRegister first).isSome then (first, second) else (second, first)
      match parseRegister regPart with
      | some vb =>
        { s with
          indexReg := some (versions.currentVar vb)
          scale := ((parseImmediate scalePart).getD 1).setWidth 8 }
      | none =>
        match parseImmediate term with
        | some imm => { s with disp := s.disp + imm }
        | none => s
    | _ => s
  else match parseRegister (term.dropWhile (· = '-')) with
    | some vb =>
      if s.baseReg = none then { s with baseReg := some (versions.currentVar vb) }
      else if s.indexReg = none then { s with indexReg := some (versions.currentVar vb) }
      else s
    | none =>
      match parseImmediate term with
      | some imm => { s with disp := s.disp + imm }
      | none => s

/-- What stands between the first `[` and the last `]`; the slice panics when they are the
wrong way round. -/
def bracketed (s : Text) : Option Text :=
  match s.find '[' with
  | some start =>
    match s.rfind ']' with
    | some stop => (s.slice (start + 1) stop).map Text.trim
    | none => some (Text.trim (s.dropWhile (· = '[')))
  | none => some s

def addressTerms (inner : Text) : List Text :=
  let normalized := Text.replace (inner.replace " - " " + -") "- " "+ -"
  ((normalized.splitOn '+').map Text.trim).filter fun t => t ≠ []

def parseMemoryOperand (s : Text) (versions : Versions) : Option Operand := do
  let inner ← bracketed (stripSizePrefix s.trim)
  let a := (addressTerms inner).foldl (addressStep versions) ⟨none, none, 1, 0⟩
  return .mem a.baseReg a.indexReg a.scale a.disp

def isMemoryOperand (s : Text) : Prop := '[' ∈ s

instance (s : Text) : Decidable (isMemoryOperand s) := inferInstanceAs (Decidable (_ ∈ _))

def parseSingleOperand (s : Text) (versions : Versions) : Option Operand :=
  let s := s.trim
  if isMemoryOperand s then parseMemoryOperand s versions
  else match parseRegister s with
    | some vb => some (.var (versions.currentVar vb))
    | none => some (.imm ((parseImmediate s).getD 0))

def dstRegister (s : Text) : Option VarBase := parseRegister (stripSizePrefix s.trim)

def conditionSuffixes : List (Condition × List Text) :=
  [(.equal, ["e", "z"]),
    (.notEqual, ["ne", "nz"]),
    (.less, ["l", "nge"]),
    (.lessEqual, ["le", "ng"]),
    (.greater, ["g", "nle"]),
    (.greaterEqual, ["ge", "nl"]),
    (.below, ["b", "nae", "c"]),
    (.belowEqual, ["be", "na"]),
    (.above, ["a", "nbe"]),
    (.aboveEqual, ["ae", "nb", "nc"]),
    (.sign, ["s"]),
    (.notSign, ["ns"]),
    (.overflow, ["o"]),
    (.notOverflow, ["no"]),
    (.parity, ["p", "pe"]),
    (.notParity, ["np", "po"])]

def parseConditionSuffix (mnemonic : Text) : Condition :=
  let suffix := if mnemonic.head? = some 'j' then mnemonic.tail else mnemonic
  ((conditionSuffixes.find? fun p => suffix ∈ p.2).map Prod.fst).getD .equal

end Dexe.Ir
