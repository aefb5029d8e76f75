import Dexe.Frontend

/-! The control flow graph builder (`cfg.rs`). -/

namespace Dexe

open Std

abbrev BlockId := ℕ

inductive Terminator
  | fallthrough (next : BlockId)
  | jump (target : BlockId)
  | conditionalJump (taken fallthrough : BlockId) (condition : Text)
  | ret
  | call (target : U64) (fallthrough : BlockId)
  | halt
  deriving DecidableEq, Repr

structure BasicBlock where
  id : BlockId
  startAddr : U64
  endAddr : U64
  instructions : List DisassembledInsn
  terminator : Terminator
  deriving DecidableEq, Repr

structure ControlFlowGraph where
  funcName : Text
  funcAddr : U64
  blocks : TreeMap BlockId BasicBlock
  entryBlock : BlockId
  edges : List (BlockId × BlockId)
  addrToBlock : TreeMap U64 BlockId

namespace Cfg

def condJumps : List Text :=
  ["je", "jne", "jz", "jnz", "jg", "jge", "jl", "jle", "ja", "jae", "jb", "jbe", "jo", "jno",
    "js", "jns", "jp", "jnp"]

def haltMnemonics : List Text := ["hlt", "int3", "ud2"]

def parseHexTarget (opStr : Text) : Option U64 :=
  let s := opStr.trim
  if s.startsWith "0x" || s.startsWith "0X" then Text.u64FromStrRadix (s.drop 2) 16
  else Text.u64FromStrRadix s 16

def resolveJumpTarget (opStr : Text) (addrToBlock : TreeMap U64 BlockId) : Option BlockId :=
  (parseHexTarget opStr).bind fun addr => addrToBlock[addr]?

abbrev IsJump (mn : Text) : Prop := mn = "jmp" ∨ mn ∈ condJumps
abbrev IsCall (mn : Text) : Prop := mn = "call"
abbrev IsRet (mn : Text) : Prop := mn = "ret" ∨ mn = "retn"
abbrev IsHalt (mn : Text) : Prop := mn ∈ haltMnemonics

abbrev EndsBlock (mn : Text) : Prop := IsJump mn ∨ IsCall mn ∨ IsRet mn ∨ IsHalt mn

def validAddrs (insns : List DisassembledInsn) : TreeSet U64 :=
  insns.foldl (fun s i => s.insert i.address) ∅

def insertNext (insns : List DisassembledInsn) (idx : ℕ) (leaders : TreeSet U64) : TreeSet U64 :=
  match insns[idx + 1]? with
  | some next => leaders.insert next.address
  | none => leaders

def insertTarget (valid : TreeSet U64) (opStr : Text) (leaders : TreeSet U64) : TreeSet U64 :=
  match parseHexTarget opStr with
  | some target => if valid.contains target then leaders.insert target else leaders
  | none => leaders

def leaderStep (insns : List DisassembledInsn) (leaders : TreeSet U64)
    (p : DisassembledInsn × ℕ) : TreeSet U64 :=
  let mn := p.1.mnemonic
  if EndsBlock mn then
    let leaders := insertNext insns p.2 leaders
    if IsJump mn then insertTarget (validAddrs insns) p.1.opStr leaders else leaders
  else leaders

def leaders (first : DisassembledInsn) (insns : List DisassembledInsn) : TreeSet U64 :=
  insns.zipIdx.foldl (leaderStep insns) (TreeSet.empty.insert first.address)

def addrToBlock (leaderVec : List U64) : TreeMap U64 BlockId :=
  leaderVec.zipIdx.foldl (fun m p => m.insert p.1 p.2) ∅

structure PartitionState where
  blockInsns : List (List DisassembledInsn)
  currentBlock : ℕ

def partitionStep (addrToBlock : TreeMap U64 BlockId) (s : PartitionState)
    (insn : DisassembledInsn) : PartitionState :=
  let current := addrToBlock[insn.address]?.getD s.currentBlock
  ⟨s.blockInsns.modify current (· ++ [insn]), current⟩

def partition (addrToBlock : TreeMap U64 BlockId) (count : ℕ) (insns : List DisassembledInsn) :
    List (List DisassembledInsn) :=
  (insns.foldl (partitionStep addrToBlock) ⟨List.replicate count [], 0⟩).blockInsns

def classify (addrToBlock : TreeMap U64 BlockId) (count id : ℕ) (last : DisassembledInsn) :
    Terminator × List (BlockId × BlockId) :=
  let mn := last.mnemonic
  let next := id + 1
  let hasNext := next < count
  if mn = "ret" ∨ mn = "retn" then (.ret, [])
  else if mn = "jmp" then
    match resolveJumpTarget last.opStr addrToBlock with
    | some target => (.jump target, [(id, target)])
    | none => (.halt, [])
  else if mn ∈ condJumps then
    match resolveJumpTarget last.opStr addrToBlock, decide hasNext with
    | some t, true => (.conditionalJump t next mn, [(id, t), (id, next)])
    | some t, false => (.jump t, [(id, t)])
    | none, true => (.fallthrough next, [(id, next)])
    | none, false => (.halt, [])
  else if mn = "call" then
    let target := (parseHexTarget last.opStr).getD 0
    if hasNext then (.call target next, [(id, next)])
    else (.call target id, [])
  else if mn ∈ haltMnemonics then (.halt, [])
  else if hasNext then (.fallthrough next, [(id, next)])
  else (.ret, [])

structure BlocksState where
  blocks : TreeMap BlockId BasicBlock
  edges : List (BlockId × BlockId)

def blockStep (addrToBlock : TreeMap U64 BlockId) (count : ℕ) (s : BlocksState)
    (p : List DisassembledInsn × ℕ) : BlocksState :=
  match p.1.head?, p.1.getLast? with
  | some first, some last =>
    let c := classify addrToBlock count p.2 last
    ⟨s.blocks.insert p.2
        ⟨p.2, first.address, last.address + last.size.setWidth 64, p.1, c.1⟩,
      s.edges ++ c.2⟩
  | _, _ => s

end Cfg

open Cfg in
def buildCfg (func : DisassembledFunction) : ControlFlowGraph :=
  match func.instructions with
  | [] => ⟨func.name, func.startAddr, ∅, 0, [], ∅⟩
  | first :: _ =>
    let insns := func.instructions
    let leaderVec := (leaders first insns).toList
    let addrToBlock := Cfg.addrToBlock leaderVec
    let blockInsns := partition addrToBlock leaderVec.length insns
    let s := blockInsns.zipIdx.foldl (blockStep addrToBlock leaderVec.length) ⟨∅, []⟩
    ⟨func.name, func.startAddr, s.blocks, addrToBlock[func.startAddr]?.getD 0, s.edges, addrToBlock⟩

end Dexe
