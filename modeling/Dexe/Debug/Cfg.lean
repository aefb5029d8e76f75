import Dexe.Cfg.Partition
import Dexe.Debug.Operands

/-! The graph builder (`cfg.rs`) with the checks of a debug build. A result `none` is a panic of
the source. -/

namespace Dexe.Debug

open Std Cfg Text Bits Collections

def parseHexTarget (opStr : Text) : Option (Option U64) :=
  let s := opStr.trim
  if s.startsWith "0x" || s.startsWith "0X" then do
    let hex ← s.sliceFrom 2
    return Text.u64FromStrRadix hex 16
  else some (Text.u64FromStrRadix s 16)

def resolveJumpTarget (opStr : Text) (addrToBlock : TreeMap U64 BlockId) :
    Option (Option BlockId) := do
  let target ← parseHexTarget opStr
  return target.bind fun addr => addrToBlock[addr]?

def insertTarget (valid : TreeSet U64) (opStr : Text) (leaders : TreeSet U64) :
    Option (TreeSet U64) := do
  match ← parseHexTarget opStr with
  | some target => return if valid.contains target then leaders.insert target else leaders
  | none => return leaders

def leaderStep (insns : List DisassembledInsn) (leaders : TreeSet U64)
    (p : DisassembledInsn × ℕ) : Option (TreeSet U64) :=
  let mn := p.1.mnemonic
  if EndsBlock mn then
    let leaders := insertNext insns p.2 leaders
    if IsJump mn then insertTarget (validAddrs insns) p.1.opStr leaders else some leaders
  else some leaders

def leaders (first : DisassembledInsn) (insns : List DisassembledInsn) : Option (TreeSet U64) :=
  insns.zipIdx.foldlM (leaderStep insns) (TreeSet.empty.insert first.address)

/-- `block_insns[current_block]` panics behind the last block. -/
def partitionStep (addrToBlock : TreeMap U64 BlockId) (s : PartitionState)
    (insn : DisassembledInsn) : Option PartitionState :=
  let current := addrToBlock[insn.address]?.getD s.currentBlock
  if current < s.blockInsns.length then
    some ⟨s.blockInsns.modify current (· ++ [insn]), current⟩
  else none

def partition (addrToBlock : TreeMap U64 BlockId) (count : ℕ) (insns : List DisassembledInsn) :
    Option (List (List DisassembledInsn)) := do
  let s ← insns.foldlM (partitionStep addrToBlock) ⟨List.replicate count [], 0⟩
  return s.blockInsns

def classify (addrToBlock : TreeMap U64 BlockId) (count id : ℕ) (last : DisassembledInsn) :
    Option (Terminator × List (BlockId × BlockId)) :=
  let mn := last.mnemonic
  let next := id + 1
  let hasNext := next < count
  if mn = "ret" ∨ mn = "retn" then some (.ret, [])
  else if mn = "jmp" then do
    match ← resolveJumpTarget last.opStr addrToBlock with
    | some target => return (.jump target, [(id, target)])
    | none => return (.halt, [])
  else if mn ∈ condJumps then do
    match ← resolveJumpTarget last.opStr addrToBlock, decide hasNext with
    | some t, true => return (.conditionalJump t next mn, [(id, t), (id, next)])
    | some t, false => return (.jump t, [(id, t)])
    | none, true => return (.fallthrough next, [(id, next)])
    | none, false => return (.halt, [])
  else if mn = "call" then do
    let target := (← parseHexTarget last.opStr).getD 0
    if hasNext then return (.call target next, [(id, next)])
    else return (.call target id, [])
  else if mn ∈ haltMnemonics then some (.halt, [])
  else if hasNext then some (.fallthrough next, [(id, next)])
  else some (.ret, [])

def blockStep (addrToBlock : TreeMap U64 BlockId) (count : ℕ) (s : BlocksState)
    (p : List DisassembledInsn × ℕ) : Option BlocksState :=
  if p.1 = [] then some s
  else do
    let first ← p.1.head?
    let last ← p.1.getLast?
    let endAddr ← checkedAdd last.address (last.size.setWidth 64)
    let c ← classify addrToBlock count p.2 last
    return ⟨s.blocks.insert p.2 ⟨p.2, first.address, endAddr, p.1, c.1⟩, s.edges ++ c.2⟩

def buildCfg (func : DisassembledFunction) : Option ControlFlowGraph :=
  match func.instructions with
  | [] => some ⟨func.name, func.startAddr, ∅, 0, [], ∅⟩
  | first :: _ => do
    let insns := func.instructions
    let leaderVec := (← leaders first insns).toList
    let addrToBlock := Cfg.addrToBlock leaderVec
    let blockInsns ← partition addrToBlock leaderVec.length insns
    let s ← blockInsns.zipIdx.foldlM (blockStep addrToBlock leaderVec.length) ⟨∅, []⟩
    return ⟨func.name, func.startAddr, s.blocks, addrToBlock[func.startAddr]?.getD 0, s.edges,
      addrToBlock⟩

variable {insns : List DisassembledInsn}

lemma parseHexTarget_eq (opStr : Text) :
    parseHexTarget opStr = some (Cfg.parseHexTarget opStr) := by
  have hslice : ∀ p : Text, IsAscii p → p.length = 2 → opStr.trim.startsWith p = true →
      opStr.trim.sliceFrom 2 = some (opStr.trim.drop 2) := by
    intro p hp hlen h
    rw [← hlen]
    exact sliceFrom_of_startsWith hp h
  simp only [parseHexTarget, Cfg.parseHexTarget]
  split
  · rename_i h
    rcases Bool.or_eq_true_iff.mp h with h | h
    · rw [hslice _ (by decide) rfl h]
      rfl
    · rw [hslice _ (by decide) rfl h]
      rfl
  · rfl

lemma resolveJumpTarget_eq (opStr : Text) (addrToBlock : TreeMap U64 BlockId) :
    resolveJumpTarget opStr addrToBlock = some (Cfg.resolveJumpTarget opStr addrToBlock) := by
  rw [resolveJumpTarget, parseHexTarget_eq]
  rfl

lemma insertTarget_eq (valid : TreeSet U64) (opStr : Text) (leaders : TreeSet U64) :
    insertTarget valid opStr leaders = some (Cfg.insertTarget valid opStr leaders) := by
  rw [insertTarget, parseHexTarget_eq, Cfg.insertTarget]
  cases Cfg.parseHexTarget opStr <;> rfl

lemma leaderStep_eq (leaders : TreeSet U64) (p : DisassembledInsn × ℕ) :
    leaderStep insns leaders p = some (Cfg.leaderStep insns leaders p) := by
  simp only [leaderStep, Cfg.leaderStep, insertTarget_eq]
  split
  · split <;> rfl
  · rfl

lemma leaders_eq (first : DisassembledInsn) (insns : List DisassembledInsn) :
    leaders first insns = some (Cfg.leaders first insns) :=
  foldlM_eq_some (fun _ => True) (fun s _ p _ => ⟨leaderStep_eq s p, trivial⟩) trivial

lemma classify_eq (addrToBlock : TreeMap U64 BlockId) (count id : ℕ) (last : DisassembledInsn) :
    classify addrToBlock count id last = some (Cfg.classify addrToBlock count id last) := by
  simp only [classify, Cfg.classify, resolveJumpTarget_eq, parseHexTarget_eq, Option.bind_eq_bind,
    Option.bind_some]
  split
  · rfl
  · split
    · cases Cfg.resolveJumpTarget last.opStr addrToBlock <;> rfl
    · split
      · cases Cfg.resolveJumpTarget last.opStr addrToBlock <;> cases decide (id + 1 < count) <;> rfl
      · split
        · split <;> rfl
        · split
          · rfl
          · split <;> rfl

lemma partition_eq {addrToBlock : TreeMap U64 BlockId} {count : ℕ} (hcount : 0 < count)
    (hlookup : ∀ (a : U64) (k : BlockId), addrToBlock[a]? = some k → k < count)
    (insns : List DisassembledInsn) :
    partition addrToBlock count insns = some (Cfg.partition addrToBlock count insns) := by
  have hfold : insns.foldlM (partitionStep addrToBlock) ⟨List.replicate count [], 0⟩ =
      some (insns.foldl (Cfg.partitionStep addrToBlock) ⟨List.replicate count [], 0⟩) := by
    refine foldlM_eq_some (fun s => s.blockInsns.length = count ∧ s.currentBlock < count) ?_
      ⟨List.length_replicate, hcount⟩
    rintro s ⟨hlen, hcurrent⟩ insn -
    have hlt : addrToBlock[insn.address]?.getD s.currentBlock < count := by
      cases h : addrToBlock[insn.address]? with
      | none => exact hcurrent
      | some k => exact hlookup _ k h
    refine ⟨if_pos (hlen ▸ hlt), ?_, hlt⟩
    rw [Cfg.partitionStep, List.length_modify, hlen]
  rw [partition, hfold]
  rfl

lemma blockStep_eq (addrToBlock : TreeMap U64 BlockId) (count : ℕ) (s : BlocksState)
    {p : List DisassembledInsn × ℕ} (hfit : ∀ i ∈ p.1, i.address.toNat + i.size.toNat < 2 ^ 64) :
    blockStep addrToBlock count s p = some (Cfg.blockStep addrToBlock count s p) := by
  rcases p with ⟨_ | ⟨first, more⟩, id⟩
  · rfl
  · obtain ⟨last, hlast⟩ : ∃ last, (first :: more).getLast? = some last :=
      ⟨_, List.getLast?_eq_some_getLast (by simp)⟩
    have hend : checkedAdd last.address (last.size.setWidth 64) =
        some (last.address + last.size.setWidth 64) := by
      refine checkedAdd_of_lt ?_
      rw [BitVec.toNat_setWidth_of_le (by norm_num)]
      exact hfit last (List.mem_of_getLast? hlast)
    simp [blockStep, Cfg.blockStep, hlast, hend, classify_eq]

theorem buildCfg_eq {func : DisassembledFunction} (hinc : Increasing func.instructions)
    (hfit : ∀ i ∈ func.instructions, i.address.toNat + i.size.toNat < 2 ^ 64) :
    buildCfg func = some (Dexe.buildCfg func) := by
  cases hins : func.instructions with
  | nil =>
    rw [buildCfg, Dexe.buildCfg, hins]
  | cons first rest =>
    rw [hins] at hinc hfit
    have hleaders : (Cfg.leaders first (first :: rest)).toList = leaderVec (first :: rest) :=
      leaders_toList rfl hinc
    have hlookup : ∀ (a : U64) (k : BlockId),
        (Cfg.addrToBlock (leaderVec (first :: rest)))[a]? = some k →
          k < (leaderVec (first :: rest)).length := by
      intro a k h
      exact (List.getElem?_eq_some_iff.mp
        ((getElem?_addrToBlock (leaderVec_nodup hinc)).mp h)).1
    have hcount : 0 < (leaderVec (first :: rest)).length := by
      refine List.length_pos_of_mem (List.mem_map_of_mem (a := first) ?_)
      exact List.mem_filter.mpr ⟨List.mem_cons_self, lead_first rfl⟩
    have hruns : ∀ p ∈ (runs (lead (first :: rest)) (first :: rest)).zipIdx, ∀ i ∈ p.1,
        i.address.toNat + i.size.toNat < 2 ^ 64 := by
      rintro ⟨g, k⟩ hp i hi
      have hg := List.mem_of_getElem? (List.mem_zipIdx_iff_getElem?.mp hp)
      have hmem := List.mem_flatten.mpr ⟨g, hg, hi⟩
      rw [flatten_runs] at hmem
      exact hfit i hmem
    have hblocks := foldlM_eq_some (s := ⟨∅, []⟩) (fun _ => True)
      (fun s _ p hp => ⟨blockStep_eq (Cfg.addrToBlock (leaderVec (first :: rest)))
        (leaderVec (first :: rest)).length s (hruns p hp), trivial⟩) trivial
    simp only [buildCfg, Dexe.buildCfg, hins, leaders_eq, hleaders, partition_eq hcount hlookup,
      partition_eq_runs rfl hinc, hblocks, Option.bind_eq_bind, Option.bind_some]
    rfl

end Dexe.Debug
