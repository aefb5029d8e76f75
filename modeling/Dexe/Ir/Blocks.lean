import Dexe.Backend
import Dexe.Cfg.Correct
import Dexe.Ir.Transfers

/-! The lifted function of a graph: its blocks are the blocks of the graph, in the order of their
addresses. -/

namespace Dexe

namespace Ir

open Std Collections Cfg

lemma forall₂_of_mapM {α β : Type*} {f : α → Option β} {l : List α} {l' : List β}
    (h : l.mapM f = some l') : List.Forall₂ (fun a b => f a = some b) l l' := by
  induction l generalizing l' with
  | nil =>
    obtain rfl : [] = l' := by simpa using h
    exact .nil
  | cons a l ih =>
    rw [List.mapM_cons] at h
    obtain ⟨b, hb, h⟩ := Option.bind_eq_some_iff.mp h
    obtain ⟨bs, hbs, h⟩ := Option.bind_eq_some_iff.mp h
    cases h
    exact .cons hb (ih hbs)

lemma liftInsns_isLiftOf {insns : List DisassembledInsn} {versions versions' : Versions}
    {irs : List IRInstruction} (h : liftInsns insns versions = some (irs, versions')) :
    ∃ chunks, List.Forall₂ IsLiftOf insns chunks ∧ irs = chunks.flatten := by
  induction insns generalizing versions irs versions' with
  | nil =>
    cases h
    exact ⟨[], .nil, rfl⟩
  | cons insn insns ih =>
    obtain ⟨⟨first, v⟩, hfirst, h⟩ := Option.bind_eq_some_iff.mp h
    obtain ⟨⟨rest, v'⟩, hrest, h⟩ := Option.bind_eq_some_iff.mp h
    cases h
    obtain ⟨chunks, hchunks, rfl⟩ := ih hrest
    exact ⟨first :: chunks, .cons (liftInsn_isLiftOf hfirst) hchunks, rfl⟩

lemma liftInsns_append (l l' : List DisassembledInsn) (versions : Versions) :
    liftInsns (l ++ l') versions = (liftInsns l versions).bind fun p =>
      (liftInsns l' p.2).map fun q => (p.1 ++ q.1, q.2) := by
  induction l generalizing versions with
  | nil => simp [liftInsns]
  | cons insn l ih =>
    simp only [List.cons_append, liftInsns, Option.bind_eq_bind]
    cases liftInsn insn versions with
    | none => rfl
    | some p =>
      simp only [Option.bind_some, ih, Option.bind_assoc]
      cases liftInsns l p.2 with
      | none => rfl
      | some q => cases h : liftInsns l' q.2 <;> simp [h]

section Some

variable {insn : DisassembledInsn} {insns : List DisassembledInsn}
  {first last irs : List IRInstruction}
  {v v₁ v₂ : Versions}

lemma liftInsns_cons (hfirst : liftInsn insn v = some (first, v₁))
    (hrest : liftInsns insns v₁ = some (irs, v₂)) :
    liftInsns (insn :: insns) v = some (first ++ irs, v₂) := by
  simp only [liftInsns, hfirst, hrest, Option.bind_eq_bind, Option.bind_some]
  rfl

lemma liftInsns_concat (hinsns : liftInsns insns v = some (irs, v₁))
    (hlast : liftInsn insn v₁ = some (last, v₂)) :
    liftInsns (insns ++ [insn]) v = some (irs ++ last, v₂) := by
  have hnil : liftInsns [] v₂ = some ([], v₂) := rfl
  have hsingle : liftInsns [insn] v₁ = some (last, v₂) := by simpa using liftInsns_cons hlast hnil
  rw [liftInsns_append, hinsns, Option.bind_some, hsingle, Option.map_some]

end Some

def IsLiftOfBlock (bb : BasicBlock) (b : IRBlock) : Prop := liftBlock bb.id bb = some b

lemma IsLiftOfBlock.parts {bb : BasicBlock} {b : IRBlock} (h : IsLiftOfBlock bb b) :
    b.id = bb.id ∧ b.startAddr = bb.startAddr ∧
      ∃ chunks, List.Forall₂ IsLiftOf bb.instructions chunks ∧ b.instructions = chunks.flatten := by
  obtain ⟨⟨irs, v⟩, hirs, h⟩ := Option.bind_eq_some_iff.mp h
  cases h
  exact ⟨rfl, rfl, liftInsns_isLiftOf hirs⟩

def graphBlocks (func : DisassembledFunction) : List BasicBlock :=
  (buildCfg func).blocks.toList.map Prod.snd

lemma liftFunction_toList {cfg : ControlFlowGraph} {ir : IRFunction}
    (h : liftFunction cfg = some ir) :
    List.Forall₂ (fun p q => p.1 = q.1 ∧ liftBlock p.1 p.2 = some q.2) cfg.blocks.toList
      ir.blocks.toList := by
  obtain ⟨blocks, hblocks, hir⟩ := Option.bind_eq_some_iff.mp h
  have hkeys : List.Forall₂ (fun p q => p.1 = q.1 ∧ liftBlock p.1 p.2 = some q.2)
      cfg.blocks.toList blocks := by
    refine (forall₂_of_mapM hblocks).imp ?_
    rintro p q hpq
    obtain ⟨b, hb, rfl⟩ := Option.map_eq_some_iff.mp hpq
    exact ⟨rfl, hb⟩
  have hfst : cfg.blocks.toList.map Prod.fst = blocks.map Prod.fst := by
    rw [← List.forall₂_eq_eq_eq, List.forall₂_map_left_iff, List.forall₂_map_right_iff]
    exact hkeys.imp fun p q h => h.1
  have hsorted : blocks.Pairwise fun p q => compare p.1 q.1 = .lt := by
    rw [← List.pairwise_map (f := Prod.fst) (R := fun a b => compare a b = .lt), ← hfst,
      List.pairwise_map]
    exact TreeMap.ordered_keys_toList
  cases hir
  rwa [toList_ofList hsorted]

lemma liftFunction_getElem? {cfg : ControlFlowGraph} {ir : IRFunction}
    (h : liftFunction cfg = some ir) {id : BlockId} {b : BasicBlock}
    (hb : cfg.blocks[id]? = some b) : ir.blocks[id]? = liftBlock id b := by
  have hkeys := liftFunction_toList h
  obtain ⟨k, hk, hget⟩ := List.mem_iff_getElem.mp (TreeMap.mem_toList_iff_getElem?_eq_some.mpr hb)
  have hk' : k < ir.blocks.toList.length := hkeys.length_eq ▸ hk
  obtain ⟨hid, hlift⟩ := hkeys.get hk hk'
  simp only [List.get_eq_getElem, hget] at hid hlift
  rw [hlift, ← TreeMap.mem_toList_iff_getElem?_eq_some, hid]
  exact List.getElem_mem hk'

section Lift

variable {func : DisassembledFunction} {ir : IRFunction}

lemma blockList_lift (hne : func.instructions ≠ []) (hinc : Increasing func.instructions)
    (h : liftFunction (buildCfg func) = some ir) :
    List.Forall₂ IsLiftOfBlock (graphBlocks func) ir.blockList := by
  have hids : ∀ p ∈ (buildCfg func).blocks.toList, p.2.id = p.1 := by
    rw [buildCfg_toList hne hinc]
    exact fun p hp => (of_mem_numberedBlocks hp).1
  have hkeys := (List.forall₂_and_left _ _).mpr ⟨hids, liftFunction_toList h⟩
  rw [IRFunction.blockList, graphBlocks, List.forall₂_map_left_iff, List.forall₂_map_right_iff]
  refine hkeys.imp ?_
  rintro p q ⟨hid, -, hpq⟩
  rw [IsLiftOfBlock, hid]
  exact hpq

lemma graphBlocks_sorted (hne : func.instructions ≠ []) (hinc : Increasing func.instructions) :
    ((graphBlocks func).map BasicBlock.startAddr).Pairwise (· < ·) := by
  rw [graphBlocks, buildCfg_toList hne hinc, List.map_map]
  exact numberedBlocks_starts hne ▸ leaderVec_sorted hinc

lemma graphBlocks_instructions (hne : func.instructions ≠ [])
    (hinc : Increasing func.instructions) :
    (graphBlocks func).map BasicBlock.instructions = blockRuns func := by
  rw [graphBlocks, buildCfg_toList hne hinc, List.map_map]
  exact numberedBlocks_instructions func

lemma graphBlocks_getElem? (hne : func.instructions ≠ []) (hinc : Increasing func.instructions)
    (k : ℕ) : (graphBlocks func)[k]? = (buildCfg func).blocks[k]? := by
  have hpos : ∀ (m : ℕ) (p : BlockId × BasicBlock), (numberedBlocks func)[m]? = some p →
      p.1 = m := by
    intro m p hp
    have hm : ((numberedBlocks func).map Prod.fst)[m]? = some p.1 := by simp [hp]
    rw [numberedBlocks_ids] at hm
    obtain ⟨_, h⟩ := List.getElem?_eq_some_iff.mp hm
    simpa using h.symm
  ext b
  rw [← TreeMap.mem_toList_iff_getElem?_eq_some, graphBlocks, buildCfg_toList hne hinc,
    List.getElem?_map, Option.map_eq_some_iff, List.mem_iff_getElem?]
  constructor
  · rintro ⟨⟨n, b⟩, hp, rfl⟩
    obtain rfl : n = k := hpos k _ hp
    exact ⟨n, hp⟩
  · rintro ⟨m, hm⟩
    obtain rfl : k = m := hpos m _ hm
    exact ⟨(k, b), hm, rfl⟩

lemma startAddr_of_mem_graphBlocks (hne : func.instructions ≠ [])
    (hinc : Increasing func.instructions) {bb : BasicBlock} (h : bb ∈ graphBlocks func) :
    bb.instructions.head?.map DisassembledInsn.address = some bb.startAddr := by
  rw [graphBlocks, buildCfg_toList hne hinc] at h
  obtain ⟨p, hp, rfl⟩ := List.mem_map.mp h
  exact (of_mem_numberedBlocks hp).2.2

theorem sortedBlocks_lift (hne : func.instructions ≠ []) (hinc : Increasing func.instructions)
    (h : liftFunction (buildCfg func) = some ir) : Backend.sortedBlocks ir = ir.blockList := by
  have hlift := blockList_lift hne hinc h
  have hstart : (graphBlocks func).map BasicBlock.startAddr =
      ir.blockList.map IRBlock.startAddr := by
    rw [← List.forall₂_eq_eq_eq, List.forall₂_map_left_iff, List.forall₂_map_right_iff]
    exact hlift.imp fun bb b hb => hb.parts.2.1.symm
  have hsorted := graphBlocks_sorted hne hinc
  rw [hstart, List.pairwise_map] at hsorted
  exact List.Pairwise.insertionSort_eq (hsorted.imp BitVec.le_of_lt)

lemma length_sortedBlocks (hne : func.instructions ≠ []) (hinc : Increasing func.instructions)
    (h : liftFunction (buildCfg func) = some ir) :
    (graphBlocks func).length = (Backend.sortedBlocks ir).length := by
  rw [sortedBlocks_lift hne hinc h]
  exact (blockList_lift hne hinc h).length_eq

end Lift

end Ir

end Dexe
