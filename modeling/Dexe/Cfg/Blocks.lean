import Dexe.Cfg.Partition

/-! The blocks and edges that the builder returns, in terms of the runs between leaders. -/

namespace Dexe

namespace Cfg

open Std Collections

section Loop

variable (addrToBlock : TreeMap U64 BlockId) (count : ℕ)

def basicBlock (id : BlockId) (bi : List DisassembledInsn) : Option BasicBlock :=
  match bi.head?, bi.getLast? with
  | some first, some last =>
    some ⟨id, first.address, last.address + last.size.setWidth 64, bi,
      (classify addrToBlock count id last).1⟩
  | _, _ => none

def blockEdges (id : BlockId) (bi : List DisassembledInsn) : List (BlockId × BlockId) :=
  match bi.getLast? with
  | some last => (classify addrToBlock count id last).2
  | none => []

lemma basicBlock_isSome (id : BlockId) {bi : List DisassembledInsn} (h : bi ≠ []) :
    ∃ b, basicBlock addrToBlock count id bi = some b := by
  obtain ⟨x, bi, rfl⟩ := List.exists_cons_of_ne_nil h
  exact ⟨_, by simp [basicBlock, List.getLast?_cons]; rfl⟩

variable {addrToBlock count}

lemma foldl_blockStep (l : List (List DisassembledInsn × ℕ)) (s : BlocksState) :
    l.foldl (blockStep addrToBlock count) s =
      ⟨(l.filterMap fun p => (basicBlock addrToBlock count p.2 p.1).map (p.2, ·)).foldl
          (fun m p => m.insert p.1 p.2) s.blocks,
        s.edges ++ l.flatMap fun p => blockEdges addrToBlock count p.2 p.1⟩ := by
  induction l generalizing s with
  | nil => simp
  | cons p l ih =>
    rcases p with ⟨bi, id⟩
    rw [List.foldl_cons, ih]
    cases bi with
    | nil =>
      have hb : basicBlock addrToBlock count id [] = none := rfl
      have he : blockEdges addrToBlock count id [] = [] := rfl
      simp [blockStep, hb, he]
    | cons x bi => simp [blockStep, basicBlock, blockEdges, List.getLast?_cons]

lemma basicBlock_eq_some {id : BlockId} {bi : List DisassembledInsn} {b : BasicBlock}
    (h : basicBlock addrToBlock count id bi = some b) :
    b.id = id ∧ b.instructions = bi ∧ bi.head?.map DisassembledInsn.address = some b.startAddr := by
  rw [basicBlock] at h
  split at h
  · rename_i hf hl
    cases h
    simp [hf]
  · cases h

end Loop

section Result

variable (func : DisassembledFunction)

def blockRuns : List (List DisassembledInsn) := runs (lead func.instructions) func.instructions

def blockIndex : TreeMap U64 BlockId := addrToBlock (leaderVec func.instructions)

def numberedBlocks : List (BlockId × BasicBlock) :=
  (blockRuns func).zipIdx.filterMap fun p =>
    (basicBlock (blockIndex func) (blockRuns func).length p.2 p.1).map (p.2, ·)

variable {func}

lemma buildCfg_eq (hne : func.instructions ≠ []) (hinc : Increasing func.instructions) :
    buildCfg func = ⟨func.name, func.startAddr, insertAll (numberedBlocks func),
      (blockIndex func)[func.startAddr]?.getD 0,
      (blockRuns func).zipIdx.flatMap fun p =>
        blockEdges (blockIndex func) (blockRuns func).length p.2 p.1,
      blockIndex func⟩ := by
  obtain ⟨first, rest, hins⟩ := List.exists_cons_of_ne_nil hne
  have hleaders : (leaders first func.instructions).toList = leaderVec func.instructions :=
    leaders_toList (by rw [hins]; rfl) hinc
  have hlen := length_leaderVec hins
  have hpart := partition_eq_runs hins hinc
  rw [buildCfg]
  split
  · rename_i h
    exact absurd h hne
  · rename_i f tl h
    obtain rfl : f = first := by
      rw [hins] at h
      simpa using (List.cons.inj h).1.symm
    simp only [hleaders, hpart, foldl_blockStep]
    rw [hlen]
    rfl

lemma numberedBlocks_sorted (func : DisassembledFunction) :
    (numberedBlocks func).Pairwise fun a b => compare a.1 b.1 = .lt := by
  have hidx : (blockRuns func).zipIdx.Pairwise fun p q => p.2 < q.2 := by
    have hsnd := List.zipIdx_map_snd 0 (blockRuns func)
    exact List.pairwise_map.mp (hsnd ▸ List.pairwise_lt_range')
  refine List.Pairwise.filterMap _ ?_ hidx
  intro p q hpq a ha b hb
  obtain ⟨x, _, rfl⟩ := Option.map_eq_some_iff.mp ha
  obtain ⟨y, _, rfl⟩ := Option.map_eq_some_iff.mp hb
  exact Nat.compare_eq_lt.mpr hpq

lemma buildCfg_toList (hne : func.instructions ≠ []) (hinc : Increasing func.instructions) :
    (buildCfg func).blocks.toList = numberedBlocks func := by
  rw [buildCfg_eq hne hinc]
  exact toList_insertAll (numberedBlocks_sorted func)

lemma buildCfg_getElem? (hne : func.instructions ≠ []) (hinc : Increasing func.instructions)
    {k : BlockId} {b : BasicBlock} : (buildCfg func).blocks[k]? = some b ↔
      ∃ g, (blockRuns func)[k]? = some g ∧
        basicBlock (blockIndex func) (blockRuns func).length k g = some b := by
  rw [← TreeMap.mem_toList_iff_getElem?_eq_some, buildCfg_toList hne hinc, numberedBlocks,
    List.mem_filterMap]
  constructor
  · rintro ⟨⟨g, n⟩, hg, hb⟩
    obtain ⟨b', hb', he⟩ := Option.map_eq_some_iff.mp hb
    cases he
    exact ⟨g, List.mem_zipIdx_iff_getElem?.mp hg, hb'⟩
  · rintro ⟨g, hg, hb⟩
    exact ⟨(g, k), List.mem_zipIdx_iff_getElem?.mpr hg, by simp [hb]⟩

lemma mem_edges (hne : func.instructions ≠ []) (hinc : Increasing func.instructions)
    {e : BlockId × BlockId} : e ∈ (buildCfg func).edges ↔
      ∃ k g last, (blockRuns func)[k]? = some g ∧ g.getLast? = some last ∧
        e ∈ (classify (blockIndex func) (blockRuns func).length k last).2 := by
  rw [buildCfg_eq hne hinc, List.mem_flatMap]
  constructor
  · rintro ⟨⟨g, k⟩, hg, he⟩
    simp only [blockEdges] at he
    split at he
    · rename_i last hlast
      exact ⟨k, g, last, List.mem_zipIdx_iff_getElem?.mp hg, hlast, he⟩
    · cases he
  · rintro ⟨k, g, last, hg, hlast, he⟩
    exact ⟨(g, k), List.mem_zipIdx_iff_getElem?.mpr hg, by simpa [blockEdges, hlast] using he⟩

end Result

end Cfg

end Dexe
