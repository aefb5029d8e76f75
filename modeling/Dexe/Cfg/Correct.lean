import Dexe.Cfg.Blocks

/-! The builder partitions a function, and its edges are the control flow of the
instructions. -/

namespace Dexe

namespace Cfg

open Std Collections

structure Partitions (func : DisassembledFunction) (cfg : ControlFlowGraph) : Prop where
  ids : cfg.blocks.toList.map Prod.fst = List.range cfg.blocks.toList.length
  block_id : ∀ p ∈ cfg.blocks.toList, p.2.id = p.1
  nonempty : ∀ p ∈ cfg.blocks.toList, p.2.instructions ≠ []
  concat : cfg.blocks.toList.flatMap (fun p => p.2.instructions) = func.instructions
  start_addr : ∀ p ∈ cfg.blocks.toList,
    p.2.instructions.head?.map DisassembledInsn.address = some p.2.startAddr
  increasing : cfg.blocks.toList.Pairwise fun p q => p.2.startAddr < q.2.startAddr
  addr_to_block : cfg.addrToBlock.toList = cfg.blocks.toList.map fun p => (p.2.startAddr, p.1)
  entry : cfg.entryBlock = 0
  entry_first : cfg.blocks[0]?.bind (fun b => b.instructions.head?) = func.instructions.head?
  boundary : ∀ (k : ℕ) (i : DisassembledInsn), func.instructions[k]? = some i →
    ((∃ p ∈ cfg.blocks.toList, p.2.instructions.head? = some i) ↔
      k = 0 ∨
      (∃ n prev, k = n + 1 ∧ func.instructions[n]? = some prev ∧ EndsBlock prev.mnemonic) ∨
      ∃ s ∈ func.instructions, IsJump s.mnemonic ∧ parseHexTarget s.opStr = some i.address)

variable {func : DisassembledFunction}

lemma numberedBlocks_runs (func : DisassembledFunction) :
    (numberedBlocks func).map (fun p => (p.2.instructions, p.1)) = (blockRuns func).zipIdx := by
  have key : ∀ l : List (List DisassembledInsn × ℕ), (∀ q ∈ l, q.1 ≠ []) →
      (l.filterMap fun p => (basicBlock (blockIndex func) (blockRuns func).length p.2 p.1).map
        (p.2, ·)).map (fun p => (p.2.instructions, p.1)) = l := by
    intro l hl
    induction l with
    | nil => rfl
    | cons q l ih =>
      obtain ⟨b, hb⟩ := basicBlock_isSome (blockIndex func) (blockRuns func).length q.2
        (hl q List.mem_cons_self)
      simp [hb, (basicBlock_eq_some hb).2.1, ih fun q' hq' => hl q' (List.mem_cons_of_mem _ hq')]
  refine key _ ?_
  rintro ⟨g, k⟩ hq
  exact ne_nil_of_mem_runs (List.mem_of_getElem? (List.mem_zipIdx_iff_getElem?.mp hq))

lemma numberedBlocks_instructions (func : DisassembledFunction) :
    (numberedBlocks func).map (fun p => p.2.instructions) = blockRuns func := by
  have := congrArg (List.map Prod.fst) (numberedBlocks_runs func)
  simpa [Function.comp_def] using this

lemma numberedBlocks_ids (func : DisassembledFunction) :
    (numberedBlocks func).map Prod.fst = List.range (blockRuns func).length := by
  have := congrArg (List.map Prod.snd) (numberedBlocks_runs func)
  simpa [Function.comp_def, List.range_eq_range'] using this

lemma of_mem_numberedBlocks {p : BlockId × BasicBlock} (hp : p ∈ numberedBlocks func) :
    p.2.id = p.1 ∧ p.2.instructions ∈ blockRuns func ∧
      p.2.instructions.head?.map DisassembledInsn.address = some p.2.startAddr := by
  obtain ⟨⟨g, k⟩, hg, hmap⟩ := List.mem_filterMap.mp hp
  obtain ⟨b, hb, rfl⟩ := Option.map_eq_some_iff.mp hmap
  obtain ⟨hid, hins, hstart⟩ := basicBlock_eq_some hb
  refine ⟨hid, ?_, by rw [hins]; exact hstart⟩
  rw [hins]
  exact List.mem_of_getElem? (List.mem_zipIdx_iff_getElem?.mp hg)

lemma heads_blockRuns (hne : func.instructions ≠ []) :
    (blockRuns func).filterMap List.head? =
      func.instructions.filter (lead func.instructions) := by
  obtain ⟨first, rest, hins⟩ := List.exists_cons_of_ne_nil hne
  have := heads_runs (lead_first hins) rest
  rwa [← hins] at this

lemma numberedBlocks_starts (hne : func.instructions ≠ []) :
    (numberedBlocks func).map (fun p => p.2.startAddr) = leaderVec func.instructions := by
  have hstart : (numberedBlocks func).map (fun p => p.2.startAddr) =
      (numberedBlocks func).filterMap fun p =>
        p.2.instructions.head?.map DisassembledInsn.address := by
    rw [← List.filterMap_eq_map]
    refine List.filterMap_congr fun p hp => ?_
    exact (of_mem_numberedBlocks hp).2.2.symm
  have hcomp : (numberedBlocks func).filterMap (fun p =>
        p.2.instructions.head?.map DisassembledInsn.address) =
      ((blockRuns func).filterMap List.head?).map DisassembledInsn.address := by
    rw [← numberedBlocks_instructions, List.filterMap_map, List.map_filterMap]
    rfl
  rw [hstart, hcomp, heads_blockRuns hne, leaderVec]

lemma blockIndex_toList (hne : func.instructions ≠ []) (hinc : Increasing func.instructions) :
    (blockIndex func).toList = (numberedBlocks func).map fun p => (p.2.startAddr, p.1) := by
  have hsorted : (leaderVec func.instructions).zipIdx.Pairwise
      fun a b => compare a.1 b.1 = .lt := by
    have hfst := List.zipIdx_map_fst 0 (leaderVec func.instructions)
    have hlt := (leaderVec_sorted hinc).imp compare_lt_iff.mpr
    rw [← hfst] at hlt
    exact List.pairwise_map.mp hlt
  have htoList : (blockIndex func).toList = (leaderVec func.instructions).zipIdx :=
    toList_insertAll hsorted
  have hlen : (leaderVec func.instructions).length = (blockRuns func).length := by
    obtain ⟨first, rest, hins⟩ := List.exists_cons_of_ne_nil hne
    exact length_leaderVec hins
  rw [htoList, List.zipIdx_eq_zip_range', hlen, ← List.range_eq_range', ← numberedBlocks_ids,
    ← numberedBlocks_starts hne, List.zip_map']

lemma blockIndex_start (hins : func.instructions ≠ []) (hinc : Increasing func.instructions)
    (hstart : ∀ first ∈ func.instructions.head?, func.startAddr ≤ first.address) :
    (blockIndex func)[func.startAddr]?.getD 0 = 0 := by
  obtain ⟨first, rest, hins⟩ := List.exists_cons_of_ne_nil hins
  have hle : func.startAddr ≤ first.address := hstart first (by simp [hins])
  have hvec : leaderVec func.instructions =
      first.address :: (rest.filter (lead func.instructions)).map DisassembledInsn.address := by
    have hfilter : ∀ p : DisassembledInsn → Bool, p first = true →
        func.instructions.filter p = first :: rest.filter p := by
      intro p hp
      rw [hins, List.filter_cons_of_pos hp]
    rw [leaderVec, hfilter _ (lead_first hins), List.map_cons]
  cases hk : (blockIndex func)[func.startAddr]? with
  | none => rfl
  | some k =>
    rw [blockIndex, getElem?_addrToBlock (leaderVec_nodup hinc)] at hk
    have hsorted := leaderVec_sorted hinc
    rw [hvec] at hk hsorted
    cases k with
    | zero => rfl
    | succ k =>
      have hlt := List.rel_of_pairwise_cons hsorted (List.mem_of_getElem? hk)
      exact absurd hle (BitVec.not_le.mpr hlt)

lemma isLeader_iff_getElem? (hinc : Increasing func.instructions) {k : ℕ} {i : DisassembledInsn}
    (hk : func.instructions[k]? = some i) : IsLeader func.instructions i ↔
      k = 0 ∨
      (∃ n prev, k = n + 1 ∧ func.instructions[n]? = some prev ∧ EndsBlock prev.mnemonic) ∨
      ∃ s ∈ func.instructions, IsJump s.mnemonic ∧ parseHexTarget s.opStr = some i.address := by
  have hpos : ∀ m, func.instructions[m]? = some i ↔ m = k := by
    intro m
    constructor
    · intro hm
      obtain ⟨hlt, _⟩ := List.getElem?_eq_some_iff.mp hm
      exact (List.getElem?_inj hlt hinc.nodup).mp (hm.trans hk.symm)
    · rintro rfl
      exact hk
  refine or_congr ?_ (or_congr_left ?_)
  · rw [List.head?_eq_getElem?, hpos, eq_comm]
  · constructor
    · rintro ⟨prev, hfol, he⟩
      obtain ⟨n, hn, hi⟩ := follows_iff_getElem?.mp hfol
      exact ⟨n, prev, ((hpos _).mp hi).symm, hn, he⟩
    · rintro ⟨n, prev, rfl, hn, he⟩
      exact ⟨prev, follows_iff_getElem?.mpr ⟨n, hn, hk⟩, he⟩

lemma entryBlock_first (hne : func.instructions ≠ []) (hinc : Increasing func.instructions) :
    (buildCfg func).blocks[0]?.bind (fun b => b.instructions.head?) = func.instructions.head? := by
  have hflat : (blockRuns func).flatten = func.instructions := flatten_runs _ _
  cases hruns : blockRuns func with
  | nil =>
    rw [hruns] at hflat
    exact absurd hflat.symm hne
  | cons g gs =>
    have hg : g ≠ [] := ne_nil_of_mem_runs (hruns ▸ List.mem_cons_self : g ∈ blockRuns func)
    obtain ⟨b, hb⟩ := basicBlock_isSome (blockIndex func) (blockRuns func).length 0 hg
    have h0 : (buildCfg func).blocks[0]? = some b :=
      (buildCfg_getElem? hne hinc).mpr ⟨g, by rw [hruns]; rfl, hb⟩
    rw [h0, Option.bind_some, (basicBlock_eq_some hb).2.1, ← hflat, hruns, List.flatten_cons,
      List.head?_append_of_ne_nil g hg]

theorem buildCfg_partitions (func : DisassembledFunction) (hne : func.instructions ≠ [])
    (hinc : Increasing func.instructions)
    (hstart : ∀ first ∈ func.instructions.head?, func.startAddr ≤ first.address) :
    Partitions func (buildCfg func) := by
  have hlist := buildCfg_toList hne hinc
  have hcfg := buildCfg_eq hne hinc
  refine ⟨?_, ?_, ?_, ?_, ?_, ?_, ?_, ?_, ?_, ?_⟩
  · have hlen := congrArg List.length (numberedBlocks_ids func)
    rw [List.length_map, List.length_range] at hlen
    rw [hlist, numberedBlocks_ids, hlen]
  · intro p hp
    exact (of_mem_numberedBlocks (hlist ▸ hp)).1
  · intro p hp
    exact ne_nil_of_mem_runs (of_mem_numberedBlocks (hlist ▸ hp)).2.1
  · rw [hlist, List.flatMap_def, numberedBlocks_instructions]
    exact flatten_runs _ _
  · intro p hp
    exact (of_mem_numberedBlocks (hlist ▸ hp)).2.2
  · rw [hlist, ← List.pairwise_map, numberedBlocks_starts hne]
    exact leaderVec_sorted hinc
  · rw [hlist, hcfg]
    exact blockIndex_toList hne hinc
  · rw [hcfg]
    exact blockIndex_start hne hinc hstart
  · exact entryBlock_first hne hinc
  · intro k i hk
    rw [← isLeader_iff_getElem? hinc hk, hlist]
    have hmem : (∃ p ∈ numberedBlocks func, p.2.instructions.head? = some i) ↔
        i ∈ (blockRuns func).filterMap List.head? := by
      rw [← numberedBlocks_instructions, List.filterMap_map, List.mem_filterMap]
      rfl
    rw [hmem, heads_blockRuns hne, List.mem_filter]
    simp [lead, List.mem_of_getElem? hk]

def countdown : DisassembledFunction where
  name := "countdown"
  startAddr := 0x1000
  endAddr := 0x100c
  instructions := [
    ⟨0x1000, 5, "mov", "eax, 3", [0xb8, 3, 0, 0, 0]⟩,
    ⟨0x1005, 3, "dec", "rax", [0x48, 0xff, 0xc8]⟩,
    ⟨0x1008, 2, "jne", "0x1005", [0x75, 0xfb]⟩,
    ⟨0x100a, 1, "ret", "", [0xc3]⟩]

theorem countdown_partitions : Partitions countdown (buildCfg countdown) :=
  buildCfg_partitions countdown (by decide) (by decide) (by decide)

example :
    ((buildCfg countdown).blocks.toList.map fun p => p.2.instructions.length) = [1, 2, 1] := by
  decide

end Cfg

end Dexe
