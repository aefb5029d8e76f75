import Dexe.Cfg.Edges

/-! The graph is well formed for every list of instructions, in the order of their addresses or
not. -/

namespace Dexe

/-- The edges out of a block, read off its terminator. A call at the end of the function names the
block itself as the one to return to. -/
def Terminator.edgesFrom (id : BlockId) : Terminator → List (BlockId × BlockId)
  | fallthrough next => [(id, next)]
  | jump target => [(id, target)]
  | conditionalJump taken next _ => [(id, taken), (id, next)]
  | call _ next => if next = id then [] else [(id, next)]
  | ret | halt => []

namespace Cfg

open Std Collections

lemma edgesFrom_classify (addrToBlock : TreeMap U64 BlockId) (count id : ℕ)
    (last : DisassembledInsn) :
    (classify addrToBlock count id last).1.edgesFrom id =
      (classify addrToBlock count id last).2 := by
  simp only [classify]
  split_ifs
  · rfl
  · split <;> rfl
  · split <;> rfl
  · simp [Terminator.edgesFrom]
  · simp [Terminator.edgesFrom]
  · rfl
  · rfl
  · rfl

section Partition

variable {leaderVec : List U64} {done : List DisassembledInsn} {s : PartitionState}
  {x : DisassembledInsn}

structure Filled (leaderVec : List U64) (done : List DisassembledInsn) (s : PartitionState) :
    Prop where
  length : s.blockInsns.length = leaderVec.length
  current : done ≠ [] → ∃ g, s.blockInsns[s.currentBlock]? = some g ∧ g ≠ []
  heads : ∀ (k : ℕ) (g : List DisassembledInsn), s.blockInsns[k]? = some g →
    ∀ i ∈ g.head?, leaderVec[k]? = some i.address
  reached : ∀ i ∈ done, ∀ k : ℕ, leaderVec[k]? = some i.address →
    ∃ g, s.blockInsns[k]? = some g ∧ g ≠ []
  instructions : s.blockInsns.flatten.Perm done

lemma filled_initial (leaderVec : List U64) :
    Filled leaderVec [] ⟨List.replicate leaderVec.length [], 0⟩ := by
  refine ⟨by simp, fun h => absurd rfl h, ?_, by simp, by simp⟩
  intro k g hg i hi
  rw [List.getElem?_replicate] at hg
  split at hg
  · cases hg
    cases hi
  · cases hg

lemma flatten_modify {l : List (List DisassembledInsn)} {k : ℕ} (hk : k < l.length)
    (x : DisassembledInsn) : (l.modify k (· ++ [x])).flatten.Perm (l.flatten ++ [x]) := by
  obtain ⟨a, g, b, rfl, rfl⟩ : ∃ a g b, l = a ++ g :: b ∧ a.length = k :=
    ⟨l.take k, l[k], l.drop (k + 1), by simp, by simp; omega⟩
  rw [modify_length_append]
  simp only [List.flatten_append, List.flatten_cons, List.append_assoc]
  exact (List.perm_append_comm.append_left g).append_left a.flatten

lemma Filled.block (h : Filled leaderVec done s) (hnd : leaderVec.Nodup)
    (hfirst : done = [] → x.address ∈ leaderVec) :
    ∃ g, s.blockInsns[(addrToBlock leaderVec)[x.address]?.getD s.currentBlock]? = some g ∧
      (g = [] → leaderVec[(addrToBlock leaderVec)[x.address]?.getD s.currentBlock]? =
        some x.address) ∧
      ∀ k : ℕ, leaderVec[k]? = some x.address →
        (addrToBlock leaderVec)[x.address]?.getD s.currentBlock = k := by
  cases hx : (addrToBlock leaderVec)[x.address]? with
  | some k =>
    have hk := (getElem?_addrToBlock hnd).mp hx
    have hlt : k < s.blockInsns.length := by
      rw [h.length]
      exact (List.getElem?_eq_some_iff.mp hk).1
    refine ⟨s.blockInsns[k], List.getElem?_eq_getElem hlt, fun _ => hk, fun j hj => ?_⟩
    have hj' := (getElem?_addrToBlock hnd).mpr hj
    rw [hx] at hj'
    exact Option.some.inj hj'
  | none =>
    -- no leader: the instruction goes to the block that the last one went to
    have hnot : ∀ k : ℕ, leaderVec[k]? ≠ some x.address := by
      intro k hk
      rw [(getElem?_addrToBlock hnd).mpr hk] at hx
      cases hx
    have hne : done ≠ [] := by
      intro hnil
      obtain ⟨k, hk⟩ := List.getElem?_of_mem (hfirst hnil)
      exact hnot k hk
    obtain ⟨g, hg, hgne⟩ := h.current hne
    exact ⟨g, hg, fun hnil => absurd hnil hgne, fun k hk => absurd hk (hnot k)⟩

lemma Filled.step (h : Filled leaderVec done s) (hnd : leaderVec.Nodup)
    (hfirst : done = [] → x.address ∈ leaderVec) :
    Filled leaderVec (done ++ [x]) (partitionStep (addrToBlock leaderVec) s x) := by
  obtain ⟨g, hg, hnil, honly⟩ := h.block hnd hfirst
  rw [partitionStep]
  generalize (addrToBlock leaderVec)[x.address]?.getD s.currentBlock = c at hg hnil honly
  have hlt : c < s.blockInsns.length := (List.getElem?_eq_some_iff.mp hg).1
  have hself : (s.blockInsns.modify c (· ++ [x]))[c]? = some (g ++ [x]) := by simp [hg]
  have hother : ∀ k, c ≠ k → (s.blockInsns.modify c (· ++ [x]))[k]? = s.blockInsns[k]? := by
    intro k hk
    simp [hk]
  refine ⟨by simp [h.length], fun _ => ⟨_, hself, by simp⟩, ?_, ?_, ?_⟩
  · intro k g' hg' i hi
    by_cases hk : c = k
    · subst hk
      rw [hself] at hg'
      cases hg'
      cases g with
      | nil =>
        obtain rfl : x = i := by simpa using hi
        exact hnil rfl
      | cons y g => exact h.heads c _ hg i hi
    · rw [hother k hk] at hg'
      exact h.heads k g' hg' i hi
  · intro i hi k hk
    by_cases hck : c = k
    · subst hck
      exact ⟨_, hself, by simp⟩
    · rw [hother k hck]
      rcases List.mem_append.mp hi with hi | hi
      · exact h.reached i hi k hk
      · rw [List.mem_singleton.mp hi] at hk
        exact absurd (honly k hk) hck
  · exact (flatten_modify hlt x).trans (h.instructions.append_right [x])

lemma filled_partition (hnd : leaderVec.Nodup) (insns : List DisassembledInsn)
    (hfirst : ∀ first ∈ insns.head?, first.address ∈ leaderVec) :
    Filled leaderVec insns
      (insns.foldl (partitionStep (addrToBlock leaderVec))
        ⟨List.replicate leaderVec.length [], 0⟩) := by
  induction insns using List.reverseRecOn with
  | nil => exact filled_initial leaderVec
  | append_singleton done x ih =>
    rw [List.foldl_append]
    refine (ih fun first hd => hfirst first ?_).step hnd fun hnil => hfirst x ?_
    · exact List.mem_head?_append_of_mem_head? hd
    · rw [hnil]
      rfl

end Partition

section Blocks

variable (addrToBlock : TreeMap U64 BlockId) (count : ℕ)

def cells (l : List (List DisassembledInsn × ℕ)) : List (BlockId × BasicBlock) :=
  l.filterMap fun p => (basicBlock addrToBlock count p.2 p.1).map (p.2, ·)

variable {addrToBlock count}

lemma edgesFrom_basicBlock {id : BlockId} {bi : List DisassembledInsn} {b : BasicBlock}
    (h : basicBlock addrToBlock count id bi = some b) :
    b.terminator.edgesFrom id = blockEdges addrToBlock count id bi := by
  rw [basicBlock] at h
  split at h
  · rename_i hf hl
    cases h
    rw [blockEdges, hl]
    exact edgesFrom_classify addrToBlock count id _
  · cases h

structure Cells (addrToBlock : TreeMap U64 BlockId) (count : ℕ)
    (l : List (List DisassembledInsn × ℕ)) : Prop where
  ids : (cells addrToBlock count l).map Prod.fst = l.map Prod.snd
  instructions : ((cells addrToBlock count l).flatMap fun p => p.2.instructions) =
    l.flatMap Prod.fst
  edges : ((cells addrToBlock count l).flatMap fun p => p.2.terminator.edgesFrom p.1) =
    l.flatMap fun p => blockEdges addrToBlock count p.2 p.1

lemma cells_of_nonempty {l : List (List DisassembledInsn × ℕ)} (h : ∀ p ∈ l, p.1 ≠ []) :
    Cells addrToBlock count l := by
  induction l with
  | nil => exact ⟨rfl, rfl, rfl⟩
  | cons p l ih =>
    obtain ⟨b, hb⟩ := basicBlock_isSome addrToBlock count p.2 (h p List.mem_cons_self)
    have hrest := ih fun q hq => h q (List.mem_cons_of_mem _ hq)
    have hcons : cells addrToBlock count (p :: l) = (p.2, b) :: cells addrToBlock count l :=
      List.filterMap_cons_some (by simp [hb])
    refine ⟨?_, ?_, ?_⟩
    · rw [hcons, List.map_cons, List.map_cons, hrest.ids]
    · rw [hcons, List.flatMap_cons, List.flatMap_cons, hrest.instructions,
        (basicBlock_eq_some hb).2.1]
    · rw [hcons, List.flatMap_cons, List.flatMap_cons, hrest.edges, edgesFrom_basicBlock hb]

end Blocks

structure WellFormed (func : DisassembledFunction) (cfg : ControlFlowGraph) : Prop where
  ids : cfg.blocks.toList.map Prod.fst = List.range cfg.blocks.toList.length
  blocks : ∀ (id : BlockId) (b : BasicBlock), cfg.blocks[id]? = some b →
    b.id = id ∧ b.instructions ≠ []
  instructions : (cfg.blocks.toList.flatMap fun p => p.2.instructions).Perm func.instructions
  starts : ∀ (a : U64) (id : BlockId), cfg.addrToBlock[a]? = some id ↔
    ∃ b : BasicBlock, cfg.blocks[id]? = some b ∧ b.startAddr = a
  edges : cfg.edges = cfg.blocks.toList.flatMap fun p => p.2.terminator.edgesFrom p.1
  targets : ∀ e ∈ cfg.edges, e.1 ∈ cfg.blocks ∧ e.2 ∈ cfg.blocks
  entry : func.instructions ≠ [] → cfg.entryBlock ∈ cfg.blocks

section Graph

variable {first : DisassembledInsn} {insns : List DisassembledInsn}

def leaderList (first : DisassembledInsn) (insns : List DisassembledInsn) : List U64 :=
  (leaders first insns).toList

lemma leaderList_nodup : (leaderList first insns).Nodup :=
  (TreeSet.ordered_toList (t := leaders first insns)).imp fun h => ne_of_lt (compare_lt_iff.mp h)

def leaderIndex (first : DisassembledInsn) (insns : List DisassembledInsn) : TreeMap U64 BlockId :=
  addrToBlock (leaderList first insns)

lemma getElem?_leaderIndex {a : U64} {k : ℕ} :
    (leaderIndex first insns)[a]? = some k ↔ (leaderList first insns)[k]? = some a :=
  getElem?_addrToBlock leaderList_nodup

def blockLists (first : DisassembledInsn) (insns : List DisassembledInsn) :
    List (List DisassembledInsn) :=
  partition (leaderIndex first insns) (leaderList first insns).length insns

variable (hfirst : insns.head? = some first)

include hfirst

lemma filled_blockLists : Filled (leaderList first insns) insns
    (insns.foldl (partitionStep (addrToBlock (leaderList first insns)))
      ⟨List.replicate (leaderList first insns).length [], 0⟩) := by
  apply filled_partition leaderList_nodup
  intro i hi
  obtain rfl : first = i := Option.some.inj (hfirst.symm.trans hi)
  rw [leaderList, TreeSet.mem_toList, mem_leaders]
  exact .inl rfl

lemma nonempty_blockLists : ∀ g ∈ blockLists first insns, g ≠ [] := by
  have hfilled := filled_blockLists hfirst
  intro g hg
  obtain ⟨k, hk⟩ := List.getElem?_of_mem hg
  have hlt : k < (leaderList first insns).length := by
    rw [← hfilled.length]
    exact (List.getElem?_eq_some_iff.mp hk).1
  have hmem : (leaderList first insns)[k] ∈ leaders first insns := by
    rw [← TreeSet.mem_toList]
    exact List.getElem_mem hlt
  obtain ⟨i, hi, -, ha⟩ := (mem_leaders_iff hfirst).mp hmem
  obtain ⟨g', hg', hne⟩ := hfilled.reached i hi k (by rw [ha, List.getElem?_eq_getElem hlt])
  obtain rfl : g = g' := Option.some.inj (hk.symm.trans hg')
  exact hne

lemma cells_blockLists : Cells (leaderIndex first insns) (leaderList first insns).length
    (blockLists first insns).zipIdx := by
  apply cells_of_nonempty
  intro p hp
  exact nonempty_blockLists hfirst p.1 (List.mem_of_getElem? (List.mem_zipIdx_iff_getElem?.mp hp))

lemma length_blockLists : (blockLists first insns).length = (leaderList first insns).length :=
  (filled_blockLists hfirst).length

end Graph

lemma buildCfg_of_nil {func : DisassembledFunction} (hins : func.instructions = []) :
    buildCfg func = ⟨func.name, func.startAddr, ∅, 0, [], ∅⟩ := by
  unfold buildCfg
  rw [hins]

lemma buildCfg_cons {func : DisassembledFunction} {first : DisassembledInsn}
    {rest : List DisassembledInsn} (hins : func.instructions = first :: rest) :
    buildCfg func = ⟨func.name, func.startAddr,
      insertAll (cells (leaderIndex first func.instructions)
        (leaderList first func.instructions).length (blockLists first func.instructions).zipIdx),
      (leaderIndex first func.instructions)[func.startAddr]?.getD 0,
      (blockLists first func.instructions).zipIdx.flatMap fun p =>
        blockEdges (leaderIndex first func.instructions)
          (leaderList first func.instructions).length p.2 p.1,
      leaderIndex first func.instructions⟩ := by
  rw [buildCfg]
  split
  · rename_i h
    rw [hins] at h
    cases h
  · rename_i f tl h
    obtain rfl : first = f := (List.cons.inj (hins.symm.trans h)).1
    simp only [foldl_blockStep]
    rfl

section Result

variable {func : DisassembledFunction} {first : DisassembledInsn} {rest : List DisassembledInsn}
  (hins : func.instructions = first :: rest)

include hins

lemma toList_blocks : (buildCfg func).blocks.toList =
    cells (leaderIndex first func.instructions)
      (leaderList first func.instructions).length (blockLists first func.instructions).zipIdx := by
  have hids := (cells_blockLists (show func.instructions.head? = some first by rw [hins]; rfl)).ids
  rw [buildCfg_cons hins]
  apply toList_insertAll
  have hsorted : ((cells (leaderIndex first func.instructions)
      (leaderList first func.instructions).length
      (blockLists first func.instructions).zipIdx).map Prod.fst).Pairwise (· < ·) := by
    rw [hids, List.zipIdx_map_snd]
    exact List.pairwise_lt_range'
  exact (List.pairwise_map.mp hsorted).imp fun h => Nat.compare_eq_lt.mpr h

lemma ids_blocks : (buildCfg func).blocks.toList.map Prod.fst =
    List.range (leaderList first func.instructions).length := by
  have hfirst : func.instructions.head? = some first := by rw [hins]; rfl
  rw [toList_blocks hins, (cells_blockLists hfirst).ids, List.zipIdx_map_snd,
    length_blockLists hfirst, List.range_eq_range']

lemma mem_blocks {k : BlockId} :
    k ∈ (buildCfg func).blocks ↔ k < (leaderList first func.instructions).length := by
  rw [← TreeMap.mem_keys, ← TreeMap.map_fst_toList_eq_keys, ids_blocks hins, List.mem_range]

lemma getElem?_blocks {k : BlockId} {b : BasicBlock} : (buildCfg func).blocks[k]? = some b ↔
    ∃ g, (blockLists first func.instructions)[k]? = some g ∧
      basicBlock (leaderIndex first func.instructions)
        (leaderList first func.instructions).length k g = some b := by
  rw [← TreeMap.mem_toList_iff_getElem?_eq_some, toList_blocks hins, cells, List.mem_filterMap]
  constructor
  · rintro ⟨⟨g, n⟩, hg, hb⟩
    obtain ⟨b', hb', he⟩ := Option.map_eq_some_iff.mp hb
    cases he
    exact ⟨g, List.mem_zipIdx_iff_getElem?.mp hg, hb'⟩
  · rintro ⟨g, hg, hb⟩
    exact ⟨(g, k), List.mem_zipIdx_iff_getElem?.mpr hg, by simp [hb]⟩

lemma starts_blocks (a : U64) (id : BlockId) : (buildCfg func).addrToBlock[a]? = some id ↔
    ∃ b : BasicBlock, (buildCfg func).blocks[id]? = some b ∧ b.startAddr = a := by
  have hfirst : func.instructions.head? = some first := by rw [hins]; rfl
  have hfilled := filled_blockLists hfirst
  have hindex : (buildCfg func).addrToBlock = leaderIndex first func.instructions := by
    rw [buildCfg_cons hins]
  -- a block starts where its first instruction is, which is its leader
  have hblock : ∀ b g, (blockLists first func.instructions)[id]? = some g →
      basicBlock (leaderIndex first func.instructions)
        (leaderList first func.instructions).length id g = some b →
      (leaderList first func.instructions)[id]? = some b.startAddr := by
    intro b g hg hb
    obtain ⟨-, -, hstart⟩ := basicBlock_eq_some hb
    obtain ⟨i, hi, hia⟩ := Option.map_eq_some_iff.mp hstart
    rw [← hia]
    exact hfilled.heads id g hg i hi
  rw [hindex, getElem?_leaderIndex]
  constructor
  · intro ha
    have hlt : id < (blockLists first func.instructions).length := by
      rw [length_blockLists hfirst]
      exact (List.getElem?_eq_some_iff.mp ha).1
    have hg := List.getElem?_eq_getElem hlt
    obtain ⟨b, hb⟩ := basicBlock_isSome (leaderIndex first func.instructions)
      (leaderList first func.instructions).length id
      (nonempty_blockLists hfirst _ (List.mem_of_getElem? hg))
    have hstart := hblock b _ hg hb
    rw [ha] at hstart
    exact ⟨b, (getElem?_blocks hins).mpr ⟨_, hg, hb⟩, (Option.some.inj hstart).symm⟩
  · rintro ⟨b, hb, rfl⟩
    obtain ⟨g, hg, hb⟩ := (getElem?_blocks hins).mp hb
    exact hblock b g hg hb

lemma edges_blocks : (buildCfg func).edges =
    (blockLists first func.instructions).zipIdx.flatMap fun p =>
      blockEdges (leaderIndex first func.instructions)
        (leaderList first func.instructions).length p.2 p.1 := by
  rw [buildCfg_cons hins]

lemma targets_blocks :
    ∀ e ∈ (buildCfg func).edges, e.1 ∈ (buildCfg func).blocks ∧ e.2 ∈ (buildCfg func).blocks := by
  have hfirst : func.instructions.head? = some first := by rw [hins]; rfl
  intro e he
  rw [edges_blocks hins, List.mem_flatMap] at he
  obtain ⟨⟨g, k⟩, hg, he⟩ := he
  have hk : k < (leaderList first func.instructions).length := by
    rw [← length_blockLists hfirst]
    exact (List.getElem?_eq_some_iff.mp (List.mem_zipIdx_iff_getElem?.mp hg)).1
  rw [mem_blocks hins, mem_blocks hins]
  simp only [blockEdges] at he
  split at he
  · rcases classify_edges.mp he with ⟨t, rfl, -, ht⟩ | ⟨rfl, hnext, -⟩
    · obtain ⟨a, -, ha⟩ := Option.bind_eq_some_iff.mp ht
      exact ⟨hk, (List.getElem?_eq_some_iff.mp (getElem?_leaderIndex.mp ha)).1⟩
    · exact ⟨hk, hnext⟩
  · cases he

lemma entry_blocks : (buildCfg func).entryBlock ∈ (buildCfg func).blocks := by
  rw [mem_blocks hins, buildCfg_cons hins]
  show (leaderIndex first func.instructions)[func.startAddr]?.getD 0 < _
  cases h : (leaderIndex first func.instructions)[func.startAddr]? with
  | some k => exact (List.getElem?_eq_some_iff.mp (getElem?_leaderIndex.mp h)).1
  | none =>
    have hmem : first.address ∈ leaderList first func.instructions := by
      rw [leaderList, TreeSet.mem_toList, mem_leaders]
      exact .inl rfl
    exact List.length_pos_of_mem hmem

lemma wellFormed_cons : WellFormed func (buildCfg func) := by
  have hfirst : func.instructions.head? = some first := by rw [hins]; rfl
  have hcells := cells_blockLists hfirst
  have hlen := congrArg List.length (ids_blocks hins)
  rw [List.length_map, List.length_range] at hlen
  refine ⟨?_, ?_, ?_, starts_blocks hins, ?_, targets_blocks hins, fun _ => entry_blocks hins⟩
  · rw [ids_blocks hins, hlen]
  · intro id b hb
    obtain ⟨g, hg, hb⟩ := (getElem?_blocks hins).mp hb
    obtain ⟨hid, rfl, -⟩ := basicBlock_eq_some hb
    exact ⟨hid, nonempty_blockLists hfirst _ (List.mem_of_getElem? hg)⟩
  · have hflat : (blockLists first func.instructions).zipIdx.flatMap Prod.fst =
        (blockLists first func.instructions).flatten := by
      rw [List.flatMap_def, List.zipIdx_map_fst]
    rw [toList_blocks hins, hcells.instructions, hflat]
    exact (filled_blockLists hfirst).instructions
  · rw [toList_blocks hins, hcells.edges, edges_blocks hins]

end Result

lemma perm_blocks (func : DisassembledFunction) :
    ((buildCfg func).blocks.toList.flatMap fun p => p.2.instructions).Perm func.instructions := by
  cases hins : func.instructions with
  | nil =>
    rw [buildCfg_of_nil hins]
    exact .refl _
  | cons first rest => exact hins ▸ (wellFormed_cons hins).instructions

/-- Whatever the instructions are, the blocks are numbered from 0 on and share the instructions out,
the edges are those of the terminators, and every edge joins two blocks. -/
theorem buildCfg_wellFormed (func : DisassembledFunction) : WellFormed func (buildCfg func) := by
  cases hins : func.instructions with
  | nil =>
    rw [buildCfg_of_nil hins]
    exact ⟨rfl, by simp, by simp [hins], by simp, by simp, by simp, fun h => absurd hins h⟩
  | cons first rest => exact wellFormed_cons hins

end Cfg

end Dexe
