import Dexe.Cfg.Correct

/-! The edges of the builder are the control flow between instructions. -/

namespace Dexe

namespace Cfg

open Std Collections

abbrev FallsThrough (mn : Text) : Prop := mn ≠ "jmp" ∧ ¬ IsRet mn ∧ ¬ IsHalt mn

def Successor (insns : List DisassembledInsn) (i j : DisassembledInsn) : Prop :=
  (Follows insns i j ∧ FallsThrough i.mnemonic) ∨
    (IsJump i.mnemonic ∧ parseHexTarget i.opStr = some j.address)

def GraphSuccessor (cfg : ControlFlowGraph) (i j : DisassembledInsn) : Prop :=
  (∃ (k : BlockId) (b : BasicBlock), cfg.blocks[k]? = some b ∧ Follows b.instructions i j) ∨
    ∃ (k k' : BlockId) (b b' : BasicBlock), cfg.blocks[k]? = some b ∧ cfg.blocks[k']? = some b' ∧
      b.instructions.getLast? = some i ∧ b'.instructions.head? = some j ∧ (k, k') ∈ cfg.edges

lemma ret_not_jump {mn : Text} (h : IsRet mn) : ¬ IsJump mn ∧ ¬ FallsThrough mn := by
  rcases h with rfl | rfl <;> decide

lemma condJump_falls : ∀ mn ∈ condJumps, mn ≠ "jmp" ∧ FallsThrough mn := by decide

lemma call_falls : ¬ IsJump "call" ∧ ("call" : Text) ∉ condJumps ∧ FallsThrough "call" := by decide

lemma halt_not_jump : ∀ mn ∈ haltMnemonics, mn ≠ "call" ∧ ¬ FallsThrough mn := by decide

section Classify

variable {addrToBlock : TreeMap U64 BlockId} {count id : ℕ} {last : DisassembledInsn}

lemma classify_edges {e : BlockId × BlockId} : e ∈ (classify addrToBlock count id last).2 ↔
      (∃ t, e = (id, t) ∧ IsJump last.mnemonic ∧
        resolveJumpTarget last.opStr addrToBlock = some t) ∨
      (e = (id, id + 1) ∧ id + 1 < count ∧ FallsThrough last.mnemonic) := by
  rw [classify]
  by_cases hret : IsRet last.mnemonic
  · obtain ⟨hj, hf⟩ := ret_not_jump hret
    simp only [if_pos hret, hj, hf, false_and, and_false, exists_false, or_self, List.not_mem_nil]
  by_cases hjmp : last.mnemonic = "jmp"
  · have hj : IsJump last.mnemonic := .inl hjmp
    have hf : ¬ FallsThrough last.mnemonic := fun h => h.1 hjmp
    simp only [if_neg hret, if_pos hjmp, eq_true hj, hf, and_false, or_false, true_and]
    cases resolveJumpTarget last.opStr addrToBlock <;> simp
  by_cases hcond : last.mnemonic ∈ condJumps
  · have hj : IsJump last.mnemonic := .inr hcond
    have hf := (condJump_falls _ hcond).2
    simp only [if_neg hret, if_neg hjmp, if_pos hcond, eq_true hj, eq_true hf, and_true, true_and]
    cases resolveJumpTarget last.opStr addrToBlock <;> by_cases hn : id + 1 < count <;> simp [hn]
  have hj : ¬ IsJump last.mnemonic := not_or.mpr ⟨hjmp, hcond⟩
  simp only [if_neg hret, if_neg hjmp, if_neg hcond, hj, false_and, and_false, exists_false,
    false_or]
  by_cases hcall : last.mnemonic = "call"
  · have hf : FallsThrough last.mnemonic := hcall ▸ call_falls.2.2
    simp only [if_pos hcall, eq_true hf, and_true]
    split <;> simp_all
  by_cases hhalt : IsHalt last.mnemonic
  · have hf := (halt_not_jump _ hhalt).2
    simp only [if_neg hcall, if_pos hhalt, hf, and_false, List.not_mem_nil]
  · have hf : FallsThrough last.mnemonic := ⟨hjmp, hret, hhalt⟩
    simp only [if_neg hcall, if_neg hhalt, eq_true hf, and_true]
    split <;> simp_all

end Classify

section Successors

variable {func : DisassembledFunction}

lemma mem_blockRuns {g : List DisassembledInsn} {k : ℕ} (h : (blockRuns func)[k]? = some g) :
    g ∈ blockRuns func := List.mem_of_getElem? h

lemma nil_not_mem_blockRuns (func : DisassembledFunction) : [] ∉ blockRuns func :=
  fun h => ne_nil_of_mem_runs h rfl

lemma flatten_blockRuns : (blockRuns func).flatten = func.instructions := flatten_runs _ _

lemma exists_block_iff (hne : func.instructions ≠ []) (hinc : Increasing func.instructions)
    {k : BlockId} {P : List DisassembledInsn → Prop} :
    (∃ b, (buildCfg func).blocks[k]? = some b ∧ P b.instructions) ↔
      ∃ g, (blockRuns func)[k]? = some g ∧ P g := by
  constructor
  · rintro ⟨b, hb, hP⟩
    obtain ⟨g, hg, hbb⟩ := (buildCfg_getElem? hne hinc).mp hb
    exact ⟨g, hg, (basicBlock_eq_some hbb).2.1 ▸ hP⟩
  · rintro ⟨g, hg, hP⟩
    obtain ⟨b, hb⟩ := basicBlock_isSome (blockIndex func) (blockRuns func).length k
      (ne_nil_of_mem_runs (mem_blockRuns hg))
    exact ⟨b, (buildCfg_getElem? hne hinc).mpr ⟨g, hg, hb⟩, (basicBlock_eq_some hb).2.1 ▸ hP⟩

lemma blockIndex_eq_some (hne : func.instructions ≠ []) (hinc : Increasing func.instructions)
    {a : U64} {k : ℕ} : (blockIndex func)[a]? = some k ↔
      ∃ (g : List DisassembledInsn) (i : DisassembledInsn),
        (blockRuns func)[k]? = some g ∧ g.head? = some i ∧ i.address = a := by
  rw [blockIndex, getElem?_addrToBlock (leaderVec_nodup hinc), leaderVec, List.getElem?_map,
    ← heads_blockRuns hne, blockRuns, getElem?_heads fun g hg => ne_nil_of_mem_runs hg]
  cases (runs (lead func.instructions) func.instructions)[k]? with
  | none => simp
  | some g => simp

lemma follows_of_run {g : List DisassembledInsn} {i j : DisassembledInsn}
    (hg : g ∈ blockRuns func) (h : Follows g i j) : Follows func.instructions i j := by
  rw [← flatten_blockRuns, follows_flatten (nil_not_mem_blockRuns func)]
  exact .inl ⟨g, hg, h⟩

lemma not_endsBlock_of_follows {g : List DisassembledInsn} {i j : DisassembledInsn}
    (hg : g ∈ blockRuns func) (h : Follows g i j) : ¬ EndsBlock i.mnemonic := by
  intro he
  have hlead : IsLeader func.instructions j := .inr (.inl ⟨i, follows_of_run hg h, he⟩)
  have hnot := not_of_mem_tail_runs hg h.right_mem_tail
  simp [lead, hlead] at hnot

lemma exists_run_of_mem {i : DisassembledInsn} (h : i ∈ func.instructions) :
    ∃ (k : ℕ) (g : List DisassembledInsn), (blockRuns func)[k]? = some g ∧ i ∈ g := by
  rw [← flatten_blockRuns] at h
  obtain ⟨g, hg, hi⟩ := List.mem_flatten.mp h
  obtain ⟨k, hk⟩ := List.getElem?_of_mem hg
  exact ⟨k, g, hk, hi⟩

lemma last_of_endsBlock {i : DisassembledInsn} (hi : i ∈ func.instructions)
    (he : EndsBlock i.mnemonic) :
    ∃ (k : ℕ) (g : List DisassembledInsn),
      (blockRuns func)[k]? = some g ∧ g.getLast? = some i := by
  obtain ⟨k, g, hk, hig⟩ := exists_run_of_mem hi
  rcases last_or_follows hig with hlast | ⟨y, hy⟩
  · exact ⟨k, g, hk, hlast⟩
  · exact absurd he (not_endsBlock_of_follows (mem_blockRuns hk) hy)

lemma first_of_leader (hne : func.instructions ≠ []) {j : DisassembledInsn}
    (hj : j ∈ func.instructions) (hlead : IsLeader func.instructions j) :
    ∃ (k : ℕ) (g : List DisassembledInsn), (blockRuns func)[k]? = some g ∧ g.head? = some j := by
  have hmem : j ∈ (blockRuns func).filterMap List.head? := by
    rw [heads_blockRuns hne, List.mem_filter]
    exact ⟨hj, by simp [lead, hlead]⟩
  obtain ⟨g, hg, hhead⟩ := List.mem_filterMap.mp hmem
  obtain ⟨k, hk⟩ := List.getElem?_of_mem hg
  exact ⟨k, g, hk, hhead⟩

def BlockSuccessor (func : DisassembledFunction) (i j : DisassembledInsn) : Prop :=
  ∃ (k k' : ℕ) (g g' : List DisassembledInsn),
    (blockRuns func)[k]? = some g ∧ (blockRuns func)[k']? = some g' ∧
    g.getLast? = some i ∧ g'.head? = some j ∧
    (k, k') ∈ (classify (blockIndex func) (blockRuns func).length k i).2

lemma graphSuccessor_iff (hne : func.instructions ≠ []) (hinc : Increasing func.instructions)
    {i j : DisassembledInsn} : GraphSuccessor (buildCfg func) i j ↔
      (∃ g ∈ blockRuns func, Follows g i j) ∨ BlockSuccessor func i j := by
  refine or_congr ?_ ?_
  · simp only [exists_block_iff hne hinc (P := (Follows · i j))]
    constructor
    · rintro ⟨k, g, hk, hf⟩
      exact ⟨g, mem_blockRuns hk, hf⟩
    · rintro ⟨g, hg, hf⟩
      obtain ⟨k, hk⟩ := List.getElem?_of_mem hg
      exact ⟨k, g, hk, hf⟩
  · constructor
    · rintro ⟨k, k', b, b', hb, hb', hlast, hhead, he⟩
      obtain ⟨g, hg, hi⟩ :=
        (exists_block_iff hne hinc (P := (List.getLast? · = some i))).mp ⟨b, hb, hlast⟩
      obtain ⟨g', hg', hj⟩ :=
        (exists_block_iff hne hinc (P := (List.head? · = some j))).mp ⟨b', hb', hhead⟩
      obtain ⟨n, gn, last, hn, hlast', he⟩ := (mem_edges hne hinc).mp he
      obtain rfl : k = n := by
        rcases classify_edges.mp he with ⟨t, ht, _⟩ | ⟨ht, _⟩ <;> exact congrArg Prod.fst ht
      obtain rfl : g = gn := Option.some.inj (hg.symm.trans hn)
      obtain rfl : i = last := Option.some.inj (hi.symm.trans hlast')
      exact ⟨k, k', g, g', hg, hg', hi, hj, he⟩
    · rintro ⟨k, k', g, g', hg, hg', hi, hj, he⟩
      obtain ⟨b, hb, hlast⟩ :=
        (exists_block_iff hne hinc (P := (List.getLast? · = some i))).mpr ⟨g, hg, hi⟩
      obtain ⟨b', hb', hhead⟩ :=
        (exists_block_iff hne hinc (P := (List.head? · = some j))).mpr ⟨g', hg', hj⟩
      exact ⟨k, k', b, b', hb, hb', hlast, hhead, (mem_edges hne hinc).mpr ⟨k, g, i, hg, hi, he⟩⟩

lemma follows_iff_blocks {i j : DisassembledInsn} :
    Follows func.instructions i j ∧ FallsThrough i.mnemonic ↔
      (∃ g ∈ blockRuns func, Follows g i j) ∨
        ∃ (k : ℕ) (g g' : List DisassembledInsn),
          (blockRuns func)[k]? = some g ∧ (blockRuns func)[k + 1]? = some g' ∧
          g.getLast? = some i ∧ g'.head? = some j ∧ FallsThrough i.mnemonic := by
  have hflat := follows_flatten (nil_not_mem_blockRuns func) (x := i) (y := j)
  rw [flatten_blockRuns] at hflat
  constructor
  · rintro ⟨hf, hft⟩
    rcases hflat.mp hf with hin | ⟨k, g, g', hk, hk', hi, hj⟩
    · exact .inl hin
    · exact .inr ⟨k, g, g', hk, hk', hi, hj, hft⟩
  · rintro (⟨g, hg, hf⟩ | ⟨k, g, g', hk, hk', hi, hj, hft⟩)
    · have hne := not_endsBlock_of_follows hg hf
      refine ⟨follows_of_run hg hf, fun h => hne (.inl (.inl h)), fun h => ?_, fun h => ?_⟩
      · exact hne (.inr (.inr (.inl h)))
      · exact hne (.inr (.inr (.inr h)))
    · exact ⟨hflat.mpr (.inr ⟨k, g, g', hk, hk', hi, hj⟩), hft⟩

lemma jump_iff_blocks (hne : func.instructions ≠ []) (hinc : Increasing func.instructions)
    {i j : DisassembledInsn} (hi : i ∈ func.instructions) (hj : j ∈ func.instructions) :
    IsJump i.mnemonic ∧ parseHexTarget i.opStr = some j.address ↔
      ∃ (k k' : ℕ) (g g' : List DisassembledInsn),
        (blockRuns func)[k]? = some g ∧ (blockRuns func)[k']? = some g' ∧
        g.getLast? = some i ∧ g'.head? = some j ∧ IsJump i.mnemonic ∧
        resolveJumpTarget i.opStr (blockIndex func) = some k' := by
  constructor
  · rintro ⟨hjump, htarget⟩
    obtain ⟨k, g, hk, hlast⟩ := last_of_endsBlock hi (.inl hjump)
    obtain ⟨k', g', hk', hhead⟩ := first_of_leader hne hj (.inr (.inr ⟨i, hi, hjump, htarget⟩))
    refine ⟨k, k', g, g', hk, hk', hlast, hhead, hjump, ?_⟩
    rw [resolveJumpTarget, htarget, Option.bind_some, blockIndex_eq_some hne hinc]
    exact ⟨g', j, hk', hhead, rfl⟩
  · rintro ⟨k, k', g, g', hk, hk', hlast, hhead, hjump, hres⟩
    obtain ⟨a, ha, hidx⟩ := Option.bind_eq_some_iff.mp hres
    obtain ⟨h, i', hh, hhead', rfl⟩ := (blockIndex_eq_some hne hinc).mp hidx
    obtain rfl : g' = h := Option.some.inj (hk'.symm.trans hh)
    obtain rfl : j = i' := Option.some.inj (hhead.symm.trans hhead')
    exact ⟨hjump, ha⟩

end Successors

theorem successor_iff_graphSuccessor (func : DisassembledFunction) (hne : func.instructions ≠ [])
    (hinc : Increasing func.instructions) :
    (∀ i ∈ func.instructions, ∀ j ∈ func.instructions,
      Successor func.instructions i j ↔ GraphSuccessor (buildCfg func) i j) ∧
    ∀ e ∈ (buildCfg func).edges, e.1 ∈ (buildCfg func).blocks ∧ e.2 ∈ (buildCfg func).blocks := by
  have hmem : ∀ k, k ∈ (buildCfg func).blocks ↔ ∃ g, (blockRuns func)[k]? = some g := by
    intro k
    have := exists_block_iff hne hinc (k := k) (P := fun _ => True)
    simp only [and_true] at this
    rw [TreeMap.mem_iff_isSome_getElem?, Option.isSome_iff_exists, this]
  constructor
  · intro i hi j hj
    rw [graphSuccessor_iff hne hinc, Successor, follows_iff_blocks, jump_iff_blocks hne hinc hi hj,
      or_assoc]
    refine or_congr_right ?_
    constructor
    · rintro (⟨k, g, g', hk, hk', hl, hh, hft⟩ | ⟨k, k', g, g', hk, hk', hl, hh, hjump, hres⟩)
      · obtain ⟨hlt, _⟩ := List.getElem?_eq_some_iff.mp hk'
        exact ⟨k, k + 1, g, g', hk, hk', hl, hh, classify_edges.mpr (.inr ⟨rfl, hlt, hft⟩)⟩
      · exact ⟨k, k', g, g', hk, hk', hl, hh, classify_edges.mpr (.inl ⟨k', rfl, hjump, hres⟩)⟩
    · rintro ⟨k, k', g, g', hk, hk', hl, hh, he⟩
      rcases classify_edges.mp he with ⟨t, ht, hjump, hres⟩ | ⟨ht, _, hft⟩
      · obtain rfl : k' = t := congrArg Prod.snd ht
        exact .inr ⟨k, k', g, g', hk, hk', hl, hh, hjump, hres⟩
      · obtain rfl : k' = k + 1 := congrArg Prod.snd ht
        exact .inl ⟨k, g, g', hk, hk', hl, hh, hft⟩
  · intro e he
    obtain ⟨k, g, last, hk, hlast, hec⟩ := (mem_edges hne hinc).mp he
    rcases classify_edges.mp hec with ⟨t, rfl, _, hres⟩ | ⟨rfl, hlt, _⟩
    · obtain ⟨a, _, hidx⟩ := Option.bind_eq_some_iff.mp hres
      obtain ⟨g', _, hk', _⟩ := (blockIndex_eq_some hne hinc).mp hidx
      exact ⟨(hmem _).mpr ⟨g, hk⟩, (hmem _).mpr ⟨g', hk'⟩⟩
    · exact ⟨(hmem _).mpr ⟨g, hk⟩, (hmem _).mpr ⟨_, List.getElem?_eq_getElem hlt⟩⟩

theorem countdown_successor_iff :
    (∀ i ∈ countdown.instructions, ∀ j ∈ countdown.instructions,
      Successor countdown.instructions i j ↔ GraphSuccessor (buildCfg countdown) i j) ∧
    ∀ e ∈ (buildCfg countdown).edges,
      e.1 ∈ (buildCfg countdown).blocks ∧ e.2 ∈ (buildCfg countdown).blocks :=
  successor_iff_graphSuccessor countdown (by decide) (by decide)

example : (buildCfg countdown).edges = [(0, 1), (1, 1), (1, 2)] := by decide

end Cfg

end Dexe
