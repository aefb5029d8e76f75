import Dexe.Control.Lines
import Dexe.Ir.Blocks

/-! Where the lines of an emitted body stand: one group of lines for each machine instruction, in
the order of the instructions, and a label before each leader. -/

namespace Dexe.Control

open Cfg Ir Collections

lemma instructionLines_append {irs irs' : List IRInstruction}
    (h : ∀ a ∈ irs.getLast?, ∀ b ∈ irs'.head?, a.addr ≠ b.addr) :
    instructionLines (irs ++ irs') = instructionLines irs ++ instructionLines irs' := by
  induction irs with
  | nil => rfl
  | cons a irs ih =>
    cases irs with
    | nil =>
      cases irs' with
      | nil => rfl
      | cons b irs' =>
        have hab : b.addr ≠ a.addr := (h a rfl b rfl).symm
        simp [instructionLines, hab]
    | cons c irs =>
      have hc : ∀ x ∈ (c :: irs).getLast?, ∀ b ∈ irs'.head?, x.addr ≠ b.addr := by
        intro x hx
        exact h x (by rwa [List.getLast?_cons_cons])
      rw [List.cons_append, instructionLines, ih hc]
      rfl

variable (p : DisassembledInsn → Bool)

def startLines (i : DisassembledInsn) : List Line :=
  if p i then [.label i.address, .blockStart] else []

def endLines (rest : List DisassembledInsn) : List Line :=
  if rest.head?.all p then [.blockEnd] else []

inductive Layout : List DisassembledInsn → List Line → Prop
  | nil : Layout [] [.defaultReturn]
  | cons {i : DisassembledInsn} {rest : List DisassembledInsn} {irs : List IRInstruction}
      {lines : List Line} (hi : IsLiftOf i irs) (hrest : Layout rest lines) :
      Layout (i :: rest) (startLines p i ++ instructionLines irs ++ endLines p rest ++ lines)

variable {p}

lemma layout_block {i : DisassembledInsn} {tl rest : List DisassembledInsn}
    {chunks : List (List IRInstruction)} {lines : List Line}
    (hlift : List.Forall₂ IsLiftOf (i :: tl) chunks) (hinc : Increasing (i :: tl))
    (htl : ∀ j ∈ tl, p j = false) (hend : endLines p rest = [.blockEnd])
    (hrest : Layout p rest lines) :
    Layout p (i :: tl ++ rest)
      (startLines p i ++ instructionLines chunks.flatten ++ [.blockEnd] ++ lines) := by
  induction tl generalizing i chunks with
  | nil =>
    obtain ⟨irs, _, hi, h, rfl⟩ := List.forall₂_cons_left_iff.mp hlift
    obtain rfl := List.forall₂_nil_left_iff.mp h
    have := Layout.cons hi hrest
    rw [hend] at this
    simpa using this
  | cons j tl ih =>
    obtain ⟨irs, chunks, hi, hj, rfl⟩ := List.forall₂_cons_left_iff.mp hlift
    have hlt : i.address < j.address := List.rel_of_pairwise_cons hinc List.mem_cons_self
    have hpj : p j = false := htl j List.mem_cons_self
    have htail := ih hj hinc.of_cons fun k hk => htl k (List.mem_cons_of_mem _ hk)
    have hcut : instructionLines (irs ++ chunks.flatten) =
        instructionLines irs ++ instructionLines chunks.flatten := by
      obtain ⟨irs', chunks, hj', _, rfl⟩ := List.forall₂_cons_left_iff.mp hj
      refine instructionLines_append ?_
      intro a ha b hb
      have hb' : b ∈ irs' := by
        rw [List.flatten_cons, List.head?_append_of_ne_nil _ hj'.ne_nil] at hb
        exact List.mem_of_mem_head? hb
      rw [hi.addr a (List.mem_of_mem_getLast? ha), hj'.addr b hb']
      exact ne_of_lt hlt
    have := Layout.cons hi htail
    simpa [startLines, endLines, hpj, hcut] using this

lemma layout_blocks {bbs : List BasicBlock} {bs : List IRBlock}
    (hlift : List.Forall₂ IsLiftOfBlock bbs bs)
    (hinc : Increasing (bbs.flatMap BasicBlock.instructions))
    (hlead : ∀ bb ∈ bbs, ∃ i tl, bb.instructions = i :: tl ∧ bb.startAddr = i.address ∧
      p i = true ∧ ∀ j ∈ tl, p j = false) :
    Layout p (bbs.flatMap BasicBlock.instructions)
      (bs.flatMap blockLines ++ [.defaultReturn]) := by
  induction hlift with
  | nil => exact .nil
  | @cons bb b bbs bs hb hbs ih =>
    obtain ⟨i, tl, hins, hstart, hpi, htl⟩ := hlead bb List.mem_cons_self
    obtain ⟨_, haddr, chunks, hchunks, hirs⟩ := hb.parts
    rw [List.flatMap_cons, Increasing, List.pairwise_append] at hinc
    have hrest := ih hinc.2.1 fun bb hbb => hlead bb (List.mem_cons_of_mem _ hbb)
    have hend : endLines p (bbs.flatMap BasicBlock.instructions) = [.blockEnd] := by
      cases bbs with
      | nil => rfl
      | cons bb' bbs =>
        obtain ⟨i', tl', hins', _, hpi', _⟩ := hlead bb' (by simp)
        simp [endLines, hins', hpi']
    rw [hins] at hchunks hinc
    have := layout_block hchunks hinc.1 htl hend hrest
    simpa [hins, blockLines, haddr, hstart, hirs, startLines, hpi] using this

lemma lead_of_mem_blockRuns {func : DisassembledFunction} {g : List DisassembledInsn}
    (hne : func.instructions ≠ []) (hg : g ∈ blockRuns func) :
    ∃ i tl, g = i :: tl ∧ lead func.instructions i = true ∧
      ∀ j ∈ tl, lead func.instructions j = false := by
  obtain ⟨i, tl, rfl⟩ := List.exists_cons_of_ne_nil (ne_nil_of_mem_runs hg)
  refine ⟨i, tl, rfl, ?_, fun j hj => not_of_mem_tail_runs hg hj⟩
  have hmem : i ∈ (blockRuns func).filterMap List.head? :=
    List.mem_filterMap.mpr ⟨_, hg, rfl⟩
  rw [heads_blockRuns hne, List.mem_filter] at hmem
  exact hmem.2

lemma lead_of_mem_graphBlocks {func : DisassembledFunction} (hne : func.instructions ≠ [])
    (hinc : Increasing func.instructions)
    {bb : BasicBlock} (hbb : bb ∈ graphBlocks func) :
    ∃ i tl, bb.instructions = i :: tl ∧ bb.startAddr = i.address ∧
      lead func.instructions i = true ∧ ∀ j ∈ tl, lead func.instructions j = false := by
  have hrun : bb.instructions ∈ blockRuns func := by
    rw [← graphBlocks_instructions hne hinc]
    exact List.mem_map_of_mem hbb
  obtain ⟨i, tl, hi, hpi, htl⟩ := lead_of_mem_blockRuns hne hrun
  have hstart := startAddr_of_mem_graphBlocks hne hinc hbb
  rw [hi] at hstart
  have hstart : bb.startAddr = i.address := by simpa using hstart.symm
  exact ⟨i, tl, hi, hstart, hpi, htl⟩

theorem layout_functionLines {func : DisassembledFunction} {ir : IRFunction}
    (hne : func.instructions ≠ []) (hinc : Increasing func.instructions)
    (h : liftFunction (buildCfg func) = some ir) :
    Layout (lead func.instructions) func.instructions (functionLines ir) := by
  have hins : (graphBlocks func).flatMap BasicBlock.instructions = func.instructions := by
    rw [List.flatMap_def, graphBlocks_instructions hne hinc]
    exact flatten_runs _ _
  have hblocks := blockList_lift hne hinc h
  rw [functionLines, sortedBlocks_lift hne hinc h]
  have := layout_blocks (p := lead func.instructions) hblocks (by rwa [hins]) ?_
  · rwa [hins] at this
  intro bb hbb
  have hrun : bb.instructions ∈ blockRuns func := by
    rw [← graphBlocks_instructions hne hinc]
    exact List.mem_map_of_mem hbb
  obtain ⟨i, tl, hi, hpi, htl⟩ := lead_of_mem_blockRuns hne hrun
  have hstart := startAddr_of_mem_graphBlocks hne hinc hbb
  rw [hi] at hstart
  have hstart : bb.startAddr = i.address := by simpa using hstart.symm
  exact ⟨i, tl, hi, hstart, hpi, htl⟩

end Dexe.Control
