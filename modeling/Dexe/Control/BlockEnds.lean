import Dexe.Cfg.Edges
import Dexe.Control.Labels

/-! Where transfers of control stand in the blocks of a lifted function. -/

namespace Dexe

def Transfer.Stops : Transfer → Prop
  | .jump _ => True
  | .branch _ => False
  | .ret => True

instance : DecidablePred Transfer.Stops
  | .jump _ => isTrue trivial
  | .branch _ => isFalse id
  | .ret => isTrue trivial

namespace Control

open Backend Cfg Ir Collections

section Runs

variable {func : DisassembledFunction}

lemma follows_in_run_iff (hne : func.instructions ≠ []) {i j : DisassembledInsn} :
    (∃ g ∈ blockRuns func, Follows g i j) ↔
      Follows func.instructions i j ∧ ¬ IsLeader func.instructions j := by
  constructor
  · rintro ⟨g, hg, hf⟩
    have hnot := not_of_mem_tail_runs hg hf.right_mem_tail
    exact ⟨follows_of_run hg hf, of_decide_eq_false hnot⟩
  · rintro ⟨hf, hnot⟩
    rw [← flatten_blockRuns, follows_flatten (nil_not_mem_blockRuns func)] at hf
    rcases hf with hin | ⟨k, g, g', _, hk', _, hj⟩
    · exact hin
    · obtain ⟨i', tl, rfl, hlead, _⟩ := lead_of_mem_blockRuns hne (mem_blockRuns hk')
      obtain rfl : i' = j := by simpa using hj
      exact absurd (of_decide_eq_true hlead) hnot

lemma isLeader_of_follows (hinc : Increasing func.instructions) {i j : DisassembledInsn}
    (h : Follows func.instructions i j) : IsLeader func.instructions j ↔
      EndsBlock i.mnemonic ∨
        ∃ s ∈ func.instructions, IsJump s.mnemonic ∧ parseHexTarget s.opStr = some j.address := by
  constructor
  · rintro (hhead | ⟨prev, hprev, he⟩ | ht)
    · exact absurd hhead (h.ne_head hinc.nodup)
    · obtain rfl := hprev.left_unique hinc.nodup h
      exact .inl he
    · exact .inr ht
  · rintro (he | ht)
    · exact .inr (.inl ⟨i, h, he⟩)
    · exact .inr (.inr ht)

end Runs

def TransfersLast (irs : List IRInstruction) : Prop := ∀ x ∈ irs.dropLast, x.opcode.transfer = none

lemma transfersLast_of_isLiftOf {i : DisassembledInsn} {irs : List IRInstruction}
    (h : IsLiftOf i irs) : TransfersLast irs := by
  obtain ⟨before, op, rfl, hbefore, _⟩ := h
  intro x hx
  rw [List.map_append, List.map_singleton, List.dropLast_concat] at hx
  obtain ⟨o, ho, rfl⟩ := List.mem_map.mp hx
  exact hbefore o ho

lemma transfersLast_flatten {g : List DisassembledInsn} {chunks : List (List IRInstruction)}
    (h : List.Forall₂ IsLiftOf g chunks) :
    TransfersLast chunks.flatten ↔ ∀ i ∈ g.dropLast, transferOf i = none := by
  induction h with
  | nil => simp [TransfersLast]
  | @cons i irs g chunks hi hg ih =>
    cases hg with
    | nil =>
      simpa using transfersLast_of_isLiftOf hi
    | @cons j irs' g chunks hj hg =>
      have hne : (irs' :: chunks).flatten ≠ [] := by simp [hj.ne_nil]
      rw [List.dropLast_cons_cons, List.forall_mem_cons, ← ih,
        ← hi.forall_iff (P := (· = none)) rfl,
        List.flatten_cons, TransfersLast, List.dropLast_append_of_ne_nil hne,
        List.forall_mem_append, TransfersLast]

lemma blockList_eq_nil {func : DisassembledFunction} {ir : IRFunction}
    (hnil : func.instructions = []) (h : liftFunction (buildCfg func) = some ir) :
    ir.blockList = [] := by
  obtain ⟨blocks, hblocks, hir⟩ := Option.bind_eq_some_iff.mp h
  have hcfg : (buildCfg func).blocks.toList = [] := by
    rw [buildCfg]
    rw [hnil]
    rfl
  rw [hcfg] at hblocks
  cases hblocks
  cases hir
  rfl

lemma transfersLast_runs {func : DisassembledFunction} (hne : func.instructions ≠ [])
    (hinc : Increasing func.instructions) {ir : IRFunction}
    (hlift : liftFunction (buildCfg func) = some ir) :
    (∀ b ∈ ir.blockList, TransfersLast b.instructions) ↔
      ∀ g ∈ blockRuns func, ∀ i ∈ g.dropLast, transferOf i = none := by
  have hblocks := blockList_lift hne hinc hlift
  rw [← graphBlocks_instructions hne hinc]
  generalize graphBlocks func = bbs at hblocks
  generalize ir.blockList = bs at hblocks
  induction hblocks with
  | nil => simp
  | cons hb _ ih =>
    obtain ⟨_, _, chunks, hchunks, hirs⟩ := hb.parts
    rw [List.forall_mem_cons, List.map_cons, List.forall_mem_cons, hirs,
      transfersLast_flatten hchunks]
    exact and_congr_right' ih

/-- Transfers are last in every block exactly when the graph builder starts a block after every
instruction that is lifted to a transfer. -/
theorem transfersLast_iff {func : DisassembledFunction} (hinc : Increasing func.instructions)
    {ir : IRFunction} (hlift : liftFunction (buildCfg func) = some ir) :
    (∀ b ∈ ir.blockList, TransfersLast b.instructions) ↔
      ∀ i j, Follows func.instructions i j → transferOf i ≠ none →
        EndsBlock i.mnemonic ∨
          ∃ s ∈ func.instructions, IsJump s.mnemonic ∧ parseHexTarget s.opStr = some j.address := by
  rcases eq_or_ne func.instructions [] with hnil | hne
  · simp [hnil, blockList_eq_nil hnil hlift]
  rw [transfersLast_runs hne hinc hlift]
  constructor
  · intro h i j hf htransfer
    by_contra hno
    have hlead := (isLeader_of_follows hinc hf).not.mpr hno
    obtain ⟨g, hg, hfg⟩ := (follows_in_run_iff hne).mpr ⟨hf, hlead⟩
    exact htransfer (h g hg i (mem_dropLast_iff.mpr ⟨j, hfg⟩))
  · intro h g hg i hi
    obtain ⟨j, hj⟩ := mem_dropLast_iff.mp hi
    obtain ⟨hf, hnot⟩ := (follows_in_run_iff hne).mp ⟨g, hg, hj⟩
    by_contra htransfer
    exact hnot ((isLeader_of_follows hinc hf).mpr (h i j hf htransfer))

def farReturn : DisassembledFunction :=
  ⟨"far", 0x1000, 0x1002, [⟨0x1000, 1, "retf", "", [0xcb]⟩, ⟨0x1001, 1, "nop", "", [0x90]⟩]⟩

lemma lift_farReturn : (liftFunction (buildCfg farReturn)).isSome = true := by decide

theorem farReturn_not_transfersLast : Increasing farReturn.instructions ∧
    ∃ ir, liftFunction (buildCfg farReturn) = some ir ∧
      ¬ ∀ b ∈ ir.blockList, TransfersLast b.instructions := by
  have hlift := (Option.some_get lift_farReturn).symm
  refine ⟨by decide, _, hlift, ?_⟩
  rw [transfersLast_runs (by decide) (by decide) hlift]
  intro h
  have hrun : farReturn.instructions ∈ blockRuns farReturn := by decide
  exact absurd (h _ hrun ⟨0x1000, 1, "retf", "", [0xcb]⟩ (by decide)) (by decide)

theorem farReturn_transfersLast_iff : ∃ ir, liftFunction (buildCfg farReturn) = some ir ∧
    ((∀ b ∈ ir.blockList, TransfersLast b.instructions) ↔
      ∀ i j, Follows farReturn.instructions i j → transferOf i ≠ none →
        EndsBlock i.mnemonic ∨ ∃ s ∈ farReturn.instructions,
          IsJump s.mnemonic ∧ parseHexTarget s.opStr = some j.address) :=
  have hlift := (Option.some_get lift_farReturn).symm
  ⟨_, hlift, transfersLast_iff (by decide) hlift⟩

inductive FallsTo : List Line → List Line → Prop
  | refl (lines : List Line) : FallsTo lines lines
  | step {l : Line} {lines lines' : List Line} (hl : ∀ t ∈ l.transfer, ¬ t.Stops)
      (h : FallsTo lines lines') : FallsTo (l :: lines) lines'

def bodyFrom (ir : IRFunction) (k : ℕ) : List Line :=
  ((sortedBlocks ir).drop k).flatMap blockLines ++ [.defaultReturn]

lemma FallsTo.exists_append {lines lines' : List Line} (h : FallsTo lines lines') :
    ∃ l, lines = l ++ lines' ∧ ∀ x ∈ l, ∀ t ∈ x.transfer, ¬ t.Stops := by
  induction h with
  | refl => exact ⟨[], rfl, by simp⟩
  | @step x lines lines' hx _ ih =>
    obtain ⟨l, rfl, hl⟩ := ih
    exact ⟨x :: l, rfl, List.forall_mem_cons.mpr ⟨hx, hl⟩⟩

lemma fallsTo_append_iff {l lines : List Line} :
    FallsTo (l ++ lines) lines ↔ ∀ x ∈ l, ∀ t ∈ x.transfer, ¬ t.Stops := by
  constructor
  · intro h
    obtain ⟨l', heq, hl'⟩ := h.exists_append
    rwa [List.append_cancel_right heq]
  · intro h
    induction l with
    | nil => exact .refl _
    | cons x l ih =>
      rw [List.forall_mem_cons] at h
      exact .step h.1 (ih h.2)

lemma next_of_transfer_none {all lines : List Line} {l : Line} (h : l.transfer = none) :
    next all (l :: lines) = .go l.event lines := by simp [next, h]

lemma FallsTo.reaches {all lines lines' : List Line} (h : FallsTo lines lines')
    (hlabels : ∀ l ∈ lines, ∀ a ∈ gotoOf l, (atLabel all a).isSome) :
    Trace.Reaches (next all) lines lines' := by
  induction h with
  | refl lines => exact .refl lines
  | @step l lines lines' hl _ ih =>
    have hrest := ih fun l hl => hlabels l (List.mem_cons_of_mem _ hl)
    have hgoto := hlabels l List.mem_cons_self
    cases htransfer : l.transfer with
    | none => exact .go (next_of_transfer_none htransfer) hrest
    | some t =>
      cases t with
      | jump a => exact absurd trivial (hl (.jump a) htransfer)
      | ret => exact absurd trivial (hl .ret htransfer)
      | branch a =>
        obtain ⟨s, hs⟩ := Option.isSome_iff_exists.mp
          (hgoto a (by simp [gotoOf, htransfer, Transfer.target]))
        have hnext : next all (l :: lines) = .test l.event s lines := by
          simp [next, htransfer, hs]
        exact .no hnext hrest

lemma transfer_blockLines (b : IRBlock) {P : Option Transfer → Prop} (hP : P none) :
    (∀ x ∈ blockLines b, P x.transfer) ↔ ∀ x ∈ b.instructions, P x.opcode.transfer := by
  have hlines : ∀ irs : List IRInstruction, (∀ x ∈ instructionLines irs, P x.transfer) ↔
      ∀ x ∈ irs, P x.opcode.transfer := by
    intro irs
    induction irs with
    | nil => simp [instructionLines]
    | cons ir irs ih =>
      rw [instructionLines, List.forall_mem_cons, List.forall_mem_cons, ih, Line.transfer]
  rw [blockLines, List.forall_mem_append, List.forall_mem_append, hlines]
  simp [Line.transfer, hP]

lemma fallsTo_bodyFrom_iff {func : DisassembledFunction} (hinc : Increasing func.instructions)
    {ir : IRFunction} (hlift : liftFunction (buildCfg func) = some ir) {k : ℕ} {bb : BasicBlock}
    (hbb : (buildCfg func).blocks[k]? = some bb) :
    FallsTo (bodyFrom ir k) (bodyFrom ir (k + 1)) ↔
      ∀ i ∈ bb.instructions, ∀ t ∈ transferOf i, ¬ t.Stops := by
  have hne : func.instructions ≠ [] := by
    rintro hnil
    rw [buildCfg, hnil] at hbb
    simp at hbb
  have hblocks := blockList_lift hne hinc hlift
  rw [← graphBlocks_getElem? hne hinc] at hbb
  obtain ⟨hk, rfl⟩ := List.getElem?_eq_some_iff.mp hbb
  have hk' : k < ir.blockList.length := hblocks.length_eq ▸ hk
  have hb : IsLiftOfBlock (graphBlocks func)[k] ir.blockList[k] := hblocks.get hk hk'
  obtain ⟨_, _, chunks, hchunks, hirs⟩ := hb.parts
  have hsplit : bodyFrom ir k = blockLines ir.blockList[k] ++ bodyFrom ir (k + 1) := by
    rw [bodyFrom, bodyFrom, sortedBlocks_lift hne hinc hlift, List.drop_eq_getElem_cons hk',
      List.flatMap_cons, List.append_assoc]
  rw [hsplit, fallsTo_append_iff,
    transfer_blockLines _ (P := fun o => ∀ t ∈ o, ¬ t.Stops) (by simp), hirs,
    forall_flatten_iff (P := fun o => ∀ t ∈ o, ¬ t.Stops) (by simp) hchunks]

def haltWords : List Text := ["hlt", "int3", "ud2"]
def returnWords : List Text := ["ret", "retn", "retf"]
def prefixWords : List Text := ["bnd", "notrack", "rep", "repz"]

def IsUnconditional (mn : Text) : Prop :=
  mn ∈ haltWords ∨ ∃ w ∈ "jmp".toList :: returnWords,
    mn = w ∨ ∃ p ∈ prefixWords, mn = p ++ " " ++ w

instance (mn : Text) : Decidable (IsUnconditional mn) := inferInstanceAs (Decidable (_ ∨ _))

/-- A `jmp` that is lifted to a goto: its operand is no memory operand and no register. -/
def IsDirectJump (i : DisassembledInsn) : Prop :=
  i.mnemonic = "jmp" ∧ ∃ first ∈ (parseOperands i.opStr).head?, (jmpTarget first).isSome

def IsStop (i : DisassembledInsn) : Prop :=
  i.mnemonic ∈ haltWords ∨ i.mnemonic ∈ returnWords ∨ IsDirectJump i

lemma prefixed_other : ∀ p ∈ prefixWords, ∀ w ∈ "jmp".toList :: returnWords,
    armOf (lockedMnemonic (p ++ " " ++ w)).1 (lockedMnemonic (p ++ " " ++ w)).2 = .other ∧
      p ++ " " ++ w ∉ haltWords ∧ p ++ " " ++ w ∉ returnWords ∧ p ++ " " ++ w ≠ "jmp" := by
  decide

lemma stopWord_arm : ∀ w ∈ haltWords ++ returnWords, armOf (lockedMnemonic w).1
    (lockedMnemonic w).2 = .ret ∨ armOf (lockedMnemonic w).1 (lockedMnemonic w).2 = .trap := by
  decide

lemma jmp_transfer {i : DisassembledInsn} (h : i.mnemonic = "jmp") :
    (∃ t ∈ transferOf i, t.Stops) ↔ IsDirectJump i := by
  rw [transferOf, armOfInsn_jmp h, IsDirectJump, armTransfer]
  cases (parseOperands i.opStr).head? with
  | none => simp
  | some first => cases hj : jmpTarget first <;> simp [h, hj, Transfer.Stops]

lemma stops_iff_isStop {i : DisassembledInsn} (h : IsUnconditional i.mnemonic) :
    (∃ t ∈ transferOf i, t.Stops) ↔ IsStop i := by
  have hword : i.mnemonic ∈ haltWords ++ returnWords → ∃ t ∈ transferOf i, t.Stops := by
    intro hw
    refine ⟨.ret, ?_, trivial⟩
    rcases stopWord_arm _ hw with harm | harm <;> rw [transferOf, armOfInsn, harm] <;> rfl
  rcases h with hh | ⟨w, hw, hmn | ⟨p, hp, hmn⟩⟩
  · exact iff_of_true (hword (List.mem_append_left _ hh)) (.inl hh)
  · rcases List.mem_cons.mp hw with rfl | hw
    · have hjmp : ("jmp" : Text) ∉ haltWords ∧ ("jmp" : Text) ∉ returnWords := by decide
      rw [jmp_transfer hmn]
      exact ⟨fun h => .inr (.inr h),
        fun h => (h.resolve_left (hmn ▸ hjmp.1)).resolve_left (hmn ▸ hjmp.2)⟩
    · rw [← hmn] at hw
      exact iff_of_true (hword (List.mem_append_right _ hw)) (.inr (.inl hw))
  · obtain ⟨harm, hhalt, hret, hjmp⟩ := prefixed_other p hp w hw
    rw [← hmn] at harm hhalt hret hjmp
    have hnone : transferOf i = none := by
      rw [transferOf, armOfInsn, harm]
      rfl
    refine iff_of_false (by simp [hnone]) ?_
    rintro (h | h | h)
    · exact hhalt h
    · exact hret h
    · exact hjmp h.1

/-- A block that ends in an unconditional transfer does not fall into the next one exactly when
there is none, or an instruction before its end stops control, or the last one is of a kind
that the lifter knows. -/
theorem no_fall_through_iff {func : DisassembledFunction} (hinc : Increasing func.instructions)
    {ir : IRFunction} (hlift : liftFunction (buildCfg func) = some ir) {k : ℕ} {bb : BasicBlock}
    (hbb : (buildCfg func).blocks[k]? = some bb) {last : DisassembledInsn}
    (hlast : bb.instructions.getLast? = some last) (hun : IsUnconditional last.mnemonic) :
    (k + 1 < (sortedBlocks ir).length → ¬ FallsTo (bodyFrom ir k) (bodyFrom ir (k + 1))) ↔
      (buildCfg func).blocks[k + 1]? = none ∨
        (∃ i ∈ bb.instructions.dropLast, ∃ t ∈ transferOf i, t.Stops) ∨ IsStop last := by
  have hne : func.instructions ≠ [] := by
    rintro hnil
    rw [buildCfg, hnil] at hbb
    simp at hbb
  have hlen := length_sortedBlocks hne hinc hlift
  have hnext : (buildCfg func).blocks[k + 1]? = none ↔ ¬ k + 1 < (sortedBlocks ir).length := by
    rw [← graphBlocks_getElem? hne hinc, List.getElem?_eq_none_iff, hlen, not_lt]
  have hins : bb.instructions = bb.instructions.dropLast ++ [last] :=
    (List.dropLast_append_getLast? last hlast).symm
  have hsplit : (¬ ∀ i ∈ bb.instructions, ∀ t ∈ transferOf i, ¬ t.Stops) ↔
      (∃ i ∈ bb.instructions.dropLast, ∃ t ∈ transferOf i, t.Stops) ∨ IsStop last := by
    rw [hins, List.forall_mem_append, List.dropLast_concat, ← stops_iff_isStop hun]
    rw [List.forall_mem_singleton, not_and_or]
    refine or_congr ?_ ?_ <;> simp only [not_forall, not_not, exists_prop]
  rw [hnext, fallsTo_bodyFrom_iff hinc hlift hbb, hsplit, imp_iff_not_or]

def registerJump : DisassembledFunction :=
  ⟨"reg", 0x1000, 0x1003, [⟨0x1000, 2, "jmp", "rax", [0xff, 0xe0]⟩, ⟨0x1002, 1, "ret", "", [0xc3]⟩]⟩

def registerJumpBlock : BasicBlock :=
  ⟨0, 0x1000, 0x1002, [⟨0x1000, 2, "jmp", "rax", [0xff, 0xe0]⟩], .halt⟩

lemma lift_registerJump : (liftFunction (buildCfg registerJump)).isSome = true := by decide

lemma registerJump_block : (buildCfg registerJump).blocks[0]? = some registerJumpBlock := by decide

theorem registerJump_falls : Increasing registerJump.instructions ∧
    (buildCfg registerJump).blocks[0]? = some registerJumpBlock ∧
    (∃ last, registerJumpBlock.instructions.getLast? = some last ∧
      IsUnconditional last.mnemonic) ∧
    ∃ ir, liftFunction (buildCfg registerJump) = some ir ∧ 1 < (sortedBlocks ir).length ∧
      FallsTo (bodyFrom ir 0) (bodyFrom ir 1) ∧
      Trace.Reaches (next (functionLines ir)) (functionLines ir) (bodyFrom ir 1) := by
  have hlift := (Option.some_get lift_registerJump).symm
  have hlayout := layout_functionLines (by decide) (by decide) hlift
  have hfalls : FallsTo (bodyFrom ((liftFunction (buildCfg registerJump)).get lift_registerJump) 0)
      (bodyFrom ((liftFunction (buildCfg registerJump)).get lift_registerJump) 1) := by
    rw [fallsTo_bodyFrom_iff (by decide) hlift registerJump_block]
    decide
  refine ⟨by decide, registerJump_block, ⟨_, rfl, by decide⟩, _, hlift, ?_, hfalls, ?_⟩
  · rw [← length_sortedBlocks (by decide) (by decide) hlift]
    decide
  · refine hfalls.reaches fun l hl a ha => ?_
    have hgotos := hlayout.gotos.trans (by decide : _ = [])
    have hmem : a ∈ gotos _ := List.mem_filterMap.mpr ⟨l, hl, ha⟩
    rw [show bodyFrom _ 0 = functionLines _ from rfl, hgotos] at hmem
    cases hmem

theorem registerJump_no_fall_through_iff : ∃ ir, liftFunction (buildCfg registerJump) = some ir ∧
    ((0 + 1 < (sortedBlocks ir).length → ¬ FallsTo (bodyFrom ir 0) (bodyFrom ir (0 + 1))) ↔
      (buildCfg registerJump).blocks[0 + 1]? = none ∨
        (∃ i ∈ registerJumpBlock.instructions.dropLast, ∃ t ∈ transferOf i, t.Stops) ∨
          IsStop ⟨0x1000, 2, "jmp", "rax", [0xff, 0xe0]⟩) :=
  have hlift := (Option.some_get lift_registerJump).symm
  ⟨_, hlift, no_fall_through_iff (by decide) hlift registerJump_block rfl (by decide)⟩

end Control

end Dexe
