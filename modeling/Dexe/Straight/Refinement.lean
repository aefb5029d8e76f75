import Dexe.Backend.Reading
import Dexe.Ir.Blocks
import Dexe.Straight.Simulation

/-! Straight-line code: the lifted and emitted statements of a sequence of instructions do what
the instructions do, one after the other. -/

namespace Dexe.Straight

open Std Ir X86 Clang Backend Collections

def DefinedRun (s : X86.State) : List Insn → Prop
  | [] => True
  | i :: code => Defined s i ∧ DefinedRun (X86.step s i) code

def wordRun (s : X86.State) (w : U64) : List Insn → U64
  | [] => w
  | i :: code => wordRun (X86.step s i) (wordAfter s w i) code

lemma definedRun_of_forall {code : List Insn} (h : ∀ i ∈ code, ∀ r, i ≠ .unary .neg r)
    (s : X86.State) : DefinedRun s code := by
  induction code generalizing s with
  | nil => trivial
  | cons i code ih =>
    refine ⟨fun r hr => absurd hr (h i List.mem_cons_self r), ih ?_ _⟩
    exact fun i hi => h i (List.mem_cons_of_mem _ hi)

variable {ds : List DisassembledInsn} {code : List Insn}

lemma liftInsns_printed (h : List.Forall₂ Prints ds code) (versions : Versions) :
    ∃ irs versions', liftInsns ds versions = some (irs, versions') ∧
      List.Forall₂ (fun i (ir : IRInstruction) => Embeds i ir.opcode) code irs := by
  induction h generalizing versions with
  | nil => exact ⟨[], versions, rfl, .nil⟩
  | @cons d i ds code hd _ ih =>
    obtain ⟨op, v, hop, hembeds⟩ := liftInsn_printed versions hd
    obtain ⟨irs, v', hirs, hrest⟩ := ih v
    exact ⟨⟨d.address, op⟩ :: irs, v', liftInsns_cons hop hirs, .cons hembeds hrest⟩

variable (symbols : SymbolTable) (funcNames : TreeMap U64 Text)

lemma reads_of_embeds {i : Insn} {op : Opcode} (h : Embeds i op) :
    Backend.Reads symbols funcNames op := by
  cases h with
  | @alu kind => cases kind <;> exact ⟨trivial, by simp [CommentEnds, aluOpcode, comment]⟩
  | @unary kind => cases kind <;> exact ⟨trivial, by simp [CommentEnds, unaryOpcode, comment]⟩
  | @compare kind => cases kind <;> exact ⟨trivial, by simp [CommentEnds, compareOpcode, comment]⟩
  | _ => exact ⟨trivial, by simp [CommentEnds, comment]⟩

theorem runsTo_run {irs : List IRInstruction}
    (h : List.Forall₂ (fun i (ir : IRInstruction) => Embeds i ir.opcode) code irs)
    {σ : Clang.State} {s : X86.State} (hm : Matches σ s) (hdef : DefinedRun s code) :
    RunsTo σ (irs.flatMap fun ir => opcodeStmts symbols funcNames ir.opcode) (X86.run s code)
      (wordRun s (flagWord σ) code) := by
  induction h generalizing σ s with
  | nil => exact ⟨σ, rfl, hm, rfl⟩
  | cons hi _ ih =>
    obtain ⟨σ₁, hexec, hm₁, hw₁⟩ := runsTo_step symbols funcNames hi hm hdef.1
    obtain ⟨σ₂, hexec₂, hm₂, hw₂⟩ := ih hm₁ hdef.2
    refine ⟨σ₂, ?_, hm₂, ?_⟩
    · rw [List.flatMap_cons, execAll_append, hexec, Option.bind_some, hexec₂]
    · rw [hw₂, hw₁, wordRun]

def blockText (b : IRBlock) : Text :=
  (b.instructions.map (emitInstructionLine symbols funcNames)).flatten

lemma parse_blockText {b : IRBlock}
    (h : List.Forall₂ (fun i (ir : IRInstruction) => Embeds i ir.opcode) code b.instructions) :
    parse (blockText symbols funcNames b) =
      some (b.instructions.flatMap fun ir => opcodeStmts symbols funcNames ir.opcode) := by
  refine parse_emitInstructionLines fun ir hir => ?_
  obtain ⟨k, hk, rfl⟩ := List.mem_iff_getElem.mp hir
  have hlen := h.length_eq
  exact reads_of_embeds symbols funcNames (h.get (by omega) hk)

lemma liftBlock_printed {bb : BasicBlock} (h : List.Forall₂ Prints bb.instructions code)
    (id : BlockId) :
    ∃ b, liftBlock id bb = some b ∧
      List.Forall₂ (fun i (ir : IRInstruction) => Embeds i ir.opcode) code b.instructions := by
  obtain ⟨irs, v, hirs, hembeds⟩ := liftInsns_printed h Versions.initial
  refine ⟨⟨id, bb.startAddr, irs⟩, ?_, hembeds⟩
  simp only [liftBlock, hirs, Option.bind_eq_bind, Option.bind_some]
  rfl

lemma isSome_mapM {α β : Type*} {f : α → Option β} {l : List α} (h : ∀ a ∈ l, (f a).isSome) :
    (l.mapM f).isSome := by
  induction l with
  | nil => rfl
  | cons a l ih =>
    obtain ⟨b, hb⟩ := Option.isSome_iff_exists.mp (h a List.mem_cons_self)
    obtain ⟨l', hl'⟩ := Option.isSome_iff_exists.mp (ih fun a ha => h a (List.mem_cons_of_mem _ ha))
    rw [List.mapM_cons, hb, hl']
    rfl

lemma liftFunction_of_blocks {cfg : ControlFlowGraph}
    (h : ∀ id b, cfg.blocks[id]? = some b → (liftBlock id b).isSome) :
    ∃ f, liftFunction cfg = some f ∧
      ∀ id b, cfg.blocks[id]? = some b → f.blocks[id]? = liftBlock id b := by
  have hall : ∀ p ∈ cfg.blocks.toList, ((liftBlock p.1 p.2).map fun b => (p.1, b)).isSome := by
    intro p hp
    rw [Option.isSome_map]
    exact h p.1 p.2 (TreeMap.mem_toList_iff_getElem?_eq_some.mp hp)
  obtain ⟨blocks, hblocks⟩ := Option.isSome_iff_exists.mp (isSome_mapM hall)
  obtain ⟨f, hf⟩ : ∃ f, liftFunction cfg = some f :=
    ⟨_, (congrArg (Option.bind · _) hblocks).trans rfl⟩
  exact ⟨f, hf, fun _ _ hb => liftFunction_getElem? hf hb⟩

/-- Straight-line code keeps its meaning: the statements emitted for a lifted block end with the
registers and the memory that its instructions end with. -/
theorem straight_line_refines (cfg : ControlFlowGraph) (code : BlockId → List Insn)
    (hcode : ∀ id b, cfg.blocks[id]? = some b → List.Forall₂ Prints b.instructions (code id))
    (hneg : ∀ id, ∀ i ∈ code id, ∀ r, i ≠ .unary .neg r) :
    ∃ f, liftFunction cfg = some f ∧ ∀ id b, cfg.blocks[id]? = some b →
      ∃ lifted, f.blocks[id]? = some lifted ∧
        ∃ stmts, parse (blockText symbols funcNames lifted) = some stmts ∧
          ∀ σ s, Matches σ s →
            ∃ σ', execAll σ stmts = some σ' ∧ Matches σ' (X86.run s (code id)) := by
  have hblocks : ∀ id b, cfg.blocks[id]? = some b → (liftBlock id b).isSome := by
    intro id b hb
    obtain ⟨lifted, hlift, -⟩ := liftBlock_printed (hcode id b hb) id
    exact Option.isSome_iff_exists.mpr ⟨lifted, hlift⟩
  obtain ⟨f, hf, hget⟩ := liftFunction_of_blocks hblocks
  refine ⟨f, hf, fun id b hb => ?_⟩
  obtain ⟨lifted, hlift, hembeds⟩ := liftBlock_printed (hcode id b hb) id
  refine ⟨lifted, (hget id b hb).trans hlift, _, parse_blockText symbols funcNames hembeds, ?_⟩
  intro σ s hm
  obtain ⟨σ', hexec, hm', -⟩ :=
    runsTo_run symbols funcNames hembeds hm (definedRun_of_forall (hneg id) s)
  exact ⟨σ', hexec, hm'⟩

def aliasedCode : List Insn :=
  [.lea .rax ⟨some .rbx, some (.rcx, .four), some ⟨true, 8, by decide⟩⟩,
    .alu .add .rax (.mem ⟨some .rax, none, none⟩),
    .store ⟨some .rsp, none, some ⟨true, 16, by decide⟩⟩ (.reg .rax)]

def aliased : DisassembledFunction where
  name := "aliased"
  startAddr := 0x1000
  endAddr := 0x100c
  instructions :=
    [⟨0x1000, 5, "lea", "rax, [rbx + rcx*4 - 8]", []⟩,
      ⟨0x1005, 3, "add", "rax, qword ptr [rax]", []⟩,
      ⟨0x1008, 5, "mov", "qword ptr [rsp - 0x10], rax", []⟩]

lemma aliased_blocks {id : BlockId} {b : BasicBlock} (h : (buildCfg aliased).blocks[id]? = some b) :
    b.instructions = aliased.instructions := by
  have hall : ∀ p ∈ (buildCfg aliased).blocks.toList, p.2.instructions = aliased.instructions := by
    decide
  exact hall (id, b) (TreeMap.mem_toList_iff_getElem?_eq_some.mpr h)

lemma aliased_prints : List.Forall₂ Prints aliased.instructions aliasedCode :=
  .cons ⟨by decide, _, .head _, by decide⟩ (.cons ⟨by decide, _, .head _, by decide⟩
    (.cons ⟨by decide, _, .head _, by decide⟩ .nil))

theorem aliased_refines :
    ∃ f : IRFunction, liftFunction (buildCfg aliased) = some f ∧
      ∀ (id : BlockId) (b : BasicBlock), (buildCfg aliased).blocks[id]? = some b →
      ∃ lifted, f.blocks[id]? = some lifted ∧
        ∃ stmts, parse (blockText ∅ ∅ lifted) = some stmts ∧
          ∀ σ s, Matches σ s →
            ∃ σ', execAll σ stmts = some σ' ∧ Matches σ' (X86.run s aliasedCode) :=
  straight_line_refines ∅ ∅ _ (fun _ => aliasedCode)
    (fun _ _ hb => (aliased_blocks hb).symm ▸ aliased_prints)
    (fun _ i hi r => by
      simp only [aliasedCode, List.mem_cons, List.not_mem_nil, or_false] at hi
      rcases hi with rfl | rfl | rfl <;> simp)

end Dexe.Straight
