import Dexe.Debug.Arms
import Dexe.Ir.Blocks

/-! Blocks go through when their instructions do and no variable runs out of versions. -/

namespace Dexe.Debug

open Ir Text Bits Collections

structure InsnOk (insn : DisassembledInsn) : Prop where
  nesting : ∀ p, p <+: trim insn.opStr → nesting p < 2 ^ 32
  readings : ∀ r ∈ readings (armOfInsn insn) (Ir.parseOperands insn.opStr), r.1.Ok r.2

structure BlockOk (insns : List DisassembledInsn) : Prop where
  sound : ∀ i ∈ insns, InsnOk i
  versions : ∀ base, (insns.flatMap numbered).count base < 2 ^ 32

variable {versions versions' : Versions} {insn : DisassembledInsn} {insns : List DisassembledInsn}
  {irs : List IRInstruction}

lemma insnOk_iff : InsnOk insn ↔ (∀ p, p <+: trim insn.opStr → nesting p < 2 ^ 32) ∧
    ∀ r ∈ readings (armOfInsn insn) (Ir.parseOperands insn.opStr), r.1.Ok r.2 :=
  ⟨fun h => ⟨h.nesting, h.readings⟩, fun h => ⟨h.1, h.2⟩⟩

lemma blockOk_iff : BlockOk insns ↔ (∀ i ∈ insns, InsnOk i) ∧
    ∀ base, (insns.flatMap numbered).count base < 2 ^ 32 :=
  ⟨fun h => ⟨h.sound, h.versions⟩, fun h => ⟨h.1, h.2⟩⟩

lemma liftBefore_of_ne {arm : Arm} (h : arm ≠ .leave) (versions : Versions) :
    liftBefore arm versions = some ([], versions) := by
  cases arm with
  | leave => exact absurd rfl h
  | _ => rfl

lemma guarded_liftBefore (arm : Arm) (versions : Versions) :
    Guarded (arm = .leave → HasNext versions .rsp) (liftBefore arm versions)
      (some (Ir.liftBefore arm versions)) := by
  by_cases harm : arm = .leave
  · subst harm
    refine Guarded.congr ((guarded_newVersion versions .rsp).bind_some (Guarded.pure _)) ?_
    simp
  · rw [liftBefore_of_ne harm, Ir.liftBefore_of_ne harm]
    exact (Guarded.pure _).congr (iff_of_true trivial fun h => absurd h harm)

lemma mem_numbered {base : VarBase} : base ∈ numbered insn ↔
    (armOfInsn insn = .leave ∧ base = .rsp) ∨
      definedBase (armOfInsn insn) (Ir.parseOperands insn.opStr) = some base := by
  by_cases harm : armOfInsn insn = .leave <;> simp [numbered, harm, eq_comm]

lemma hasNext_before {base : VarBase} (arm : Arm) (operands : List Text)
    (hbase : definedBase arm operands = some base) :
    HasNext (Ir.liftBefore arm versions).2 base ↔ HasNext versions base := by
  by_cases harm : arm = .leave
  · subst harm
    cases hbase
    rfl
  · rw [Ir.liftBefore_of_ne harm]

lemma guarded_liftInsn (hfit : insn.address.toNat + insn.size.toNat < 2 ^ 64) :
    Guarded (InsnOk insn ∧ ∀ base ∈ numbered insn, HasNext versions base) (liftInsn insn versions)
      (Ir.liftInsn insn versions) := by
  have harm : armOf (lockedMnemonic insn.mnemonic).1 (lockedMnemonic insn.mnemonic).2 =
      armOfInsn insn := rfl
  have hlift : Guarded (ArmOk (Ir.liftBefore (armOfInsn insn) versions).2 (armOfInsn insn)
      (Ir.parseOperands insn.opStr)) _ _ := guarded_liftArm harm hfit
  rw [liftInsn, Ir.liftInsn]
  refine Guarded.congr ((guarded_parseOperands insn.opStr).bind_some
    ((guarded_liftBefore (armOfInsn insn) versions).bind_some
      (hlift.bind fun _ a _ => Guarded.pure _))) ?_
  have hnext : (∀ base ∈ definedBase (armOfInsn insn) (Ir.parseOperands insn.opStr),
      HasNext (Ir.liftBefore (armOfInsn insn) versions).2 base) ↔
      ∀ base ∈ definedBase (armOfInsn insn) (Ir.parseOperands insn.opStr), HasNext versions base :=
    forall₂_congr fun base hbase => hasNext_before _ _ hbase
  rw [insnOk_iff, armOk_iff, hnext]
  simp only [mem_numbered, Option.mem_def, or_imp, forall_and, and_imp]
  constructor
  · rintro ⟨hnest, hbefore, ⟨hread, hdefined⟩, -⟩
    exact ⟨⟨hnest, hread⟩, fun base hleave hbase => hbase ▸ hbefore hleave, hdefined⟩
  · rintro ⟨⟨hnest, hread⟩, hbefore, hdefined⟩
    exact ⟨hnest, fun hleave => hbefore _ hleave rfl, ⟨hread, hdefined⟩, trivial⟩

lemma count_numbered (insn : DisassembledInsn) (base : VarBase) :
    (numbered insn).count base = if base ∈ numbered insn then 1 else 0 := by
  have hnodup : (numbered insn).Nodup := by
    by_cases harm : armOfInsn insn = .leave
    · simp [numbered, harm, definedBase, destination, fixedDestination]
    · simp only [numbered, if_neg harm, List.nil_append]
      cases definedBase (armOfInsn insn) (Ir.parseOperands insn.opStr) <;> simp
  exact hnodup.count

lemma liftBefore_versions (arm : Arm) (versions : Versions) (base : VarBase) :
    (Ir.liftBefore arm versions).2 base =
      versions base + BitVec.ofNat 32 ((if arm = .leave then [.rsp] else []).count base) := by
  by_cases harm : arm = .leave
  · subst harm
    by_cases hbase : base = .rsp
    · subst hbase
      rfl
    · have hcount : [VarBase.rsp].count base = 0 := List.count_eq_zero.mpr (by simpa using hbase)
      have hkept : (Ir.liftBefore .leave versions).2 base = versions base :=
        Function.update_of_ne hbase _ _
      rw [if_pos rfl, hcount, hkept]
      exact (BitVec.add_zero _).symm
  · rw [Ir.liftBefore_of_ne harm, if_neg harm, List.count_nil]
    exact (BitVec.add_zero _).symm

lemma define_versions {op : Opcode} (halloc : Allocates versions op versions') (base : VarBase) :
    versions' base =
      versions base + BitVec.ofNat 32 ((op.dst.map VarId.base).toList.count base) := by
  rw [halloc.versions_eq, define]
  cases hdst : op.dst with
  | none => exact (BitVec.add_zero _).symm
  | some v =>
    by_cases hbase : base = v.base
    · subst hbase
      simpa using halloc.dst v hdst
    · have hcount : [v.base].count base = 0 := List.count_eq_zero.mpr (by simpa using hbase)
      show Function.update versions v.base v.version base = versions base + BitVec.ofNat 32 _
      rw [Function.update_of_ne hbase, Option.map_some, Option.toList_some, hcount]
      exact (BitVec.add_zero _).symm

lemma liftInsn_versions (h : Ir.liftInsn insn versions = some (irs, versions')) (base : VarBase) :
    versions' base = versions base + BitVec.ofNat 32 ((numbered insn).count base) := by
  obtain ⟨op, hop, -⟩ := liftInsn_eq h
  have harm : armOf (lockedMnemonic insn.mnemonic).1 (lockedMnemonic insn.mnemonic).2 =
      armOfInsn insn := rfl
  have halloc := define_versions (liftArm_spec harm hop).allocates base
  rw [(liftArm_assign harm hop).dst, liftBefore_versions] at halloc
  rw [halloc, numbered, List.count_append, BitVec.ofNat_add, BitVec.add_assoc]

lemma liftInsn_versions_toNat (h : Ir.liftInsn insn versions = some (irs, versions'))
    (hnext : ∀ base ∈ numbered insn, HasNext versions base) (base : VarBase) :
    (versions' base).toNat = (versions base).toNat + (numbered insn).count base := by
  have hcount := count_numbered insn base
  rw [liftInsn_versions h, BitVec.toNat_add, BitVec.toNat_ofNat]
  by_cases hbase : base ∈ numbered insn
  · have hlt := hnext base hbase
    rw [HasNext] at hlt
    rw [hcount, if_pos hbase]
    omega
  · have hlt := (versions base).isLt
    rw [hcount, if_neg hbase]
    omega

lemma hasNext_iff : (∀ base ∈ numbered insn, HasNext versions base) ↔
    ∀ base, (versions base).toNat + (numbered insn).count base < 2 ^ 32 := by
  refine forall_congr' fun base => ?_
  have hlt := (versions base).isLt
  rw [count_numbered]
  by_cases hbase : base ∈ numbered insn
  · simp [hbase, HasNext]
  · simp [hbase, hlt]

lemma guarded_liftInsns (hfit : ∀ i ∈ insns, i.address.toNat + i.size.toNat < 2 ^ 64)
    (versions : Versions) :
    Guarded ((∀ i ∈ insns, InsnOk i) ∧
        ∀ base, (versions base).toNat + (insns.flatMap numbered).count base < 2 ^ 32)
      (liftInsns insns versions) (Ir.liftInsns insns versions) := by
  induction insns generalizing versions with
  | nil =>
    refine (Guarded.pure _).congr (iff_of_true trivial ⟨by simp, fun base => ?_⟩)
    exact (versions base).isLt
  | cons insn insns ih =>
    have hrest : ∀ i ∈ insns, i.address.toNat + i.size.toNat < 2 ^ 64 :=
      fun i hi => hfit i (List.mem_cons_of_mem _ hi)
    rw [liftInsns, Ir.liftInsns]
    refine Guarded.congr ((guarded_liftInsn (hfit insn List.mem_cons_self)).bind
      (q := (∀ i ∈ insns, InsnOk i) ∧ ∀ base, (versions base).toNat +
        ((numbered insn).count base + (insns.flatMap numbered).count base) < 2 ^ 32)
      fun hinsn a ha => ?_) ?_
    · obtain ⟨irs, versions'⟩ := a
      refine Guarded.congr ((ih hrest versions').bind fun _ b _ => Guarded.pure _) ?_
      simp only [and_true, liftInsn_versions_toNat ha hinsn.2, Nat.add_assoc]
    · rw [hasNext_iff]
      simp only [List.forall_mem_cons, List.flatMap_cons, List.count_append]
      constructor
      · rintro ⟨⟨hinsn, -⟩, hinsns, hcount⟩
        exact ⟨⟨hinsn, hinsns⟩, hcount⟩
      · rintro ⟨⟨hinsn, hinsns⟩, hcount⟩
        exact ⟨⟨hinsn, fun base => by have := hcount base; omega⟩, hinsns, hcount⟩

lemma guarded_liftBlock {basicBlock : BasicBlock} (blockId : BlockId)
    (hfit : ∀ i ∈ basicBlock.instructions, i.address.toNat + i.size.toNat < 2 ^ 64) :
    Guarded (BlockOk basicBlock.instructions) (liftBlock blockId basicBlock)
      (Ir.liftBlock blockId basicBlock) := by
  refine Guarded.congr ((guarded_liftInsns hfit Versions.initial).bind
    fun _ a _ => Guarded.pure _) ?_
  simp [blockOk_iff, Versions.initial]

lemma guarded_liftFunction {cfg : ControlFlowGraph} (hfit : ∀ p ∈ cfg.blocks.toList,
      ∀ i ∈ p.2.instructions, i.address.toNat + i.size.toNat < 2 ^ 64) :
    Guarded (∀ p ∈ cfg.blocks.toList, BlockOk p.2.instructions) (liftFunction cfg)
      (Dexe.liftFunction cfg) := by
  have hblocks := guarded_mapM fun p hp => (guarded_liftBlock p.1 (hfit p hp)).map fun b => (p.1, b)
  exact (hblocks.bind fun _ blocks _ => Guarded.pure _).congr (iff_of_eq (and_true _))

end Dexe.Debug
