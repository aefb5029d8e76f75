import Dexe.Collections.Folds
import Dexe.Ir.Blocks
import Dexe.Ir.Numbering

/-! The versions of a lifted block. -/

namespace Dexe.Ir

open Std Collections Versions

def defineStep (versions : Versions) (ir : IRInstruction) : Versions := define versions ir.opcode

def AllocatesNext (versions : Versions) (ir : IRInstruction) : Prop :=
  Allocates versions ir.opcode (defineStep versions ir)

def ReadsCurrent (versions : Versions) (ir : IRInstruction) : Prop :=
  SourcesCurrent versions ir.opcode

/-- The instruction reads its destination after it has allocated the new version of it. -/
def SelfReads (insn : DisassembledInsn) : Prop :=
  ∃ p ∈ lateSource (armOfInsn insn) (parseOperands insn.opStr), p.1 ∈ p.2.bases

instance : DecidablePred SelfReads := fun insn =>
  inferInstanceAs (Decidable
    (∃ p ∈ lateSource (armOfInsn insn) (parseOperands insn.opStr), p.1 ∈ p.2.bases))

/-- The instruction is lifted to a choice between its source and its destination. -/
def Chooses (insn : DisassembledInsn) : Prop :=
  armOfInsn insn = .cmov ∧ 2 ≤ (parseOperands insn.opStr).length

instance : DecidablePred Chooses := fun _ => inferInstanceAs (Decidable (_ ∧ _))

lemma sourcesCurrent_iff {late : Option (VarBase × Operand)} {versions versions' : Versions}
    {op : Opcode} (h : ArmSpec late versions op versions') :
    SourcesCurrent versions op ↔ ¬ ∃ p ∈ late, p.1 ∈ p.2.bases := by
  cases late with
  | none => simpa using h.early rfl
  | some p =>
    obtain ⟨base, src⟩ := p
    obtain ⟨hdst, hops⟩ := h.late (base, src) rfl
    have hversions : versions' = Function.update versions base (versions base + 1) := by
      rw [h.allocates.versions_eq, define, hdst]
      rfl
    have hvars : op.sourceVars = (src.current versions').vars := by
      simp [Opcode.sourceVars, hops]
    have hbases : (src.current versions').bases = src.bases := Operand.bases_current _ _
    simp only [Option.mem_some_iff, exists_eq_left', SourcesCurrent, hvars]
    constructor
    · intro hcurrent hmem
      rw [← hbases] at hmem
      obtain ⟨v, hv, hbase⟩ := List.mem_map.mp hmem
      have hnew := Operand.version_of_mem_current hv
      rw [hcurrent v hv, hversions, hbase, Function.update_self] at hnew
      simp at hnew
    · intro hmem v hv
      have hne : v.base ≠ base := by
        rintro rfl
        exact hmem (hbases ▸ List.mem_map_of_mem hv)
      rw [Operand.version_of_mem_current hv, hversions, Function.update_of_ne hne]

structure InsnSpec (insn : DisassembledInsn) (versions : Versions) (irs : List IRInstruction)
    (versions' : Versions) : Prop where
  versions_eq : versions' = irs.foldl defineStep versions
  allocates : Along defineStep AllocatesNext versions irs
  reads : Along defineStep ReadsCurrent versions irs ↔ ¬ SelfReads insn
  kept : (∀ ir ∈ irs, ir.opcode.kept = none) ↔ ¬ Chooses insn
  once : ∀ base, ((irs.filterMap fun ir => ir.opcode.dst).filter (·.base = base)).length ≤ 1

lemma allocatesNext {versions versions' : Versions} {ir : IRInstruction}
    (h : Allocates versions ir.opcode versions') : AllocatesNext versions ir := ⟨h.dst, rfl⟩

lemma length_filter_dst_le (op : Opcode) (base : VarBase) :
    (op.dst.toList.filter (·.base = base)).length ≤ 1 :=
  (List.length_filter_le _ _).trans (by cases op.dst <;> simp)

lemma liftInsn_spec {insn : DisassembledInsn} {versions versions' : Versions}
    {irs : List IRInstruction} (h : liftInsn insn versions = some (irs, versions')) :
    InsnSpec insn versions irs versions' := by
  obtain ⟨op, hop, rfl⟩ := liftInsn_eq h
  have hspec := liftArm_spec rfl hop
  have hkept := (liftArm_shape hop).kept
  by_cases hleave : armOfInsn insn = .leave
  · have hself : ¬ SelfReads insn := by
      rintro ⟨p, hp, -⟩
      rw [hleave] at hp
      cases hp
    have hchoose : ¬ Chooses insn := fun h => absurd (hleave ▸ h.1) (by decide)
    rw [hleave] at hop
    cases hop
    rw [hleave]
    refine ⟨rfl, ?_, ?_, ?_, ?_⟩
    · exact ⟨allocatesNext (allocates_some rfl), allocatesNext (allocates_some rfl), trivial⟩
    · refine iff_of_true ⟨?_, ?_, trivial⟩ hself
      · apply sourcesCurrent_of_sources
        intro o ho
        rw [List.mem_singleton.mp ho]
        exact currentVar_is_current versions .rbp
      · exact sourcesCurrent_of_sources (by simp [Opcode.sources])
    · exact iff_of_true (by simp [liftBefore, Opcode.kept]) hchoose
    · intro base
      by_cases hrsp : VarBase.rsp = base
      · subst hrsp
        exact le_rfl
      · simp only [liftBefore, Opcode.dst, newVersion, hrsp, List.cons_append, List.nil_append,
          List.map_cons, List.map_nil, List.filterMap_cons, List.filterMap_nil, List.filter_cons,
          decide_false, Bool.false_eq_true, if_false]
        split <;> simp
  · rw [liftBefore_of_ne hleave] at hspec ⊢
    refine ⟨hspec.allocates.versions_eq, ⟨allocatesNext hspec.allocates, trivial⟩, ?_, ?_, ?_⟩
    · exact (along_singleton ..).trans (sourcesCurrent_iff hspec)
    · have hone : (∀ ir ∈ ([] ++ [op]).map fun op => (⟨insn.address, op⟩ : IRInstruction),
          ir.opcode.kept = none) ↔ op.kept = none := by simp
      rw [hone, ← Option.not_isSome_iff_eq_none, hkept, Chooses]
    · intro base
      have hdst : (([op].map fun op => (⟨insn.address, op⟩ : IRInstruction)).filterMap
          fun ir => ir.opcode.dst) = op.dst.toList := by
        cases h : op.dst <;> simp [h]
      rw [List.nil_append, hdst]
      exact length_filter_dst_le op base

lemma liftInsns_spec {insns : List DisassembledInsn} {versions versions' : Versions}
    {irs : List IRInstruction} (h : liftInsns insns versions = some (irs, versions')) :
    Along defineStep AllocatesNext versions irs ∧
      (Along defineStep ReadsCurrent versions irs ↔ ∀ insn ∈ insns, ¬ SelfReads insn) ∧
      ((∀ ir ∈ irs, ir.opcode.kept = none) ↔ ∀ insn ∈ insns, ¬ Chooses insn) ∧
      ∀ base, ((irs.filterMap fun ir => ir.opcode.dst).filter (·.base = base)).length ≤
        insns.length := by
  induction insns generalizing versions irs with
  | nil =>
    cases h
    exact ⟨trivial, by simp [Along], by simp, by simp⟩
  | cons insn insns ih =>
    obtain ⟨⟨first, w⟩, hfirst, h⟩ := Option.bind_eq_some_iff.mp h
    obtain ⟨⟨rest, w'⟩, hrest, h⟩ := Option.bind_eq_some_iff.mp h
    cases h
    have hspec := liftInsn_spec hfirst
    obtain ⟨hallocates, hreads, hkept, hlength⟩ := ih hrest
    rw [hspec.versions_eq] at hallocates hreads
    refine ⟨(along_append ..).mpr ⟨hspec.allocates, hallocates⟩, ?_, ?_, ?_⟩
    · rw [along_append, hspec.reads, hreads, List.forall_mem_cons]
    · rw [List.forall_mem_append, hspec.kept, hkept, List.forall_mem_cons]
    · intro base
      have hone := hspec.once base
      have hmore := hlength base
      rw [List.filterMap_append, List.filter_append, List.length_append, List.length_cons]
      omega

def definitions (irs : List IRInstruction) : List VarId := irs.filterMap fun ir => ir.opcode.dst

def latest (base : VarBase) (irs : List IRInstruction) : BitVec 32 :=
  (((definitions irs).filter (·.base = base)).getLast?.map VarId.version).getD 0

lemma definitions_concat (irs : List IRInstruction) (ir : IRInstruction) :
    definitions (irs ++ [ir]) = definitions irs ++ ir.opcode.dst.toList := by
  rw [definitions, List.filterMap_append, definitions]
  cases h : ir.opcode.dst <;> simp [h]

lemma latest_concat (base : VarBase) (irs : List IRInstruction) (ir : IRInstruction) :
    latest base (irs ++ [ir]) =
      match ir.opcode.dst with
      | some v => if v.base = base then v.version else latest base irs
      | none => latest base irs := by
  rw [latest, definitions_concat, List.filter_append]
  cases ir.opcode.dst with
  | none => simp [latest]
  | some v =>
    by_cases hv : v.base = base
    · simp [hv]
    · simp [hv, latest]

lemma foldl_defineStep (irs : List IRInstruction) (base : VarBase) :
    irs.foldl defineStep initial base = latest base irs := by
  induction irs using List.reverseRecOn with
  | nil => rfl
  | append_singleton irs ir ih =>
    rw [List.foldl_append, List.foldl_cons, List.foldl_nil, latest_concat, defineStep, define]
    cases ir.opcode.dst with
    | none => exact ih
    | some v =>
      by_cases hv : v.base = base
      · subst hv
        simp
      · show Function.update (irs.foldl defineStep initial) v.base v.version base =
          if v.base = base then v.version else latest base irs
        rw [Function.update_of_ne (Ne.symm hv), if_neg hv, ih]

structure UsesLatest (irs : List IRInstruction) : Prop where
  uses : ∀ pre ir post, irs = pre ++ ir :: post →
    ∀ v ∈ ir.opcode.uses, v.version = latest v.base pre
  own : ∀ ir ∈ irs, ∀ v ∈ ir.opcode.dst, v ∉ ir.opcode.uses

lemma usesLatest_of_along {irs : List IRInstruction}
    (hallocates : Along defineStep AllocatesNext initial irs) :
    UsesLatest irs ↔
      Along defineStep ReadsCurrent initial irs ∧ ∀ ir ∈ irs, ir.opcode.kept = none := by
  rw [along_iff] at hallocates ⊢
  constructor
  · intro h
    refine ⟨?_, ?_⟩
    · intro pre ir post hsplit v hv
      rw [foldl_defineStep]
      exact h.uses pre ir post hsplit v (Opcode.mem_uses.mpr (.inl hv))
    · intro ir hir
      rw [Option.eq_none_iff_forall_not_mem]
      intro v hv
      exact h.own ir hir v (Opcode.dst_of_kept hv) (Opcode.mem_uses.mpr (.inr hv))
  · rintro ⟨hreads, hkept⟩
    have huses : ∀ ir ∈ irs, ∀ v ∈ ir.opcode.uses, v ∈ ir.opcode.sourceVars := by
      intro ir hir v hv
      refine (Opcode.mem_uses.mp hv).resolve_right fun h => ?_
      rw [hkept ir hir] at h
      cases h
    refine ⟨?_, ?_⟩
    · intro pre ir post hsplit v hv
      have hmem : ir ∈ irs := by simp [hsplit]
      rw [← foldl_defineStep]
      exact hreads pre ir post hsplit v (huses ir hmem v hv)
    · intro ir hir v hdst huse
      obtain ⟨pre, post, hsplit⟩ := List.append_of_mem hir
      have hold := hreads pre ir post hsplit v (huses ir hir v huse)
      have hnew := (hallocates pre ir post hsplit).dst v hdst
      rw [hold] at hnew
      simp at hnew

lemma latest_of_reads {irs pre post : List IRInstruction} {ir : IRInstruction} {v : VarId}
    (hreads : Along defineStep ReadsCurrent initial irs) (hsplit : irs = pre ++ ir :: post)
    (hv : v ∈ ir.opcode.sourceVars) : v.version = latest v.base pre := by
  rw [← foldl_defineStep]
  exact (along_iff ..).mp hreads pre ir post hsplit v hv

lemma latest_of_dst {pre : List IRInstruction} {ir : IRInstruction} {v : VarId}
    (hv : v ∈ ir.opcode.dst) : v.version = latest v.base (pre ++ [ir]) := by
  rw [latest_concat, Option.mem_def.mp hv]
  exact (if_pos rfl).symm

variable {cfg : ControlFlowGraph} {function : IRFunction} {id : BlockId} {bb : BasicBlock}
  {b : IRBlock}

lemma liftInsns_of_block (hlift : liftFunction cfg = some function)
    (hbb : cfg.blocks[id]? = some bb) (hb : function.blocks[id]? = some b) :
    ∃ versions, liftInsns bb.instructions initial = some (b.instructions, versions) := by
  rw [liftFunction_getElem? hlift hbb] at hb
  obtain ⟨⟨irs, versions⟩, hirs, hb⟩ := Option.bind_eq_some_iff.mp hb
  cases hb
  exact ⟨versions, hirs⟩

lemma usesLatest_of_lift {insns : List DisassembledInsn} {irs : List IRInstruction}
    {versions : Versions} (h : liftInsns insns initial = some (irs, versions)) :
    UsesLatest irs ↔ ∀ insn ∈ insns, ¬ SelfReads insn ∧ ¬ Chooses insn := by
  obtain ⟨hallocates, hreads, hkept, -⟩ := liftInsns_spec h
  rw [usesLatest_of_along hallocates, hreads, hkept]
  exact forall₂_and.symm

/-- The operands of a lifted block have the latest versions exactly when no instruction of the
block reads its own destination, through an arm that allocates it first or as the value that a
conditional move keeps. -/
theorem usesLatest_iff (hlift : liftFunction cfg = some function)
    (hbb : cfg.blocks[id]? = some bb) (hb : function.blocks[id]? = some b) :
    UsesLatest b.instructions ↔ ∀ insn ∈ bb.instructions, ¬ SelfReads insn ∧ ¬ Chooses insn := by
  obtain ⟨versions, hirs⟩ := liftInsns_of_block hlift hbb hb
  exact usesLatest_of_lift hirs

def selfLoad : DisassembledFunction :=
  ⟨"self_load", 0x1000, 0x1003, [⟨0x1000, 3, "mov", "rax, qword ptr [rax]", [0x48, 0x8b, 0x00]⟩]⟩

def selfLoadBlock : BasicBlock := ⟨0, 0x1000, 0x1003, selfLoad.instructions, .ret⟩

lemma selfLoad_block : (buildCfg selfLoad).blocks[0]? = some selfLoadBlock := by decide

lemma lift_selfLoad : (liftFunction (buildCfg selfLoad)).isSome = true := by decide

lemma lift_selfLoadBlock : (liftBlock 0 selfLoadBlock).isSome = true := by decide

lemma selfLoad_lifted : ∃ function b, liftFunction (buildCfg selfLoad) = some function ∧
    function.blocks[0]? = some b := by
  obtain ⟨function, hlift⟩ := Option.isSome_iff_exists.mp lift_selfLoad
  obtain ⟨b, hb⟩ := Option.isSome_iff_exists.mp lift_selfLoadBlock
  exact ⟨function, b, hlift, (liftFunction_getElem? hlift selfLoad_block).trans hb⟩

theorem selfLoad_not_usesLatest :
    ∃ function b, liftFunction (buildCfg selfLoad) = some function ∧
      function.blocks[0]? = some b ∧ ¬ UsesLatest b.instructions := by
  obtain ⟨function, b, hlift, hb⟩ := selfLoad_lifted
  obtain ⟨versions, hirs⟩ := liftInsns_of_block hlift selfLoad_block hb
  refine ⟨function, b, hlift, hb, ?_⟩
  rw [usesLatest_of_lift hirs]
  decide

theorem selfLoad_usesLatest_iff :
    ∃ function b, liftFunction (buildCfg selfLoad) = some function ∧
      function.blocks[0]? = some b ∧
      (UsesLatest b.instructions ↔
        ∀ insn ∈ selfLoad.instructions, ¬ SelfReads insn ∧ ¬ Chooses insn) := by
  obtain ⟨function, b, hlift, hb⟩ := selfLoad_lifted
  exact ⟨function, b, hlift, hb, usesLatest_iff hlift selfLoad_block hb⟩

lemma range'_succ_concat (n : ℕ) : List.range' 1 (n + 1) = List.range' 1 n ++ [n + 1] := by
  rw [List.range'_concat, Nat.one_mul, Nat.add_comm]

lemma latest_of_versions {irs : List IRInstruction} {base : VarBase}
    (h : ((definitions irs).filter (·.base = base)).map VarId.version =
      (List.range' 1 ((definitions irs).filter (·.base = base)).length).map (BitVec.ofNat 32)) :
    latest base irs = BitVec.ofNat 32 ((definitions irs).filter (·.base = base)).length := by
  rw [latest, ← List.getLast?_map, h]
  generalize ((definitions irs).filter (·.base = base)).length = n
  rcases n with _ | n
  · rfl
  · simp [range'_succ_concat]

lemma versions_of_along {irs : List IRInstruction}
    (hallocates : Along defineStep AllocatesNext initial irs) (base : VarBase) :
    ((definitions irs).filter (·.base = base)).map VarId.version =
      (List.range' 1 ((definitions irs).filter (·.base = base)).length).map (BitVec.ofNat 32) := by
  induction irs using List.reverseRecOn with
  | nil => rfl
  | append_singleton irs ir ih =>
    rw [along_append, along_singleton] at hallocates
    have hpre := ih hallocates.1
    rw [definitions_concat, List.filter_append, List.map_append, List.length_append, hpre]
    have hnext := hallocates.2.dst
    cases hdst : ir.opcode.dst with
    | none => simp
    | some v =>
      by_cases hv : v.base = base
      · have hversion := hnext v hdst
        rw [foldl_defineStep, hv, latest_of_versions hpre] at hversion
        simp [hv, hversion, range'_succ_concat, BitVec.ofNat_add]
      · simp [hv]

lemma no_definition {pre mid post : List IRInstruction} {base : VarBase}
    (hallocates : Along defineStep AllocatesNext initial (pre ++ mid ++ post))
    (hcount : ((definitions (pre ++ mid ++ post)).filter (·.base = base)).length < 2 ^ 32)
    (h : latest base pre = latest base (pre ++ mid)) :
    ∀ ir ∈ mid, ∀ v ∈ ir.opcode.dst, v.base ≠ base := by
  rw [along_append] at hallocates
  have hmid := latest_of_versions (versions_of_along hallocates.1 base)
  have hpre := latest_of_versions (versions_of_along ((along_append ..).mp hallocates.1).1 base)
  rw [hpre, hmid] at h
  have hnat := congrArg BitVec.toNat h
  simp only [definitions, List.filterMap_append, List.filter_append, List.length_append,
    BitVec.toNat_ofNat] at hnat hcount
  rw [Nat.mod_eq_of_lt (by omega), Nat.mod_eq_of_lt (by omega)] at hnat
  have hnone : ((definitions mid).filter (·.base = base)).length = 0 := by
    rw [definitions]
    omega
  intro ir hir v hv hbase
  have hmem : v ∈ (definitions mid).filter (·.base = base) := by
    apply List.mem_filter.mpr
    exact ⟨List.mem_filterMap.mpr ⟨ir, hir, hv⟩, by simp [hbase]⟩
  rw [List.length_eq_zero_iff.mp hnone] at hmem
  cases hmem

lemma latest_ne_next {pre mid post : List IRInstruction} {ir : IRInstruction} {v : VarId}
    (hallocates : Along defineStep AllocatesNext initial (pre ++ mid ++ ir :: post))
    (hcount : ((definitions (pre ++ mid ++ ir :: post)).filter (·.base = v.base)).length < 2 ^ 32)
    (hdst : v ∈ ir.opcode.dst) : latest v.base pre ≠ v.version := by
  intro h
  have hnext := ((along_iff ..).mp hallocates (pre ++ mid) ir post rfl).dst v hdst
  rw [along_append] at hallocates
  have hmid := latest_of_versions (versions_of_along hallocates.1 v.base)
  have hpre := latest_of_versions (versions_of_along ((along_append ..).mp hallocates.1).1 v.base)
  rw [foldl_defineStep, ← h, hpre, hmid] at hnext
  have hone : ((definitions (ir :: post)).filter (·.base = v.base)).length ≠ 0 := by
    have hmem : v ∈ (definitions (ir :: post)).filter (·.base = v.base) := by
      apply List.mem_filter.mpr
      exact ⟨List.mem_filterMap.mpr ⟨ir, List.mem_cons_self, hdst⟩, by simp⟩
    exact (List.length_pos_of_mem hmem).ne'
  have hnat := congrArg BitVec.toNat hnext
  have hunit : (1 : BitVec 32).toNat = 1 := rfl
  simp only [definitions, List.filterMap_append, List.filter_append, List.length_append,
    BitVec.toNat_ofNat, BitVec.toNat_add, hunit] at hnat hcount hone
  omega

structure SingleAssignment (irs : List IRInstruction) : Prop where
  numbered : ∀ base, ((definitions irs).filter (·.base = base)).map (·.version.toNat) =
    List.range' 1 ((definitions irs).filter (·.base = base)).length
  nodup : (definitions irs).Nodup
  pos : ∀ v ∈ definitions irs, v.version ≠ 0

lemma singleAssignment_of_numbered {irs : List IRInstruction}
    (h : ∀ base, ((definitions irs).filter (·.base = base)).map (·.version.toNat) =
      List.range' 1 ((definitions irs).filter (·.base = base)).length) : SingleAssignment irs := by
  refine ⟨h, ?_, ?_⟩
  · rw [List.nodup_iff_count_le_one]
    intro v
    have hnodup : (((definitions irs).filter (·.base = v.base)).map (·.version.toNat)).Nodup := by
      rw [h]
      exact List.nodup_range'
    have hone := List.nodup_iff_count_le_one.mp hnodup.of_map v
    rwa [List.count_filter (by simp)] at hone
  · intro v hv hzero
    have hmem : v.version.toNat ∈
        ((definitions irs).filter (·.base = v.base)).map (·.version.toNat) :=
      List.mem_map_of_mem (List.mem_filter.mpr ⟨hv, by simp⟩)
    rw [h, hzero] at hmem
    simp at hmem

/-- Every block of fewer than `2 ^ 32` instructions is lifted to single assignments. -/
theorem singleAssignment (hlift : liftFunction cfg = some function)
    (hbb : cfg.blocks[id]? = some bb) (hb : function.blocks[id]? = some b)
    (hlen : bb.instructions.length < 2 ^ 32) : SingleAssignment b.instructions := by
  obtain ⟨versions, hirs⟩ := liftInsns_of_block hlift hbb hb
  obtain ⟨hallocates, -, -, hcount⟩ := liftInsns_spec hirs
  apply singleAssignment_of_numbered
  intro base
  have hversions := versions_of_along hallocates base
  have hle : ((definitions b.instructions).filter (·.base = base)).length < 2 ^ 32 :=
    (hcount base).trans_lt hlen
  calc ((definitions b.instructions).filter (·.base = base)).map (·.version.toNat)
      = (((definitions b.instructions).filter (·.base = base)).map VarId.version).map
          BitVec.toNat := by rw [List.map_map]; rfl
    _ = (List.range' 1 ((definitions b.instructions).filter (·.base = base)).length).map
          fun n => (BitVec.ofNat 32 n).toNat := by rw [hversions, List.map_map]; rfl
    _ = List.range' 1 ((definitions b.instructions).filter (·.base = base)).length := by
      refine (List.map_congr_left fun n hn => ?_).trans (List.map_id' _)
      have := List.mem_range'_1.mp hn
      rw [BitVec.toNat_ofNat, Nat.mod_eq_of_lt (by omega)]

def severalDefs : DisassembledFunction :=
  ⟨"several_defs", 0x1000, 0x100f,
    [⟨0x1000, 3, "mov", "rax, qword ptr [rbx]", [0x48, 0x8b, 0x03]⟩,
      ⟨0x1003, 3, "add", "rbx, rax", [0x48, 0x01, 0xc3]⟩,
      ⟨0x1006, 4, "cmove", "rax, rbx", [0x48, 0x0f, 0x44, 0xc3]⟩,
      ⟨0x100a, 3, "inc", "rbx", [0x48, 0xff, 0xc3]⟩, ⟨0x100d, 1, "leave", "", [0xc9]⟩,
      ⟨0x100e, 1, "ret", "", [0xc3]⟩]⟩

def severalDefsBlock : BasicBlock := ⟨0, 0x1000, 0x100f, severalDefs.instructions, .ret⟩

lemma severalDefs_block : (buildCfg severalDefs).blocks[0]? = some severalDefsBlock := by decide

lemma lift_severalDefs : (liftFunction (buildCfg severalDefs)).isSome = true := by decide

lemma lift_severalDefsBlock :
    (liftBlock 0 severalDefsBlock).map (fun b => definitions b.instructions) =
      some [⟨.rax, 1⟩, ⟨.rbx, 1⟩, ⟨.rax, 2⟩, ⟨.rbx, 2⟩, ⟨.rsp, 1⟩, ⟨.rbp, 1⟩] := by
  decide

theorem severalDefs_singleAssignment :
    ∃ function b, liftFunction (buildCfg severalDefs) = some function ∧
      function.blocks[0]? = some b ∧
      definitions b.instructions =
        [⟨.rax, 1⟩, ⟨.rbx, 1⟩, ⟨.rax, 2⟩, ⟨.rbx, 2⟩, ⟨.rsp, 1⟩, ⟨.rbp, 1⟩] ∧
      SingleAssignment b.instructions := by
  obtain ⟨function, hlift⟩ := Option.isSome_iff_exists.mp lift_severalDefs
  obtain ⟨b, hb, hdefs⟩ := Option.map_eq_some_iff.mp lift_severalDefsBlock
  have hblock := (liftFunction_getElem? hlift severalDefs_block).trans hb
  have hsingle := singleAssignment hlift severalDefs_block hblock (by decide)
  exact ⟨function, b, hlift, hblock, hdefs, hsingle⟩

end Dexe.Ir
