import Dexe.Ir.Definitions

/-! Each arm of the lifter numbers the variable that it defines, and reads versions that are
current before the instruction or, in two arms, after it. -/

namespace Dexe.Ir

open Versions

def define (versions : Versions) (op : Opcode) : Versions :=
  match op.dst with
  | some v => Function.update versions v.base v.version
  | none => versions

structure Allocates (versions : Versions) (op : Opcode) (versions' : Versions) : Prop where
  dst : ∀ v ∈ op.dst, v.version = versions v.base + 1
  versions_eq : versions' = define versions op

lemma allocates_none {versions : Versions} {op : Opcode} (h : op.dst = none) :
    Allocates versions op versions := by
  refine ⟨by simp [h], ?_⟩
  rw [define, h]

lemma allocates_some {versions : Versions} {op : Opcode} {base : VarBase}
    (h : op.dst = some (versions.newVersion base).1) :
    Allocates versions op (versions.newVersion base).2 := by
  refine ⟨?_, ?_⟩
  · intro v hv
    rw [h] at hv
    cases hv
    rfl
  · rw [define, h]
    rfl

def SourcesCurrent (versions : Versions) (op : Opcode) : Prop :=
  ∀ v ∈ op.sourceVars, v.version = versions v.base

lemma sourcesCurrent_of_sources {versions : Versions} {op : Opcode}
    (h : ∀ o ∈ op.sources, ∃ o' : Operand, o = o'.current versions) :
    SourcesCurrent versions op := by
  intro v hv
  obtain ⟨o, ho, hv⟩ := List.mem_flatMap.mp hv
  obtain ⟨o', rfl⟩ := h o ho
  exact Operand.version_of_mem_current hv

lemma parseSingleOperand_is_current {s : Text} {versions : Versions} {op : Operand}
    (h : parseSingleOperand s versions = some op) : ∃ o' : Operand, op = o'.current versions := by
  rw [parseSingleOperand_current versions initial] at h
  obtain ⟨o', -, rfl⟩ := Option.map_eq_some_iff.mp h
  exact ⟨o', rfl⟩

lemma parseMemoryOperand_is_current {s : Text} {versions : Versions} {op : Operand}
    (h : parseMemoryOperand s versions = some op) : ∃ o' : Operand, op = o'.current versions := by
  rw [parseMemoryOperand_current versions initial] at h
  obtain ⟨o', -, rfl⟩ := Option.map_eq_some_iff.mp h
  exact ⟨o', rfl⟩

lemma currentVar_is_current (versions : Versions) (base : VarBase) :
    ∃ o' : Operand, Operand.var (versions.currentVar base) = o'.current versions :=
  ⟨.var ⟨base, 0⟩, rfl⟩

def aluWords : List Text := ["add", "sub", "imul", "and", "or", "xor", "shl", "sal", "shr", "sar"]

def lateSource (arm : Arm) (operands : List Text) : Option (VarBase × Operand) :=
  match arm, operands with
  | .mov, first :: second :: _ =>
    if isMemoryOperand first ∧ ¬ isMemoryOperand second then none
    else
      (if ¬ isMemoryOperand first ∧ isMemoryOperand second then parseMemoryOperand second initial
        else parseSingleOperand second initial).map fun src => ((dstRegister first).getD .rax, src)
  | .lea, first :: second :: _ =>
    (parseMemoryOperand second initial).map fun src => ((dstRegister first).getD .rax, src)
  | _, _ => none

structure ArmSpec (late : Option (VarBase × Operand)) (versions : Versions) (op : Opcode)
    (versions' : Versions) : Prop where
  allocates : Allocates versions op versions'
  early : late = none → SourcesCurrent versions op
  late : ∀ p ∈ late, op.dst = some (versions.newVersion p.1).1 ∧
    op.sources = [p.2.current versions']

section Arms

variable {operands : List Text} {m : Text} {addr : U64} {versions versions' : Versions}
  {op : Opcode}

lemma armSpec_none (hdst : op.dst = none)
    (hops : ∀ o ∈ op.sources, ∃ o' : Operand, o = o'.current versions) :
    ArmSpec none versions op versions :=
  ⟨allocates_none hdst, fun _ => sourcesCurrent_of_sources hops, by simp⟩

lemma armSpec_early {base : VarBase} (hdst : op.dst = some (versions.newVersion base).1)
    (hops : ∀ o ∈ op.sources, ∃ o' : Operand, o = o'.current versions) :
    ArmSpec none versions op (versions.newVersion base).2 :=
  ⟨allocates_some hdst, fun _ => sourcesCurrent_of_sources hops, by simp⟩

lemma armSpec_late {base : VarBase} {src : Operand}
    (hdst : op.dst = some (versions.newVersion base).1)
    (hops : op.sources = [src.current (versions.newVersion base).2]) :
    ArmSpec (some (base, src)) versions op (versions.newVersion base).2 := by
  refine ⟨allocates_some hdst, by simp, ?_⟩
  rintro p ⟨⟩
  exact ⟨hdst, hops⟩

lemma armSpec_unknown (h : unknown m addr versions = some (op, versions')) :
    ArmSpec none versions op versions' := by
  cases h
  exact armSpec_none rfl (by simp [Opcode.sources])

def binaryOpcodes : List (VarId → Operand → Operand → Opcode) :=
  [.add, .sub, .mul, .and, .or, .xor, .shl, .shr]

lemma liftBinaryAlu_eq {first second : Text} {more : List Text}
    (h : liftBinaryAlu m (first :: second :: more) addr versions = some (op, versions'))
    (hm : m ∈ aluWords) : ∃ make ∈ binaryOpcodes, ∃ lhs rhs left right,
      parseSingleOperand left versions = some lhs ∧ parseSingleOperand right versions = some rhs ∧
      op = make (versions.newVersion ((dstRegister first).getD .rax)).1 lhs rhs ∧
      versions' = (versions.newVersion ((dstRegister first).getD .rax)).2 := by
  obtain ⟨rhs, hrhs, h⟩ := Option.bind_eq_some_iff.mp h
  obtain ⟨lhs, hlhs, h⟩ := Option.bind_eq_some_iff.mp h
  have hmake : ∀ word ∈ aluWords, ∃ make ∈ binaryOpcodes, m = word →
      op = make (versions.newVersion ((dstRegister first).getD .rax)).1 lhs rhs := by
    cases h
    simp only [aluWords, List.forall_mem_cons]
    refine ⟨⟨.add, ?_⟩, ⟨.sub, ?_⟩, ⟨.mul, ?_⟩, ⟨.and, ?_⟩, ⟨.or, ?_⟩, ⟨.xor, ?_⟩, ⟨.shl, ?_⟩,
      ⟨.shl, ?_⟩, ⟨.shr, ?_⟩, ⟨.shr, ?_⟩, by simp⟩
    all_goals
      refine ⟨by simp [binaryOpcodes], ?_⟩
      rintro rfl
      rfl
  obtain ⟨make, hmem, hop⟩ := hmake m hm
  refine ⟨make, hmem, lhs, rhs, _, _, hlhs, hrhs, hop rfl, ?_⟩
  cases h
  rfl

lemma liftBinaryAlu_spec (h : liftBinaryAlu m operands addr versions = some (op, versions'))
    (hm : m ∈ aluWords) : ArmSpec none versions op versions' := by
  rcases operands with _ | ⟨first, _ | ⟨second, more⟩⟩
  · exact armSpec_unknown h
  · exact armSpec_unknown h
  · obtain ⟨make, hmake, lhs, rhs, _, _, hlhs, hrhs, rfl, rfl⟩ := liftBinaryAlu_eq h hm
    have hops : ∀ o ∈ [lhs, rhs], ∃ o' : Operand, o = o'.current versions := by
      intro o ho
      simp only [List.mem_cons, List.not_mem_nil, or_false] at ho
      rcases ho with rfl | rfl
      · exact parseSingleOperand_is_current hlhs
      · exact parseSingleOperand_is_current hrhs
    simp only [binaryOpcodes, List.mem_cons, List.not_mem_nil, or_false] at hmake
    rcases hmake with rfl | rfl | rfl | rfl | rfl | rfl | rfl | rfl
    all_goals exact armSpec_early rfl hops

lemma liftUnaryReg_spec (h : liftUnaryReg m operands addr versions = some (op, versions'))
    (hm : m = "not" ∨ m = "neg") : ArmSpec none versions op versions' := by
  simp only [liftUnaryReg] at h
  split at h
  · split at h
    · exact armSpec_unknown h
    · have hops : ∀ base, ∀ o ∈ [Operand.var (versions.currentVar base)],
          ∃ o' : Operand, o = o'.current versions := by
        intro base o ho
        rw [List.mem_singleton.mp ho]
        exact currentVar_is_current versions base
      rcases hm with rfl | rfl
      all_goals
        cases h
        exact armSpec_early rfl (hops _)
  · exact armSpec_unknown h

lemma liftMov_spec (h : liftMov operands m addr versions = some (op, versions')) :
    ArmSpec (lateSource .mov operands) versions op versions' := by
  simp only [liftMov] at h
  split at h
  · rename_i first second more
    rw [lateSource]
    split at h
    · rename_i hstore
      obtain ⟨a, ha, h⟩ := Option.bind_eq_some_iff.mp h
      obtain ⟨src, hsrc, h⟩ := Option.bind_eq_some_iff.mp h
      cases h
      rw [if_pos hstore]
      apply armSpec_none rfl
      intro o ho
      simp only [Opcode.sources, List.mem_cons, List.not_mem_nil, or_false] at ho
      rcases ho with rfl | rfl
      · exact parseMemoryOperand_is_current ha
      · exact parseSingleOperand_is_current hsrc
    · rename_i hstore
      rw [if_neg hstore]
      split at h
      · rename_i hload
        obtain ⟨a, ha, h⟩ := Option.bind_eq_some_iff.mp h
        cases h
        rw [parseMemoryOperand_current _ initial] at ha
        obtain ⟨src, hsrc, rfl⟩ := Option.map_eq_some_iff.mp ha
        rw [if_pos hload, hsrc, Option.map_some]
        exact armSpec_late rfl rfl
      · rename_i hload
        obtain ⟨a, ha, h⟩ := Option.bind_eq_some_iff.mp h
        cases h
        rw [parseSingleOperand_current _ initial] at ha
        obtain ⟨src, hsrc, rfl⟩ := Option.map_eq_some_iff.mp ha
        rw [if_neg hload, hsrc, Option.map_some]
        exact armSpec_late rfl rfl
  · rename_i hnone
    have hlate : lateSource .mov operands = none := by
      rcases operands with _ | ⟨first, _ | ⟨second, more⟩⟩
      · rfl
      · rfl
      · exact absurd rfl (hnone first second more)
    rw [hlate]
    exact armSpec_unknown h

lemma liftCall_spec {target : Text} {fallthrough : U64}
    (h : liftCall target versions fallthrough = some op) : ArmSpec none versions op versions := by
  simp only [liftCall] at h
  split at h
  · obtain ⟨o, ho, rfl⟩ := Option.map_eq_some_iff.mp h
    apply armSpec_none rfl
    intro o' ho'
    rw [List.mem_singleton.mp ho']
    exact parseMemoryOperand_is_current ho
  · split at h
    · cases h
      apply armSpec_none rfl
      intro o' ho'
      rw [List.mem_singleton.mp ho']
      exact currentVar_is_current versions _
    · split at h
      all_goals
        cases h
        exact armSpec_none rfl (by simp [Opcode.sources])

lemma liftJmp_spec {target : Text} (h : liftJmp target versions = some op) :
    ArmSpec none versions op versions := by
  simp only [liftJmp] at h
  split at h
  · cases h
    exact armSpec_none rfl (by simp [Opcode.sources])
  · split at h
    · obtain ⟨o, ho, rfl⟩ := Option.map_eq_some_iff.mp h
      apply armSpec_none rfl
      intro o' ho'
      rw [List.mem_singleton.mp ho']
      exact parseMemoryOperand_is_current ho
    · split at h
      · cases h
        apply armSpec_none rfl
        intro o' ho'
        rw [List.mem_singleton.mp ho']
        exact currentVar_is_current versions _
      · cases h
        exact armSpec_none rfl (by simp [Opcode.sources])

lemma armOf_alu {isLock : Bool} (h : armOf isLock m = .alu) : m ∈ aluWords := by
  have hwords : ∀ p ∈ wordArms, p.1 = .alu → p.2 = aluWords := by decide
  have hlate : ∀ p ∈ lateWordArms, p.1 ≠ .alu := by decide
  rw [armOf] at h
  split at h
  · rename_i arm harm
    obtain ⟨p, hp, rfl⟩ := Option.map_eq_some_iff.mp harm
    have hmem := List.find?_some hp
    rw [← hwords p (List.mem_of_find?_eq_some hp) h]
    exact of_decide_eq_true hmem
  · split at h
    · cases h
    · split at h
      · cases h
      · split at h
        · cases h
        · split at h
          · cases h
          · cases hfind : findArm lateWordArms m with
            | none =>
              rw [hfind] at h
              cases h
            | some arm =>
              rw [hfind] at h
              obtain ⟨p, hp, rfl⟩ := Option.map_eq_some_iff.mp hfind
              exact absurd h (hlate p (List.mem_of_find?_eq_some hp))

lemma liftArm_spec {arm : Arm} {insn : DisassembledInsn} {isLock : Bool}
    (harm : armOf isLock m = arm)
    (h : liftArm arm m operands insn versions = some (op, versions')) :
    ArmSpec (lateSource arm operands) versions op versions' := by
  cases arm with
  | mov => exact liftMov_spec h
  | alu => exact liftBinaryAlu_spec h (armOf_alu harm)
  | not => exact liftUnaryReg_spec h (.inl rfl)
  | neg => exact liftUnaryReg_spec h (.inr rfl)
  | lea =>
    simp only [liftArm] at h
    split at h
    · rename_i first second more
      obtain ⟨a, ha, h⟩ := Option.bind_eq_some_iff.mp h
      cases h
      rw [parseMemoryOperand_current _ initial] at ha
      obtain ⟨src, hsrc, rfl⟩ := Option.map_eq_some_iff.mp ha
      rw [lateSource, hsrc, Option.map_some]
      exact armSpec_late rfl rfl
    · rename_i hnone
      have hlate : lateSource .lea operands = none := by
        rcases operands with _ | ⟨first, _ | ⟨second, more⟩⟩
        · rfl
        · rfl
        · exact absurd rfl (hnone first second more)
      rw [hlate]
      exact armSpec_unknown h
  | mul =>
    simp only [liftArm] at h
    split at h
    · obtain ⟨src, hsrc, h⟩ := Option.bind_eq_some_iff.mp h
      cases h
      apply armSpec_early rfl
      intro o ho
      simp only [Opcode.sources, List.mem_cons, List.not_mem_nil, or_false] at ho
      rcases ho with rfl | rfl
      · exact currentVar_is_current versions _
      · exact parseSingleOperand_is_current hsrc
    · exact liftBinaryAlu_spec h (by decide)
  | call =>
    simp only [liftArm] at h
    split at h
    · obtain ⟨o, ho, h⟩ := Option.map_eq_some_iff.mp h
      cases h
      exact liftCall_spec ho
    · exact armSpec_unknown h
  | jmp =>
    simp only [liftArm] at h
    split at h
    · obtain ⟨o, ho, h⟩ := Option.map_eq_some_iff.mp h
      cases h
      exact liftJmp_spec ho
    · exact armSpec_unknown h
  | push =>
    simp only [liftArm] at h
    split at h
    · obtain ⟨src, hsrc, h⟩ := Option.bind_eq_some_iff.mp h
      cases h
      apply armSpec_none rfl
      intro o ho
      rw [List.mem_singleton.mp ho]
      exact parseSingleOperand_is_current hsrc
    · exact armSpec_unknown h
  | cmp | test | lock =>
    simp only [liftArm] at h
    split at h
    · obtain ⟨a, ha, h⟩ := Option.bind_eq_some_iff.mp h
      obtain ⟨b, hb, h⟩ := Option.bind_eq_some_iff.mp h
      cases h
      apply armSpec_none rfl
      intro o ho
      simp only [Opcode.sources, List.mem_cons, List.not_mem_nil, or_false] at ho
      rcases ho with rfl | rfl
      · exact parseSingleOperand_is_current ha
      · exact parseSingleOperand_is_current hb
    · exact armSpec_unknown h
  | cmov =>
    simp only [liftArm] at h
    split at h
    · obtain ⟨src, hsrc, h⟩ := Option.bind_eq_some_iff.mp h
      cases h
      apply armSpec_early rfl
      intro o ho
      rw [List.mem_singleton.mp ho]
      exact parseSingleOperand_is_current hsrc
    · exact armSpec_unknown h
  | pop | set =>
    simp only [liftArm] at h
    split at h
    · cases h
      exact armSpec_early rfl (by simp [Opcode.sources])
    · exact armSpec_unknown h
  | inc | dec =>
    simp only [liftArm] at h
    split at h
    · cases h
      apply armSpec_early rfl
      intro o ho
      simp only [Opcode.sources, List.mem_cons, List.not_mem_nil, or_false] at ho
      rcases ho with rfl | rfl
      · exact currentVar_is_current versions _
      · exact ⟨.imm 1, rfl⟩
    · exact armSpec_unknown h
  | leave =>
    cases h
    exact armSpec_early rfl (by simp [Opcode.sources])
  | nop | ret | condJump | trap | syscall | xchg | signExtend | other =>
    cases h
    exact armSpec_none rfl (by simp [Opcode.sources])

end Arms

lemma liftInsn_eq {insn : DisassembledInsn} {versions versions' : Versions}
    {irs : List IRInstruction} (h : liftInsn insn versions = some (irs, versions')) :
    ∃ op, liftArm (armOfInsn insn) (lockedMnemonic insn.mnemonic).2 (parseOperands insn.opStr) insn
        (liftBefore (armOfInsn insn) versions).2 = some (op, versions') ∧
      irs = ((liftBefore (armOfInsn insn) versions).1 ++ [op]).map
        fun op => ⟨insn.address, op⟩ := by
  obtain ⟨⟨op, v⟩, hop, h⟩ := Option.bind_eq_some_iff.mp h
  cases h
  exact ⟨op, hop, rfl⟩

lemma liftInsn_single {insn : DisassembledInsn} {versions versions' : Versions}
    {irs : List IRInstruction} (hleave : armOfInsn insn ≠ .leave)
    (h : liftInsn insn versions = some (irs, versions')) :
    ∃ op, irs = [⟨insn.address, op⟩] ∧
      liftArm (armOfInsn insn) (lockedMnemonic insn.mnemonic).2 (parseOperands insn.opStr) insn
        versions = some (op, versions') := by
  obtain ⟨op, hop, rfl⟩ := liftInsn_eq h
  rw [liftBefore_of_ne hleave] at hop ⊢
  exact ⟨op, rfl, hop⟩

end Dexe.Ir
