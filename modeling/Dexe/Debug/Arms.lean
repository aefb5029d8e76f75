import Dexe.Debug.Lift

/-! Each arm of the lifter goes through when the texts that it reads are sound and the variable
that it defines has a next version. -/

namespace Dexe.Debug

open Ir Text Bits Collections

def HasNext (versions : Versions) (base : VarBase) : Prop := (versions base).toNat + 1 < 2 ^ 32

structure ArmOk (versions : Versions) (arm : Arm) (operands : List Text) : Prop where
  readings : ∀ r ∈ readings arm operands, r.1.Ok r.2
  next : ∀ base ∈ definedBase arm operands, HasNext versions base

variable {versions : Versions} {arm : Arm} {operands more : List Text} {m first second : Text}
  {addr : U64} {insn : DisassembledInsn}

lemma armOk_iff : ArmOk versions arm operands ↔
    (∀ r ∈ readings arm operands, r.1.Ok r.2) ∧
      ∀ base ∈ definedBase arm operands, HasNext versions base :=
  ⟨fun h => ⟨h.readings, h.next⟩, fun h => ⟨h.1, h.2⟩⟩

lemma guarded_newVersion (versions : Versions) (base : VarBase) :
    Guarded (HasNext versions base) (newVersion versions base) (some (versions.newVersion base)) :=
  Guarded.congr ((guarded_checkedAdd (versions base) 1).bind_some
    (Guarded.pure (versions.newVersion base))) (iff_of_eq (and_true _))

lemma guarded_plain {x : Lifted} (hread : readings arm operands = [])
    (hbase : definedBase arm operands = none) (hx : x.isSome) :
    Guarded (ArmOk versions arm operands) x x := by
  refine Guarded.of_isSome (iff_of_true hx ?_)
  rw [armOk_iff, hread, hbase]
  simp

lemma guarded_liftBinaryAlu :
    Guarded (ArmOk versions .alu operands) (liftBinaryAlu m operands addr versions)
      (Ir.liftBinaryAlu m operands addr versions) := by
  rcases operands with _ | ⟨first, _ | ⟨second, more⟩⟩
  · exact guarded_plain rfl rfl rfl
  · exact guarded_plain rfl rfl rfl
  · simp only [liftBinaryAlu, Ir.liftBinaryAlu, dstRegister_eq, Option.bind_eq_bind,
      Option.bind_some]
    refine Guarded.congr ((guarded_parseSingleOperand _).bind fun _ rhs _ =>
      (guarded_parseSingleOperand _).bind fun _ lhs _ =>
        (guarded_newVersion _ _).bind_some (Guarded.pure _)) ?_
    simp [armOk_iff, readings, Reading.Ok, definedBase, destination, and_assoc]

lemma operandOk_of_memory (h : isMemoryOperand first) : OperandOk first ↔ AddressOk first := by
  rw [OperandOk, if_pos h]

lemma guarded_liftMov :
    Guarded (ArmOk versions .mov operands) (liftMov operands m addr versions)
      (Ir.liftMov operands m addr versions) := by
  rcases operands with _ | ⟨first, _ | ⟨second, more⟩⟩
  · exact guarded_plain rfl rfl rfl
  · exact guarded_plain rfl rfl rfl
  · simp only [liftMov, Ir.liftMov, dstRegister_eq, Option.bind_eq_bind, Option.bind_some]
    by_cases hstore : isMemoryOperand first ∧ ¬ isMemoryOperand second
    · simp only [if_pos hstore]
      refine Guarded.congr ((guarded_parseMemoryOperand _).bind fun _ a _ =>
        (guarded_parseSingleOperand _).bind fun _ src _ => Guarded.pure _) ?_
      simp [armOk_iff, readings, Reading.Ok, definedBase, destination, fixedDestination, hstore,
        operandOk_of_memory hstore.1]
    · have hok : ArmOk versions .mov (first :: second :: more) ↔
          HasNext versions ((Ir.dstRegister first).getD .rax) ∧ OperandOk second := by
        simp [armOk_iff, readings, Reading.Ok, definedBase, destination, hstore, and_comm]
      simp only [if_neg hstore]
      by_cases hload : ¬ isMemoryOperand first ∧ isMemoryOperand second
      · simp only [if_pos hload]
        refine Guarded.congr ((guarded_newVersion _ _).bind_some
          ((guarded_parseMemoryOperand _).bind fun _ a _ => Guarded.pure _)) ?_
        rw [hok, and_true, operandOk_of_memory hload.2]
      · simp only [if_neg hload]
        refine Guarded.congr ((guarded_newVersion _ _).bind_some
          ((guarded_parseSingleOperand _).bind fun _ a _ => Guarded.pure _)) ?_
        rw [hok, and_true]

lemma guarded_liftUnaryReg (harm : arm = .not ∨ arm = .neg) :
    Guarded (ArmOk versions arm operands) (liftUnaryReg m operands addr versions)
      (Ir.liftUnaryReg m operands addr versions) := by
  have hread : readings arm operands = [] := by rcases harm with rfl | rfl <;> rfl
  rcases operands with _ | ⟨first, more⟩
  · refine guarded_plain hread ?_ rfl
    rcases harm with rfl | rfl <;> rfl
  · have hbase : definedBase arm (first :: more) =
        if isMemoryOperand first then none else some ((Ir.dstRegister first).getD .rax) := by
      rcases harm with rfl | rfl <;> simp only [definedBase, destination, fixedDestination] <;>
        split <;> rfl
    simp only [liftUnaryReg, Ir.liftUnaryReg, dstRegister_eq, Option.bind_eq_bind, Option.bind_some]
    by_cases hmem : isMemoryOperand first
    · simp only [if_pos hmem]
      exact guarded_plain hread (by rw [hbase, if_pos hmem]) rfl
    · simp only [if_neg hmem]
      have hkind : ∀ (op op' : Opcode) (v : Versions), (if m = "not" then some (op, v)
          else if m = "neg" then some (op', v) else unknown m addr v).isSome := by
        intro op op' v
        split_ifs <;> rfl
      refine Guarded.congr ((guarded_newVersion _ _).bind_some
        (Guarded.of_isSome (iff_of_true (hkind _ _ _) trivial))) ?_
      simp [armOk_iff, hread, hbase, hmem]

lemma guarded_liftCall (target : Text) (fallthrough : U64) :
    Guarded (OperandOk target) (liftCall target versions fallthrough)
      (Ir.liftCall target versions fallthrough) := by
  simp only [liftCall, Ir.liftCall, OperandOk, isMemoryOperand_trim]
  by_cases hmem : isMemoryOperand target
  · simp only [if_pos hmem]
    exact ((guarded_parseMemoryOperand _).map _).congr addressOk_trim
  · simp only [if_neg hmem]
    cases hr : parseRegister (trim target) with
    | some vb =>
      have hnone := parseImmediate_of_register (by rw [hr]; rfl)
      exact (Guarded.pure _).congr (iff_of_true trivial (not_negatesLeast_of_none hnone))
    | none =>
      refine Guarded.congr ((guarded_parseImmediate _).bind_some (q := True) ?_) ?_
      · cases Ir.parseImmediate (trim target) <;> exact Guarded.pure _
      · rw [and_true, negatesLeast_trim]

lemma guarded_liftJmp (target : Text) :
    Guarded (OperandOk target) (liftJmp target versions) (Ir.liftJmp target versions) := by
  have himm := guarded_parseImmediate (trim target)
  rw [negatesLeast_trim] at himm
  simp only [liftJmp, Ir.liftJmp, OperandOk, isMemoryOperand_trim]
  by_cases hmem : isMemoryOperand target
  · have hnone : Ir.parseImmediate (trim target) = none := by
      rw [parseImmediate_trim, parseImmediate_of_memory (isMemoryOperand_trim.mpr hmem)]
    have hleast := not_negatesLeast_of_none hnone
    rw [hnone] at himm ⊢
    simp only [if_pos hmem]
    refine Guarded.congr (himm.bind_some ((guarded_parseMemoryOperand _).map _)) ?_
    rw [addressOk_trim, and_iff_right (negatesLeast_trim.not.mp hleast)]
  · simp only [if_neg hmem]
    refine Guarded.congr (himm.bind_some (q := True) ?_) (by rw [and_true])
    cases Ir.parseImmediate (trim target) with
    | some a => exact Guarded.pure _
    | none => cases parseRegister (trim target) <;> exact Guarded.pure _

lemma guarded_jccTarget (operands : List Text) :
    Guarded (∀ t ∈ operands.head?, ¬ NegatesLeast t) (jccTarget operands)
      (some (Ir.jccTarget operands)) := by
  cases operands with
  | nil => exact (Guarded.pure _).congr (by simp)
  | cons first more =>
    refine Guarded.congr ((guarded_parseImmediate _).bind_some (Guarded.pure _)) ?_
    simp [negatesLeast_trim]

lemma findArm_ne {arms : List (Arm × List Text)} (h : ∀ p ∈ arms, p.1 ≠ arm) :
    findArm arms m ≠ some arm := by
  intro hfind
  obtain ⟨p, hp, rfl⟩ := Option.map_eq_some_iff.mp hfind
  exact h p (List.mem_of_find?_eq_some hp) rfl

lemma armOf_of_no_word {isLock : Bool} (hwords : ∀ p ∈ wordArms, p.1 ≠ arm)
    (hlate : ∀ p ∈ lateWordArms, p.1 ≠ arm) (hother : arm ≠ .other) (h : armOf isLock m = arm) :
    arm = .lock ∨ (arm = .cmov ∧ m.startsWith "cmov" = true) ∨
      (arm = .set ∧ m.startsWith "set" = true) ∨ arm = .condJump := by
  rw [armOf] at h
  cases hword : findArm wordArms m with
  | some word =>
    rw [hword] at h
    subst h
    exact absurd hword (findArm_ne hwords)
  | none =>
    simp only [hword] at h
    split_ifs at h with _ hcmov hset
    · exact .inl h.symm
    · exact .inr (.inl ⟨h.symm, hcmov⟩)
    · exact .inr (.inr (.inl ⟨h.symm, hset⟩))
    · exact .inr (.inr (.inr h.symm))
    · cases hword' : findArm lateWordArms m with
      | none =>
        rw [hword'] at h
        exact absurd h.symm hother
      | some word =>
        rw [hword'] at h
        subst h
        exact absurd hword' (findArm_ne hlate)

lemma startsWith_cmov {isLock : Bool} (h : armOf isLock m = .cmov) :
    m.startsWith "cmov" = true := by
  simpa using armOf_of_no_word (by decide) (by decide) (by decide) h

lemma startsWith_set {isLock : Bool} (h : armOf isLock m = .set) : m.startsWith "set" = true := by
  simpa using armOf_of_no_word (by decide) (by decide) (by decide) h

lemma nextAddress_eq (h : insn.address.toNat + insn.size.toNat < 2 ^ 64) :
    nextAddress insn = some (Ir.nextAddress insn) := by
  refine checkedAdd_of_lt ?_
  rwa [BitVec.toNat_setWidth_of_le (by norm_num)]

lemma guarded_liftArm {isLock : Bool} (harm : armOf isLock m = arm)
    (hfit : insn.address.toNat + insn.size.toNat < 2 ^ 64) :
    Guarded (ArmOk versions arm operands) (liftArm arm m operands insn versions)
      (Ir.liftArm arm m operands insn versions) := by
  cases arm with
  | nop | ret | xchg | signExtend | trap | other => exact guarded_plain rfl rfl rfl
  | mov => exact guarded_liftMov
  | alu => exact guarded_liftBinaryAlu
  | not => exact guarded_liftUnaryReg (.inl rfl)
  | neg => exact guarded_liftUnaryReg (.inr rfl)
  | lea =>
    rcases operands with _ | ⟨first, _ | ⟨second, more⟩⟩
    · exact guarded_plain rfl rfl rfl
    · exact guarded_plain rfl rfl rfl
    · simp only [liftArm, Ir.liftArm, dstRegister_eq, Option.bind_eq_bind, Option.bind_some]
      refine Guarded.congr ((guarded_newVersion _ _).bind_some
        ((guarded_parseMemoryOperand _).bind fun _ a _ => Guarded.pure _)) ?_
      simp [armOk_iff, readings, Reading.Ok, definedBase, destination, and_comm]
  | mul =>
    rcases operands with _ | ⟨first, _ | ⟨second, more⟩⟩
    · exact guarded_plain rfl rfl rfl
    · simp only [liftArm, Ir.liftArm, Option.bind_eq_bind]
      refine Guarded.congr ((guarded_parseSingleOperand _).bind fun _ src _ =>
        (guarded_newVersion _ _).bind_some (Guarded.pure _)) ?_
      simp [armOk_iff, readings, Reading.Ok, definedBase, destination, fixedDestination]
    · have halu : ArmOk versions .alu (first :: second :: more) ↔
          ArmOk versions .mul (first :: second :: more) := by
        rw [armOk_iff, armOk_iff]
        rfl
      exact guarded_liftBinaryAlu.congr halu
  | cmp | test | lock =>
    rcases operands with _ | ⟨first, _ | ⟨second, more⟩⟩
    · exact guarded_plain rfl rfl rfl
    · exact guarded_plain rfl rfl rfl
    · simp only [liftArm, Ir.liftArm, Option.bind_eq_bind]
      refine Guarded.congr ((guarded_parseSingleOperand _).bind fun _ a _ =>
        (guarded_parseSingleOperand _).bind fun _ b _ => Guarded.pure _) ?_
      simp [armOk_iff, readings, Reading.Ok, definedBase, destination, fixedDestination]
  | push =>
    rcases operands with _ | ⟨first, more⟩
    · exact guarded_plain rfl rfl rfl
    · simp only [liftArm, Ir.liftArm, Option.bind_eq_bind]
      refine Guarded.congr ((guarded_parseSingleOperand _).bind fun _ src _ => Guarded.pure _) ?_
      simp [armOk_iff, readings, Reading.Ok, definedBase, destination, fixedDestination]
  | pop | inc | dec =>
    rcases operands with _ | ⟨first, more⟩
    · exact guarded_plain rfl rfl rfl
    · simp only [liftArm, Ir.liftArm, dstRegister_eq, Option.bind_eq_bind, Option.bind_some]
      refine Guarded.congr ((guarded_newVersion _ _).bind_some (Guarded.pure _)) ?_
      simp [armOk_iff, readings, definedBase, destination]
  | call =>
    rcases operands with _ | ⟨first, more⟩
    · exact guarded_plain rfl rfl rfl
    · simp only [liftArm, Ir.liftArm, nextAddress_eq hfit, Option.bind_eq_bind, Option.bind_some]
      refine ((guarded_liftCall _ _).map _).congr ?_
      simp [armOk_iff, readings, Reading.Ok, definedBase, destination, fixedDestination]
  | jmp =>
    rcases operands with _ | ⟨first, more⟩
    · exact guarded_plain rfl rfl rfl
    · simp only [liftArm, Ir.liftArm]
      refine ((guarded_liftJmp _).map _).congr ?_
      simp [armOk_iff, readings, Reading.Ok, definedBase, destination, fixedDestination]
  | cmov =>
    rcases operands with _ | ⟨first, _ | ⟨second, more⟩⟩
    · exact guarded_plain rfl rfl rfl
    · exact guarded_plain rfl rfl rfl
    · have hslice : m.sliceFrom 4 = some (m.drop 4) :=
        sliceFrom_of_startsWith (p := "cmov") (by decide) (startsWith_cmov harm)
      simp only [liftArm, Ir.liftArm, hslice, parseConditionSuffix_eq, dstRegister_eq,
        Option.bind_eq_bind, Option.bind_some]
      refine Guarded.congr ((guarded_parseSingleOperand _).bind fun _ src _ =>
        (guarded_newVersion _ _).bind_some (Guarded.pure _)) ?_
      simp [armOk_iff, readings, Reading.Ok, definedBase, destination]
  | set =>
    rcases operands with _ | ⟨first, more⟩
    · exact guarded_plain rfl rfl rfl
    · have hslice : m.sliceFrom 3 = some (m.drop 3) :=
        sliceFrom_of_startsWith (p := "set") (by decide) (startsWith_set harm)
      simp only [liftArm, Ir.liftArm, hslice, parseConditionSuffix_eq, dstRegister_eq,
        Option.bind_eq_bind, Option.bind_some]
      refine Guarded.congr ((guarded_newVersion _ _).bind_some (Guarded.pure _)) ?_
      simp [armOk_iff, readings, definedBase, destination]
  | condJump =>
    simp only [liftArm, Ir.liftArm, parseConditionSuffix_eq, nextAddress_eq hfit,
      Option.bind_eq_bind, Option.bind_some]
    refine Guarded.congr ((guarded_jccTarget operands).bind_some (Guarded.pure _)) ?_
    cases operands <;>
      simp [armOk_iff, readings, Reading.Ok, definedBase, destination, fixedDestination]
  | leave =>
    simp only [liftArm, Ir.liftArm, Option.bind_eq_bind]
    refine Guarded.congr ((guarded_newVersion _ _).bind_some (Guarded.pure _)) ?_
    simp [armOk_iff, readings, definedBase, destination, fixedDestination]
  | syscall =>
    simp only [liftArm, nextAddress_eq hfit, Option.bind_eq_bind, Option.bind_some]
    exact guarded_plain rfl rfl rfl

end Dexe.Debug
