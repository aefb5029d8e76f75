import Dexe.Cfg.WellFormed
import Dexe.Debug.Blocks
import Dexe.Main

/-! Where a release build panics: at a slice between crossed brackets, and nowhere else. -/

namespace Dexe.Debug

open Std Ir Text Collections Frontend

def Uncrossed (arm : Arm) (operands : List Text) : Prop :=
  ∀ r ∈ readings arm operands, r.1 ≠ .immediate → ¬ Crossed r.2

variable {versions : Versions} {arm : Arm} {operands : List Text} {m : Text} {addr : U64}
  {insn : DisassembledInsn} {insns : List DisassembledInsn}

lemma uncrossed_nil (h : readings arm operands = []) : Uncrossed arm operands := by
  rw [Uncrossed, h]
  simp

lemma stops_never {x : Lifted} (hread : readings arm operands = []) (hx : x.isSome) :
    Guarded (Uncrossed arm operands) x x :=
  Guarded.of_isSome (iff_of_true hx (uncrossed_nil hread))

lemma stops_parseMemoryOperand (s : Text) : Guarded (¬ Crossed s)
    (Ir.parseMemoryOperand s versions) (Ir.parseMemoryOperand s versions) := by
  have hcrossed : Crossed (Ir.stripSizePrefix s.trim) ↔ Crossed s :=
    crossed_congr ((brackets_stripSizePrefix _).trans (brackets_trim s))
  have hbracketed := Guarded.of_isSome
    ((isSome_bracketed (Ir.stripSizePrefix s.trim)).trans (not_congr hcrossed))
  exact (hbracketed.bind fun _ inner _ => Guarded.pure _).congr (iff_of_eq (and_true _))

lemma stops_parseSingleOperand (s : Text) : Guarded (¬ Crossed s)
    (Ir.parseSingleOperand s versions) (Ir.parseSingleOperand s versions) := by
  simp only [Ir.parseSingleOperand]
  by_cases hmem : isMemoryOperand (trim s)
  · simp only [if_pos hmem]
    exact (stops_parseMemoryOperand _).congr (not_congr (crossed_congr (brackets_trim s)))
  · have huncrossed : ¬ Crossed s := fun h => hmem (isMemoryOperand_trim.mpr h.1)
    simp only [if_neg hmem]
    cases parseRegister (trim s) <;> exact (Guarded.pure _).congr (iff_of_true trivial huncrossed)

lemma stops_liftCall (target : Text) (fallthrough : U64) : Guarded (¬ Crossed target)
    (Ir.liftCall target versions fallthrough) (Ir.liftCall target versions fallthrough) := by
  simp only [Ir.liftCall]
  by_cases hmem : isMemoryOperand (trim target)
  · simp only [if_pos hmem]
    exact ((stops_parseMemoryOperand _).map _).congr
      (not_congr (crossed_congr (brackets_trim target)))
  · have huncrossed : ¬ Crossed target := fun h => hmem (isMemoryOperand_trim.mpr h.1)
    simp only [if_neg hmem]
    apply Guarded.of_isSome (iff_of_true _ huncrossed)
    cases parseRegister (trim target) with
    | some vb => rfl
    | none => cases Ir.parseImmediate (trim target) <;> rfl

lemma stops_liftJmp (target : Text) : Guarded (¬ Crossed target)
    (Ir.liftJmp target versions) (Ir.liftJmp target versions) := by
  simp only [Ir.liftJmp]
  by_cases hmem : isMemoryOperand (trim target)
  · have hnone : Ir.parseImmediate (trim target) = none := by
      rw [parseImmediate_trim, parseImmediate_of_memory hmem]
    simp only [hnone, if_pos hmem]
    exact ((stops_parseMemoryOperand _).map _).congr
      (not_congr (crossed_congr (brackets_trim target)))
  · have huncrossed : ¬ Crossed target := fun h => hmem (isMemoryOperand_trim.mpr h.1)
    simp only [if_neg hmem]
    apply Guarded.of_isSome (iff_of_true _ huncrossed)
    cases Ir.parseImmediate (trim target) with
    | some a => rfl
    | none => cases parseRegister (trim target) <;> rfl

lemma stops_liftBinaryAlu : Guarded (Uncrossed .alu operands)
    (Ir.liftBinaryAlu m operands addr versions) (Ir.liftBinaryAlu m operands addr versions) := by
  rcases operands with _ | ⟨first, _ | ⟨second, more⟩⟩
  · exact stops_never rfl rfl
  · exact stops_never rfl rfl
  · simp only [Ir.liftBinaryAlu, Option.bind_eq_bind]
    refine Guarded.congr ((stops_parseSingleOperand _).bind fun _ rhs _ =>
      (stops_parseSingleOperand _).bind fun _ lhs _ => Guarded.pure _) ?_
    simp [Uncrossed, readings]

lemma stops_liftMov : Guarded (Uncrossed .mov operands)
    (Ir.liftMov operands m addr versions) (Ir.liftMov operands m addr versions) := by
  rcases operands with _ | ⟨first, _ | ⟨second, more⟩⟩
  · exact stops_never rfl rfl
  · exact stops_never rfl rfl
  · simp only [Ir.liftMov, Option.bind_eq_bind]
    by_cases hstore : isMemoryOperand first ∧ ¬ isMemoryOperand second
    · simp only [if_pos hstore]
      refine Guarded.congr ((stops_parseMemoryOperand _).bind fun _ a _ =>
        (stops_parseSingleOperand _).bind fun _ src _ => Guarded.pure _) ?_
      simp [Uncrossed, readings, hstore]
    · have hread : Uncrossed .mov (first :: second :: more) ↔ ¬ Crossed second := by
        simp [Uncrossed, readings, hstore]
      simp only [if_neg hstore]
      by_cases hload : ¬ isMemoryOperand first ∧ isMemoryOperand second
      · simp only [if_pos hload]
        refine Guarded.congr ((stops_parseMemoryOperand _).bind fun _ a _ => Guarded.pure _) ?_
        rw [hread, and_true]
      · simp only [if_neg hload]
        refine Guarded.congr ((stops_parseSingleOperand _).bind fun _ a _ => Guarded.pure _) ?_
        rw [hread, and_true]

lemma stops_liftUnaryReg (harm : arm = .not ∨ arm = .neg) : Guarded (Uncrossed arm operands)
    (Ir.liftUnaryReg m operands addr versions) (Ir.liftUnaryReg m operands addr versions) := by
  have hread : readings arm operands = [] := by rcases harm with rfl | rfl <;> rfl
  apply stops_never hread
  cases operands with
  | nil => rfl
  | cons first more =>
    simp only [Ir.liftUnaryReg]
    split_ifs <;> rfl

lemma stops_liftArm : Guarded (Uncrossed arm operands)
    (Ir.liftArm arm m operands insn versions) (Ir.liftArm arm m operands insn versions) := by
  cases arm with
  | nop | ret | xchg | signExtend | trap | other | leave | syscall => exact stops_never rfl rfl
  | mov => exact stops_liftMov
  | alu => exact stops_liftBinaryAlu
  | not => exact stops_liftUnaryReg (.inl rfl)
  | neg => exact stops_liftUnaryReg (.inr rfl)
  | lea =>
    rcases operands with _ | ⟨first, _ | ⟨second, more⟩⟩
    · exact stops_never rfl rfl
    · exact stops_never rfl rfl
    · simp only [Ir.liftArm, Option.bind_eq_bind]
      refine Guarded.congr ((stops_parseMemoryOperand _).bind fun _ a _ => Guarded.pure _) ?_
      simp [Uncrossed, readings]
  | mul =>
    rcases operands with _ | ⟨first, _ | ⟨second, more⟩⟩
    · exact stops_never rfl rfl
    · simp only [Ir.liftArm, Option.bind_eq_bind]
      refine Guarded.congr ((stops_parseSingleOperand _).bind fun _ src _ => Guarded.pure _) ?_
      simp [Uncrossed, readings]
    · have halu : Uncrossed .alu (first :: second :: more) ↔
          Uncrossed .mul (first :: second :: more) := Iff.rfl
      exact stops_liftBinaryAlu.congr halu
  | cmp | test | lock =>
    rcases operands with _ | ⟨first, _ | ⟨second, more⟩⟩
    · exact stops_never rfl rfl
    · exact stops_never rfl rfl
    · simp only [Ir.liftArm, Option.bind_eq_bind]
      refine Guarded.congr ((stops_parseSingleOperand _).bind fun _ a _ =>
        (stops_parseSingleOperand _).bind fun _ b _ => Guarded.pure _) ?_
      simp [Uncrossed, readings]
  | push =>
    rcases operands with _ | ⟨first, more⟩
    · exact stops_never rfl rfl
    · simp only [Ir.liftArm, Option.bind_eq_bind]
      refine Guarded.congr ((stops_parseSingleOperand _).bind fun _ src _ => Guarded.pure _) ?_
      simp [Uncrossed, readings]
  | pop | inc | dec | set => cases operands <;> exact stops_never rfl rfl
  | call =>
    rcases operands with _ | ⟨first, more⟩
    · exact stops_never rfl rfl
    · refine ((stops_liftCall _ _).map _).congr ?_
      simp [Uncrossed, readings]
  | jmp =>
    rcases operands with _ | ⟨first, more⟩
    · exact stops_never rfl rfl
    · refine ((stops_liftJmp _).map _).congr ?_
      simp [Uncrossed, readings]
  | cmov =>
    rcases operands with _ | ⟨first, _ | ⟨second, more⟩⟩
    · exact stops_never rfl rfl
    · exact stops_never rfl rfl
    · simp only [Ir.liftArm, Option.bind_eq_bind]
      refine Guarded.congr ((stops_parseSingleOperand _).bind fun _ src _ => Guarded.pure _) ?_
      simp [Uncrossed, readings]
  | condJump =>
    refine Guarded.of_isSome (iff_of_true rfl ?_)
    cases operands <;> simp [Uncrossed, readings]

def InsnUncrossed (insn : DisassembledInsn) : Prop :=
  Uncrossed (armOfInsn insn) (Ir.parseOperands insn.opStr)

lemma stops_liftInsn : Guarded (InsnUncrossed insn) (Ir.liftInsn insn versions)
    (Ir.liftInsn insn versions) := by
  rw [Ir.liftInsn]
  exact (stops_liftArm.bind fun _ _ _ => Guarded.pure _).congr (iff_of_eq (and_true _))

lemma stops_liftInsns (versions : Versions) : Guarded (∀ i ∈ insns, InsnUncrossed i)
    (Ir.liftInsns insns versions) (Ir.liftInsns insns versions) := by
  induction insns generalizing versions with
  | nil => exact (Guarded.pure _).congr (by simp)
  | cons insn insns ih =>
    rw [Ir.liftInsns, List.forall_mem_cons]
    apply stops_liftInsn.bind
    rintro - ⟨irs, versions'⟩ -
    exact ((ih versions').bind fun _ b _ => Guarded.pure _).congr (iff_of_eq (and_true _))

lemma stops_liftBlock (id : BlockId) (b : BasicBlock) :
    Guarded (∀ i ∈ b.instructions, InsnUncrossed i) (Ir.liftBlock id b) (Ir.liftBlock id b) :=
  ((stops_liftInsns Versions.initial).bind fun _ _ _ => Guarded.pure _).congr
    (iff_of_eq (and_true _))

lemma stops_liftFunction (f : DisassembledFunction) :
    Guarded (∀ i ∈ f.instructions, InsnUncrossed i) (Dexe.liftFunction (Dexe.buildCfg f))
      (Dexe.liftFunction (Dexe.buildCfg f)) := by
  have hblocks := guarded_mapM (l := (Dexe.buildCfg f).blocks.toList) fun p _ =>
    (stops_liftBlock p.1 p.2).map fun b => (p.1, b)
  refine Guarded.congr (hblocks.bind fun _ blocks _ => Guarded.pure _) ?_
  have hperm := Cfg.perm_blocks f
  simp only [and_true, ← hperm.mem_iff, List.mem_flatMap]
  exact ⟨fun h i ⟨p, hp, hi⟩ => h p hp i hi, fun h p hp i hi => h i ⟨p, hp, hi⟩⟩

/-- A release build goes through a file exactly when no text that it reads as an operand or an
address has a `]` and a `[` in this order only. -/
theorem release_isSome_iff (cs : Capstone) (info : BinaryInfo) :
    (Main.decompileInfo cs info).isSome ↔ ∀ functions,
      Frontend.discoverFunctions cs info = .ok functions →
        ∀ f ∈ functions, ∀ i ∈ f.instructions, InsnUncrossed i := by
  rw [Main.decompileInfo]
  cases hfound : Frontend.discoverFunctions cs info with
  | error e => exact iff_of_true rfl fun functions h => by cases h
  | ok functions =>
    have hlift := guarded_mapM (l := functions) fun f _ => stops_liftFunction f
    show ((Dexe.liftAll functions).map _).isSome ↔ _
    rw [Option.isSome_map, Dexe.liftAll, hlift.isSome_iff]
    exact ⟨fun h fs hfs => Except.ok.inj hfs ▸ h, fun h => h functions rfl⟩

end Dexe.Debug
