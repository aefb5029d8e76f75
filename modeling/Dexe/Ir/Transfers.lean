import Dexe.Ir.Lift
import Mathlib.Tactic

/-! Which instructions are lifted to a transfer of control, and which to a choice. -/

namespace Dexe

inductive Transfer
  | jump (target : U64)
  | branch (target : U64)
  | ret
  deriving DecidableEq, Repr

def Opcode.transfer : Opcode → Option Transfer
  | .jmp target => some (.jump target)
  | .jcc _ target _ => some (.branch target)
  | .ret => some .ret
  | _ => none

def Opcode.kept : Opcode → Option VarId
  | .cmovcc _ dst _ => some dst
  | _ => none

namespace Opcode

lemma transfer_eq_jump {op : Opcode} {t : U64} (h : op.transfer = some (.jump t)) :
    op = .jmp t := by
  cases op <;> cases h
  rfl

lemma transfer_eq_branch {op : Opcode} {t : U64} (h : op.transfer = some (.branch t)) :
    ∃ condition fallthrough, op = .jcc condition t fallthrough := by
  cases op <;> cases h
  exact ⟨_, _, rfl⟩

lemma transfer_eq_ret {op : Opcode} (h : op.transfer = some .ret) : op = .ret := by
  cases op <;> cases h
  rfl

end Opcode

namespace Ir

def jmpTarget (targetStr : Text) : Option U64 :=
  match parseImmediate targetStr.trim with
  | some addr => some addr
  | none =>
    if isMemoryOperand targetStr.trim ∨ (parseRegister targetStr.trim).isSome then none else some 0

def armTransfer (arm : Arm) (operands : List Text) : Option Transfer :=
  match arm with
  | .ret | .trap => some .ret
  | .jmp => operands.head?.bind fun first => (jmpTarget first).map .jump
  | .condJump => some (.branch (jccTarget operands))
  | _ => none

def armOfInsn (insn : DisassembledInsn) : Arm :=
  armOf (lockedMnemonic insn.mnemonic).1 (lockedMnemonic insn.mnemonic).2

def transferOf (insn : DisassembledInsn) : Option Transfer :=
  armTransfer (armOfInsn insn) (parseOperands insn.opStr)

lemma armOfInsn_jmp {i : DisassembledInsn} (h : i.mnemonic = "jmp") : armOfInsn i = .jmp := by
  rw [armOfInsn, h]
  decide

lemma armOfInsn_call {i : DisassembledInsn} (h : i.mnemonic = "call") : armOfInsn i = .call := by
  rw [armOfInsn, h]
  decide

lemma armOfInsn_condJump {i : DisassembledInsn} (h : i.mnemonic ∈ Cfg.condJumps) :
    armOfInsn i = .condJump := by
  have hall : ∀ m ∈ Cfg.condJumps, armOf (lockedMnemonic m).1 (lockedMnemonic m).2 = .condJump := by
    decide
  exact hall _ h

structure ArmShape (arm : Arm) (operands : List Text) (op : Opcode) : Prop where
  transfer : op.transfer = armTransfer arm operands
  kept : op.kept.isSome ↔ arm = .cmov ∧ 2 ≤ operands.length

section Arms

variable {operands : List Text} {m : Text} {addr : U64} {versions versions' : Versions}
  {op : Opcode}

lemma armShape_of_ne {arm : Arm} (harm : arm ≠ .cmov)
    (htransfer : op.transfer = armTransfer arm operands) (hkept : op.kept = none) :
    ArmShape arm operands op :=
  ⟨htransfer, by simp [hkept, harm]⟩

lemma liftBinaryAlu_shape (h : liftBinaryAlu m operands addr versions = some (op, versions')) :
    op.transfer = none ∧ op.kept = none := by
  simp only [liftBinaryAlu] at h
  split at h
  · obtain ⟨rhs, _, h⟩ := Option.bind_eq_some_iff.mp h
    obtain ⟨lhs, _, h⟩ := Option.bind_eq_some_iff.mp h
    cases h
    repeat' split
    all_goals exact ⟨rfl, rfl⟩
  · cases h
    exact ⟨rfl, rfl⟩

lemma liftMov_shape (h : liftMov operands m addr versions = some (op, versions')) :
    op.transfer = none ∧ op.kept = none := by
  simp only [liftMov] at h
  split at h
  · split at h
    · obtain ⟨_, _, h⟩ := Option.bind_eq_some_iff.mp h
      obtain ⟨_, _, h⟩ := Option.bind_eq_some_iff.mp h
      cases h
      exact ⟨rfl, rfl⟩
    · split at h
      all_goals
        obtain ⟨_, _, h⟩ := Option.bind_eq_some_iff.mp h
        cases h
        exact ⟨rfl, rfl⟩
  · cases h
    exact ⟨rfl, rfl⟩

lemma liftUnaryReg_shape (h : liftUnaryReg m operands addr versions = some (op, versions')) :
    op.transfer = none ∧ op.kept = none := by
  simp only [liftUnaryReg] at h
  repeat' split at h
  all_goals
    cases h
    exact ⟨rfl, rfl⟩

lemma liftCall_shape {target : Text} {fallthrough : U64}
    (h : liftCall target versions fallthrough = some op) :
    op.transfer = none ∧ op.kept = none := by
  simp only [liftCall] at h
  split at h
  · obtain ⟨_, _, rfl⟩ := Option.map_eq_some_iff.mp h
    exact ⟨rfl, rfl⟩
  · repeat' split at h
    all_goals
      cases h
      exact ⟨rfl, rfl⟩

lemma liftJmp_shape {target : Text} (h : liftJmp target versions = some op) :
    op.transfer = (jmpTarget target).map .jump ∧ op.kept = none := by
  simp only [liftJmp] at h
  rw [jmpTarget]
  cases hi : parseImmediate target.trim with
  | some a =>
    simp only [hi, Option.some.injEq] at h
    subst h
    exact ⟨rfl, rfl⟩
  | none =>
    simp only [hi] at h
    by_cases hm : isMemoryOperand target.trim
    · rw [if_pos hm] at h
      obtain ⟨_, _, rfl⟩ := Option.map_eq_some_iff.mp h
      rw [if_pos (.inl hm)]
      exact ⟨rfl, rfl⟩
    · rw [if_neg hm] at h
      cases hr : parseRegister target.trim with
      | some vb =>
        simp only [hr, Option.some.injEq] at h
        subst h
        rw [if_pos (.inr rfl)]
        exact ⟨rfl, rfl⟩
      | none =>
        simp only [hr, Option.some.injEq] at h
        subst h
        rw [if_neg (by simp [hm])]
        exact ⟨rfl, rfl⟩

end Arms

lemma liftArm_shape {arm : Arm} {m : Text} {operands : List Text} {insn : DisassembledInsn}
    {versions versions' : Versions} {op : Opcode}
    (h : liftArm arm m operands insn versions = some (op, versions')) :
    ArmShape arm operands op := by
  cases arm with
  | mov =>
    obtain ⟨htransfer, hkept⟩ := liftMov_shape h
    exact armShape_of_ne (by decide) htransfer hkept
  | alu =>
    obtain ⟨htransfer, hkept⟩ := liftBinaryAlu_shape h
    exact armShape_of_ne (by decide) htransfer hkept
  | not | neg =>
    obtain ⟨htransfer, hkept⟩ := liftUnaryReg_shape h
    exact armShape_of_ne (by decide) htransfer hkept
  | mul =>
    simp only [liftArm] at h
    split at h
    · obtain ⟨_, _, h⟩ := Option.bind_eq_some_iff.mp h
      cases h
      exact armShape_of_ne (by decide) rfl rfl
    · obtain ⟨htransfer, hkept⟩ := liftBinaryAlu_shape h
      exact armShape_of_ne (by decide) htransfer hkept
  | call =>
    simp only [liftArm] at h
    split at h
    · obtain ⟨_, hop, h⟩ := Option.map_eq_some_iff.mp h
      cases h
      obtain ⟨htransfer, hkept⟩ := liftCall_shape hop
      exact armShape_of_ne (by decide) htransfer hkept
    · cases h
      exact armShape_of_ne (by decide) rfl rfl
  | jmp =>
    simp only [liftArm] at h
    split at h
    · obtain ⟨_, hop, h⟩ := Option.map_eq_some_iff.mp h
      cases h
      obtain ⟨htransfer, hkept⟩ := liftJmp_shape hop
      exact armShape_of_ne (by decide) htransfer hkept
    · cases h
      exact armShape_of_ne (by decide) rfl rfl
  | lea | push =>
    simp only [liftArm] at h
    split at h
    · obtain ⟨_, _, h⟩ := Option.bind_eq_some_iff.mp h
      cases h
      exact armShape_of_ne (by decide) rfl rfl
    · cases h
      exact armShape_of_ne (by decide) rfl rfl
  | cmp | test | lock =>
    simp only [liftArm] at h
    split at h
    · obtain ⟨_, _, h⟩ := Option.bind_eq_some_iff.mp h
      obtain ⟨_, _, h⟩ := Option.bind_eq_some_iff.mp h
      cases h
      exact armShape_of_ne (by decide) rfl rfl
    · cases h
      exact armShape_of_ne (by decide) rfl rfl
  | cmov =>
    rcases operands with _ | ⟨first, _ | ⟨second, more⟩⟩
    · cases h
      exact ⟨rfl, by simp [Opcode.kept]⟩
    · cases h
      exact ⟨rfl, by simp [Opcode.kept]⟩
    · obtain ⟨_, _, h⟩ := Option.bind_eq_some_iff.mp h
      cases h
      exact ⟨rfl, by simp [Opcode.kept]⟩
  | pop | set | inc | dec =>
    simp only [liftArm] at h
    split at h
    all_goals
      cases h
      exact armShape_of_ne (by decide) rfl rfl
  | nop | ret | condJump | leave | xchg | signExtend | trap | syscall | other =>
    cases h
    exact armShape_of_ne (by decide) rfl rfl

lemma liftBefore_transfer (arm : Arm) (versions : Versions) :
    ∀ op ∈ (liftBefore arm versions).1, op.transfer = none := by
  intro op hop
  cases arm with
  | leave =>
    rw [List.mem_singleton.mp hop]
    rfl
  | _ => simp [liftBefore] at hop

/-- The IR of an instruction: opcodes that go on to the next one, and then the one that makes
the transfer of the instruction. -/
def IsLiftOf (insn : DisassembledInsn) (irs : List IRInstruction) : Prop :=
  ∃ (before : List Opcode) (op : Opcode), irs = (before ++ [op]).map (⟨insn.address, ·⟩) ∧
    (∀ o ∈ before, o.transfer = none) ∧ op.transfer = transferOf insn

lemma IsLiftOf.ne_nil {i : DisassembledInsn} {irs : List IRInstruction} (h : IsLiftOf i irs) :
    irs ≠ [] := by
  obtain ⟨before, op, rfl, _⟩ := h
  simp

lemma IsLiftOf.addr {i : DisassembledInsn} {irs : List IRInstruction} (h : IsLiftOf i irs) :
    ∀ ir ∈ irs, ir.addr = i.address := by
  obtain ⟨before, op, rfl, _⟩ := h
  intro ir hir
  obtain ⟨o, _, rfl⟩ := List.mem_map.mp hir
  rfl

lemma IsLiftOf.forall_iff {P : Option Transfer → Prop} (hP : P none) {i : DisassembledInsn}
    {irs : List IRInstruction} (h : IsLiftOf i irs) :
    (∀ x ∈ irs, P x.opcode.transfer) ↔ P (transferOf i) := by
  obtain ⟨before, op, rfl, hbefore, hop⟩ := h
  rw [← hop]
  constructor
  · intro h
    exact h ⟨i.address, op⟩ (by simp)
  · intro hlast x hx
    obtain ⟨o, ho, rfl⟩ := List.mem_map.mp hx
    rcases List.mem_append.mp ho with ho | ho
    · simpa only [hbefore o ho] using hP
    · rw [List.mem_singleton.mp ho]
      exact hlast

lemma forall_flatten_iff {P : Option Transfer → Prop} (hP : P none) {g : List DisassembledInsn}
    {chunks : List (List IRInstruction)} (h : List.Forall₂ IsLiftOf g chunks) :
    (∀ x ∈ chunks.flatten, P x.opcode.transfer) ↔ ∀ i ∈ g, P (transferOf i) := by
  induction h with
  | nil => simp
  | cons hi _ ih =>
    rw [List.flatten_cons, List.forall_mem_append, List.forall_mem_cons, ih, hi.forall_iff hP]

lemma liftInsn_isLiftOf {insn : DisassembledInsn} {versions versions' : Versions}
    {irs : List IRInstruction} (h : liftInsn insn versions = some (irs, versions')) :
    IsLiftOf insn irs := by
  obtain ⟨⟨op, v⟩, hop, h⟩ := Option.bind_eq_some_iff.mp h
  cases h
  exact ⟨_, op, rfl, liftBefore_transfer _ _, (liftArm_shape hop).transfer⟩

end Ir

end Dexe
