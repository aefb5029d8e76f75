import Dexe.Ir.Transfers

/-! The variable that an opcode defines and the ones that it reads. -/

namespace Dexe

namespace Operand

def vars : Operand → List VarId
  | var v => [v]
  | imm _ => []
  | mem base index _ _ => base.toList ++ index.toList

def bases (op : Operand) : List VarBase := op.vars.map VarId.base

def current (versions : Versions) : Operand → Operand
  | var v => var (versions.currentVar v.base)
  | imm n => imm n
  | mem base index scale disp =>
    mem (base.map fun v => versions.currentVar v.base)
      (index.map fun v => versions.currentVar v.base)
      scale disp

@[simp] lemma bases_current (versions : Versions) (op : Operand) :
    (op.current versions).bases = op.bases := by
  cases op with
  | mem base index scale disp => cases base <;> cases index <;> rfl
  | _ => rfl

lemma version_of_mem_current {versions : Versions} {op : Operand} {v : VarId}
    (hv : v ∈ (op.current versions).vars) : v.version = versions v.base := by
  cases op with
  | var u =>
    rw [List.mem_singleton.mp hv]
    rfl
  | imm n => cases hv
  | mem base index scale disp =>
    rcases List.mem_append.mp hv with hv | hv
    all_goals
      obtain ⟨u, -, rfl⟩ := Option.map_eq_some_iff.mp (Option.mem_toList.mp hv)
      rfl

end Operand

namespace Opcode

def dst : Opcode → Option VarId
  | mov dst _ | load dst _ | add dst _ _ | sub dst _ _ | mul dst _ _ | and dst _ _ | or dst _ _
  | xor dst _ _ | shl dst _ _ | shr dst _ _ | not dst _ | neg dst _ | lea dst _ | cmovcc _ dst _
  | setcc _ dst | pop dst => some dst
  | _ => none

def sources : Opcode → List Operand
  | mov _ src | not _ src | neg _ src | cmovcc _ _ src | push src => [src]
  | load _ addr | lea _ addr => [addr]
  | store addr src | atomicRMW _ addr src => [addr, src]
  | add _ lhs rhs | sub _ lhs rhs | mul _ lhs rhs | and _ lhs rhs | or _ lhs rhs | xor _ lhs rhs
  | shl _ lhs rhs | shr _ lhs rhs | cmp lhs rhs | test lhs rhs => [lhs, rhs]
  | call (.indirect op) _ => [op]
  | _ => []

/-- The operands that the emitter prints; `Cmovcc` is printed with its destination as well. -/
def operands (op : Opcode) : List Operand := op.sources ++ op.kept.toList.map Operand.var

def uses (op : Opcode) : List VarId := op.operands.flatMap Operand.vars

def sourceVars (op : Opcode) : List VarId := op.sources.flatMap Operand.vars

lemma mem_uses {op : Opcode} {v : VarId} :
    v ∈ op.uses ↔ v ∈ op.sourceVars ∨ v ∈ op.kept := by
  rw [uses, operands, List.flatMap_append, List.mem_append]
  refine or_congr Iff.rfl ?_
  cases op.kept with
  | none => simp
  | some u => simp [Operand.vars, eq_comm]

lemma dst_of_kept {op : Opcode} {v : VarId} (h : v ∈ op.kept) : v ∈ op.dst := by
  cases op with
  | cmovcc condition dst src => exact h
  | _ => cases h

end Opcode

namespace Ir

def AddressState.current (versions : Versions) (a : AddressState) : AddressState :=
  { a with
    baseReg := a.baseReg.map fun v => versions.currentVar v.base
    indexReg := a.indexReg.map fun v => versions.currentVar v.base }

lemma addressStep_current (versions w : Versions) (a : AddressState) (term : Text) :
    addressStep versions (a.current versions) term = (addressStep w a term).current versions := by
  unfold addressStep
  split
  · split
    · dsimp only
      split
      · rfl
      · split <;> rfl
    · rfl
  · split
    · rcases a with ⟨base, index, scale, disp⟩
      cases base <;> cases index <;> simp [AddressState.current, Versions.currentVar]
    · split <;> rfl

lemma foldl_addressStep_current (versions w : Versions) (terms : List Text) (a : AddressState) :
    terms.foldl (addressStep versions) (a.current versions) =
      (terms.foldl (addressStep w) a).current versions := by
  induction terms generalizing a with
  | nil => rfl
  | cons term terms ih =>
    rw [List.foldl_cons, List.foldl_cons, addressStep_current versions w, ih]

lemma parseMemoryOperand_current (versions w : Versions) (s : Text) :
    parseMemoryOperand s versions = (parseMemoryOperand s w).map (Operand.current versions) := by
  simp only [parseMemoryOperand]
  cases bracketed (stripSizePrefix s.trim) with
  | none => rfl
  | some inner =>
    have hfold := foldl_addressStep_current versions w (addressTerms inner) ⟨none, none, 1, 0⟩
    rw [AddressState.current] at hfold
    simp only [Option.bind_eq_bind, Option.bind_some, Option.map_none] at hfold ⊢
    rw [hfold]
    rfl

lemma parseSingleOperand_current (versions w : Versions) (s : Text) :
    parseSingleOperand s versions = (parseSingleOperand s w).map (Operand.current versions) := by
  unfold parseSingleOperand
  dsimp only
  split
  · exact parseMemoryOperand_current versions w _
  · split <;> rfl

end Ir

end Dexe
