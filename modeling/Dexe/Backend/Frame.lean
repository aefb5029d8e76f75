import Dexe.Backend.Evaluation
import Dexe.Clang.Frame
import Dexe.Ir.Numbering
import Dexe.Straight.Simulation

/-! The registers that the statements of a lifted instruction assign to. -/

namespace Dexe

open Std Clang Backend

def Opcode.implicit : Opcode → List VarBase
  | .push _ | .pop _ => [.rsp]
  | .call _ _ => [.rsp, .rax]
  | .cmp _ _ | .test _ _ => [.rflags]
  | _ => []

namespace Backend

variable (symbols : SymbolTable) (funcNames : TreeMap U64 Text)

def assignedPlaces (op : Opcode) : List Place :=
  (opcodeStmts symbols funcNames op).filterMap assigned

lemma assigned_setTo (dst : VarId) (e : Expr) : assigned (setTo dst e) = some (place dst.base) := by
  rcases dst with ⟨base, version⟩
  cases base <;> rfl

lemma assignedPlaces_eq (op : Opcode) :
    assignedPlaces symbols funcNames op =
      op.dst.toList.map (fun v => place v.base) ++ op.implicit.map place := by
  have hset : ∀ dst e l, (setTo dst e :: l).filterMap assigned =
      place dst.base :: l.filterMap assigned := by
    intro dst e l
    rw [List.filterMap_cons, assigned_setTo]
  cases op with
  | mov | load | not | neg | lea | cmovcc | setcc | pop => exact hset _ _ _
  | add | sub | mul | and | or | xor | shl | shr => exact hset _ _ _
  | atomicRMW op addr src =>
    have hnone : assignedPlaces symbols funcNames (.atomicRMW op addr src) = [] := by
      rw [assignedPlaces, opcodeStmts]
      split <;> rfl
    exact hnone
  | _ => rfl

lemma mem_assignedPlaces {op : Opcode} {p : Place} :
    p ∈ assignedPlaces symbols funcNames op ↔
      (∃ v ∈ op.dst, place v.base = p) ∨ ∃ base ∈ op.implicit, place base = p := by
  rw [assignedPlaces_eq, List.mem_append, List.mem_map, List.mem_map]
  simp only [Option.mem_toList]
  exact Iff.rfl

end Backend

namespace Ir

def destination (arm : Arm) (operands : List Text) : Option Text :=
  match arm, operands with
  | .mov, first :: second :: _ =>
    if isMemoryOperand first ∧ ¬ isMemoryOperand second then none else some first
  | .lea, first :: _ :: _ | .alu, first :: _ :: _ | .cmov, first :: _ :: _ => some first
  | .not, first :: _ | .neg, first :: _ => if isMemoryOperand first then none else some first
  | .pop, first :: _ | .set, first :: _ | .inc, first :: _ | .dec, first :: _ => some first
  | _, _ => none

def fixedDestination (arm : Arm) (operands : List Text) : Option VarBase :=
  match arm, operands with
  | .mul, [_] => some .rax
  | .mul, first :: _ :: _ => some ((dstRegister first).getD .rax)
  | .leave, _ => some .rbp
  | _, _ => none

def definedBase (arm : Arm) (operands : List Text) : Option VarBase :=
  ((destination arm operands).map fun t => (dstRegister t).getD .rax).or
    (fixedDestination arm operands)

def numbered (insn : DisassembledInsn) : List VarBase :=
  (if armOfInsn insn = .leave then [.rsp] else []) ++
    (definedBase (armOfInsn insn) (parseOperands insn.opStr)).toList

def implicitOf (arm : Arm) (operands : List Text) : List VarBase :=
  match arm, operands with
  | .push, _ :: _ | .pop, _ :: _ | .leave, _ => [.rsp]
  | .call, _ :: _ | .syscall, _ => [.rsp, .rax]
  | .jmp, first :: _ => if jmpTarget first = none then [.rsp, .rax] else []
  | .cmp, _ :: _ :: _ | .test, _ :: _ :: _ => [.rflags]
  | _, _ => []

section Arms

variable {operands : List Text} {m : Text} {addr : U64} {versions versions' : Versions}
  {op : Opcode}

structure AssignSpec (arm : Arm) (operands : List Text) (op : Opcode) : Prop where
  dst : op.dst.map VarId.base = definedBase arm operands
  implicit : op.implicit = implicitOf arm operands

lemma liftCall_assign {target : Text} {fallthrough : U64}
    (h : liftCall target versions fallthrough = some op) :
    op.dst = none ∧ op.implicit = [.rsp, .rax] := by
  simp only [liftCall] at h
  split at h
  · obtain ⟨o, -, rfl⟩ := Option.map_eq_some_iff.mp h
    exact ⟨rfl, rfl⟩
  · repeat' split at h
    all_goals
      cases h
      exact ⟨rfl, rfl⟩

lemma liftJmp_assign {target : Text} (h : liftJmp target versions = some op) :
    op.dst = none ∧ op.implicit = if jmpTarget target = none then [.rsp, .rax] else [] := by
  simp only [liftJmp] at h
  rw [jmpTarget]
  cases hi : parseImmediate target.trim with
  | some a =>
    rw [hi] at h
    cases h
    exact ⟨rfl, rfl⟩
  | none =>
    simp only [hi] at h
    by_cases hm : isMemoryOperand target.trim
    · rw [if_pos hm] at h
      obtain ⟨o, -, rfl⟩ := Option.map_eq_some_iff.mp h
      simp [hm, Opcode.dst, Opcode.implicit]
    · rw [if_neg hm] at h
      cases hr : parseRegister target.trim with
      | some vb =>
        simp only [hr, Option.some.injEq] at h
        subst h
        simp [Opcode.dst, Opcode.implicit]
      | none =>
        simp only [hr, Option.some.injEq] at h
        subst h
        simp [hm, Opcode.dst, Opcode.implicit]

lemma liftBinaryAlu_assign {first second : Text} {more : List Text}
    (h : liftBinaryAlu m (first :: second :: more) addr versions = some (op, versions'))
    (hm : m ∈ aluWords) :
    op.dst.map VarId.base = some ((dstRegister first).getD .rax) ∧ op.implicit = [] := by
  obtain ⟨make, hmake, lhs, rhs, _, _, -, -, rfl, -⟩ := liftBinaryAlu_eq h hm
  simp only [binaryOpcodes, List.mem_cons, List.not_mem_nil, or_false] at hmake
  rcases hmake with rfl | rfl | rfl | rfl | rfl | rfl | rfl | rfl
  all_goals exact ⟨congrArg some (Versions.newVersion_base _ _), rfl⟩

lemma assignSpec_unknown {arm : Arm} (h : unknown m addr versions = some (op, versions'))
    (hdst : destination arm operands = none) (hfixed : fixedDestination arm operands = none)
    (himplicit : implicitOf arm operands = []) : AssignSpec arm operands op := by
  cases h
  exact ⟨by rw [definedBase, hdst, hfixed]; rfl, himplicit.symm⟩

lemma liftMov_assign {first second : Text} {more : List Text}
    (h : liftMov (first :: second :: more) m addr versions = some (op, versions')) :
    AssignSpec .mov (first :: second :: more) op := by
  rw [liftMov] at h
  by_cases hstore : isMemoryOperand first ∧ ¬ isMemoryOperand second
  · rw [if_pos hstore] at h
    obtain ⟨a, -, h⟩ := Option.bind_eq_some_iff.mp h
    obtain ⟨src, -, h⟩ := Option.bind_eq_some_iff.mp h
    cases h
    refine ⟨?_, rfl⟩
    rw [definedBase, destination, if_pos hstore]
    rfl
  · rw [if_neg hstore] at h
    have hdst : destination .mov (first :: second :: more) = some first := if_neg hstore
    split at h
    all_goals
      obtain ⟨src, -, h⟩ := Option.bind_eq_some_iff.mp h
      cases h
      refine ⟨?_, rfl⟩
      rw [definedBase, hdst]
      rfl

lemma liftUnaryReg_assign {arm : Arm} {first : Text} {more : List Text}
    (h : liftUnaryReg m (first :: more) addr versions = some (op, versions'))
    (hm : arm = .not ∧ m = "not" ∨ arm = .neg ∧ m = "neg") :
    AssignSpec arm (first :: more) op := by
  have hdst : destination arm (first :: more) =
      if isMemoryOperand first then none else some first := by
    rcases hm with ⟨rfl, -⟩ | ⟨rfl, -⟩ <;> rfl
  have hfixed : fixedDestination arm (first :: more) = none := by
    rcases hm with ⟨rfl, -⟩ | ⟨rfl, -⟩ <;> rfl
  have himplicit : implicitOf arm (first :: more) = [] := by
    rcases hm with ⟨rfl, -⟩ | ⟨rfl, -⟩ <;> rfl
  rw [liftUnaryReg] at h
  by_cases hmem : isMemoryOperand first
  · rw [if_pos hmem] at h
    rw [if_pos hmem] at hdst
    exact assignSpec_unknown h hdst hfixed himplicit
  · rw [if_neg hmem] at h
    rw [if_neg hmem] at hdst
    refine ⟨?_, ?_⟩
    all_goals
      rcases hm with ⟨-, rfl⟩ | ⟨-, rfl⟩
      all_goals
        cases h
        simp [definedBase, hdst, hfixed, himplicit, Opcode.dst, Opcode.implicit]

lemma liftArm_assign {arm : Arm} {insn : DisassembledInsn} {isLock : Bool}
    (harm : armOf isLock m = arm)
    (h : liftArm arm m operands insn versions = some (op, versions')) :
    AssignSpec arm operands op := by
  cases arm with
  | mov =>
    rcases operands with _ | ⟨first, _ | ⟨second, more⟩⟩
    · exact assignSpec_unknown h rfl rfl rfl
    · exact assignSpec_unknown h rfl rfl rfl
    · have hmov : liftMov (first :: second :: more) m insn.address versions =
          some (op, versions') :=
        h
      exact liftMov_assign hmov
  | alu =>
    rcases operands with _ | ⟨first, _ | ⟨second, more⟩⟩
    · exact assignSpec_unknown h rfl rfl rfl
    · exact assignSpec_unknown h rfl rfl rfl
    · obtain ⟨hdst, himplicit⟩ := liftBinaryAlu_assign h (armOf_alu harm)
      exact ⟨hdst, himplicit⟩
  | mul =>
    rcases operands with _ | ⟨first, _ | ⟨second, more⟩⟩
    · exact assignSpec_unknown h rfl rfl rfl
    · obtain ⟨src, -, h⟩ := Option.bind_eq_some_iff.mp h
      cases h
      exact ⟨rfl, rfl⟩
    · obtain ⟨hdst, himplicit⟩ := liftBinaryAlu_assign h (by decide)
      exact ⟨hdst, himplicit⟩
  | not =>
    rcases operands with _ | ⟨first, more⟩
    · exact assignSpec_unknown h rfl rfl rfl
    · exact liftUnaryReg_assign h (.inl ⟨rfl, rfl⟩)
  | neg =>
    rcases operands with _ | ⟨first, more⟩
    · exact assignSpec_unknown h rfl rfl rfl
    · exact liftUnaryReg_assign h (.inr ⟨rfl, rfl⟩)
  | lea | cmov =>
    rcases operands with _ | ⟨first, _ | ⟨second, more⟩⟩
    · exact assignSpec_unknown h rfl rfl rfl
    · exact assignSpec_unknown h rfl rfl rfl
    · obtain ⟨src, -, h⟩ := Option.bind_eq_some_iff.mp h
      cases h
      exact ⟨congrArg some (Versions.newVersion_base _ _), rfl⟩
  | cmp | test | lock =>
    rcases operands with _ | ⟨first, _ | ⟨second, more⟩⟩
    · exact assignSpec_unknown h rfl rfl rfl
    · exact assignSpec_unknown h rfl rfl rfl
    · obtain ⟨a, -, h⟩ := Option.bind_eq_some_iff.mp h
      obtain ⟨b, -, h⟩ := Option.bind_eq_some_iff.mp h
      cases h
      exact ⟨rfl, rfl⟩
  | push =>
    rcases operands with _ | ⟨first, more⟩
    · exact assignSpec_unknown h rfl rfl rfl
    · obtain ⟨src, -, h⟩ := Option.bind_eq_some_iff.mp h
      cases h
      exact ⟨rfl, rfl⟩
  | pop | set | inc | dec =>
    rcases operands with _ | ⟨first, more⟩
    · exact assignSpec_unknown h rfl rfl rfl
    · cases h
      exact ⟨congrArg some (Versions.newVersion_base _ _), rfl⟩
  | call =>
    rcases operands with _ | ⟨first, more⟩
    · exact assignSpec_unknown h rfl rfl rfl
    · obtain ⟨o, ho, h⟩ := Option.map_eq_some_iff.mp h
      cases h
      obtain ⟨hdst, himplicit⟩ := liftCall_assign ho
      exact ⟨by rw [hdst]; rfl, himplicit⟩
  | jmp =>
    rcases operands with _ | ⟨first, more⟩
    · exact assignSpec_unknown h rfl rfl rfl
    · obtain ⟨o, ho, h⟩ := Option.map_eq_some_iff.mp h
      cases h
      obtain ⟨hdst, himplicit⟩ := liftJmp_assign ho
      exact ⟨by rw [hdst]; rfl, himplicit⟩
  | leave =>
    cases h
    exact ⟨rfl, rfl⟩
  | nop | ret | condJump | trap | syscall | xchg | signExtend | other =>
    cases h
    exact ⟨rfl, rfl⟩

end Arms

end Ir

namespace Backend

open Ir X86 Straight

lemma place_eq_base {base : VarBase} {r : Reg} (h : place base = place r.base) : base = r.base := by
  rw [place_base] at h
  cases base with
  | temp n => cases h
  | rflags => exact absurd h (by cases r <;> decide)
  | _ =>
    obtain ⟨-, hname⟩ := Place.field.inj h
    have hparse := parseRegister_name r
    rw [← hname] at hparse
    exact Option.some.inj ((by decide : parseRegister _ = some _).symm.trans hparse)

/-- The registers that an instruction changes besides its destination operand. -/
def architectural : Arm → List Reg
  | .push | .pop => [.rsp]
  | .leave => [.rsp, .rbp]
  | .call => [.rsp, .rax]
  | .mul => [.rax, .rdx]
  | _ => []

def namedRegister (insn : DisassembledInsn) : Option VarBase :=
  (parseOperands insn.opStr).head?.bind dstRegister

variable (symbols : SymbolTable) (funcNames : TreeMap U64 Text)

def KeepsFrame (insn : DisassembledInsn) (irs : List IRInstruction) : Prop :=
  ∀ r : Reg, (∃ ir ∈ irs, place r.base ∈ assignedPlaces symbols funcNames ir.opcode) →
    r ∈ architectural (armOfInsn insn) ∨ namedRegister insn = some r.base

/-- The destination operand is a register, and the instruction is not one that is lifted to a
call without being one. -/
structure NamesDestination (insn : DisassembledInsn) : Prop where
  register : ∀ t ∈ destination (armOfInsn insn) (parseOperands insn.opStr), (dstRegister t).isSome
  syscall : armOfInsn insn ≠ .syscall
  jmp : armOfInsn insn = .jmp → ∀ t ∈ (parseOperands insn.opStr).head?, (jmpTarget t).isSome

def assignedBases (arm : Arm) (operands : List Text) : List VarBase :=
  (definedBase arm operands).toList ++ implicitOf arm operands

lemma assigned_iff {insn : DisassembledInsn} {versions versions' : Versions}
    {irs : List IRInstruction} (h : liftInsn insn versions = some (irs, versions')) (r : Reg) :
    (∃ ir ∈ irs, place r.base ∈ assignedPlaces symbols funcNames ir.opcode) ↔
      r.base ∈ assignedBases (armOfInsn insn) (parseOperands insn.opStr) := by
  obtain ⟨op, hop, rfl⟩ := liftInsn_eq h
  have hspec : AssignSpec (armOfInsn insn) (parseOperands insn.opStr) op :=
    liftArm_assign rfl hop
  have hlast : place r.base ∈ assignedPlaces symbols funcNames op ↔
      r.base ∈ assignedBases (armOfInsn insn) (parseOperands insn.opStr) := by
    rw [mem_assignedPlaces, assignedBases, List.mem_append, ← hspec.dst, ← hspec.implicit]
    refine or_congr ?_ ?_
    · constructor
      · rintro ⟨v, hv, hplace⟩
        rw [hv, ← place_eq_base hplace]
        exact List.mem_singleton_self _
      · intro hmem
        obtain ⟨v, hv, hbase⟩ := Option.map_eq_some_iff.mp (Option.mem_toList.mp hmem)
        exact ⟨v, hv, by rw [hbase]⟩
    · constructor
      · rintro ⟨base, hmem, hplace⟩
        rwa [← place_eq_base hplace]
      · intro hmem
        exact ⟨r.base, hmem, rfl⟩
  rw [← hlast]
  constructor
  · rintro ⟨ir, hir, hmem⟩
    obtain ⟨o, ho, rfl⟩ := List.mem_map.mp hir
    rcases List.mem_append.mp ho with ho | ho
    · rw [hlast]
      cases harm : armOfInsn insn with
      | leave =>
        rw [harm] at ho
        rw [List.mem_singleton.mp ho, mem_assignedPlaces] at hmem
        obtain ⟨v, ⟨⟩, hplace⟩ | ⟨base, hbase, -⟩ := hmem
        · rw [← place_eq_base hplace]
          exact List.mem_cons_of_mem _ List.mem_cons_self
        · cases hbase
      | _ =>
        rw [harm] at ho
        cases ho
    · rwa [List.mem_singleton.mp ho] at hmem
  · intro hmem
    exact ⟨⟨insn.address, op⟩, by simp, hmem⟩

lemma head_of_destination {arm : Arm} {operands : List Text} {t : Text}
    (h : destination arm operands = some t) : operands.head? = some t := by
  have hite : ∀ (c : Prop) [Decidable c] (a : Text),
      (if c then none else some a) = some t → a = t := by
    intro c _ a h
    split at h
    · cases h
    · exact Option.some.inj h
  rcases operands with _ | ⟨first, _ | ⟨second, more⟩⟩
  · cases arm <;> cases h
  · cases arm with
    | not | neg => exact congrArg some (hite _ first h)
    | pop | set | inc | dec => exact h
    | _ => cases h
  · cases arm with
    | mov => exact congrArg some (hite _ first h)
    | not | neg => exact congrArg some (hite _ first h)
    | pop | set | inc | dec | lea | alu | cmov => exact h
    | _ => cases h

lemma architectural_of_destination {arm : Arm} {operands : List Text} {t : Text}
    (h : destination arm operands = some t) : Reg.rax ∉ architectural arm := by
  cases arm with
  | call | mul => rcases operands with _ | ⟨first, _ | ⟨second, more⟩⟩ <;> cases h
  | _ => decide

lemma architectural_of_implicit {arm : Arm} {operands : List Text} {r : Reg}
    (h : r.base ∈ implicitOf arm operands) (hsyscall : arm ≠ .syscall)
    (hjmp : arm = .jmp → ∀ t ∈ operands.head?, (jmpTarget t).isSome) : r ∈ architectural arm := by
  have hrsp : r.base ∈ [VarBase.rsp] → r = .rsp := fun h =>
    Reg.base_injective (List.mem_singleton.mp h)
  have hflags : r.base ∉ [VarBase.rflags] := by cases r <;> decide
  cases arm with
  | push | pop =>
    rcases operands with _ | ⟨first, more⟩
    · cases h
    · rw [hrsp h]
      exact List.mem_singleton_self _
  | leave =>
    rw [hrsp h]
    exact List.mem_cons_self
  | call =>
    rcases operands with _ | ⟨first, more⟩
    · cases h
    · rcases List.mem_cons.mp h with h | h
      · have hr : r = .rsp := Reg.base_injective h
        rw [hr]
        exact List.mem_cons_self
      · have hr : r = .rax := Reg.base_injective (List.mem_singleton.mp h)
        rw [hr]
        exact List.mem_cons_of_mem _ List.mem_cons_self
  | syscall => exact absurd rfl hsyscall
  | jmp =>
    rcases operands with _ | ⟨first, more⟩
    · cases h
    · have hsome : jmpTarget first ≠ none := by
        apply Option.isSome_iff_ne_none.mp
        exact hjmp rfl first rfl
      rw [implicitOf, if_neg hsome] at h
      cases h
  | cmp | test =>
    rcases operands with _ | ⟨first, _ | ⟨second, more⟩⟩
    · cases h
    · cases h
    · exact absurd h hflags
  | _ => rcases operands with _ | ⟨first, _ | ⟨second, more⟩⟩ <;> cases h

lemma fixed_kept {arm : Arm} {operands : List Text} {r : Reg}
    (h : fixedDestination arm operands = some r.base) :
    r ∈ architectural arm ∨ operands.head?.bind dstRegister = some r.base := by
  cases arm with
  | mul =>
    rcases operands with _ | ⟨first, _ | ⟨second, more⟩⟩
    · cases h
    · left
      have hr : Reg.rax = r := Reg.base_injective (Option.some.inj h)
      rw [← hr]
      exact List.mem_cons_self
    · cases hd : dstRegister first with
      | some base =>
        right
        have hbase : (dstRegister first).getD .rax = r.base := Option.some.inj h
        rw [hd] at hbase
        rw [← hbase, List.head?_cons, Option.bind_some, hd]
        rfl
      | none =>
        left
        have hbase : (dstRegister first).getD .rax = r.base := Option.some.inj h
        rw [hd] at hbase
        have hr : Reg.rax = r := Reg.base_injective hbase
        rw [← hr]
        exact List.mem_cons_self
  | leave =>
    left
    have hr : Reg.rbp = r := Reg.base_injective (Option.some.inj h)
    rw [← hr]
    exact List.mem_cons_of_mem _ List.mem_cons_self
  | _ => rcases operands with _ | ⟨first, _ | ⟨second, more⟩⟩ <;> cases h

section Arms

variable {arm : Arm} {operands : List Text}

lemma register_of_kept (hkept : ∀ r : Reg, r.base ∈ assignedBases arm operands →
    r ∈ architectural arm ∨ operands.head?.bind dstRegister = some r.base) {t : Text}
    (ht : destination arm operands = some t) : (dstRegister t).isSome := by
  by_contra hnone
  rw [Option.not_isSome_iff_eq_none] at hnone
  have hmem : Reg.rax.base ∈ assignedBases arm operands := by
    rw [assignedBases, definedBase, ht, Option.map_some, hnone]
    exact List.mem_cons_self
  rcases hkept .rax hmem with hrax | hrax
  · exact architectural_of_destination ht hrax
  · rw [head_of_destination ht, Option.bind_some, hnone] at hrax
    cases hrax

lemma architectural_of_call (hkept : ∀ r : Reg, r.base ∈ assignedBases arm operands →
    r ∈ architectural arm ∨ operands.head?.bind dstRegister = some r.base)
    (hcall : [VarBase.rsp, .rax] ⊆ assignedBases arm operands) : architectural arm ≠ [] := by
  intro hnone
  have hrsp := hkept .rsp (hcall (by decide))
  have hrax := hkept .rax (hcall (by decide))
  rw [hnone] at hrsp hrax
  have heq := (hrsp.resolve_left (by decide)).symm.trans (hrax.resolve_left (by decide))
  exact absurd heq (by decide)

lemma defined_kept (hregister : ∀ t ∈ destination arm operands, (dstRegister t).isSome) {r : Reg}
    (h : definedBase arm operands = some r.base) :
    r ∈ architectural arm ∨ operands.head?.bind dstRegister = some r.base := by
  cases hd : destination arm operands with
  | some t =>
    right
    rw [definedBase, hd] at h
    obtain ⟨base, hbase⟩ := Option.isSome_iff_exists.mp (hregister t hd)
    rw [Option.map_some, hbase] at h
    rw [head_of_destination hd, ← h, Option.bind_some, hbase]
    rfl
  | none =>
    rw [definedBase, hd] at h
    exact fixed_kept h

end Arms

theorem keepsFrame_iff {insn : DisassembledInsn} {versions versions' : Versions}
    {irs : List IRInstruction} (h : liftInsn insn versions = some (irs, versions')) :
    KeepsFrame symbols funcNames insn irs ↔ NamesDestination insn := by
  have hkeeps : KeepsFrame symbols funcNames insn irs ↔
      ∀ r : Reg, r.base ∈ assignedBases (armOfInsn insn) (parseOperands insn.opStr) →
        r ∈ architectural (armOfInsn insn) ∨ namedRegister insn = some r.base := by
    rw [KeepsFrame]
    simp only [assigned_iff symbols funcNames h]
  rw [hkeeps]
  constructor
  · intro hkept
    refine ⟨fun t ht => register_of_kept hkept ht, ?_, ?_⟩
    · intro harm
      apply architectural_of_call hkept _ (by rw [harm]; rfl)
      rw [harm]
      exact List.Subset.refl _
    · intro harm t ht
      by_contra hnone
      rw [Option.not_isSome_iff_eq_none] at hnone
      obtain ⟨more, hops⟩ := List.head?_eq_some_iff.mp ht
      apply architectural_of_call hkept _ (by rw [harm]; rfl)
      rw [harm, hops, assignedBases, implicitOf, if_pos hnone]
      exact List.Subset.refl _
  · intro hnames r hmem
    rcases List.mem_append.mp hmem with hdst | himplicit
    · exact defined_kept hnames.register (Option.mem_toList.mp hdst)
    · exact .inl (architectural_of_implicit himplicit hnames.syscall hnames.jmp)

def storedSum : DisassembledInsn := ⟨0x1000, 3, "add", "qword ptr [rbx], rax", []⟩

lemma lift_storedSum : (liftInsn storedSum Versions.initial).isSome = true := by decide

theorem storedSum_not_keepsFrame :
    ∃ irs versions, liftInsn storedSum Versions.initial = some (irs, versions) ∧
      ∀ symbols funcNames, ¬ KeepsFrame symbols funcNames storedSum irs := by
  obtain ⟨⟨irs, versions⟩, hlift⟩ := Option.isSome_iff_exists.mp lift_storedSum
  refine ⟨irs, versions, hlift, ?_⟩
  intro symbols funcNames hkeeps
  have hrax := hkeeps .rax ((assigned_iff symbols funcNames hlift .rax).mpr (by decide))
  exact absurd hrax (by decide)

theorem storedSum_keepsFrame_iff :
    ∃ irs versions, liftInsn storedSum Versions.initial = some (irs, versions) ∧
      (KeepsFrame ∅ ∅ storedSum irs ↔ NamesDestination storedSum) := by
  obtain ⟨⟨irs, versions⟩, hlift⟩ := Option.isSome_iff_exists.mp lift_storedSum
  exact ⟨irs, versions, hlift, keepsFrame_iff ∅ ∅ hlift⟩

end Backend

end Dexe
