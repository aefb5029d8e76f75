import Dexe.Bytes.Access
import Dexe.Straight.Agreement
import Dexe.Straight.Emitted
import Dexe.X86.Stack

/-! Pushes, pops and calls: the emitted C moves the stack pointer before it reads an operand, and
after it has written a register. -/

namespace Dexe.X86.State

variable {s : State}

lemma push_inj {v w : U64} : s.push v = s.push w ↔ v = w := by
  constructor
  · intro h
    have hmem : (s.push v).mem = (s.push w).mem := by rw [h]
    rw [← Memory.load64_store64 s.mem (s.regs .rsp - 8) v,
      ← Memory.load64_store64 s.mem (s.regs .rsp - 8) w]
    exact congrArg (Memory.load64 · (s.regs .rsp - 8)) hmem
  · rintro rfl
    rfl

lemma set_comm {r r' : Reg} (h : r ≠ r') (v w : U64) :
    (s.set r v).set r' w = (s.set r' w).set r v := by
  simp only [set, Function.update_comm h]

lemma lower_regs_eq_iff (r : Reg) : s.lower.regs r = s.regs r ↔ r ≠ .rsp := by
  constructor
  · rintro h rfl
    rw [lower, set_regs_self] at h
    exact absurd (sub_eq_self.mp h) (by decide)
  · intro h
    exact set_regs_of_ne h _

/-- The register is written first, and the stack pointer moves on from what it then is. -/
def latePop (s : State) (r : Reg) : State :=
  let s₁ := s.set r (s.mem.load64 (s.regs .rsp))
  s₁.set .rsp (s₁.regs .rsp + 8)

lemma latePop_eq_pop_iff (r : Reg) : s.latePop r = s.pop r ↔ r ≠ .rsp := by
  constructor
  · rintro h rfl
    simp only [latePop, pop, set_regs_self, set_set, set_eq_set_iff] at h
    exact absurd (add_eq_left.mp h) (by decide)
  · intro h
    simp only [latePop, pop, set_regs_of_ne h.symm]
    exact set_comm h _ _

end Dexe.X86.State

def Dexe.X86.Pushed.source : Dexe.X86.Pushed → Dexe.X86.Source
  | .reg r => .reg r
  | .imm n => .imm n
  | .mem m => .mem m.ref

namespace Dexe.Straight

open Std Ir X86 Clang Backend

variable (symbols : SymbolTable) (funcNames : TreeMap U64 Text)

/-- The emitted C ends in a call of an address, with the registers and the memory of a state; what
is returned goes to RAX. -/
def EmittedCalls (insns : List DisassembledInsn) (versions : Versions) (σ : Clang.State)
    (s : X86.State) (target : U64) : Prop :=
  ∃ stmts σ', emittedStmts symbols funcNames insns versions = some stmts ∧
    execAll σ stmts.dropLast = some σ' ∧ Matches σ' s ∧
    stmts.getLast?.bind (exec σ') =
      some (.call (.pointer target) [] (some (.place (place .rax))))

variable {symbols funcNames} {σ : Clang.State} {s s' : X86.State} {d : DisassembledInsn}
  {versions versions' : Versions}

lemma Matches.lower (hm : Matches σ s) :
    Matches (σ.set (place .rsp) (σ.vars (place .rsp) - 8)) s.lower := by
  have hrsp := hm.regs .rsp
  rw [show place .rsp = place Reg.rsp.base from rfl, hrsp]
  exact hm.set .rsp _

lemma Matches.push (hm : Matches σ s) (v : U64) :
    Matches ((σ.set (place .rsp) (σ.vars (place .rsp) - 8)).poke (σ.vars (place .rsp) - 8) v)
      (s.push v) := by
  have hstore := hm.lower.store (σ.vars (place .rsp) - 8) v
  have hrsp : σ.vars (place .rsp) = s.regs .rsp := hm.regs .rsp
  rwa [hrsp] at hstore ⊢

variable (symbols funcNames) in
lemma exec_indirectCall {op : Operand} {v : U64} (h : HasInt σ (operandTree op) v) :
    exec σ (.expr (.bin .assign (cpuField "rax") (callTree symbols funcNames (.indirect op)))) =
      some (.call (.pointer v) [] (some (.place (place .rax)))) := by
  have hcallee : Clang.callee σ (.paren (.cast .function (.paren (operandTree op)))) =
      some (.pointer v) := by
    rw [Clang.callee, Clang.callee, h.paren.cast .function (by decide)]
    · rfl
    all_goals simp
  show (Clang.callee σ _).map _ = _
  rw [hcallee]
  rfl

variable (symbols funcNames versions)

lemma emittedEnds_push {t : Text} {a : Source} (ht : ReadAs t a) (h : PrintsAs d "push" [t])
    (hm : Matches σ s) (s' : X86.State) :
    EmittedEnds symbols funcNames [d] versions σ s' ↔ s.push (s.lower.read a) = s' := by
  obtain ⟨op, hop, hmeans, -⟩ := ht.parse versions
  have hlift : liftArm .push "push" [t] d versions = some (.push op, versions) := by
    simp only [liftArm, hop]
    rfl
  have hinsn := liftInsn_printsAs h (by decide) (by decide) (by decide) (piece_single ht.piece)
    hlift
  have hvalue := hasInt_operandTree (σ := σ.set (place .rsp) (σ.vars (place .rsp) - 8)) op
  rw [hm.lower.operandValue hmeans] at hvalue
  exact emittedEnds_iff hinsn ⟨trivial, by simp [CommentEnds, comment]⟩
    ⟨_, execAll_pushStmts hvalue, hm.push _, rfl⟩

lemma emittedEnds_pop {r : Reg} (h : PrintsAs d "pop" [r.name]) (hm : Matches σ s)
    (s' : X86.State) :
    EmittedEnds symbols funcNames [d] versions σ s' ↔ s.latePop r = s' := by
  have hlift : liftArm .pop "pop" [r.name] d versions =
      some (.pop (versions.newVersion r.base).1, (versions.newVersion r.base).2) := by
    simp only [liftArm, base_name r]
  have hinsn := liftInsn_printsAs h (by decide) (by decide) (by decide)
    (piece_single (piece_name r)) hlift
  have hset : Matches (σ.set (place r.base) (σ.mem.load64 (σ.vars (place .rsp))))
      (s.set r (s.mem.load64 (s.regs .rsp))) := by
    rw [hm.mem, show σ.vars (place .rsp) = s.regs .rsp from hm.regs .rsp]
    exact hm.set r _
  refine emittedEnds_iff hinsn ⟨trivial, by simp [CommentEnds, comment]⟩
    ⟨_, execAll_popStmts σ _, ?_, rfl⟩
  rw [X86.State.latePop, ← hset.regs .rsp]
  exact hset.set .rsp _

lemma emittedCalls_iff {t : Text} {a : Source} {op : Operand} {next : U64} {target : U64}
    (ht : Piece t) (hop : liftCall t versions (nextAddress d) = some (.call (.indirect op) next))
    (hmeans : Means op a) (h : PrintsAs d "call" [t]) (hm : Matches σ s) (s' : X86.State) :
    EmittedCalls symbols funcNames [d] versions σ s' target ↔
      s.push next = s' ∧ (s.push next).read a = target := by
  have hlift : liftArm .call "call" [t] d versions =
      some (.call (.indirect op) next, versions) := by
    simp only [liftArm, hop]
    rfl
  have hinsn := liftInsn_printsAs h (by decide) (by decide) (by decide) (piece_single ht) hlift
  have hstmts : emittedStmts symbols funcNames [d] versions = some _ :=
    emittedStmts_single hinsn ⟨trivial, by simp [CommentEnds, comment]⟩
  have hexec := execAll_pushStmts (σ := σ) (hasInt_hexNum next .none)
  have hpush := hm.push next
  have hvalue := hasInt_operandTree (σ := (σ.set (place .rsp) (σ.vars (place .rsp) - 8)).poke
    (σ.vars (place .rsp) - 8) next) op
  rw [hpush.operandValue hmeans] at hvalue
  have hcall := exec_indirectCall symbols funcNames hvalue
  constructor
  · rintro ⟨stmts, σ', hs, hrun, hm', hlast⟩
    rw [hstmts] at hs
    cases hs
    rw [opcodeStmts, List.dropLast_concat, hexec] at hrun
    cases hrun
    rw [opcodeStmts, List.getLast?_concat, Option.bind_some, hcall] at hlast
    cases hlast
    exact ⟨hpush.unique hm', rfl⟩
  · rintro ⟨rfl, rfl⟩
    refine ⟨_, _, hstmts, ?_, hpush, ?_⟩
    · rw [opcodeStmts, List.dropLast_concat, hexec]
    · rw [opcodeStmts, List.getLast?_concat, Option.bind_some, hcall]

lemma liftCall_name (r : Reg) (fallthrough : U64) :
    liftCall r.name versions fallthrough =
      some (.call (.indirect (.var (versions.currentVar r.base))) 0) := by
  simp only [liftCall, (trimmed_of_plain (plain_name r)).trim_eq,
    if_neg (not_memory_of_plain (plain_name r)), parseRegister_name]

lemma liftCall_mem (m : MemOperand) (fallthrough : U64) :
    ∃ op, liftCall (m.text .qword) versions fallthrough =
        some (.call (.indirect op) fallthrough) ∧ Means op (.mem m.ref) := by
  have haddress := addressText_operand m .qword
  obtain ⟨a, hparse, ha⟩ := parseMemoryOperand_operand m .qword versions
  refine ⟨_, ?_, means_mem ha⟩
  simp only [liftCall, haddress.trimmed.trim_eq, if_pos haddress.isMemoryOperand, hparse,
    Option.map_some]

lemma readAs_pushed (src : Pushed) : ReadAs src.text src.source := by
  cases src with
  | reg r => exact readAs_source (.reg r)
  | imm n => exact readAs_source (.imm n)
  | mem m => exact readAs_operand m .qword

def ActsAs (d : DisassembledInsn) (versions : Versions) (σ : Clang.State) (s : X86.State) :
    StackInsn → Prop
  | .push src => EmittedEnds symbols funcNames [d] versions σ (s.push (src.value s))
  | .pop r => EmittedEnds symbols funcNames [d] versions σ (s.pop r)
  | .call target =>
    EmittedCalls symbols funcNames [d] versions σ (s.push (nextOf d)) (target.target.value s)

/-- The emitted C is right about the stack exactly where it makes no difference whether the stack
pointer moves before or after, and the address of an operand in memory is the one of its base, index
and displacement. -/
theorem actsAs_iff {i : StackInsn} (h : PrintsAs d i.mnemonic i.operands) (hm : Matches σ s) :
    ActsAs symbols funcNames d versions σ s i ↔ i.Unordered s (nextOf d) := by
  cases i with
  | push src =>
    rw [ActsAs, emittedEnds_push symbols funcNames versions (readAs_pushed src) h hm,
      X86.State.push_inj]
    cases src with
    | reg r => exact X86.State.lower_regs_eq_iff r
    | imm n => exact iff_of_true rfl trivial
    | mem m => exact Iff.rfl
  | pop r =>
    rw [ActsAs, emittedEnds_pop symbols funcNames versions h hm]
    exact X86.State.latePop_eq_pop_iff r
  | call target =>
    cases target with
    | reg r =>
      rw [ActsAs, emittedCalls_iff symbols funcNames versions (piece_name r)
        (liftCall_name versions r _) (means_name r versions) h hm, X86.State.push_inj, eq_comm,
        and_comm]
      exact and_congr_left fun _ => X86.State.lower_regs_eq_iff r
    | mem m =>
      obtain ⟨op, hop, hmeans⟩ := liftCall_mem versions m (nextAddress d)
      rw [ActsAs, emittedCalls_iff symbols funcNames versions (readAs_pushed (.mem m)).piece hop
        hmeans h hm]
      exact and_iff_right rfl

def pushedRsp : DisassembledInsn := ⟨0x1000, 1, "push", "rsp", []⟩

lemma printsAs_pushedRsp :
    PrintsAs pushedRsp (StackInsn.push (.reg .rsp)).mnemonic
      (StackInsn.push (.reg .rsp)).operands :=
  ⟨rfl, by decide⟩

theorem pushedRsp_not_before :
    ¬ ActsAs ∅ ∅ pushedRsp Versions.initial (fieldsOf (sample 0 0 0 0)) (sample 0 0 0 0)
      (.push (.reg .rsp)) := by
  rw [ActsAs, emittedEnds_push ∅ ∅ _ (readAs_source (.reg .rsp)) printsAs_pushedRsp
    (matches_fieldsOf _), X86.State.push_inj]
  decide

def importCall : DisassembledInsn := ⟨0x1000, 6, "call", "qword ptr [rip + 0x2fe2]", []⟩

def importSlot : MemOperand :=
  ⟨⟨none, none, some ⟨false, 0x2fe2, by decide⟩⟩, false, some (nextOf importCall), none⟩

lemma printsAs_importCall :
    PrintsAs importCall (StackInsn.call (.mem importSlot)).mnemonic
      (StackInsn.call (.mem importSlot)).operands :=
  ⟨rfl, by decide⟩

theorem importCall_iff :
    ActsAs ∅ ∅ importCall Versions.initial (fieldsOf (sample 0 0 0 0)) (sample 0 0 0 0)
        (.call (.mem importSlot)) ↔
      (StackInsn.call (.mem importSlot)).Unordered (sample 0 0 0 0) (nextOf importCall) :=
  actsAs_iff ∅ ∅ _ printsAs_importCall (matches_fieldsOf _)

end Dexe.Straight
