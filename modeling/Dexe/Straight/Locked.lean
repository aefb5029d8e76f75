import Dexe.Bytes.Access
import Dexe.Straight.Agreement
import Dexe.Straight.Emitted
import Dexe.X86.Locked

/-! Instructions with a `lock` prefix. Those that have a plain form are lifted like it, or not at
all; the emitted C of the other two does nothing. -/

namespace Dexe.Straight

open Std Ir X86 Clang Backend

variable (symbols : SymbolTable) (funcNames : TreeMap U64 Text) {σ : Clang.State} {s : X86.State}
  {d : DisassembledInsn} {m : MemRef} (versions : Versions)

def LiftsAtomic (d : DisassembledInsn) (versions : Versions) (i : Locked) (m : MemRef) : Prop :=
  ∃ addr src versions',
    liftInsn d versions = some ([⟨d.address, .atomicRMW i.name addr src⟩], versions') ∧
      Addresses addr m

/-- The emitted C leaves the memory of the instruction, and every register that it does not
write. -/
def Performs (d : DisassembledInsn) (versions : Versions) (σ : Clang.State) (s : X86.State)
    (i : Locked) (m : MemRef) : Prop :=
  LiftsAtomic d versions i m ∧
    ∃ s', EmittedEnds symbols funcNames [d] versions σ s' ∧ s'.mem = (s.lockedStep i m).mem ∧
      ∀ r, i.writes ≠ some r → s'.regs r = s.regs r

lemma lock_aluOp (op : AluOp) :
    lockedMnemonic ("lock " ++ op.mnemonic) = (true, op.mnemonic) ∧
      armOf true op.mnemonic = .alu := by
  cases op <;> decide

lemma not_liftsAtomic {op : Opcode} {versions' : Versions} {i : Locked}
    (h : liftInsn d versions = some ([⟨d.address, op⟩], versions'))
    (hop : ∀ name addr src, op ≠ .atomicRMW name addr src) : ¬ LiftsAtomic d versions i m := by
  rintro ⟨addr, src, v, hatomic, -⟩
  rw [h] at hatomic
  cases hatomic
  exact hop _ _ _ rfl

lemma liftInsn_lockedAlu {op : AluOp} {src : Stored}
    (h : PrintsAs d ("lock " ++ op.mnemonic) [m.text, src.source.text]) :
    ∃ dst lhs rhs versions',
      liftInsn d versions = some ([⟨d.address, aluOpcode op dst lhs rhs⟩], versions') := by
  obtain ⟨lhs, hlhs, -⟩ := (readAs_source (.mem m)).parse versions
  obtain ⟨rhs, hrhs, -⟩ := (readAs_source src.source).parse versions
  obtain ⟨hlock, harm⟩ := lock_aluOp op
  exact ⟨_, _, _, _, liftInsn_armed h hlock harm (by decide)
    (piece_pair (readAs_source (.mem m)).piece (readAs_source src.source).piece)
    (liftBinaryAlu_aluOp versions d.address op (defines_mem m) hlhs hrhs)⟩

lemma liftInsn_lockedCount {name : Text} (hname : name = "inc" ∨ name = "dec")
    (h : PrintsAs d ("lock " ++ name) [m.text]) :
    liftInsn d versions = some ([⟨d.address, .unknown name d.address⟩], versions) := by
  have hlock : lockedMnemonic ("lock " ++ name) = (true, name) ∧ armOf true name = .lock := by
    rcases hname with rfl | rfl <;> decide
  exact liftInsn_armed h hlock.1 hlock.2 (by decide)
    (piece_single (readAs_source (.mem m)).piece) rfl

lemma parseSingleOperand_mem (m : MemRef) :
    ∃ op, parseSingleOperand m.text versions = some op ∧ Addresses op m := by
  have htext : IsMemText m m.text := .inl rfl
  obtain ⟨op, hparse, hop⟩ := parseMemoryOperand_addresses htext versions
  refine ⟨op, ?_, hop⟩
  simp only [parseSingleOperand, htext.trimmed.trim_eq, if_pos htext.isMemoryOperand, hparse]

lemma liftInsn_atomic {name : Text} (hname : name = "xadd" ∨ name = "cmpxchg") {src : Reg}
    (h : PrintsAs d ("lock " ++ name) [m.text, src.name]) :
    ∃ addr op, liftInsn d versions =
        some ([⟨d.address, .atomicRMW name addr op⟩], versions) ∧ Addresses addr m := by
  obtain ⟨addr, haddr, hmeans⟩ := parseSingleOperand_mem versions m
  have hsrc := parseSingleOperand_name src versions
  have hlock : lockedMnemonic ("lock " ++ name) = (true, name) ∧ armOf true name = .lock := by
    rcases hname with rfl | rfl <;> decide
  have hlift : liftArm .lock name [m.text, src.name] d versions =
      some (.atomicRMW name addr (.var (versions.currentVar src.base)), versions) := by
    simp only [liftArm, haddr, hsrc]
    rfl
  exact ⟨addr, _, liftInsn_armed h hlock.1 hlock.2 (by decide)
    (piece_pair (readAs_source (.mem m)).piece (piece_name src)) hlift, hmeans⟩

lemma execAll_atomic {name : Text} (hname : name ∉ atomicOps) (addr src : Operand) :
    execAll σ (opcodeStmts symbols funcNames (.atomicRMW name addr src)) = some σ := by
  have haddr := (hasInt_memAddrTree (σ := σ) addr).paren.cast .uint64Ptr (by decide)
  obtain ⟨ty, -, -, hsrc⟩ := typed_operandTree (σ := σ) src
  have hboth : eval σ (atomicTree addr src) = _ := eval_binary (by decide) haddr hsrc
  have hexec : exec σ (.expr (.paren (atomicTree addr src))) = some (.next σ) := by
    show (eval σ (atomicTree addr src)).map (fun _ => Outcome.next σ) = _
    rw [hboth]
    rfl
  rw [opcodeStmts, if_neg hname, execAll, hexec]
  rfl

lemma emittedEnds_atomic {name : Text} (hname : name = "xadd" ∨ name = "cmpxchg") {src : Reg}
    (h : PrintsAs d ("lock " ++ name) [m.text, src.name]) (hm : Matches σ s) (s' : X86.State) :
    EmittedEnds symbols funcNames [d] versions σ s' ↔ s = s' := by
  obtain ⟨addr, op, hlift, -⟩ := liftInsn_atomic versions hname h
  have hbuiltin : name ∉ atomicOps := by rcases hname with rfl | rfl <;> decide
  have hcomment : CommentEnds (.atomicRMW name addr op) := by
    simp only [CommentEnds, comment, if_neg hbuiltin]
    decide
  exact emittedEnds_iff hlift ⟨trivial, hcomment⟩
    ⟨σ, execAll_atomic symbols funcNames hbuiltin addr op, hm, rfl⟩

lemma performs_atomic_iff {i : Locked} {src : Reg} (hname : i.name = "xadd" ∨ i.name = "cmpxchg")
    (h : PrintsAs d i.mnemonic [m.text, src.name]) (hm : Matches σ s) :
    Performs symbols funcNames d versions σ s i m ↔
      i.result s (s.mem.load64 (m.address s.regs)) = s.mem.load64 (m.address s.regs) := by
  obtain ⟨addr, op, hlift, haddr⟩ := liftInsn_atomic versions hname h
  rw [Performs, and_iff_right ⟨addr, op, versions, hlift, haddr⟩]
  simp only [emittedEnds_atomic symbols funcNames versions hname h hm, exists_eq_left',
    implies_true, and_true]
  have hmem : (s.lockedStep i m).mem = s.mem.store64 (m.address s.regs)
      (i.result s (s.mem.load64 (m.address s.regs))) := rfl
  rw [hmem]
  exact eq_comm.trans Memory.store64_eq_self_iff

/-- The emitted C performs a locked instruction exactly where that is an exchange that leaves the
memory as it is. -/
theorem performs_iff {i : Locked} (h : PrintsAs d i.mnemonic (i.operands m)) (hm : Matches σ s) :
    Performs symbols funcNames d versions σ s i m ↔
      i.Passive s (s.mem.load64 (m.address s.regs)) := by
  cases i with
  | alu op hop src =>
    obtain ⟨dst, lhs, rhs, versions', hlift⟩ := liftInsn_lockedAlu versions h
    refine iff_false_intro fun hp => not_liftsAtomic versions hlift ?_ hp.1
    intro name addr src
    cases op <;> simp [aluOpcode]
  | inc =>
    refine iff_false_intro fun hp =>
      not_liftsAtomic versions (liftInsn_lockedCount versions (.inl rfl) h) ?_ hp.1
    simp
  | dec =>
    refine iff_false_intro fun hp =>
      not_liftsAtomic versions (liftInsn_lockedCount versions (.inr rfl) h) ?_ hp.1
    simp
  | xadd src =>
    rw [performs_atomic_iff symbols funcNames versions (.inl rfl) h hm]
    exact add_eq_left
  | cmpxchg src =>
    rw [performs_atomic_iff symbols funcNames versions (.inr rfl) h hm, Locked.result,
      Locked.Passive]
    split
    · rename_i hold
      simp [hold]
    · rename_i hold
      simp [hold]

def lockedAdd : DisassembledInsn := ⟨0x1000, 4, "lock add", "qword ptr [rbx], rcx", []⟩

def addLocked : Locked := .alu .add AluOp.add_ne_imul (.reg .rcx)

lemma printsAs_lockedAdd : PrintsAs lockedAdd addLocked.mnemonic
    (addLocked.operands ⟨some .rbx, none, none⟩) := ⟨by decide, by decide⟩

theorem lockedAdd_not_performed :
    ¬ Performs ∅ ∅ lockedAdd Versions.initial (fieldsOf (sample 0 0x2000 5 0))
      (sample 0 0x2000 5 0) addLocked ⟨some .rbx, none, none⟩ := by
  obtain ⟨dst, lhs, rhs, versions', hlift⟩ :=
    liftInsn_lockedAlu Versions.initial (show PrintsAs lockedAdd ("lock " ++ AluOp.add.mnemonic)
      [_, (Stored.reg .rcx).source.text] from printsAs_lockedAdd)
  exact fun hp => not_liftsAtomic _ hlift (by simp [aluOpcode]) hp.1

theorem lockedAdd_iff :
    Performs ∅ ∅ lockedAdd Versions.initial (fieldsOf (sample 0 0x2000 5 0))
        (sample 0 0x2000 5 0) addLocked ⟨some .rbx, none, none⟩ ↔
      addLocked.Passive (sample 0 0x2000 5 0) ((sample 0 0x2000 5 0).mem.load64
        (MemRef.address ⟨some .rbx, none, none⟩ (sample 0 0x2000 5 0).regs)) :=
  performs_iff ∅ ∅ _ printsAs_lockedAdd (matches_fieldsOf _)

end Dexe.Straight
