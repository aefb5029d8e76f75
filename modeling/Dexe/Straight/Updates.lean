import Dexe.Bits.Words
import Dexe.Bytes.Access
import Dexe.Straight.Shifts

/-! Instructions that update memory: the emitted C changes RAX, or nothing, in its place. -/

namespace Dexe.X86

namespace AluOp

def Idle (old x : U64) (op : AluOp) (h : op ≠ .imul) : Prop :=
  match op, h with
  | add, _ | sub, _ | xor, _ => x = 0
  | and, _ => old &&& ~~~ x = 0
  | or, _ => x &&& ~~~ old = 0
  | imul, h => (not_imul h).elim

lemma idle_iff (old x : U64) {op : AluOp} (h : op ≠ .imul) :
    op.Idle old x h ↔ op.result old x = old := by
  cases op with
  | add => exact (add_eq_left (a := old) (b := x)).symm
  | sub => exact (sub_eq_self (a := old) (b := x)).symm
  | and => exact Bits.and_not_eq_zero_iff old x
  | or => exact (Bits.or_eq_left_iff old x).symm
  | xor =>
    show x = 0 ↔ old ^^^ x = old
    constructor
    · rintro rfl
      exact BitVec.xor_zero
    · intro hx
      have hself := congrArg (old ^^^ ·) hx
      simpa [← BitVec.xor_assoc] using hself
  | imul => exact absurd rfl h

end AluOp

lemma State.set_eq_store_iff {s : State} {r : Reg} {v a w : U64} :
    s.set r v = { s with mem := s.mem.store64 a w } ↔ s.regs r = v ∧ w = s.mem.load64 a := by
  rw [← Memory.store64_eq_self_iff]
  constructor
  · intro h
    have hregs : (s.set r v).regs r = s.regs r := by rw [h]
    have hmem : s.mem = s.mem.store64 a w := congrArg State.mem h
    refine ⟨?_, hmem.symm⟩
    rw [← hregs]
    simp [State.set]
  · rintro ⟨rfl, h⟩
    rw [h, State.set, Function.update_eq_self]

lemma State.set_eq_store_self_iff {s : State} {r : Reg} {v a : U64} :
    s.set r v = { s with mem := s.mem.store64 a v } ↔
      v = s.mem.load64 a ∧ s.regs r = s.mem.load64 a := by
  rw [State.set_eq_store_iff]
  constructor
  · rintro ⟨hreg, hold⟩
    exact ⟨hold, hreg.trans hold⟩
  · rintro ⟨hold, hreg⟩
    exact ⟨hreg.trans hold.symm, hold⟩

lemma State.eq_store_iff {s : State} {a w : U64} :
    s = { s with mem := s.mem.store64 a w } ↔ w = s.mem.load64 a := by
  rw [← Memory.store64_eq_self_iff]
  constructor
  · intro h
    exact (congrArg State.mem h).symm
  · intro h
    rw [h]

/-- The operation leaves the memory as it is, and RAX, where the emitted C puts the result, has
that value. -/
def Update.Harmless (s : State) (old : U64) : Update → Prop
  | .alu op h src => op.Idle old (s.read src.source) h ∧ s.regs .rax = old
  | .shl count | .shr count =>
    let n := s.read count.source
    n < 64 ∧ (n = 0 ∨ old = 0) ∧ s.regs .rax = old
  | .unary .neg => old = 0 ∨ old = BitVec.intMin 64
  | .unary _ => False

end Dexe.X86

namespace Dexe.Straight

open Std Ir X86 Clang Backend

variable {symbols : SymbolTable} {funcNames : TreeMap U64 Text} {σ : Clang.State} {s : X86.State}
  {m : MemRef} {d : DisassembledInsn}

variable (symbols funcNames) (versions : Versions)

lemma emittedEnds_count {op : UnaryOp} (hop : op = .inc ∨ op = .dec)
    (h : PrintsAs d op.mnemonic [m.text]) (hm : Matches σ s) (s' : X86.State) :
    EmittedEnds symbols funcNames [d] versions σ s' ↔
      s.set .rax (op.result (s.regs .rax)) = s' := by
  have hpiece := piece_single (readAs_source (.mem m)).piece
  have hbase : (dstRegister m.text).getD .rax = VarBase.rax := defines_mem m
  have hunary : Embeds (.unary op .rax) (unaryOpcode op (versions.newVersion .rax).1
      (.var (versions.currentVar .rax))) := .unary rfl (wide_var _) (means_name .rax versions)
  have hrun := runsTo_step symbols funcNames hunary hm (s := s) (σ := σ)
    (by rcases hop with rfl | rfl <;> exact fun r hr => by cases hr)
  obtain ⟨hlock, harm⟩ := arm_of_mnemonic (i := .unary op .rax) (List.mem_singleton_self _)
  have hlift : liftArm (armOfPrinted (.unary op .rax)) op.mnemonic [m.text] d versions =
      some (unaryOpcode op (versions.newVersion .rax).1 (.var (versions.currentVar .rax)),
        (versions.newVersion .rax).2) := by
    rcases hop with rfl | rfl
    all_goals
      simp only [armOfPrinted, liftArm, hbase]
      rfl
  have hleave : armOfPrinted (.unary op .rax) ≠ .leave := by rcases hop with rfl | rfl <;> decide
  exact emittedEnds_iff (liftInsn_printsAs h hlock harm hleave hpiece hlift)
    (reads_of_embeds symbols funcNames hunary) hrun

lemma emittedEnds_unknown {op : UnaryOp} (hop : op = .not ∨ op = .neg)
    (h : PrintsAs d op.mnemonic [m.text]) (hm : Matches σ s) (s' : X86.State) :
    EmittedEnds symbols funcNames [d] versions σ s' ↔ s = s' := by
  have hpiece := piece_single (readAs_source (.mem m)).piece
  have hmem : isMemoryOperand m.text := IsMemText.isMemoryOperand (.inl rfl)
  have hstar : '*' ∉ op.mnemonic := by cases op <;> decide
  obtain ⟨hlock, harm⟩ := arm_of_mnemonic (i := .unary op .rax) (List.mem_singleton_self _)
  have hlift : liftArm (armOfPrinted (.unary op .rax)) op.mnemonic [m.text] d versions =
      some (.unknown op.mnemonic d.address, versions) := by
    rcases hop with rfl | rfl
    all_goals
      simp only [armOfPrinted, liftArm, liftUnaryReg, if_pos hmem]
      rfl
  have hleave : armOfPrinted (.unary op .rax) ≠ .leave := by rcases hop with rfl | rfl <;> decide
  exact emittedEnds_comment (liftInsn_printsAs h hlock harm hleave hpiece hlift) hstar hm

lemma update_shift_iff {op : ShiftOp} (hop : op = .shl ∨ op = .shr) {count : Count} {u : Update}
    (hu : ∀ s old, u.result s old = op.result old (count.places s))
    (h : PrintsAs d op.mnemonic [m.text, count.text]) (hm : Matches σ s) :
    EmittedEnds symbols funcNames [d] versions σ (s.update u m) ↔
      s.read count.source < 64 ∧ (s.read count.source = 0 ∨ s.mem.load64 (m.address s.regs) = 0) ∧
        s.regs .rax = s.mem.load64 (m.address s.regs) := by
  rw [emittedEnds_shift symbols funcNames (readAs_source (.mem m)) (by simp) (defines_mem m) h
    versions hm]
  refine and_congr_right fun hn => ?_
  have hplaces : count.places s = (s.read count.source).toNat := Nat.mod_eq_of_lt hn
  have hself : ∀ old, op.result old (s.read count.source).toNat = old ↔
      s.read count.source = 0 ∨ old = 0 := by
    intro old
    rw [← Bits.toNat_eq_zero_iff]
    rcases hop with rfl | rfl
    · exact Bits.shiftLeft_eq_self_iff
    · exact Bits.shiftRight_eq_self_iff
  have hemitted : ∀ old n, emittedShift op old n = op.result old n := by
    rcases hop with rfl | rfl <;> exact fun _ _ => rfl
  rw [← hself, State.update, hu, hplaces, hemitted]
  exact State.set_eq_store_self_iff

/-- An update of memory takes place exactly where the emitted C, which changes RAX or nothing in
its place, has nothing to change. -/
theorem update_iff {u : Update} (h : PrintsAs d u.mnemonic (u.operands m)) (hm : Matches σ s) :
    EmittedEnds symbols funcNames [d] versions σ (s.update u m) ↔
      u.Harmless s (s.mem.load64 (m.address s.regs)) := by
  cases u with
  | alu op hop src =>
    rw [emittedEnds_alu symbols funcNames versions (readAs_source (.mem m)) (by simp)
      (defines_mem m) (readAs_source src.source) h hm, Update.Harmless, AluOp.idle_iff]
    exact State.set_eq_store_self_iff
  | shl count => exact update_shift_iff symbols funcNames versions (.inl rfl) (fun _ _ => rfl) h hm
  | shr count => exact update_shift_iff symbols funcNames versions (.inr rfl) (fun _ _ => rfl) h hm
  | unary op =>
    have hcount : ∀ op, op = .inc ∨ op = .dec → PrintsAs d op.mnemonic [m.text] →
        ¬ EmittedEnds symbols funcNames [d] versions σ (s.update (.unary op) m) := by
      intro op hop hd hends
      rw [emittedEnds_count symbols funcNames versions hop hd hm, State.update,
        State.set_eq_store_iff] at hends
      rcases hop with rfl | rfl
      · exact absurd (add_eq_left.mp hends.1.symm) (by decide)
      · exact absurd (sub_eq_self.mp hends.1.symm) (by decide)
    cases op with
    | inc => exact iff_false_intro (hcount .inc (.inl rfl) h)
    | dec => exact iff_false_intro (hcount .dec (.inr rfl) h)
    | not =>
      rw [emittedEnds_unknown symbols funcNames versions (.inl rfl) h hm, State.update,
        State.eq_store_iff]
      exact iff_false_intro (Bits.not_ne_self _)
    | neg =>
      rw [emittedEnds_unknown symbols funcNames versions (.inr rfl) h hm, State.update,
        State.eq_store_iff]
      exact Bits.neg_eq_self_iff

def addedMemory : DisassembledInsn := ⟨0x1000, 3, "add", "qword ptr [rbx], rcx", []⟩

def addRcx : Update := .alu .add AluOp.add_ne_imul (.reg .rcx)

def atRbx : MemRef := ⟨some .rbx, none, none⟩

lemma printsAs_addedMemory : PrintsAs addedMemory addRcx.mnemonic (addRcx.operands atRbx) :=
  ⟨rfl, by decide⟩

theorem addedMemory_not_updated :
    ¬ EmittedEnds ∅ ∅ [addedMemory] Versions.initial (fieldsOf (sample 0 0x2000 5 0))
      ((sample 0 0x2000 5 0).update addRcx atRbx) := by
  have hprints : PrintsAs addedMemory AluOp.add.mnemonic
      [(Source.mem atRbx).text, (Source.reg .rcx).text] := printsAs_addedMemory
  rw [emittedEnds_alu ∅ ∅ _ (readAs_source (.mem atRbx)) (by simp) (defines_mem atRbx)
    (readAs_source (.reg .rcx)) hprints (matches_fieldsOf _), State.update, State.set_eq_store_iff]
  decide

theorem addedMemory_iff :
    EmittedEnds ∅ ∅ [addedMemory] Versions.initial (fieldsOf (sample 0 0x2000 5 0))
        ((sample 0 0x2000 5 0).update addRcx atRbx) ↔
      addRcx.Harmless (sample 0 0x2000 5 0)
        ((sample 0 0x2000 5 0).mem.load64 (atRbx.address (sample 0 0x2000 5 0).regs)) :=
  update_iff ∅ ∅ _ printsAs_addedMemory (matches_fieldsOf _)

end Dexe.Straight
