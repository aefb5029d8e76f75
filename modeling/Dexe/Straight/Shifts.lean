import Dexe.Bits.Words
import Dexe.Straight.Agreement
import Dexe.Straight.Emitted
import Dexe.X86.Updates

/-! Shifts of a register: C counts with all 64 bits, and shifts no sign in. -/

namespace Dexe.Straight

open Std Ir X86 Clang Backend

def shiftOpcode (op : ShiftOp) (dst : VarId) (lhs rhs : Operand) : Opcode :=
  match op with
  | .shl | .sal => .shl dst lhs rhs
  | .shr | .sar => .shr dst lhs rhs

section Lifting

variable (versions : Versions)

lemma readAs_count (c : Count) : ReadAs c.text c.source := by
  cases c with
  | imm n => exact readAs_source (.imm n)
  | cl =>
    have hchars : ∀ c ∈ ("cl" : Text), c.isAlphanum = true := by decide
    refine ⟨.of_plain (by decide) fun c hc => (inTerm_of_alphanum (hchars c hc)).toPlain, ?_⟩
    intro versions
    exact ⟨.var (versions.currentVar .rcx), rfl, fun _ _ => rfl, fun _ => wide_var _⟩

variable (addr : U64) {dst src : Text} {lhs rhs : Operand}

lemma liftBinaryAlu_shiftOp (op : ShiftOp) {b : VarBase} (hb : (dstRegister dst).getD .rax = b)
    (hlhs : parseSingleOperand dst versions = some lhs)
    (hrhs : parseSingleOperand src versions = some rhs) :
    liftBinaryAlu op.mnemonic [dst, src] addr versions =
      some (shiftOpcode op (versions.newVersion b).1 lhs rhs, (versions.newVersion b).2) := by
  subst hb
  simp only [liftBinaryAlu, List.getLast_singleton, if_true, hrhs, hlhs]
  cases op <;> rfl

end Lifting

variable (symbols : SymbolTable) (funcNames : TreeMap U64 Text) {σ : Clang.State} {s : X86.State}

lemma reads_shiftOpcode (op : ShiftOp) (dst : VarId) (lhs rhs : Operand) :
    Backend.Reads symbols funcNames (shiftOpcode op dst lhs rhs) := by
  cases op <;> exact ⟨trivial, by simp [CommentEnds, shiftOpcode, comment]⟩

def emittedShift (op : ShiftOp) (a : U64) (n : ℕ) : U64 :=
  match op with
  | .shl | .sal => a <<< n
  | .shr | .sar => a >>> n

variable {r : Reg} {dst : VarId} {lhs rhs : Operand} {a b : Source}

lemma runsTo_shift (hm : Matches σ s) (op : ShiftOp) (hdst : dst.base = r.base) (hwide : Wide lhs)
    (hlhs : Means lhs a) (hrhs : Means rhs b) (hn : s.read b < 64) :
    RunsTo σ (opcodeStmts symbols funcNames (shiftOpcode op dst lhs rhs))
      (s.set r (emittedShift op (s.read a) (s.read b).toNat)) (flagWord σ) := by
  have ha := eval_of_means hm hlhs hwide
  have hb := hasInt_of_means hm hrhs
  have hn' : (s.read b).toNat < 64 := hn
  have hleft := HasInt.shl ha hb
  have hright := HasInt.shr ha hb
  rw [if_pos hn'] at hleft hright
  cases op with
  | shl | sal => exact runsTo_setTo hm hdst (.of_u64 hleft)
  | shr | sar => exact runsTo_setTo hm hdst (.of_u64 hright)

lemma exec_shift_undefined (hm : Matches σ s) (op : ShiftOp) (hwide : Wide lhs)
    (hlhs : Means lhs a) (hrhs : Means rhs b) (hn : ¬ s.read b < 64) :
    execAll σ (opcodeStmts symbols funcNames (shiftOpcode op dst lhs rhs)) = none := by
  have ha := eval_of_means hm hlhs hwide
  have hb := hasInt_of_means hm hrhs
  have hn' : ¬ (s.read b).toNat < 64 := hn
  have hleft := HasInt.shl ha hb
  have hright := HasInt.shr ha hb
  rw [if_neg hn'] at hleft hright
  have hset : ∀ e, eval σ e = none → isCall e = false → execAll σ [setTo dst e] = none := by
    intro e he hcall
    have hint : evalInt σ e = none := by
      rw [evalInt, he]
      rfl
    have hexec : exec σ (setTo dst e) = none := by
      rw [setTo, exec, execExpr, target_varTree, Option.bind_some, hcall, if_neg (by decide), hint]
      rfl
    rw [execAll, hexec]
  cases op with
  | shl | sal => exact hset _ hleft rfl
  | shr | sar => exact hset _ hright rfl

lemma arm_of_shift (op : ShiftOp) :
    lockedMnemonic op.mnemonic = (false, op.mnemonic) ∧ armOf false op.mnemonic = .alu := by
  cases op <;> decide

lemma emittedEnds_shift {op : ShiftOp} {count : Count} {d : DisassembledInsn} {t : Text}
    (ht : ReadAs t a) (hwide : ∀ n, a ≠ .imm n) (hr : Defines t r)
    (h : PrintsAs d op.mnemonic [t, count.text]) (versions : Versions) (hm : Matches σ s)
    (s' : X86.State) :
    EmittedEnds symbols funcNames [d] versions σ s' ↔
      s.read count.source < 64 ∧
        s.set r (emittedShift op (s.read a) (s.read count.source).toNat) = s' := by
  obtain ⟨lhs, hlhs, hmeans, hlhsWide⟩ := ht.parse versions
  obtain ⟨rhs, hrhs, hmeans', -⟩ := (readAs_count count).parse versions
  have hlift := liftBinaryAlu_shiftOp versions d.address op hr hlhs hrhs
  obtain ⟨hlock, harm⟩ := arm_of_shift op
  have hinsn := liftInsn_printsAs h hlock harm (by decide)
    (piece_pair ht.piece (readAs_count count).piece) hlift
  have hreads := reads_shiftOpcode symbols funcNames op (versions.newVersion r.base).1 lhs rhs
  by_cases hn : s.read count.source < 64
  · have hrun : RunsTo σ (opcodeStmts symbols funcNames
        (shiftOpcode op (versions.newVersion r.base).1 lhs rhs)) _ _ :=
      runsTo_shift symbols funcNames hm op rfl (hlhsWide hwide) hmeans hmeans' hn
    rw [emittedEnds_iff hinsn hreads hrun]
    simp only [hn, true_and]
  · have hnone : execAll σ (opcodeStmts symbols funcNames
        (shiftOpcode op (versions.newVersion r.base).1 lhs rhs)) = none :=
      exec_shift_undefined symbols funcNames hm op (hlhsWide hwide) hmeans hmeans' hn
    simp only [hn, false_and, iff_false]
    exact not_emittedEnds hinsn hreads hnone

lemma emittedEnds_registerShift {op : ShiftOp} {count : Count} {d : DisassembledInsn}
    (h : PrintsAs d op.mnemonic [r.name, count.text]) (versions : Versions) (hm : Matches σ s)
    (s' : X86.State) :
    EmittedEnds symbols funcNames [d] versions σ s' ↔
      s.read count.source < 64 ∧
        s.set r (emittedShift op (s.regs r) (s.read count.source).toNat) = s' :=
  emittedEnds_shift symbols funcNames (readAs_source (.reg r)) (by simp) (defines_name r) h versions
    hm s'

/-- The number of places is used whole, and no sign is to be shifted in. -/
def ShiftFits (s : X86.State) (op : ShiftOp) (r : Reg) (count : Count) : Prop :=
  s.read count.source < 64 ∧ (op = .sar → s.read count.source = 0 ∨ (s.regs r).msb = false)

/-- A shift leaves the result of the processor exactly where its count needs no masking and its
sign is not shifted in. -/
theorem shift_iff {op : ShiftOp} {r : Reg} {count : Count} {d : DisassembledInsn}
    (h : PrintsAs d op.mnemonic [r.name, count.text]) (versions : Versions) (hm : Matches σ s) :
    EmittedEnds symbols funcNames [d] versions σ
        (s.set r (op.result (s.regs r) (count.places s))) ↔ ShiftFits s op r count := by
  rw [emittedEnds_registerShift symbols funcNames h versions hm, ShiftFits]
  refine and_congr_right fun hn => ?_
  have hn' : (s.read count.source).toNat < 64 := hn
  have hplaces : count.places s = (s.read count.source).toNat := Nat.mod_eq_of_lt hn'
  rw [hplaces, State.set_eq_set_iff]
  cases op with
  | sar =>
    rw [← Bits.toNat_eq_zero_iff, ← Bits.sshiftRight_eq_ushiftRight_iff]
    simp only [forall_const]
    exact eq_comm
  | _ => simp [emittedShift, ShiftOp.result]

def signedShift : DisassembledInsn := ⟨0x1000, 3, "sar", "rax, 1", []⟩

def one : Count := .imm ⟨false, 1, by decide⟩

lemma printsAs_signedShift : PrintsAs signedShift ShiftOp.sar.mnemonic [Reg.rax.name, one.text] :=
  ⟨rfl, by decide⟩

theorem signedShift_differs :
    ¬ EmittedEnds ∅ ∅ [signedShift] Versions.initial (fieldsOf (sample (-8) 0 0 0))
      ((sample (-8) 0 0 0).set .rax
        (ShiftOp.sar.result (-8) (one.places (sample (-8) 0 0 0)))) := by
  rw [emittedEnds_registerShift ∅ ∅ printsAs_signedShift _ (matches_fieldsOf _),
    State.set_eq_set_iff]
  decide

theorem signedShift_iff :
    EmittedEnds ∅ ∅ [signedShift] Versions.initial (fieldsOf (sample (-8) 0 0 0))
        ((sample (-8) 0 0 0).set .rax (ShiftOp.sar.result (-8) (one.places (sample (-8) 0 0 0)))) ↔
      ShiftFits (sample (-8) 0 0 0) .sar .rax one :=
  shift_iff ∅ ∅ printsAs_signedShift _ (matches_fieldsOf _)

end Dexe.Straight
