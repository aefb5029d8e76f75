import Dexe.Straight.Agreement
import Dexe.Straight.Emitted
import Dexe.X86.Products

/-! Multiplications by one operand: the emitted C has the low half of the product, or nothing. -/

namespace Dexe.X86

def Multiplier.source : Multiplier → Source
  | reg r => .reg r
  | mem m => .mem m.ref

end Dexe.X86

namespace Dexe.Straight

open Std Ir X86 Clang Backend

variable (symbols : SymbolTable) (funcNames : TreeMap U64 Text) {σ : Clang.State} {s : X86.State}
  {d : DisassembledInsn} {src : Multiplier} (versions : Versions)

lemma readAs_multiplier (src : Multiplier) : ReadAs src.text src.source := by
  cases src with
  | reg r => exact readAs_source (.reg r)
  | mem m => exact readAs_operand m .qword

lemma emittedEnds_mul (h : PrintsAs d MulOp.mul.mnemonic [src.text]) (hm : Matches σ s)
    (s' : X86.State) :
    EmittedEnds symbols funcNames [d] versions σ s' ↔
      s.set .rax (s.regs .rax * s.read src.source) = s' := by
  obtain ⟨rhs, hrhs, hmeans, -⟩ := (readAs_multiplier src).parse versions
  have hlift : liftArm .mul MulOp.mul.mnemonic [src.text] d versions =
      some (aluOpcode .imul (versions.newVersion .rax).1 (.var (versions.currentVar .rax)) rhs,
        (versions.newVersion .rax).2) := by
    simp only [liftArm, hrhs, Option.bind_eq_bind, Option.bind_some]
    rfl
  have hinsn := liftInsn_printsAs h (by decide) (by decide) (by decide)
    (piece_single (readAs_multiplier src).piece) hlift
  have hrun : RunsTo σ (opcodeStmts symbols funcNames (aluOpcode .imul
      (versions.newVersion .rax).1 (.var (versions.currentVar .rax)) rhs)) _ _ :=
    runsTo_alu symbols funcNames hm (r := .rax) rfl (wide_var _) (means_name .rax versions) hmeans
  exact emittedEnds_iff hinsn (reads_aluOpcode _ _ _ _) hrun

lemma emittedEnds_imul (h : PrintsAs d MulOp.imul.mnemonic [src.text]) (hm : Matches σ s)
    (s' : X86.State) : EmittedEnds symbols funcNames [d] versions σ s' ↔ s = s' := by
  have hlift : liftArm .alu MulOp.imul.mnemonic [src.text] d versions =
      some (.unknown MulOp.imul.mnemonic d.address, versions) := rfl
  have hinsn := liftInsn_printsAs h (by decide) (by decide) (by decide)
    (piece_single (readAs_multiplier src).piece) hlift
  exact emittedEnds_comment hinsn (by decide) hm

/-- What is not computed is in the registers already: for `mul` the high half in RDX, for `imul`
the whole product. The low half is right when the number at the address of the brackets has it. -/
def HoldsProduct (s : X86.State) (op : MulOp) (src : Multiplier) : Prop :=
  let a := s.regs .rax
  let b := src.value s
  match op with
  | .mul => a * s.read src.source = a * b ∧ s.regs .rdx = op.high a b
  | .imul => s.regs .rax = op.low a b ∧ s.regs .rdx = op.high a b

lemma eq_set_pair_iff {r r' : Reg} (hne : r' ≠ r) {v w : U64} :
    s = (s.set r v).set r' w ↔ s.regs r = v ∧ s.regs r' = w := by
  constructor
  · intro hs
    have hr := congrArg (fun s => s.regs r) hs
    have hr' := congrArg (fun s => s.regs r') hs
    simp only [State.set_regs_self, State.set_regs_of_ne hne.symm] at hr hr'
    exact ⟨hr, hr'⟩
  · rintro ⟨hr, hr'⟩
    rwa [← State.eq_set_iff.mpr hr, State.eq_set_iff]

/-- The product is in RDX:RAX exactly where what the emitted C does not compute is there before. -/
theorem multiply_iff {op : MulOp} (h : PrintsAs d op.mnemonic [src.text])
    (hm : Matches σ s) :
    EmittedEnds symbols funcNames [d] versions σ (s.multiply op src) ↔ HoldsProduct s op src := by
  have hne : Reg.rdx ≠ .rax := by decide
  cases op with
  | mul =>
    rw [emittedEnds_mul symbols funcNames versions h hm, State.multiply, MulOp.low_eq]
    have hregs := eq_set_pair_iff (s := s.set .rax (s.regs .rax * s.read src.source)) hne
      (v := s.regs .rax * src.value s) (w := MulOp.mul.high (s.regs .rax) (src.value s))
    rw [State.set_set, State.set_regs_self, State.set_regs_of_ne hne] at hregs
    exact hregs
  | imul =>
    rw [emittedEnds_imul symbols funcNames versions h hm, State.multiply, eq_set_pair_iff hne]
    exact Iff.rfl

def doubled : DisassembledInsn := ⟨0x1000, 3, "mul", "rcx", []⟩

lemma printsAs_doubled : PrintsAs doubled MulOp.mul.mnemonic [(Multiplier.reg .rcx).text] :=
  ⟨rfl, by decide⟩

theorem doubled_loses_high :
    ¬ EmittedEnds ∅ ∅ [doubled] Versions.initial (fieldsOf (sample (BitVec.intMin 64) 0 2 0))
      ((sample (BitVec.intMin 64) 0 2 0).multiply .mul (.reg .rcx)) := by
  rw [emittedEnds_mul ∅ ∅ _ printsAs_doubled (matches_fieldsOf _), State.multiply, MulOp.low_eq]
  intro hs
  have hrdx := congrArg (fun s => s.regs .rdx) hs
  exact absurd hrdx (by decide)

theorem doubled_iff :
    EmittedEnds ∅ ∅ [doubled] Versions.initial (fieldsOf (sample (BitVec.intMin 64) 0 2 0))
        ((sample (BitVec.intMin 64) 0 2 0).multiply .mul (.reg .rcx)) ↔
      HoldsProduct (sample (BitVec.intMin 64) 0 2 0) .mul (.reg .rcx) :=
  multiply_iff ∅ ∅ _ printsAs_doubled (matches_fieldsOf _)

end Dexe.Straight
