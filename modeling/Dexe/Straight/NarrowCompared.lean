import Dexe.Straight.Tested
import Dexe.Straight.Widening

/-! Comparisons of narrow operands: the emitted C compares all 64 bits. -/

namespace Dexe.X86

inductive Comparand
  | part (r : SubReg)
  | imm (n : Numeral)

namespace Comparand

def text : Comparand → Text
  | part r => r.name
  | imm n => n.text

def value (s : State) : Comparand → U64
  | part r => r.value s
  | imm n => n.value

def source : Comparand → Source
  | part r => .reg r.parent
  | imm n => .imm n

end Comparand

/-- What a narrow operand is read as: the whole parent register, or eight bytes. -/
def Narrow.source : Narrow → Source
  | part r => .reg r.parent
  | mem m _ => .mem m.ref

structure NarrowCompare where
  op : CompareOp
  lhs : Narrow
  rhs : Comparand
  narrow : lhs.width < 64

def NarrowCompare.Agrees (i : NarrowCompare) (s t : State) : Prop :=
  i.lhs.value s = i.lhs.value t ∧ i.rhs.value s = i.rhs.value t

def Code.CmpDecides (a b : U64) : Code → Prop
  | .cond .e | .cond .ne => a = b
  | .cond .l | .cond .ge => a.toInt < b.toInt
  | .cond .le | .cond .g => a.toInt ≤ b.toInt
  | .cond .b | .cond .ae => a.toNat < b.toNat
  | .cond .be | .cond .a => a.toNat ≤ b.toNat
  | .cond .s | .cond .ns | .o | .no | .p | .np => Exceeds a b

def Code.TestDecides (a b : U64) : Code → Prop
  | .cond .l | .cond .ge | .cond .b | .cond .ae => True
  | .cond _ | .o | .no | .p | .np => a &&& b = 0

def Code.Decides (c : Code) (op : CompareOp) (a b : U64) : Prop :=
  match op with
  | .cmp => c.CmpDecides a b
  | .test => c.TestDecides a b

def NarrowCompare.SameOutcome (i : NarrowCompare) (c : Code) (s t : State) : Prop :=
  c.Decides i.op (s.read i.lhs.source) (s.read i.rhs.source) ↔
    c.Decides i.op (t.read i.lhs.source) (t.read i.rhs.source)

end Dexe.X86

namespace Dexe.Straight

open Std Ir X86 Clang Backend

lemma codeValue_cmpWord_decides (c : Code) :
    (∀ a b, codeValue (cmpWord a b) c = true ↔ c.CmpDecides a b) ∨
      ∀ a b, codeValue (cmpWord a b) c = true ↔ ¬ c.CmpDecides a b := by
  have hrelation : ∀ (r : Relation) (a b : U64),
      codeValue (cmpWord a b) (.cond r.cond) = true ↔ r.Relates a b := by
    intro r a b
    rw [codeValue_relation, decide_eq_true_iff]
  have hword : ∀ a b : U64, (cmpWord a b != 0) = true ↔ ¬ Exceeds a b := by
    intro a b
    rw [cmpWord_bne_zero, Bool.not_eq_true', decide_eq_false_iff_not]
  have hnot : ∀ a b : U64, (!(cmpWord a b != 0)) = true ↔ Exceeds a b := by
    intro a b
    rw [cmpWord_bne_zero, Bool.not_not, decide_eq_true_iff]
  cases c with
  | cond c =>
    cases c with
    | e => exact .inl (hrelation .e)
    | ne => exact .inr (hrelation .ne)
    | l => exact .inl (hrelation .l)
    | ge => exact .inr fun a b => (hrelation .ge a b).trans Int.not_lt.symm
    | le => exact .inl (hrelation .le)
    | g => exact .inr fun a b => (hrelation .g a b).trans Int.not_le.symm
    | b => exact .inl (hrelation .b)
    | ae => exact .inr fun a b => (hrelation .ae a b).trans Nat.not_lt.symm
    | be => exact .inl (hrelation .be)
    | a => exact .inr fun a b => (hrelation .a a b).trans Nat.not_le.symm
    | s => exact .inr hword
    | ns => exact .inl hnot
  | o | p => exact .inr hword
  | no | np => exact .inl hnot

lemma codeValue_testWord_decides (c : Code) :
    (∀ a b, codeValue (testWord a b) c = true ↔ c.TestDecides a b) ∨
      ∀ a b, codeValue (testWord a b) c = true ↔ ¬ c.TestDecides a b := by
  simp only [codeValue_testWord]
  cases c with
  | cond c =>
    cases c with
    | ne | g | a | ns | l | b => exact .inr fun a b => by simp [Code.TestDecides]
    | _ => exact .inl fun a b => by simp [Code.TestDecides]
  | no | np => exact .inr fun a b => by simp [Code.TestDecides]
  | o | p => exact .inl fun a b => by simp [Code.TestDecides]

lemma codeValue_eq_iff (c : Code) (op : CompareOp) (a b a' b' : U64) :
    codeValue (compareWord op a b) c = codeValue (compareWord op a' b') c ↔
      (c.Decides op a b ↔ c.Decides op a' b') := by
  rw [Bool.eq_iff_iff]
  cases op with
  | cmp =>
    obtain h | h := codeValue_cmpWord_decides c
    · exact iff_congr (h a b) (h a' b')
    · exact (iff_congr (h a b) (h a' b')).trans not_iff_not
  | test =>
    obtain h | h := codeValue_testWord_decides c
    · exact iff_congr (h a b) (h a' b')
    · exact (iff_congr (h a b) (h a' b')).trans not_iff_not

variable (symbols : SymbolTable) (funcNames : TreeMap U64 Text) {d reader : DisassembledInsn}
  {k : Reader} {c : Code} (versions : Versions) {σ τ : Clang.State} {s t : X86.State}
  {i : NarrowCompare}

lemma readAs_narrow (src : Narrow) : ReadAs src.text src.source := by
  cases src with
  | part r => exact readAs_part r
  | mem m size => exact readAs_operand m size

lemma readAs_comparand (src : Comparand) : ReadAs src.text src.source := by
  cases src with
  | part r => exact readAs_part r
  | imm n => exact readAs_source (.imm n)

lemma emittedChoice_narrow (hd : PrintsAs d i.op.mnemonic [i.lhs.text, i.rhs.text])
    (hreader : PrintsReader reader k c) (hm : Matches σ s) :
    emittedChoice symbols funcNames [d, reader] versions σ =
      some (codeValue (compareWord i.op (s.read i.lhs.source) (s.read i.rhs.source)) c) :=
  emittedChoice_pair symbols funcNames i.op (readAs_narrow i.lhs) (readAs_comparand i.rhs) hd
    hreader versions hm

/-- Two states that agree on the narrow operands take the same branch exactly where the numbers of
64 bits around them stand alike in both. -/
theorem narrow_choice_iff (hd : PrintsAs d i.op.mnemonic [i.lhs.text, i.rhs.text])
    (hreader : PrintsReader reader k c) (hm : Matches σ s) (hm' : Matches τ t) :
    (i.Agrees s t → emittedChoice symbols funcNames [d, reader] versions σ =
        emittedChoice symbols funcNames [d, reader] versions τ) ↔
      (i.Agrees s t → i.SameOutcome c s t) := by
  rw [emittedChoice_narrow symbols funcNames versions hd hreader hm,
    emittedChoice_narrow symbols funcNames versions hd hreader hm', Option.some.injEq,
    codeValue_eq_iff]
  exact Iff.rfl

def comparedByte : DisassembledInsn := ⟨0x1000, 2, "cmp", "al, bl", []⟩

def compareByte : NarrowCompare :=
  ⟨.cmp, .part .al, .part .bl, by decide⟩

lemma printsAs_comparedByte :
    PrintsAs comparedByte compareByte.op.mnemonic [compareByte.lhs.text, compareByte.rhs.text] :=
  ⟨rfl, by decide⟩

theorem comparedByte_differs :
    ¬ (compareByte.Agrees (sample 0 0 0 0) (sample 0x100 0 0 0) →
      emittedChoice ∅ ∅ [comparedByte, jumpOn "e"] Versions.initial (fieldsOf (sample 0 0 0 0)) =
        emittedChoice ∅ ∅ [comparedByte, jumpOn "e"] Versions.initial
          (fieldsOf (sample 0x100 0 0 0))) := by
  have hagrees : compareByte.Agrees (sample 0 0 0 0) (sample 0x100 0 0 0) := ⟨by decide, by decide⟩
  have hreader := printsReader_jump "e" (c := .cond .e) (by decide)
  intro hsame
  have hbranch := hsame hagrees
  rw [emittedChoice_narrow ∅ ∅ _ printsAs_comparedByte hreader (matches_fieldsOf _),
    emittedChoice_narrow ∅ ∅ _ printsAs_comparedByte hreader (matches_fieldsOf _)] at hbranch
  exact absurd hbranch (by decide)

theorem comparedByte_iff :
    (compareByte.Agrees (sample 0 0 0 0) (sample 0x100 0 0 0) →
        emittedChoice ∅ ∅ [comparedByte, jumpOn "e"] Versions.initial (fieldsOf (sample 0 0 0 0)) =
          emittedChoice ∅ ∅ [comparedByte, jumpOn "e"] Versions.initial
            (fieldsOf (sample 0x100 0 0 0))) ↔
      (compareByte.Agrees (sample 0 0 0 0) (sample 0x100 0 0 0) →
        compareByte.SameOutcome (.cond .e) (sample 0 0 0 0) (sample 0x100 0 0 0)) :=
  narrow_choice_iff ∅ ∅ _ printsAs_comparedByte (printsReader_jump "e" (by decide))
    (matches_fieldsOf _) (matches_fieldsOf _)

end Dexe.Straight
