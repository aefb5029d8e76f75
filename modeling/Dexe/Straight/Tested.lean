import Dexe.Straight.Compared

/-! The conditions after a `test`. -/

namespace Dexe.X86

/-- Where the conditions after a `test` are right, for the bitwise and of its operands. -/
def Code.FitsTest (v : U64) : Code → Prop
  | .cond .s | .cond .ns => v ≠ 0 ∧ v.msb = false
  | .cond .l | .cond .le | .cond .g | .cond .ge => v.msb = false
  | .cond _ => True
  | .o | .no => v ≠ 0
  | .p | .np => v = 0 ∨ evenParity v = false

end Dexe.X86

namespace Dexe.Straight

open Std Ir X86 Clang Backend

variable (symbols : SymbolTable) (funcNames : TreeMap U64 Text) {lhs rhs : Stored}
  {d reader : DisassembledInsn} {k : Reader} (versions : Versions) {σ : Clang.State} {s : X86.State}

lemma codeValue_testWord (c : Code) (a b : U64) :
    codeValue (testWord a b) c =
      match c with
      | .cond .ne | .cond .g | .cond .a | .cond .ns | .no | .np => decide (a &&& b ≠ 0)
      | .cond .l | .cond .b => false
      | .cond .ge | .cond .ae => true
      | _ => decide (a &&& b = 0) := by
  have hzero : (a &&& b == 0) = decide (a &&& b = 0) := beq_eq_decide _ _
  have hall : ∀ c ∈ codes, ∀ t : Bool, codeValue (if t then 1 else 0) c =
      match c with
      | .cond .ne | .cond .g | .cond .a | .cond .ns | .no | .np => !t
      | .cond .l | .cond .b => false
      | .cond .ge | .cond .ae => true
      | _ => t := by decide
  rw [testWord, hzero, hall c (mem_codes c), decide_not]

lemma codeValue_testWord_iff (c : Code) (a b : U64) :
    codeValue (testWord a b) c =
        c.holds (resultFlags false false (a &&& b)) (evenParity (a &&& b)) ↔
      c.FitsTest (a &&& b) := by
  have hparity : evenParity 0#64 = true := by decide
  rw [codeValue_testWord]
  generalize a &&& b = v
  cases c with
  | cond c =>
    by_cases hv : v = 0#64
    · subst hv
      cases c <;> simp [Code.holds, Cond.holds, Code.FitsTest, resultFlags]
    · cases c <;> cases h : v.msb <;>
        simp [Code.holds, Cond.holds, Code.FitsTest, resultFlags, hv, h]
  | o | no => by_cases hv : v = 0#64 <;> simp [Code.holds, Code.FitsTest, resultFlags, hv]
  | p | np =>
    by_cases hv : v = 0#64
    · subst hv
      simp [Code.holds, Code.FitsTest, hparity]
    · cases h : evenParity v <;> simp [Code.holds, Code.FitsTest, hv, h]

/-- The conditions on zero are right; sign and overflow are right only of some results. -/
theorem flags_after_test_iff {c : Code}
    (hd : PrintsAs d "test" [lhs.source.text, rhs.source.text])
    (hreader : PrintsReader reader k c) (hm : Matches σ s) :
    emittedChoice symbols funcNames [d, reader] versions σ =
        some (c.holds (resultFlags false false (s.read lhs.source &&& s.read rhs.source))
          (evenParity (s.read lhs.source &&& s.read rhs.source))) ↔
      c.FitsTest (s.read lhs.source &&& s.read rhs.source) := by
  have hchoice := emittedChoice_pair symbols funcNames .test (readAs_source lhs.source)
    (readAs_source rhs.source) hd hreader versions hm
  rw [hchoice, Option.some.injEq]
  exact codeValue_testWord_iff c _ _

def testedRax : DisassembledInsn := ⟨0x1000, 3, "test", "rax, rax", []⟩

lemma printsAs_testedRax :
    PrintsAs testedRax "test" [(Stored.reg .rax).source.text, (Stored.reg .rax).source.text] :=
  ⟨rfl, by decide⟩

theorem testedRax_sign :
    emittedChoice ∅ ∅ [testedRax, jumpOn "s"] Versions.initial (fieldsOf (sample 0 0 0 0)) ≠
      some ((Code.cond .s).holds (resultFlags false false
        ((sample 0 0 0 0).read (.reg .rax) &&& (sample 0 0 0 0).read (.reg .rax)))
        (evenParity
          ((sample 0 0 0 0).read (.reg .rax) &&& (sample 0 0 0 0).read (.reg .rax)))) := by
  have hchoice := emittedChoice_pair ∅ ∅ .test (readAs_source _) (readAs_source _)
    printsAs_testedRax (printsReader_jump "s" (c := .cond .s) (by decide)) Versions.initial
    (matches_fieldsOf (sample 0 0 0 0))
  rw [hchoice]
  decide

theorem testedRax_sign_iff :
    emittedChoice ∅ ∅ [testedRax, jumpOn "s"] Versions.initial (fieldsOf (sample 0 0 0 0)) =
        some ((Code.cond .s).holds (resultFlags false false
          ((sample 0 0 0 0).read (.reg .rax) &&& (sample 0 0 0 0).read (.reg .rax)))
          (evenParity
            ((sample 0 0 0 0).read (.reg .rax) &&& (sample 0 0 0 0).read (.reg .rax)))) ↔
      (Code.cond .s).FitsTest
        ((sample 0 0 0 0).read (.reg .rax) &&& (sample 0 0 0 0).read (.reg .rax)) := by
  have hiff := flags_after_test_iff ∅ ∅ Versions.initial printsAs_testedRax
    (printsReader_jump "s" (c := .cond .s) (by decide)) (matches_fieldsOf (sample 0 0 0 0))
  exact hiff

end Dexe.Straight
