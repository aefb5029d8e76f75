import Dexe.Straight.Agreement
import Dexe.Straight.Neutral

/-! The conditions after a `cmp`. -/

namespace Dexe.X86

def Exceeds (a b : U64) : Prop := b.toNat < a.toNat ∧ b.toInt < a.toInt

instance (a b : U64) : Decidable (Exceeds a b) := inferInstanceAs (Decidable (_ ∧ _))

variable {a b : U64}

lemma Exceeds.not_overflow (h : Exceeds a b) : a.ssubOverflow b = false := by
  obtain ⟨hnat, hint⟩ := h
  have ha := BitVec.toInt_eq_toNat_cond a
  have hb := BitVec.toInt_eq_toNat_cond b
  have haLt := a.isLt
  have hbLt := b.isLt
  have hdist : a.toInt - b.toInt < 2 ^ 63 := by
    split at ha <;> split at hb <;> omega
  rw [BitVec.ssubOverflow, Bool.or_eq_false_iff, decide_eq_false_iff_not, decide_eq_false_iff_not]
  omega

lemma Exceeds.msb (h : Exceeds a b) : (a - b).msb = false := by
  have hless : ((a - b).msb != a.ssubOverflow b) = a.slt b := subFlags_less a b
  rw [h.not_overflow, BitVec.slt_eq_decide, decide_eq_false (not_lt.mpr h.2.le)] at hless
  simpa using hless

/-- Where the conditions that the word has no bit for are right all the same. -/
def Code.FitsCmp (a b : U64) : Code → Prop
  | .cond .s | .cond .ns => Exceeds a b ∨ (a - b).msb = true
  | .o | .no => Exceeds a b ∨ a.ssubOverflow b = true
  | .p | .np => Exceeds a b ↔ evenParity (a - b) = false
  | .cond _ => True

end Dexe.X86

namespace Dexe.Straight

open Std Ir X86 Clang Backend

variable (symbols : SymbolTable) (funcNames : TreeMap U64 Text) {lhs rhs : Source}
  {d reader : DisassembledInsn} {ds : List DisassembledInsn} {k : Reader} (versions : Versions)
  {σ : Clang.State} {s : X86.State}

lemma carries_relation (r : Relation) : Carries (.compare .cmp) r.cond := by
  cases r <;> decide

lemma codeValue_relation (r : Relation) (a b : U64) :
    codeValue (cmpWord a b) (.cond r.cond) = decide (r.Relates a b) := by
  rw [← holds_subFlags]
  exact condValue_cmpWord (carries_relation r) a b

/-- A condition code that names a relation is read as the relation of the compared numbers, after
any instructions that do not write flags. -/
theorem relation_after_cmp {r : Relation} (hd : PrintsAs d "cmp" [lhs.text, rhs.text])
    (hds : ∀ d ∈ ds, Neutral d) (hreader : PrintsReader reader k (.cond r.cond))
    (hm : Matches σ s) :
    emittedChoice symbols funcNames (d :: ds ++ [reader]) versions σ =
      some (decide (r.Relates (s.read lhs) (s.read rhs))) := by
  have hchoice := emittedChoice_compare symbols funcNames .cmp (readAs_source lhs)
    (readAs_source rhs) hd hds hreader versions hm
  rw [hchoice]
  exact congrArg some (codeValue_relation r _ _)

def comparedRax : DisassembledInsn := ⟨0x1000, 3, "cmp", "rax, rbx", []⟩

lemma printsAs_comparedRax :
    PrintsAs comparedRax "cmp" [(Source.reg .rax).text, (Source.reg .rbx).text] :=
  ⟨rfl, by decide⟩

def movedBetween : List DisassembledInsn :=
  [⟨0x1003, 3, "mov", "rax, qword ptr [rcx]", []⟩, ⟨0x1006, 1, "push", "rsi", []⟩]

lemma neutral_movedBetween : ∀ d ∈ movedBetween, Neutral d := by
  have haddress := addressText_operand ⟨⟨some .rcx, none, none⟩, false, none, none⟩ .qword
  intro d hd
  simp only [movedBetween, List.mem_cons, List.not_mem_nil, or_false] at hd
  rcases hd with rfl | rfl
  · exact .move (m := "mov") (by decide) (.inl ⟨.whole .rax, rfl⟩) (.inr haddress) ⟨rfl, by decide⟩
  · exact .push (operandText_target (.whole .rsi)) ⟨rfl, by decide⟩

def jumpOn (t : Text) : DisassembledInsn := ⟨0x1007, 2, "j" ++ t, "0x1000", []⟩

lemma printsReader_jump (t : Text) {c : Code} (ht : t ∈ c.suffixes) :
    PrintsReader (jumpOn t) (.jump "0x1000") c := by
  refine ⟨⟨t, ht, rfl⟩, rfl, ?_⟩
  intro u hu
  rw [List.mem_singleton.mp hu]
  exact .of_alphanum (by decide) (by decide)

theorem comparedRax_below :
    emittedChoice ∅ ∅ (comparedRax :: movedBetween ++ [jumpOn "nae"]) Versions.initial
        (fieldsOf (sample 1 2 0 0)) =
      some (decide (Relation.b.Relates ((sample 1 2 0 0).read (.reg .rax))
        ((sample 1 2 0 0).read (.reg .rbx)))) :=
  relation_after_cmp ∅ ∅ _ printsAs_comparedRax neutral_movedBetween
    (printsReader_jump "nae" (by decide)) (matches_fieldsOf _)

lemma cmpWord_eq_zero_iff (a b : U64) : cmpWord a b = 0 ↔ Exceeds a b := by
  have hword : ∀ p q r : Bool, ((if p then 1 else 0) ||| (if q then 2 else 0) |||
      (if r then 4 else 0) : U64) = 0 ↔ p = false ∧ q = false ∧ r = false := by decide
  rw [cmpWord, hword, Exceeds, BitVec.ult_eq_decide, BitVec.slt_eq_decide, beq_eq_false_iff_ne,
    decide_eq_false_iff_not, decide_eq_false_iff_not]
  constructor
  · rintro ⟨hne, hnat, hint⟩
    have hnat' : a.toNat ≠ b.toNat := fun h => hne (BitVec.toNat_inj.mp h)
    have hint' : a.toInt ≠ b.toInt := fun h => hne (BitVec.toInt_inj.mp h)
    omega
  · rintro ⟨hnat, hint⟩
    refine ⟨?_, by omega, by omega⟩
    rintro rfl
    omega

lemma cmpWord_bne_zero (a b : U64) : (cmpWord a b != 0) = !decide (Exceeds a b) := by
  rw [Bool.eq_iff_iff, bne_iff_ne, ne_eq, cmpWord_eq_zero_iff]
  simp

lemma codeValue_cmpWord {c : Cond} (hc : Carries (.compare .cmp) c) (a b : U64) (parity : Bool) :
    codeValue (cmpWord a b) (.cond c) = (Code.cond c).holds (subFlags a b) parity :=
  condValue_cmpWord hc a b

lemma codeValue_cmpWord_iff (c : Code) (a b : U64) :
    codeValue (cmpWord a b) c = c.holds (subFlags a b) (evenParity (a - b)) ↔ c.FitsCmp a b := by
  have hword := cmpWord_bne_zero a b
  have hsign : subFlags a b .sign = (a - b).msb := rfl
  have hoverflow : subFlags a b .overflow = a.ssubOverflow b := rfl
  cases c with
  | cond c =>
    cases c with
    | s | ns =>
      simp only [codeValue, condValue, Code.holds, Cond.holds, Code.FitsCmp, hword, hsign]
      by_cases h : Exceeds a b
      · simp [h, h.msb]
      · cases (a - b).msb <;> simp [h]
    | _ => exact iff_of_true (codeValue_cmpWord (by decide) a b _) trivial
  | o | no =>
    simp only [codeValue, Code.holds, Code.FitsCmp, hword, hoverflow]
    by_cases h : Exceeds a b
    · simp [h, h.not_overflow]
    · cases a.ssubOverflow b <;> simp [h]
  | p | np =>
    simp only [codeValue, Code.holds, Code.FitsCmp, hword]
    by_cases h : Exceeds a b <;> cases evenParity (a - b) <;> simp [h]

end Dexe.Straight
