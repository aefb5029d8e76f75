import Dexe.Ir.Lift
import Dexe.Text.Scan
import Mathlib.Tactic

/-! Operands of the form `0x<hex>`, which both the graph builder and the lifter read. -/

namespace Dexe

namespace Text

lemma plain_of_toDigit {c : Char} {d : ℕ} (h : toDigit 16 c = some d) :
    isWhitespace c = false ∧ c ≠ ',' ∧ c ≠ '[' ∧ c ≠ ']' ∧ c ≠ '+' ∧ c ≠ '-' := by
  have hrange : ('0' ≤ c ∧ c ≤ '9') ∨ ('a' ≤ c ∧ c ≤ 'z') ∨ ('A' ≤ c ∧ c ≤ 'Z') := by
    rw [toDigit] at h
    by_contra hno
    simp only [not_or] at hno
    simp [hno.1, hno.2.1, hno.2.2] at h
  have hval : (48 ≤ c.toNat ∧ c.toNat ≤ 57) ∨ (97 ≤ c.toNat ∧ c.toNat ≤ 122) ∨
      (65 ≤ c.toNat ∧ c.toNat ≤ 90) := hrange
  have hne : ∀ x : Char, x.toNat ≠ c.toNat → c ≠ x := by
    rintro x hx rfl
    exact hx rfl
  refine ⟨?_, hne _ ?_, hne _ ?_, hne _ ?_, hne _ ?_, hne _ ?_⟩
  · simp only [isWhitespace, Bool.or_eq_false_iff, Bool.and_eq_false_iff, decide_eq_false_iff_not,
      beq_eq_false_iff_ne]
    omega
  all_goals
    simp only [show ','.toNat = 44 from rfl, show '['.toNat = 91 from rfl,
      show ']'.toNat = 93 from rfl, show '+'.toNat = 43 from rfl, show '-'.toNat = 45 from rfl]
    omega

lemma toDigit_of_mem_digits {radix n m : ℕ} {s : Text} (h : digitsFrom radix n s = some m) :
    ∀ c ∈ s, ∃ d, toDigit radix c = some d := by
  induction s generalizing n with
  | nil => simp
  | cons c s ih =>
    obtain ⟨d, hd, h⟩ := Option.bind_eq_some_iff.mp h
    intro c' hc'
    rcases List.mem_cons.mp hc' with rfl | hc'
    · exact ⟨d, hd⟩
    · exact ih h c' hc'

end Text

namespace Ir

open Text

def hexOperand (opStr : Text) : Option ℕ := (opStr.stripPrefix "0x").bind (digits 16)

variable {opStr : Text} {n : ℕ}

lemma hexOperand_eq_some (h : hexOperand opStr = some n) :
    ∃ ds : Text, opStr = '0' :: 'x' :: ds ∧ ds ≠ [] ∧ digitsFrom 16 0 ds = some n := by
  obtain ⟨ds, hds, h⟩ := Option.bind_eq_some_iff.mp h
  rw [stripPrefix] at hds
  split at hds
  · rename_i hpre
    obtain ⟨t, rfl⟩ := List.isPrefixOf_iff_prefix.mp hpre
    cases hds
    rw [digits] at h
    split at h
    · cases h
    · rename_i hne
      exact ⟨t, rfl, hne, h⟩
  · cases hds

lemma plain_of_hexOperand (h : hexOperand opStr = some n) :
    ∀ c ∈ opStr, isWhitespace c = false ∧ c ≠ ',' ∧ c ≠ '[' ∧ c ≠ ']' := by
  obtain ⟨ds, rfl, _, hds⟩ := hexOperand_eq_some h
  intro c hc
  rcases List.mem_cons.mp hc with rfl | hc
  · decide
  rcases List.mem_cons.mp hc with rfl | hc
  · decide
  obtain ⟨d, hd⟩ := toDigit_of_mem_digits hds c hc
  obtain ⟨hw, hcomma, hopen, hclose, _⟩ := plain_of_toDigit hd
  exact ⟨hw, hcomma, hopen, hclose⟩

lemma u64FromStrRadix_of_digits {ds : Text} (hne : ds ≠ []) (h : digitsFrom 16 0 ds = some n)
    (hn : n < 2 ^ 64) : u64FromStrRadix ds 16 = some (BitVec.ofNat 64 n) := by
  have hhead : ds.head? ≠ some '+' := by
    intro hplus
    obtain ⟨d, hd⟩ := toDigit_of_mem_digits h '+' (List.mem_of_mem_head? hplus)
    exact (plain_of_toDigit hd).2.2.2.2.1 rfl
  simp only [u64FromStrRadix, if_neg hhead, digits, if_neg hne, h, Option.bind_some, if_pos hn]

lemma parseHexTarget_hexOperand (h : hexOperand opStr = some n) (hn : n < 2 ^ 64) :
    Cfg.parseHexTarget opStr = some (BitVec.ofNat 64 n) := by
  have htrim := (Trimmed.of_forall fun c hc => (plain_of_hexOperand h c hc).1).trim_eq
  obtain ⟨ds, rfl, hne, hds⟩ := hexOperand_eq_some h
  have hstart : startsWith ('0' :: 'x' :: ds) "0x" = true := by simp [startsWith]
  simp only [Cfg.parseHexTarget, htrim, hstart, Bool.true_or, if_true]
  exact u64FromStrRadix_of_digits hne hds hn

lemma parseImmediate_hexOperand (h : hexOperand opStr = some n) (hn : n < 2 ^ 64) :
    parseImmediate opStr = some (BitVec.ofNat 64 n) := by
  have htrim := (Trimmed.of_forall fun c hc => (plain_of_hexOperand h c hc).1).trim_eq
  obtain ⟨ds, rfl, hne, hds⟩ := hexOperand_eq_some h
  have hminus : stripPrefix ('0' :: 'x' :: ds) "-" = none := by simp [stripPrefix, startsWith]
  have hhex : hexPrefix ('0' :: 'x' :: ds) = some ds := by
    simp [hexPrefix, stripPrefix, startsWith]
  simp only [parseImmediate, htrim, hminus, hhex, reduceCtorEq, if_false]
  exact u64FromStrRadix_of_digits hne hds hn

lemma foldl_splitStep {s : Text} (h : ∀ c ∈ s, c ≠ ',' ∧ c ≠ '[' ∧ c ≠ ']') (st : SplitState) :
    s.foldl splitStep st = ⟨st.result, st.current ++ s, st.bracketDepth⟩ := by
  induction s generalizing st with
  | nil => simp
  | cons c s ih =>
    obtain ⟨h1, h2, h3⟩ := h c List.mem_cons_self
    rw [List.foldl_cons, ih fun c hc => h c (List.mem_cons_of_mem _ hc)]
    simp [splitStep, h1, h2, h3]

lemma parseOperands_hexOperand (h : hexOperand opStr = some n) : parseOperands opStr = [opStr] := by
  have hplain := plain_of_hexOperand h
  have htrim := (Trimmed.of_forall fun c hc => (hplain c hc).1).trim_eq
  obtain ⟨ds, hds, _, _⟩ := hexOperand_eq_some h
  have hne : opStr ≠ [] := by simp [hds]
  simp only [parseOperands, htrim, if_neg hne, foldl_splitStep fun c hc => (hplain c hc).2]
  simp [pushPiece, htrim, hne]

end Ir

end Dexe
