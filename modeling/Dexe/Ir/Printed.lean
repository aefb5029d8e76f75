import Dexe.Ir.HexOperands
import Dexe.Text.Scan
import Dexe.X86.Semantics

/-! Operands that a disassembler has printed, read back by the lifter. -/

namespace Dexe

open Text

def X86.Reg.base : X86.Reg → VarBase
  | .rax => .rax
  | .rbx => .rbx
  | .rcx => .rcx
  | .rdx => .rdx
  | .rsi => .rsi
  | .rdi => .rdi
  | .rsp => .rsp
  | .rbp => .rbp
  | .r8 => .r8
  | .r9 => .r9
  | .r10 => .r10
  | .r11 => .r11
  | .r12 => .r12
  | .r13 => .r13
  | .r14 => .r14
  | .r15 => .r15

lemma X86.Reg.base_injective : Function.Injective X86.Reg.base := by
  intro r s h
  cases r <;> cases s <;> first | rfl | cases h

structure Prints (d : DisassembledInsn) (i : X86.Insn) : Prop where
  mnemonic : d.mnemonic ∈ i.mnemonics
  operands : ∃ ts ∈ i.operands, d.opStr = X86.operandsText ts

namespace Ir

open X86

structure Plain (c : Char) : Prop where
  space : isWhitespace c = false
  comma : c ≠ ','
  lbracket : c ≠ '['
  rbracket : c ≠ ']'

structure InTerm (c : Char) : Prop extends Plain c where
  plus : c ≠ '+'
  minus : c ≠ '-'

lemma inTerm_of_alphanum {c : Char} (h : c.isAlphanum = true) : InTerm c := by
  have hne : ∀ x : Char, x.isAlphanum = false → c ≠ x := by
    rintro x hx rfl
    rw [hx] at h
    cases h
  have hspace : isWhitespace c = false := by
    have hval : (65 ≤ c.toNat ∧ c.toNat ≤ 90) ∨ (97 ≤ c.toNat ∧ c.toNat ≤ 122) ∨
        (48 ≤ c.toNat ∧ c.toNat ≤ 57) := by
      rcases isAlphanum_iff.mp h with (h | h) | h
      · exact .inl h
      · exact .inr (.inl h)
      · simp only [Char.isDigit, Bool.and_eq_true, decide_eq_true_iff] at h
        exact .inr (.inr h)
    simp only [isWhitespace, Bool.or_eq_false_iff, Bool.and_eq_false_iff,
      decide_eq_false_iff_not, beq_eq_false_iff_ne]
    omega
  exact ⟨⟨hspace, hne _ (by decide), hne _ (by decide), hne _ (by decide)⟩, hne _ (by decide),
    hne _ (by decide)⟩

lemma alphanum_name (r : Reg) : ∀ c ∈ r.name, c.isAlphanum = true := by cases r <;> decide

lemma alphanum_magnitude (n : ℕ) : ∀ c ∈ magnitudeText n, c.isAlphanum = true := by
  rw [magnitudeText]
  split
  · exact fun c hc => alphanum_of_isHexDigit (dec_chars hc)
  · intro c hc
    have hprefix : ∀ c ∈ ("0x" : Text), c.isAlphanum = true := by decide
    rcases List.mem_append.mp hc with hc | hc
    · exact hprefix c hc
    · exact alphanum_of_isHexDigit (hex_chars hc)

lemma magnitude_ne_nil (n : ℕ) : magnitudeText n ≠ [] := by
  rw [magnitudeText]
  split <;> simp

lemma parseRegister_name (r : Reg) : parseRegister r.name = some r.base := by cases r <;> decide

lemma parseRegister_eq_none {c : Char} {t : Text} (htrim : Trimmed (c :: t))
    (hlower : lowerChar c = [c]) (hc : c.isAlpha = false) : parseRegister (c :: t) = none := by
  have hnames : ∀ p ∈ registerNames, ∀ w ∈ p.2, w.head?.any Char.isAlpha = true := by decide
  have hfind : (registerNames.find? fun p => toLowercase (c :: t) ∈ p.2) = none := by
    refine List.find?_eq_none.mpr fun p hp hmem => ?_
    have := hnames p hp _ (of_decide_eq_true hmem)
    simp [toLowercase, hlower, hc] at this
  rw [parseRegister, htrim.trim_eq, hfind]
  rfl

lemma magnitude_head (n : ℕ) : ∃ c t, magnitudeText n = c :: t ∧ lowerChar c = [c] ∧
    c.isAlpha = false := by
  rw [magnitudeText]
  split
  · rename_i hn
    have hdec : dec n = [n.digitChar] := by
      rw [dec]
      rw [Nat.toDigits_eq_if (by norm_num), if_pos hn]
    refine ⟨n.digitChar, [], hdec, ?_⟩
    interval_cases n <;> decide
  · exact ⟨'0', 'x' :: hex n, rfl, by decide, by decide⟩

lemma trimmed_magnitude (n : ℕ) : Trimmed (magnitudeText n) :=
  .of_forall fun c hc => (inTerm_of_alphanum (alphanum_magnitude n c hc)).space

lemma parseRegister_magnitude (n : ℕ) : parseRegister (magnitudeText n) = none := by
  have htrim := trimmed_magnitude n
  obtain ⟨c, t, ht, hlower, hc⟩ := magnitude_head n
  rw [ht] at htrim ⊢
  exact parseRegister_eq_none htrim hlower hc

lemma hexOperand_hex (n : ℕ) : hexOperand ("0x" ++ hex n) = some n := by
  have hprefix : stripPrefix ("0x" ++ hex n) "0x" = some (hex n) := by
    simp [stripPrefix, startsWith]
  rw [hexOperand, hprefix, Option.bind_some, digits_hex]

lemma parseImmediate_magnitude {n : ℕ} (hn : n < 2 ^ 64) :
    parseImmediate (magnitudeText n) = some (BitVec.ofNat 64 n) := by
  rw [magnitudeText]
  split
  · interval_cases n <;> decide
  · exact parseImmediate_hexOperand (hexOperand_hex n) hn

lemma i64FromStrRadix_hex {n : ℕ} (hn : n < 2 ^ 63) :
    i64FromStrRadix (hex n) 16 = some (BitVec.ofNat 64 n) := by
  have hne : ∀ c : Char, isHexDigit c = false → (hex n).head? ≠ some c := by
    intro c hc h
    have := hex_chars (List.mem_of_mem_head? h)
    rw [hc] at this
    cases this
  simp only [i64FromStrRadix, if_neg (hne '-' (by decide)), if_neg (hne '+' (by decide)),
    digits_hex, Option.bind_some, if_pos hn]

lemma parseImmediate_minusHex {n : ℕ} (hn : n < 2 ^ 63) :
    parseImmediate ('-' :: ("0x" ++ hex n)) = some (-BitVec.ofNat 64 n) := by
  have hhex : trim ("0x" ++ hex n) = "0x" ++ hex n :=
    (Trimmed.of_forall fun c hc => (plain_of_hexOperand (hexOperand_hex n) c hc).1).trim_eq
  have hminus : trim ('-' :: ("0x" ++ hex n)) = '-' :: ("0x" ++ hex n) := by
    refine (Trimmed.of_forall ?_).trim_eq
    intro c hc
    rcases List.mem_cons.mp hc with rfl | hc
    · decide
    · exact (plain_of_hexOperand (hexOperand_hex n) c hc).1
  have hstrip : stripPrefix ('-' :: ("0x" ++ hex n)) "-" = some ("0x" ++ hex n) := by
    simp [stripPrefix, startsWith]
  have hprefix : hexPrefix ("0x" ++ hex n) = some (hex n) := by
    simp [hexPrefix, stripPrefix, startsWith]
  simp only [parseImmediate, hminus, hstrip, hhex, hprefix, i64FromStrRadix_hex hn, reduceCtorEq,
    if_false, Option.map_some]

lemma parseImmediate_negative {n : ℕ} (hn : n < 2 ^ 63) :
    parseImmediate ('-' :: magnitudeText n) = some (-BitVec.ofNat 64 n) := by
  rw [magnitudeText]
  split
  · interval_cases n <;> decide
  · exact parseImmediate_minusHex hn

lemma Numeral.bound_pos {n : X86.Numeral} : n.magnitude < 2 ^ 64 := by
  have := n.bound
  split at this <;> omega

lemma parseImmediate_text (n : X86.Numeral) : parseImmediate n.text = some n.value := by
  have hbound := n.bound
  rw [Numeral.text, Numeral.value]
  split
  · rename_i hneg
    rw [hneg, if_pos rfl] at hbound
    exact parseImmediate_negative hbound
  · exact parseImmediate_magnitude (Numeral.bound_pos (n := n))

lemma plain_text (n : X86.Numeral) : ∀ c ∈ n.text, Plain c := by
  rw [X86.Numeral.text]
  have hmag : ∀ c ∈ magnitudeText n.magnitude, Plain c :=
    fun c hc => (inTerm_of_alphanum (alphanum_magnitude _ c hc)).toPlain
  split
  · intro c hc
    rcases List.mem_cons.mp hc with rfl | hc
    · exact ⟨by decide, by decide, by decide, by decide⟩
    · exact hmag c hc
  · exact hmag

lemma parseRegister_text (n : X86.Numeral) : parseRegister n.text = none := by
  have htrim : Trimmed n.text := .of_forall fun c hc => (plain_text n c hc).space
  rw [X86.Numeral.text] at htrim ⊢
  split
  · rename_i hneg
    rw [hneg, if_pos rfl] at htrim
    exact parseRegister_eq_none htrim (by decide) (by decide)
  · exact parseRegister_magnitude n.magnitude

end Ir

end Dexe
