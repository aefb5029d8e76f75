import Dexe.Ir.PrintedAddress
import Dexe.Ir.Splitting

/-! The operands of a printed instruction, read back by the lifter. -/

namespace Dexe.Ir

open Text X86

lemma plain_laterTerms {ts : List Term} (h : ∀ t ∈ ts, TermText t.text) :
    ∀ c ∈ laterTerms ts, c ≠ ',' ∧ c ≠ '[' ∧ c ≠ ']' := by
  induction ts with
  | nil => simp [laterTerms]
  | cons t ts ih =>
    have hsign : ∀ c ∈ (if t.negative then " - " else " + " : String).toList,
        c ≠ ',' ∧ c ≠ '[' ∧ c ≠ ']' := by
      split <;> decide
    intro c hc
    simp only [laterTerms, List.mem_append] at hc
    rcases hc with (hc | hc) | hc
    · exact hsign c hc
    · have := (h t List.mem_cons_self).chars c hc
      exact ⟨this.comma, this.lbracket, this.rbracket⟩
    · exact ih (fun t ht => h t (List.mem_cons_of_mem _ ht)) c hc

lemma plain_termsText {ts : List Term} (h : ∀ t ∈ ts, TermText t.text) :
    ∀ c ∈ termsText ts, c ≠ ',' ∧ c ≠ '[' ∧ c ≠ ']' := by
  cases ts with
  | nil => simp [termsText]
  | cons t ts =>
    intro c hc
    simp only [termsText, List.mem_append] at hc
    rcases hc with hc | hc
    · rw [Term.signed] at hc
      have htext : ∀ c ∈ t.text, c ≠ ',' ∧ c ≠ '[' ∧ c ≠ ']' := fun c hc =>
        have := (h t List.mem_cons_self).chars c hc
        ⟨this.comma, this.lbracket, this.rbracket⟩
      split at hc
      · rcases List.mem_cons.mp hc with rfl | hc
        · decide
        · exact htext c hc
      · exact htext c hc
    · exact plain_laterTerms (fun t ht => h t (List.mem_cons_of_mem _ ht)) c hc

lemma last_laterTerms {ts : List Term} (h : ∀ t ∈ ts, TermText t.text) {s : Text}
    (hs : ∀ c ∈ s.getLast?, isWhitespace c = false) :
    ∀ c ∈ (s ++ laterTerms ts).getLast?, isWhitespace c = false := by
  induction ts generalizing s with
  | nil => simpa [laterTerms] using hs
  | cons t ts ih =>
    have ht := h t List.mem_cons_self
    have hassoc : s ++ laterTerms (t :: ts) =
        s ++ (if t.negative then " - " else " + " : String).toList ++ t.text ++ laterTerms ts := by
      simp only [laterTerms, List.append_assoc]
    rw [hassoc]
    refine ih (fun t ht => h t (List.mem_cons_of_mem _ ht)) ?_
    rw [List.getLast?_append_of_ne_nil _ ht.ne_nil]
    exact ht.trimmed.last

lemma trimmed_termsText {ts : List Term} (h : ∀ t ∈ ts, TermText t.text) :
    Trimmed (termsText ts) := by
  cases ts with
  | nil => exact ⟨by simp [termsText], by simp [termsText]⟩
  | cons t ts =>
    have ht := h t List.mem_cons_self
    constructor
    · rw [termsText, List.head?_append_of_ne_nil _ (signed_ne_nil ht)]
      exact (trimmed_signed ht).head
    · exact last_laterTerms (fun t ht => h t (List.mem_cons_of_mem _ ht)) (trimmed_signed ht).last

lemma bracketed_bracket (s : Text) : bracketed ("[" ++ s ++ "]") = some (trim s) := by
  have hfind : Text.find ("[" ++ s ++ "]") '[' = some 0 := by
    simp [Text.find, List.findIdx?_cons]
  have hrfind : Text.rfind ("[" ++ s ++ "]") ']' = some (s.length + 1) := by
    simp [Text.rfind, List.findIdx?_cons]
  have hslice : Text.slice ("[" ++ s ++ "]") 1 (s.length + 1) = some s := by
    simp [Text.slice]
  rw [bracketed, hfind, hrfind]
  simp only [Nat.zero_add, hslice, Option.map_some]

lemma toLowercase_append (s t : Text) : toLowercase (s ++ t) = toLowercase s ++ toLowercase t :=
  List.flatMap_append

lemma stripSizePrefix_size {size : Text} (hsize : size ∈ sizePrefixes) (s : Text) :
    stripSizePrefix (size ++ s) = s := by
  have hlower : toLowercase (size ++ s) = size ++ toLowercase s := by
    have hall : ∀ p ∈ sizePrefixes, toLowercase p = p := by decide
    rw [toLowercase_append, hall size hsize]
  have hfind : (sizePrefixes.find? fun p => (toLowercase (size ++ s)).startsWith p) =
      some size := by
    rw [hlower]
    simp only [sizePrefixes, List.mem_cons, List.not_mem_nil, or_false] at hsize
    rcases hsize with rfl | rfl | rfl | rfl | rfl | rfl | rfl | rfl | rfl | rfl <;> rfl
  simp only [stripSizePrefix, hfind]
  simp

lemma stripSizePrefix_bracket (s : Text) : stripSizePrefix ("[" ++ s) = "[" ++ s := by
  have hfind : (sizePrefixes.find? fun p => (toLowercase ("[" ++ s)).startsWith p) = none := by
    have hlower : toLowercase ("[" ++ s) = '[' :: toLowercase s := by
      rw [toLowercase, List.flatMap_append, ← toLowercase]
      rfl
    rw [hlower]
    simp [sizePrefixes, startsWith, List.isPrefixOf]
  simp only [stripSizePrefix, hfind]

def IsMemText (m : MemRef) (t : Text) : Prop := t = m.text ∨ t = m.bracketText

section

variable {m : MemRef} {t : Text}

lemma trimmed_bracketText (m : MemRef) : Trimmed m.bracketText := by
  refine .append ?_ (by simp) ?_ (by decide)
  · rintro c ⟨⟩
    decide
  · rintro c ⟨⟩
    decide

lemma IsMemText.trimmed (h : IsMemText m t) : Trimmed t := by
  have hbracket := trimmed_bracketText m
  rcases h with rfl | rfl
  · refine .append ?_ (by decide) hbracket.last (by simp [MemRef.bracketText])
    rintro c ⟨⟩
    decide
  · exact hbracket

lemma IsMemText.isMemoryOperand (h : IsMemText m t) : isMemoryOperand t := by
  have hbracket : '[' ∈ m.bracketText :=
    List.mem_append_left _ (List.mem_append_left _ (by decide))
  rcases h with rfl | rfl
  · exact List.mem_append_right _ hbracket
  · exact hbracket

theorem parseMemoryOperand_text (h : IsMemText m t) (versions : Versions) :
    ∃ a : AddressState,
      parseMemoryOperand t versions = some (.mem a.baseReg a.indexReg a.scale a.disp) ∧
      ∀ regs, a.value regs = m.address fun r => regs r.base := by
  have hterms : ∀ t ∈ m.terms, TermText t.text := fun t ht => termText_of_mem names_name m ht
  have hstrip : stripSizePrefix (trim t) = "[" ++ termsText m.terms ++ "]" := by
    rw [h.trimmed.trim_eq]
    rcases h with rfl | rfl
    · exact stripSizePrefix_size (by decide) _
    · rw [MemRef.bracketText, List.append_assoc]
      exact stripSizePrefix_bracket _
  refine ⟨_, ?_, fun regs => foldl_terms versions regs names_name m⟩
  rw [parseMemoryOperand, hstrip, bracketed_bracket, (trimmed_termsText hterms).trim_eq,
    Option.bind_eq_bind, Option.bind_some, addressTerms_termsText hterms]
  rfl

end

def Means (op : Operand) (src : Source) : Prop :=
  ∀ (regs : VarBase → U64) (mem : Memory),
    operandValue regs mem op = X86.State.read ⟨fun r => regs r.base, mem⟩ src

def Wide (op : Operand) : Prop := ∀ n, op ≠ .imm n

lemma not_memory_of_plain {t : Text} (h : ∀ c ∈ t, Plain c) : ¬ isMemoryOperand t :=
  fun hmem => (h '[' hmem).lbracket rfl

lemma plain_name (r : Reg) : ∀ c ∈ r.name, Plain c :=
  fun c hc => ((termText_name r).chars c hc).toPlain

lemma trimmed_of_plain {t : Text} (h : ∀ c ∈ t, Plain c) : Trimmed t :=
  .of_forall fun c hc => (h c hc).space

lemma parseSingleOperand_name (r : Reg) (versions : Versions) :
    parseSingleOperand r.name versions = some (.var (versions.currentVar r.base)) := by
  have hplain := plain_name r
  simp only [parseSingleOperand, (trimmed_of_plain hplain).trim_eq,
    if_neg (not_memory_of_plain hplain), parseRegister_name]

lemma parseSingleOperand_number (n : Numeral) (versions : Versions) :
    parseSingleOperand n.text versions = some (.imm n.value) := by
  have hplain := plain_text n
  simp only [parseSingleOperand, (trimmed_of_plain hplain).trim_eq,
    if_neg (not_memory_of_plain hplain), parseRegister_text, parseImmediate_text, Option.getD_some]

lemma means_mem {m : MemRef} {a : AddressState}
    (h : ∀ regs, a.value regs = m.address fun r => regs r.base) :
    Means (.mem a.baseReg a.indexReg a.scale a.disp) (.mem m) := by
  intro regs mem
  exact congrArg mem.load64 (h regs)

theorem parseSingleOperand_text (src : Source) (versions : Versions) :
    ∃ op, parseSingleOperand src.text versions = some op ∧ Means op src ∧
      ((∀ n, src ≠ .imm n) → Wide op) := by
  cases src with
  | reg r => exact ⟨_, parseSingleOperand_name r versions, fun _ _ => rfl, fun _ _ h => by cases h⟩
  | imm n =>
    exact ⟨_, parseSingleOperand_number n versions, fun _ _ => rfl, fun h => absurd rfl (h n)⟩
  | mem m =>
    have htext : IsMemText m m.text := .inl rfl
    obtain ⟨a, hparse, ha⟩ := parseMemoryOperand_text htext versions
    refine ⟨_, ?_, means_mem ha, fun _ _ h => by cases h⟩
    simp only [parseSingleOperand, Source.text, htext.trimmed.trim_eq,
      if_pos htext.isMemoryOperand, hparse]

lemma dstRegister_name (r : Reg) : dstRegister r.name = some r.base := by cases r <;> decide

lemma dstRegister_mem {m : MemRef} {t : Text} (h : IsMemText m t) : dstRegister t = none := by
  have hstrip : stripSizePrefix (trim t) = m.bracketText := by
    rw [h.trimmed.trim_eq]
    rcases h with rfl | rfl
    · exact stripSizePrefix_size (by decide) _
    · exact stripSizePrefix_bracket _
  rw [dstRegister, hstrip]
  exact parseRegister_eq_none (trimmed_bracketText m) (by decide) (by decide)

namespace Piece

variable {t : Text}

lemma of_plain (hne : t ≠ []) (h : ∀ c ∈ t, Plain c) : Piece t :=
  ⟨hne, trimmed_of_plain h, fun _ _ =>
    foldl_splitStep (fun c hc => ⟨(h c hc).comma, (h c hc).lbracket, (h c hc).rbracket⟩) _⟩

lemma of_mem {m : MemRef} (h : IsMemText m t) : Piece t := by
  have hinner : ∀ st, (termsText m.terms).foldl splitStep st =
      ⟨st.result, st.current ++ termsText m.terms, st.bracketDepth⟩ :=
    foldl_splitStep (plain_termsText fun t ht => termText_of_mem names_name _ ht)
  have hsize : ∀ st, ("qword ptr " : Text).foldl splitStep st =
      ⟨st.result, st.current ++ "qword ptr ", st.bracketDepth⟩ := foldl_splitStep (by decide)
  have hbracket : ∀ result current, m.bracketText.foldl splitStep ⟨result, current, 0⟩ =
      ⟨result, current ++ m.bracketText, 0⟩ := by
    intro result current
    have hopen : splitStep ⟨result, current, 0⟩ '[' = ⟨result, current ++ ['['], 1⟩ := rfl
    have hclose : ∀ cur, splitStep ⟨result, cur, 1⟩ ']' = ⟨result, cur ++ [']'], 0⟩ :=
      fun _ => by simp [splitStep]
    have htext : m.bracketText = '[' :: (termsText m.terms ++ [']']) := rfl
    rw [htext, List.foldl_cons, List.foldl_append, hopen, hinner, List.foldl_cons, hclose]
    simp
  refine ⟨?_, h.trimmed, fun result current => ?_⟩
  · rintro rfl
    exact absurd h.isMemoryOperand (by decide)
  · rcases h with rfl | rfl
    · calc m.text.foldl splitStep ⟨result, current, 0⟩
          = m.bracketText.foldl splitStep (("qword ptr " : Text).foldl splitStep
              ⟨result, current, 0⟩) := List.foldl_append
        _ = m.bracketText.foldl splitStep ⟨result, current ++ "qword ptr ", 0⟩ :=
            congrArg (fun st => m.bracketText.foldl splitStep st) (hsize _)
        _ = ⟨result, current ++ "qword ptr " ++ m.bracketText, 0⟩ := hbracket _ _
        _ = ⟨result, current ++ m.text, 0⟩ :=
            congrArg (fun c => SplitState.mk result c 0) (List.append_assoc ..)
    · exact hbracket result current

end Piece

theorem parseOperands_operandsText {ts : List Text} (h : ∀ t ∈ ts, Piece t) :
    parseOperands (operandsText ts) = ts := by
  rw [operandsText_eq]
  exact parseOperands_joinedText h _

end Dexe.Ir
