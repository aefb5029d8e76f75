import Dexe.Backend.Evaluation
import Dexe.Ir.PrintedTexts

/-! The emitted address of a printed memory operand. -/

namespace Dexe

open Text X86

structure X86.EffectiveAddress where
  base : Option Reg
  index : Option (Reg × Scale)
  disp : ℤ
  bound : |disp| < 2 ^ 63

namespace X86.EffectiveAddress

variable (a : EffectiveAddress)

def value (regs : Reg → U64) : U64 :=
  a.base.elim 0 regs + a.index.elim 0 (fun i => regs i.1 * BitVec.ofNat 64 i.2.factor) +
    BitVec.ofInt 64 a.disp

def registerTerms : List Term :=
  a.base.toList.map (fun r => ⟨false, r.name⟩) ++
    a.index.toList.map (fun i => ⟨false, MemRef.scaledText i.1.name i.2⟩)

/-- A displacement that stands alone is shown as the unsigned number that it is modulo `2 ^ 64`. -/
def loneDisp : ℕ := (BitVec.ofInt 64 a.disp).toNat

def printedTerms : List (List Term) :=
  if a.registerTerms = [] then
    [[⟨false, magnitudeText a.loneDisp⟩], [⟨false, "0x" ++ hex a.loneDisp⟩]]
  else if a.disp = 0 then [a.registerTerms]
  else [a.registerTerms ++ [⟨decide (a.disp < 0), magnitudeText a.disp.natAbs⟩]]

def texts : List Text :=
  ([] :: Ir.sizePrefixes).flatMap fun size =>
    a.printedTerms.map fun ts => size ++ ("[" ++ termsText ts ++ "]")

def numeral : Option Numeral :=
  if a.registerTerms = [] then some ⟨false, a.loneDisp, (BitVec.ofInt 64 a.disp).isLt⟩
  else if a.disp = 0 then none
  else some ⟨decide (a.disp < 0), a.disp.natAbs, by
    have h := a.bound
    rw [abs_lt] at h
    split <;> omega⟩

def ref : MemRef := ⟨a.base, a.index, a.numeral⟩

lemma numeral_value : a.numeral.elim 0 Numeral.value = BitVec.ofInt 64 a.disp := by
  rw [numeral]
  split
  · exact BitVec.ofNat_toNat ..
  · split
    · rename_i h
      rw [h]
      rfl
    · rename_i h
      rw [Option.elim_some, Numeral.value]
      by_cases hneg : a.disp < 0
      · have habs : a.disp = -(a.disp.natAbs : ℤ) := by omega
        simp only [hneg, decide_true, if_true]
        conv_rhs => rw [habs, BitVec.ofInt_neg, BitVec.ofInt_natCast]
      · have habs : a.disp = (a.disp.natAbs : ℤ) := by omega
        simp only [hneg, decide_false, Bool.false_eq_true, if_false]
        conv_rhs => rw [habs, BitVec.ofInt_natCast]

lemma ref_address (regs : Reg → U64) : a.ref.address regs = a.value regs := by
  rw [value, ← numeral_value]
  rfl

lemma ref_terms : a.ref.terms =
    a.registerTerms ++ a.numeral.toList.map fun n => ⟨n.negative, magnitudeText n.magnitude⟩ := rfl

lemma printedTerms_cases {ts : List Term} (h : ts ∈ a.printedTerms) :
    ts = a.ref.terms ∨ a.registerTerms = [] ∧ ts = [⟨false, "0x" ++ hex a.loneDisp⟩] := by
  rw [ref_terms]
  rw [printedTerms] at h
  rw [numeral]
  split at h
  · rename_i hnone
    rcases List.mem_cons.mp h with rfl | h
    · left
      simp [hnone]
    · exact .inr ⟨hnone, List.mem_singleton.mp h⟩
  · rename_i hsome
    left
    split at h
    · rename_i hzero
      rw [List.mem_singleton.mp h, if_neg hsome, if_pos hzero]
      simp
    · rename_i hzero
      rw [List.mem_singleton.mp h, if_neg hsome, if_neg hzero]
      rfl

lemma value_of_lone (h : a.registerTerms = []) (regs : Reg → U64) :
    a.value regs = BitVec.ofNat 64 a.loneDisp := by
  obtain ⟨hbase, hindex⟩ := List.append_eq_nil_iff.mp h
  have hbase' : a.base = none := by simpa using hbase
  have hindex' : a.index = none := by simpa using hindex
  rw [value, hbase', hindex', loneDisp, BitVec.ofNat_toNat]
  simp

end X86.EffectiveAddress

namespace Ir

variable (versions : Versions) (regs : VarBase → U64)

lemma termText_hex (n : ℕ) : TermText ("0x" ++ hex n) := by
  refine .of_alphanum (by simp) fun c hc => ?_
  have hprefix : ∀ c ∈ ("0x" : Text), c.isAlphanum = true := by decide
  rcases List.mem_append.mp hc with hc | hc
  · exact hprefix c hc
  · exact alphanum_of_isHexDigit (hex_chars hc)

lemma addressStep_hex {n : ℕ} (hn : n < 2 ^ 64) (s : AddressState) :
    addressStep versions s ("0x" ++ hex n) = { s with disp := s.disp + BitVec.ofNat 64 n } := by
  have hterm := termText_hex n
  have hstar : '*' ∉ ("0x" : Text) ++ hex n := by
    have hhex : '*' ∉ hex n := not_mem_star fun c hc => alphanum_of_isHexDigit (hex_chars hc)
    simpa using hhex
  have hregister : parseRegister ("0x" ++ hex n) = none :=
    parseRegister_eq_none (t := 'x' :: hex n) hterm.trimmed (by decide) (by decide)
  rw [addressStep, if_neg hstar, dropWhile_minus hterm, hregister,
    parseImmediate_hexOperand (hexOperand_hex n) hn]

lemma foldl_printedTerms (a : EffectiveAddress) {ts : List Term} (h : ts ∈ a.printedTerms) :
    (∀ t ∈ ts, TermText t.text) ∧
    ((ts.map Term.signed).foldl (addressStep versions) ⟨none, none, 1, 0⟩).value regs =
      a.value fun r => regs r.base := by
  rcases a.printedTerms_cases h with rfl | ⟨hlone, rfl⟩
  · refine ⟨fun t ht => termText_of_mem names_name a.ref ht, ?_⟩
    rw [← a.ref_address]
    exact foldl_terms versions regs names_name a.ref
  · have hlt : a.loneDisp < 2 ^ 64 := BitVec.isLt _
    refine ⟨?_, ?_⟩
    · intro t ht
      rw [List.mem_singleton.mp ht]
      exact termText_hex _
    · rw [a.value_of_lone hlone, List.map_singleton, List.foldl_cons, List.foldl_nil,
        signed_positive, addressStep_hex versions hlt]
      simp [AddressState.value, addrValue]

lemma stripSizePrefix_sized {size inner : Text} (hsize : size ∈ [] :: sizePrefixes) :
    stripSizePrefix (size ++ ("[" ++ inner ++ "]")) = "[" ++ inner ++ "]" := by
  rcases List.mem_cons.mp hsize with rfl | hsize
  · rw [List.nil_append, List.append_assoc]
    exact stripSizePrefix_bracket _
  · exact stripSizePrefix_size hsize _

lemma parseMemoryOperand_texts (a : EffectiveAddress) {t : Text} (ht : t ∈ a.texts) :
    ∃ s : AddressState,
      parseMemoryOperand t versions = some (.mem s.baseReg s.indexReg s.scale s.disp) ∧
      ∀ regs, s.value regs = a.value fun r => regs r.base := by
  obtain ⟨size, hsize, ht⟩ := List.mem_flatMap.mp ht
  obtain ⟨ts, hts, rfl⟩ := List.mem_map.mp ht
  have hterms := (foldl_printedTerms versions (fun _ => 0) a hts).1
  have haddress : AddressText (size ++ ("[" ++ termsText ts ++ "]")) :=
    .mk (outer_size hsize).1 (outer_size hsize).2 (plain_termsText hterms)
  refine ⟨_, ?_, fun regs => (foldl_printedTerms versions regs a hts).2⟩
  rw [parseMemoryOperand, haddress.trimmed.trim_eq, stripSizePrefix_sized hsize,
    bracketed_bracket, (trimmed_termsText hterms).trim_eq, Option.bind_eq_bind, Option.bind_some,
    addressTerms_termsText hterms]
  rfl

end Ir

namespace Backend

open Clang Ir

def ReadsAs (t : Text) (e : Expr) : Prop := parse (t ++ ";") = some [.expr e]

lemma readsAs_text {e : Expr} (he : e.Fits 1) : ReadsAs e.text e := by
  have hfits : ∀ s ∈ [Stmt.expr e], s.Fits := by
    intro s hs
    rw [List.mem_singleton.mp hs]
    exact he
  exact parse_stmtsText hfits

lemma readsAs_buildMemAddrExpr (base index : Option VarId) (scale : BitVec 8) (disp : I64) :
    ReadsAs (buildMemAddrExpr base index scale disp) (addrTree base index scale disp) := by
  rw [← addrTree_text]
  exact readsAs_text (fits_addrTree (by decide) base index scale disp)

/-- Parsing a printed memory operand and evaluating the C expression that is emitted for it gives
its address. -/
theorem buildMemAddrExpr_denotes (a : EffectiveAddress) {t : Text} (ht : t ∈ a.texts)
    (versions : Versions) :
    ∃ base index scale disp,
      parseMemoryOperand t versions = some (.mem base index scale disp) ∧
      ∃ e, ReadsAs (buildMemAddrExpr base index scale disp) e ∧
        ∀ σ : Clang.State, HasInt σ e (a.value fun r => σ.vars (place r.base)) := by
  obtain ⟨s, hparse, hs⟩ := parseMemoryOperand_texts versions a ht
  refine ⟨_, _, _, _, hparse, _, readsAs_buildMemAddrExpr _ _ _ _, fun σ => ?_⟩
  have hvalue := hs fun b => σ.vars (place b)
  rw [← hvalue]
  exact hasInt_addrTree s.baseReg s.indexReg s.scale s.disp

def scaledAddress : EffectiveAddress :=
  ⟨some .rbp, some (.rax, .four), -16, by norm_num⟩

theorem scaledAddress_denotes :
    ∃ base index scale disp,
      parseMemoryOperand "qword ptr [rbp + rax*4 - 0x10]" Versions.initial =
        some (.mem base index scale disp) ∧
      ∃ e, ReadsAs (buildMemAddrExpr base index scale disp) e ∧
        ∀ σ : Clang.State, HasInt σ e (scaledAddress.value fun r => σ.vars (place r.base)) :=
  buildMemAddrExpr_denotes scaledAddress (by decide) Versions.initial

end Backend

end Dexe
