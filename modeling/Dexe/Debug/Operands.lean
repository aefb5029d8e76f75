import Dexe.Bits.Checked
import Dexe.Collections.Guarded
import Dexe.Ir.Immediates
import Dexe.Text.Slices

/-! Parsing of operand texts (`ir.rs`) with the checks of a debug build. A result `none` is a
panic of the source. -/

namespace Dexe.Debug

open Ir Text Bits Collections

def negated : Option I64 → Option (Option I64)
  | some v => (checkedNeg v).map some
  | none => some none

def parseImmediate (s : Text) : Option (Option I64) :=
  let s := s.trim
  if s = [] then some none
  else match s.stripPrefix "-" with
    | some rest =>
      let rest := rest.trim
      match hexPrefix rest with
      | some hex => negated (Text.i64FromStrRadix hex 16)
      | none => negated (Text.i64FromStrRadix rest 10)
    | none =>
      match hexPrefix s with
      | some hex => some (Text.u64FromStrRadix hex 16)
      | none => some (Text.i64FromStrRadix s 10)

def splitStep (s : SplitState) (ch : Char) : Option SplitState :=
  if ch = '[' then
    (checkedAdd s.bracketDepth 1).map fun depth => ⟨s.result, s.current ++ [ch], depth⟩
  else some (Ir.splitStep s ch)

def parseOperands (opStr : Text) : Option (List Text) :=
  let opStr := opStr.trim
  if opStr = [] then some []
  else do
    let s ← opStr.foldlM splitStep ⟨[], [], 0⟩
    return pushPiece s.result s.current

def stripSizePrefix (s : Text) : Option Text :=
  let lower := s.toLowercase
  match sizePrefixes.find? fun p => lower.startsWith p with
  | some p => s.sliceFrom p.length
  | none => some s

def addDisp (s : AddressState) : Option I64 → AddressState
  | some imm => { s with disp := s.disp + imm }
  | none => s

def addressStep (versions : Versions) (s : AddressState) (term : Text) : Option AddressState :=
  if '*' ∈ term then
    match (term.splitOn '*').map Text.trim with
    | [first, second] =>
      let (regPart, scalePart) :=
        if (parseRegister first).isSome then (first, second) else (second, first)
      match parseRegister regPart with
      | some vb => do
        let scale ← parseImmediate scalePart
        return { s with
          indexReg := some (versions.currentVar vb)
          scale := (scale.getD 1).setWidth 8 }
      | none => (parseImmediate term).map (addDisp s)
    | _ => some s
  else match parseRegister (term.dropWhile (· = '-')) with
    | some vb =>
      if s.baseReg = none then some { s with baseReg := some (versions.currentVar vb) }
      else if s.indexReg = none then some { s with indexReg := some (versions.currentVar vb) }
      else some s
    | none => (parseImmediate term).map (addDisp s)

def parseMemoryOperand (s : Text) (versions : Versions) : Option Operand := do
  let s ← stripSizePrefix s.trim
  let inner ← bracketed s
  let a ← (addressTerms inner).foldlM (addressStep versions) ⟨none, none, 1, 0⟩
  return .mem a.baseReg a.indexReg a.scale a.disp

def parseSingleOperand (s : Text) (versions : Versions) : Option Operand :=
  let s := s.trim
  if isMemoryOperand s then parseMemoryOperand s versions
  else match parseRegister s with
    | some vb => some (.var (versions.currentVar vb))
    | none => do
      let imm ← parseImmediate s
      return .imm (imm.getD 0)

def dstRegister (s : Text) : Option (Option VarBase) := do
  let s ← stripSizePrefix s.trim
  return parseRegister s

def parseConditionSuffix (mnemonic : Text) : Option Condition := do
  let suffix ← if mnemonic.head? = some 'j' then mnemonic.sliceFrom 1 else some mnemonic
  return ((conditionSuffixes.find? fun p => suffix ∈ p.2).map Prod.fst).getD .equal

def NegatesLeast (s : Text) : Prop :=
  ∃ rest ds : Text, trim s = '-' :: rest ∧
    (trim rest = '-' :: ds ∧ digits 10 ds = some (2 ^ 63) ∨
      (trim rest = '0' :: 'x' :: '-' :: ds ∨ trim rest = '0' :: 'X' :: '-' :: ds) ∧
        digits 16 ds = some (2 ^ 63))

variable {s t ds : Text} {r : ℕ}

lemma i64FromStrRadix_eq_intMin (hr : r ≤ 16) :
    i64FromStrRadix s r = some (BitVec.intMin 64) ↔
      ∃ ds, s = '-' :: ds ∧ digits r ds = some (2 ^ 63) := by
  have hmin : BitVec.intMin 64 = BitVec.ofNat 64 (2 ^ 63) := by decide
  constructor
  · intro h
    have hsome := (isSome_i64FromStrRadix hr).mp (by rw [h]; rfl)
    rcases hsome with ⟨n, hn, hlt⟩ | ⟨ds, n, rfl, hn, hle⟩
    · rw [i64FromStrRadix_of_number hr hn hlt, Option.some.injEq] at h
      have hnat := congrArg BitVec.toNat h
      rw [hmin, BitVec.toNat_ofNat, BitVec.toNat_ofNat] at hnat
      omega
    · refine ⟨ds, rfl, ?_⟩
      have hhead : ('-' :: ds).head? = some '-' := rfl
      rw [i64FromStrRadix, if_pos hhead, List.tail_cons, hn, Option.bind_some, if_pos hle,
        Option.some.injEq] at h
      have hnat := congrArg BitVec.toNat h
      rw [hmin, BitVec.toNat_neg, BitVec.toNat_ofNat, BitVec.toNat_ofNat] at hnat
      have hn' : n = 2 ^ 63 := by omega
      rw [hn, hn']
  · rintro ⟨ds, rfl, hds⟩
    have hhead : ('-' :: ds).head? = some '-' := rfl
    rw [i64FromStrRadix, if_pos hhead, List.tail_cons, hds]
    rfl

lemma guarded_checkedAdd {w : ℕ} (a b : BitVec w) :
    Guarded (a.toNat + b.toNat < 2 ^ w) (checkedAdd a b) (some (a + b)) :=
  ⟨checkedAdd_of_lt, fun _ => rfl, fun h => checkedAdd_eq_none_iff.mpr (Nat.le_of_not_lt h)⟩

lemma guarded_negated (v : Option I64) :
    Guarded (v ≠ some (BitVec.intMin 64)) (negated v) (some (v.map fun v => -v)) := by
  cases v with
  | none => exact (Guarded.pure none).congr (by simp)
  | some v =>
    refine ⟨fun h => ?_, fun _ => rfl, fun h => ?_⟩
    · rw [negated, checkedNeg, if_neg fun hv => h (by rw [hv])]
      rfl
    · rw [negated, checkedNeg, if_pos (by simpa using h)]
      rfl

lemma guarded_parseImmediate (s : Text) :
    Guarded (¬ NegatesLeast s) (parseImmediate s) (some (Ir.parseImmediate s)) := by
  by_cases hminus : ∃ rest, trim s = '-' :: rest
  · obtain ⟨rest, hs⟩ := hminus
    have hstrip : stripPrefix ('-' :: rest) "-" = some rest := stripPrefix_minus_eq_some_iff.mpr rfl
    have hleast : NegatesLeast s ↔ ∃ ds,
        (trim rest = '-' :: ds ∧ digits 10 ds = some (2 ^ 63)) ∨
          (trim rest = '0' :: 'x' :: '-' :: ds ∨ trim rest = '0' :: 'X' :: '-' :: ds) ∧
            digits 16 ds = some (2 ^ 63) := by
      simp [NegatesLeast, hs]
    rw [Ir.parseImmediate_minus hs]
    simp only [parseImmediate, hs, reduceCtorEq, if_false, hstrip]
    cases hhex : hexPrefix (trim rest) with
    | some hex =>
      refine (guarded_negated _).congr (not_congr ?_)
      rw [i64FromStrRadix_eq_intMin le_rfl, hleast]
      refine exists_congr fun ds => ?_
      rcases hexPrefix_eq_some_iff.mp hhex with h | h <;> simp [h]
    | none =>
      refine (guarded_negated _).congr (not_congr ?_)
      rw [i64FromStrRadix_eq_intMin (by norm_num), hleast]
      refine exists_congr fun ds => (or_iff_left ?_).symm
      rintro ⟨h, -⟩
      rw [hexPrefix_eq_some_iff.mpr h] at hhex
      cases hhex
  · have hno : ¬ NegatesLeast s := by
      rintro ⟨rest, ds, hs, -⟩
      exact hminus ⟨rest, hs⟩
    have hstrip : stripPrefix (trim s) "-" = none :=
      stripPrefix_minus_eq_none fun ds hds => hminus ⟨ds, hds⟩
    refine (Guarded.pure _).congr (by simp [hno]) |>.of_eq ?_
    simp only [parseImmediate, Ir.parseImmediate, hstrip]
    cases hexPrefix (trim s) <;> split <;> rfl

end Dexe.Debug
