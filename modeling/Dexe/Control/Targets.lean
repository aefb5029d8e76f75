import Dexe.Cfg
import Dexe.Ir.Immediates
import Dexe.Ir.Transfers

/-! The target of a jump or a call, as the graph builder and as the lifter read it. -/

namespace Dexe

def Opcode.directTarget : Opcode → Option U64
  | .jmp target => some target
  | .jcc _ target _ => some target
  | .call (.direct target) _ => some target
  | _ => none

namespace Ir

open Text

variable {s t ds : Text} {a : U64}

lemma parseHexTarget_hex (hs : hexPrefix (trim t) = some ds) :
    Cfg.parseHexTarget t = u64FromStrRadix ds 16 := by
  rw [Cfg.parseHexTarget]
  rcases hexPrefix_eq_some_iff.mp hs with h | h <;> simp [h, startsWith]

lemma parseHexTarget_bare (hs : hexPrefix (trim t) = none) :
    Cfg.parseHexTarget t = u64FromStrRadix (trim t) 16 := by
  have hstart : ∀ x : Char, x = 'x' ∨ x = 'X' → startsWith (trim t) ['0', x] = false := by
    intro x hx
    refine Bool.eq_false_iff.mpr fun h => ?_
    obtain ⟨us, hus⟩ := List.isPrefixOf_iff_prefix.mp h
    have hcut : hexPrefix (trim t) = some us := by
      rw [hexPrefix_eq_some_iff, ← hus]
      rcases hx with rfl | rfl
      · exact .inl rfl
      · exact .inr rfl
    rw [hs] at hcut
    cases hcut
  have hno : startsWith (trim t) "0x" = false ∧ startsWith (trim t) "0X" = false :=
    ⟨hstart 'x' (.inl rfl), hstart 'X' (.inr rfl)⟩
  simp only [Cfg.parseHexTarget, hno.1, hno.2, Bool.false_or, Bool.false_eq_true, if_false]

lemma isSome_parseHexTarget :
    (Cfg.parseHexTarget t).isSome ↔ IsHexNumber (trim t) ∨ IsNumber 16 (2 ^ 64) (trim t) := by
  cases hs : hexPrefix (trim t) with
  | some ds =>
    have hnumber : ¬ IsNumber 16 (2 ^ 64) (trim t) := by
      intro h
      rw [hexPrefix_eq_none le_rfl h] at hs
      cases hs
    rw [parseHexTarget_hex hs, or_iff_left hnumber, isHexNumber_iff hs]
    exact isSome_u64FromStrRadix
  | none =>
    rw [parseHexTarget_bare hs, or_iff_right (not_isHexNumber hs)]
    exact isSome_u64FromStrRadix

lemma parseImmediate_bare (h : u64FromStrRadix (trim t) 16 = some a) :
    (parseImmediate t = some a ↔ IsNumber 10 10 (trim t)) ∧
      ((parseImmediate t).getD 0 = a ↔ IsNumber 10 10 (trim t)) := by
  obtain ⟨n, hn, hlt, rfl⟩ := u64FromStrRadix_eq_some_iff.mp h
  have hnumber : IsNumber 16 (2 ^ 64) (trim t) := ⟨n, hn, hlt⟩
  obtain ⟨hne, hdigits⟩ := digits_eq_some_iff.mp hn
  have hdec := parseImmediate_dec hnumber.ne_nil (fun ds => not_minus_of_number le_rfl hnumber)
    (hexPrefix_eq_none le_rfl hnumber)
  by_cases hten : IsNumber 10 (2 ^ 63) (trim t)
  · obtain ⟨m, hm, hbound⟩ := hten
    have hvalue := hdec.trans (i64FromStrRadix_of_number (by norm_num) hm hbound)
    have heq := digitsFrom_eq_iff (by norm_num) (by norm_num) (digits_eq_some_iff.mp hm).2 hdigits
    have hsmall : IsNumber 10 10 (trim t) ↔ n = m := by
      rw [heq]
      constructor
      · rintro ⟨k, hk, hlt⟩
        rw [hm] at hk
        cases hk
        exact hlt
      · exact fun hlt => ⟨m, hm, hlt⟩
    have hword : (BitVec.ofNat 64 m = BitVec.ofNat 64 n) ↔ n = m := by
      rw [← BitVec.toNat_inj, BitVec.toNat_ofNat, BitVec.toNat_ofNat, Nat.mod_eq_of_lt (by omega),
        Nat.mod_eq_of_lt hlt, eq_comm]
    rw [hvalue, hsmall, Option.some_inj, Option.getD_some, hword]
    exact ⟨Iff.rfl, Iff.rfl⟩
  · have hnone : parseImmediate t = none := by
      rw [← Option.not_isSome_iff_eq_none, hdec, isSome_i64FromStrRadix (by norm_num)]
      rintro (h | ⟨us, k, hus, -⟩)
      · exact hten h
      · exact not_minus_of_number le_rfl hnumber hus
    have hsmall : ¬ IsNumber 10 10 (trim t) := by
      rintro ⟨k, hk, hlt⟩
      exact hten ⟨k, hk, by omega⟩
    have hzero : n ≠ 0 := by
      rintro rfl
      have hdigits' := digitsFrom_zero (r := 10) (by norm_num) (by norm_num) hdigits
      exact hsmall ⟨0, digits_eq_some_iff.mpr ⟨hne, hdigits'⟩, by norm_num⟩
    rw [hnone, Option.getD_none]
    refine ⟨iff_of_false (by simp) hsmall, iff_of_false (fun h => hzero ?_) hsmall⟩
    have hnat := congrArg BitVec.toNat h
    rw [BitVec.toNat_ofNat, Nat.mod_eq_of_lt hlt] at hnat
    exact hnat.symm

lemma plain_of_target (h : IsHexNumber s ∨ IsNumber 16 (2 ^ 64) s) :
    s ≠ [] ∧ ∀ c ∈ s, Plain c := by
  have hnumber : ∀ {us : Text}, IsNumber 16 (2 ^ 64) us → ∀ c ∈ us, Plain c := by
    intro us h c hc
    obtain ⟨hspace, hcomma, hopen, hclose, -⟩ := h.plain le_rfl hc
    exact ⟨hspace, hcomma, hopen, hclose⟩
  have hcut : ∀ c ∈ ['0', 'x', 'X'], Plain c := by
    intro c hc
    fin_cases hc <;> exact ⟨by decide, by decide, by decide, by decide⟩
  rcases h with ⟨us, rfl | rfl, h⟩ | h
  · refine ⟨by simp, fun c hc => ?_⟩
    simp only [List.mem_cons] at hc
    rcases hc with rfl | rfl | hc
    · exact hcut _ (by simp)
    · exact hcut _ (by simp)
    · exact hnumber h c hc
  · refine ⟨by simp, fun c hc => ?_⟩
    simp only [List.mem_cons] at hc
    rcases hc with rfl | rfl | hc
    · exact hcut _ (by simp)
    · exact hcut _ (by simp)
    · exact hnumber h c hc
  · exact ⟨h.ne_nil, hnumber h⟩

lemma parseOperands_plain (hne : trim t ≠ []) (h : ∀ c ∈ trim t, Plain c) :
    parseOperands t = [trim t] := by
  have hsplit : ∀ c ∈ trim t, c ≠ ',' ∧ c ≠ '[' ∧ c ≠ ']' :=
    fun c hc => ⟨(h c hc).comma, (h c hc).lbracket, (h c hc).rbracket⟩
  have htrim : trim (trim t) = trim t := (trimmed_of_plain h).trim_eq
  simp only [parseOperands, if_neg hne, foldl_splitStep hsplit, List.nil_append]
  simp [pushPiece, htrim, hne]

lemma parseRegister_target (h : IsHexNumber s ∨ IsNumber 16 (2 ^ 64) s) :
    parseRegister s = none := by
  have htrim := trimmed_of_plain (plain_of_target h).2
  rcases h with ⟨us, rfl | rfl, h⟩ | h
  · exact parseRegister_eq_none htrim (by decide) (by decide)
  · exact parseRegister_eq_none htrim (by decide) (by decide)
  · have hnames : ∀ p ∈ registerNames, ∀ w ∈ p.2,
        w.any (fun c => (toDigit 16 c).isNone && c != '+') = true := by
      decide
    have hlower : ∀ c ∈ toLowercase s, c = '+' ∨ (toDigit 16 c).isSome := by
      intro c hc
      obtain ⟨c', hc', hlow⟩ := List.mem_flatMap.mp hc
      rcases h.chars hc' with rfl | ⟨d, hd⟩
      · exact .inl (List.mem_singleton.mp hlow)
      · exact .inr (toDigit_lowerChar hd hlow)
    have hfind : (registerNames.find? fun p => toLowercase s ∈ p.2) = none := by
      refine List.find?_eq_none.mpr fun p hp hmem => ?_
      obtain ⟨c, hc, hchar⟩ := List.any_eq_true.mp (hnames p hp _ (of_decide_eq_true hmem))
      obtain ⟨hdigit, hplus⟩ : toDigit 16 c = none ∧ c ≠ '+' := by simpa using hchar
      rcases hlower c hc with h | h
      · exact hplus h
      · rw [hdigit] at h
        cases h
    rw [parseRegister, htrim.trim_eq, hfind]
    rfl

def liftedTarget (d : DisassembledInsn) (versions : Versions) : Option U64 :=
  (liftInsn d versions).bind fun p => p.1.getLast?.bind fun ir => ir.opcode.directTarget

variable {d : DisassembledInsn} (versions : Versions)

lemma liftedTarget_eq (hleave : armOfInsn d ≠ .leave) :
    liftedTarget d versions =
      (liftArm (armOfInsn d) (lockedMnemonic d.mnemonic).2 (parseOperands d.opStr) d versions).bind
        fun p => p.1.directTarget := by
  have hbefore := liftBefore_of_ne hleave versions
  rw [armOfInsn] at hbefore ⊢
  rw [liftedTarget, liftInsn]
  simp only [hbefore]
  cases liftArm (armOf (lockedMnemonic d.mnemonic).1 (lockedMnemonic d.mnemonic).2)
    (lockedMnemonic d.mnemonic).2 (parseOperands d.opStr) d versions <;> rfl

lemma liftedTarget_jmp (h : d.mnemonic = "jmp") :
    liftedTarget d versions = (parseOperands d.opStr).head?.bind jmpTarget := by
  have harm := armOfInsn_jmp h
  rw [liftedTarget_eq versions (by simp [harm]), harm]
  cases parseOperands d.opStr with
  | nil => rfl
  | cons first more =>
    simp only [liftArm, List.head?_cons, Option.bind_some, jmpTarget, liftJmp]
    cases parseImmediate (trim first) with
    | some a => rfl
    | none =>
      by_cases hmem : isMemoryOperand (trim first)
      · simp only [if_pos hmem, if_pos (Or.inl hmem)]
        cases parseMemoryOperand (trim first) versions <;> rfl
      · simp only [if_neg hmem]
        cases hreg : parseRegister (trim first) <;> simp [hmem, Opcode.directTarget]

lemma liftedTarget_condJump (h : d.mnemonic ∈ Cfg.condJumps) :
    liftedTarget d versions = some (jccTarget (parseOperands d.opStr)) := by
  have harm := armOfInsn_condJump h
  rw [liftedTarget_eq versions (by simp [harm]), harm]
  rfl

def callTarget (targetStr : Text) : Option U64 :=
  if isMemoryOperand (trim targetStr) ∨ (parseRegister (trim targetStr)).isSome then none
  else parseImmediate (trim targetStr)

lemma liftedTarget_call (h : d.mnemonic = "call") :
    liftedTarget d versions = (parseOperands d.opStr).head?.bind callTarget := by
  have harm := armOfInsn_call h
  rw [liftedTarget_eq versions (by simp [harm]), harm]
  cases parseOperands d.opStr with
  | nil => rfl
  | cons first more =>
    simp only [liftArm, List.head?_cons, Option.bind_some, callTarget, liftCall]
    by_cases hmem : isMemoryOperand (trim first)
    · simp only [if_pos hmem, if_pos (Or.inl hmem)]
      cases parseMemoryOperand (trim first) versions <;> rfl
    · simp only [if_neg hmem]
      cases hreg : parseRegister (trim first) with
      | some vb => simp [Opcode.directTarget]
      | none =>
        cases hnumber : parseImmediate (trim first) <;> simp [hmem, Opcode.directTarget]

def Indirect (opStr : Text) : Prop :=
  ∀ first ∈ (parseOperands opStr).head?,
    isMemoryOperand first.trim ∨ (parseRegister first.trim).isSome

def Symbolic (opStr : Text) : Prop :=
  ¬ IsNumber 16 (2 ^ 64) opStr.trim ∧
    ∀ first ∈ (parseOperands opStr).head?, ¬ ImmediateText first.trim

/-- A number that hexadecimal digits follow a prefix in, or one of a single digit; for a jump that
is no branch, and for a call, also an operand that is no number for either. -/
def ReadsAlike (mnemonic opStr : Text) : Prop :=
  IsHexNumber opStr.trim ∨ IsNumber 10 10 opStr.trim ∨
    mnemonic ∉ Cfg.condJumps ∧ Indirect opStr ∨ mnemonic = "call" ∧ Symbolic opStr

lemma targets_agree_some (hkind : d.mnemonic = "jmp" ∨ d.mnemonic ∈ Cfg.condJumps ∨
    d.mnemonic = "call") (h : Cfg.parseHexTarget d.opStr = some a) :
    liftedTarget d versions = some a ↔ ReadsAlike d.mnemonic d.opStr := by
  have htarget : IsHexNumber (trim d.opStr) ∨ IsNumber 16 (2 ^ 64) (trim d.opStr) := by
    rw [← isSome_parseHexTarget, h]
    rfl
  obtain ⟨hne, hplain⟩ := plain_of_target htarget
  have hops : parseOperands d.opStr = [trim d.opStr] := parseOperands_plain hne hplain
  have hdirect : ¬ (isMemoryOperand (trim d.opStr) ∨ (parseRegister (trim d.opStr)).isSome) := by
    rw [parseRegister_target htarget]
    simpa using not_memory_of_plain hplain
  have halike : ReadsAlike d.mnemonic d.opStr ↔
      IsHexNumber (trim d.opStr) ∨ IsNumber 10 10 (trim d.opStr) := by
    have hindirect : ¬ Indirect d.opStr := by
      simpa only [Indirect, hops, List.head?_cons, Option.mem_some_iff, forall_eq', trim_trim]
        using hdirect
    have hsymbolic : ¬ Symbolic d.opStr := by
      rintro ⟨hnumber, himm⟩
      rcases htarget with hhex | hbare
      · refine himm (trim d.opStr) (by simp [hops]) ?_
        rw [trim_trim]
        exact .inl hhex
      · exact hnumber hbare
    simp [ReadsAlike, hindirect, hsymbolic]
  have hread : (parseImmediate d.opStr = some a ↔ ReadsAlike d.mnemonic d.opStr) ∧
      ((parseImmediate d.opStr).getD 0 = a ↔ ReadsAlike d.mnemonic d.opStr) := by
    rw [halike]
    cases hs : hexPrefix (trim d.opStr) with
    | some ds =>
      have hhex : IsHexNumber (trim d.opStr) :=
        htarget.resolve_right fun hbare => by
          rw [hexPrefix_eq_none le_rfl hbare] at hs
          cases hs
      rw [parseHexTarget_hex hs] at h
      rw [parseImmediate_hex hs, h]
      simp [hhex]
    | none =>
      rw [parseHexTarget_bare hs] at h
      rw [or_iff_right (not_isHexNumber hs)]
      exact parseImmediate_bare h
  rcases hkind with hjmp | hcond | hcall
  · rw [← hread.2, liftedTarget_jmp versions hjmp, hops, List.head?_cons, Option.bind_some,
      jmpTarget, trim_trim, if_neg hdirect, parseImmediate_trim]
    cases parseImmediate d.opStr <;> simp
  · rw [← hread.2, liftedTarget_condJump versions hcond, hops, jccTarget, trim_trim,
      parseImmediate_trim, Option.some_inj]
  · rw [← hread.1, liftedTarget_call versions hcall, hops, List.head?_cons, Option.bind_some,
      callTarget, trim_trim, if_neg hdirect, parseImmediate_trim]

lemma isNumber_hex (h : IsNumber 10 10 s) : IsNumber 16 (2 ^ 64) s := by
  obtain ⟨m, hm, hlt⟩ := h
  obtain ⟨hne, hdigits⟩ := digits_eq_some_iff.mp hm
  obtain ⟨n, hn⟩ := digitsFrom_mono (show 10 ≤ 16 by norm_num) hdigits 0
  have heq := (digitsFrom_eq_iff (by norm_num) (by norm_num) hdigits hn).mpr hlt
  exact ⟨n, digits_eq_some_iff.mpr ⟨hne, hn⟩, by omega⟩

lemma jmpTarget_eq_none_iff :
    jmpTarget t = none ↔ isMemoryOperand (trim t) ∨ (parseRegister (trim t)).isSome := by
  rw [jmpTarget, parseImmediate_trim]
  constructor
  · intro h
    cases himm : parseImmediate t with
    | some a => simp [himm] at h
    | none =>
      by_contra hno
      simp [himm, hno] at h
  · intro h
    have himm : parseImmediate t = none :=
      h.elim parseImmediate_of_memory parseImmediate_of_register
    simp only [himm, if_pos h]

lemma callTarget_eq_none_iff :
    callTarget t = none ↔ (isMemoryOperand (trim t) ∨ (parseRegister (trim t)).isSome) ∨
      ¬ ImmediateText (trim t) := by
  rw [callTarget, ← isSome_parseImmediate, parseImmediate_trim]
  split
  · rename_i h
    exact iff_of_true rfl (.inl h)
  · rename_i h
    rw [or_iff_right h, Option.not_isSome_iff_eq_none]

lemma targets_agree_none (hkind : d.mnemonic = "jmp" ∨ d.mnemonic ∈ Cfg.condJumps ∨
    d.mnemonic = "call") (h : Cfg.parseHexTarget d.opStr = none) :
    liftedTarget d versions = none ↔ ReadsAlike d.mnemonic d.opStr := by
  have hno : ¬ (IsHexNumber (trim d.opStr) ∨ IsNumber 16 (2 ^ 64) (trim d.opStr)) := by
    rw [← isSome_parseHexTarget, h]
    simp
  obtain ⟨hhex, hbare⟩ := not_or.mp hno
  have hsmall : ¬ IsNumber 10 10 (trim d.opStr) := fun hs => hbare (isNumber_hex hs)
  rw [ReadsAlike, or_iff_right hhex, or_iff_right hsmall, Symbolic, and_iff_right hbare]
  rcases hkind with hjmp | hcond | hcall
  · have hnot : d.mnemonic ∉ Cfg.condJumps ∧ d.mnemonic ≠ "call" := by
      rw [hjmp]
      decide
    rw [liftedTarget_jmp versions hjmp, and_iff_right hnot.1, or_iff_left fun hc => hnot.2 hc.1,
      Indirect]
    cases (parseOperands d.opStr).head? with
    | none => simp
    | some first => simpa using jmpTarget_eq_none_iff
  · have hnot : d.mnemonic ≠ "call" := by
      intro hcall
      rw [hcall] at hcond
      exact absurd hcond (by decide)
    rw [liftedTarget_condJump versions hcond]
    exact iff_of_false (by simp) fun hor => hor.elim (fun hi => hi.1 hcond) fun hs => hnot hs.1
  · have hnot : d.mnemonic ∉ Cfg.condJumps := by
      rw [hcall]
      decide
    rw [liftedTarget_call versions hcall, and_iff_right hnot, and_iff_right hcall, Indirect]
    cases (parseOperands d.opStr).head? with
    | none => simp
    | some first => simpa using callTarget_eq_none_iff

/-- The graph builder and the lifter read the operand of a jump, a branch or a call as the same
target, or both as none, exactly for these texts. -/
theorem targets_agree_iff (hkind : d.mnemonic = "jmp" ∨ d.mnemonic ∈ Cfg.condJumps ∨
    d.mnemonic = "call") :
    Cfg.parseHexTarget d.opStr = liftedTarget d versions ↔ ReadsAlike d.mnemonic d.opStr := by
  cases h : Cfg.parseHexTarget d.opStr with
  | some a => exact eq_comm.trans (targets_agree_some versions hkind h)
  | none => exact eq_comm.trans (targets_agree_none versions hkind h)

def decimalJump : DisassembledInsn := ⟨0x1000, 2, "jmp", "10", []⟩

theorem decimalJump_disagrees :
    Cfg.parseHexTarget decimalJump.opStr ≠ liftedTarget decimalJump Versions.initial := by
  decide

theorem decimalJump_iff :
    Cfg.parseHexTarget decimalJump.opStr = liftedTarget decimalJump Versions.initial ↔
      ReadsAlike decimalJump.mnemonic decimalJump.opStr :=
  targets_agree_iff Versions.initial (.inl rfl)

end Ir

end Dexe
