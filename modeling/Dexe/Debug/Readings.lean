import Dexe.Debug.Operands

/-! Which operand texts are parsed without a panic. -/

namespace Dexe.Debug

open Ir Text Bits Collections

variable {s t u v : Text} {c : Char} {versions : Versions}

/-- There are brackets of both kinds, but no closing one behind an opening one. -/
def Crossed (s : Text) : Prop := '[' ∈ s ∧ ']' ∈ s ∧ ¬ List.Sublist ['[', ']'] s

def brackets (s : Text) : Text := s.filter fun c => c = '[' ∨ c = ']'

lemma crossed_brackets (s : Text) : Crossed (brackets s) ↔ Crossed s := by
  have hpair : List.Sublist ['[', ']'] (brackets s) ↔ List.Sublist ['[', ']'] s :=
    ⟨fun h => h.trans List.filter_sublist, fun h => h.filter (fun c => c = '[' ∨ c = ']')⟩
  rw [Crossed, Crossed, hpair]
  simp [brackets]

lemma crossed_congr (h : brackets s = brackets t) : Crossed s ↔ Crossed t := by
  rw [← crossed_brackets s, h, crossed_brackets]

lemma brackets_append (s t : Text) : brackets (s ++ t) = brackets s ++ brackets t :=
  List.filter_append ..

lemma brackets_eq_nil (h : ∀ c ∈ s, c ≠ '[' ∧ c ≠ ']') : brackets s = [] := by
  refine List.filter_eq_nil_iff.mpr fun c hc => ?_
  simpa using h c hc

lemma brackets_trim (s : Text) : brackets (trim s) = brackets s := by
  have hspace : ∀ c, isWhitespace c = true → c ≠ '[' ∧ c ≠ ']' := by
    rintro c hc
    constructor <;> rintro rfl <;> exact absurd hc (by decide)
  have hdrop : ∀ s : Text, brackets (s.dropWhile isWhitespace) = brackets s := by
    intro s
    conv_rhs => rw [← List.takeWhile_append_dropWhile (p := isWhitespace) (l := s), brackets_append]
    rw [brackets_eq_nil fun c hc => hspace c (List.mem_takeWhile_imp hc), List.nil_append]
  have hreverse : ∀ s : Text, brackets s.reverse = (brackets s).reverse := fun s =>
    List.filter_reverse ..
  rw [trim, List.rdropWhile, hreverse, hdrop, hreverse, List.reverse_reverse, hdrop]

lemma sizePrefixes_plain : ∀ p ∈ sizePrefixes, IsAscii p ∧ 'k' ∉ p ∧ 'i' ∉ p := by decide

lemma stripSizePrefix_eq (s : Text) : stripSizePrefix s = some (Ir.stripSizePrefix s) := by
  simp only [stripSizePrefix, Ir.stripSizePrefix]
  cases h : sizePrefixes.find? fun p => (toLowercase s).startsWith p with
  | none => rfl
  | some p =>
    obtain ⟨hp, hk, hi⟩ := sizePrefixes_plain p (List.mem_of_find?_eq_some h)
    exact sliceFrom_of_toLowercase hp hk hi (List.find?_some h)

lemma brackets_stripSizePrefix (s : Text) : brackets (Ir.stripSizePrefix s) = brackets s := by
  simp only [Ir.stripSizePrefix]
  cases h : sizePrefixes.find? fun p => (toLowercase s).startsWith p with
  | none => rfl
  | some p =>
    have hmem := List.mem_of_find?_eq_some h
    obtain ⟨hp, hk, hi⟩ := sizePrefixes_plain p hmem
    have hstart : (toLowercase s).startsWith p = true := List.find?_some h
    obtain ⟨u, v, rfl, -, hup, hlen⟩ :=
      prefix_of_toLowercase hp hk hi (List.isPrefixOf_iff_prefix.mp hstart)
    have hbrackets : ∀ p ∈ sizePrefixes, '[' ∉ p ∧ ']' ∉ p := by decide
    have hu : ∀ c ∈ u, c ≠ '[' ∧ c ≠ ']' := by
      intro c hc
      constructor <;> rintro rfl
      · exact (hbrackets p hmem).1 (hup ▸ List.mem_flatMap.mpr ⟨_, hc, by decide⟩)
      · exact (hbrackets p hmem).2 (hup ▸ List.mem_flatMap.mpr ⟨_, hc, by decide⟩)
    simp only [← hlen, List.drop_left]
    rw [brackets_append, brackets_eq_nil hu, List.nil_append]

lemma find_eq_none (h : c ∉ s) : Text.find s c = none := by
  refine List.findIdx?_eq_none_iff.mpr fun a ha => ?_
  simpa using fun hac : a = c => h (hac ▸ ha)

lemma rfind_eq_none (h : c ∉ s) : Text.rfind s c = none := by
  have hnone := find_eq_none (s := s.reverse) (by simpa using h)
  rw [Text.find] at hnone
  rw [Text.rfind, hnone, Option.map_none]

lemma find_append (h : c ∉ u) : Text.find (u ++ c :: v) c = some u.length := by
  have hnone := find_eq_none h
  rw [Text.find] at hnone
  rw [Text.find, List.findIdx?_append, hnone, List.findIdx?_cons]
  simp

lemma rfind_append (h : c ∉ v) : Text.rfind (u ++ c :: v) c = some u.length := by
  have hfind : (v.reverse ++ c :: u.reverse).findIdx? (· = c) = some v.reverse.length :=
    find_append (by simpa using h)
  have hreverse : (u ++ c :: v).reverse = v.reverse ++ c :: u.reverse := by simp
  rw [Text.rfind, hreverse, hfind, Option.map_some, List.length_reverse, List.length_append,
    List.length_cons]
  congr 1
  omega

lemma exists_last_of_mem (h : c ∈ s) : ∃ u v, s = u ++ c :: v ∧ c ∉ v := by
  obtain ⟨v, u, hs, hv⟩ := List.eq_append_cons_of_mem (List.mem_reverse.mpr h)
  refine ⟨u.reverse, v.reverse, ?_, by simpa using hv⟩
  rw [← s.reverse_reverse, hs]
  simp

lemma isSome_slice {a b : ℕ} : (s.slice a b).isSome ↔ a ≤ b ∧ b ≤ s.length := by
  rw [Text.slice]
  split <;> simp_all

lemma isSome_bracketed (s : Text) : (bracketed s).isSome ↔ ¬ Crossed s := by
  by_cases hopen : '[' ∈ s
  · obtain ⟨u, v, rfl, hu⟩ := List.eq_append_cons_of_mem hopen
    have hfind : Text.find (u ++ '[' :: v) '[' = some u.length := find_append hu
    rw [bracketed, hfind]
    by_cases hclose : ']' ∈ v
    · obtain ⟨v, w, rfl, hw⟩ := exists_last_of_mem hclose
      have hrfind : Text.rfind (u ++ '[' :: (v ++ ']' :: w)) ']' = some (u ++ '[' :: v).length := by
        rw [← rfind_append hw]
        simp
      have hpair : List.Sublist ['[', ']'] (u ++ '[' :: (v ++ ']' :: w)) :=
        .trans (.cons_cons '[' (List.singleton_sublist.mpr hclose)) (List.sublist_append_right _ _)
      rw [hrfind]
      simp only [Option.isSome_map, isSome_slice, Crossed, hpair, not_true, and_false,
        not_false_iff, iff_true, List.length_append, List.length_cons]
      omega
    · by_cases hbefore : ']' ∈ u
      · obtain ⟨u, w, rfl, hw⟩ := exists_last_of_mem hbefore
        have hrfind : Text.rfind (u ++ ']' :: w ++ '[' :: v) ']' = some u.length := by
          rw [List.append_assoc, List.cons_append, rfind_append (by simp [hw, hclose])]
        have hpair : ¬ List.Sublist ['[', ']'] (u ++ ']' :: w ++ '[' :: v) := by
          intro h
          obtain ⟨l, l', hl, hu', hv'⟩ := List.sublist_append_iff.mp h
          cases l with
          | nil =>
            obtain rfl : ['[', ']'] = l' := hl
            exact hclose (List.singleton_sublist.mp (List.cons_sublist_cons.mp hv'))
          | cons a l =>
            obtain ⟨rfl, -⟩ := List.cons.inj hl
            exact hu (hu'.subset List.mem_cons_self)
        rw [hrfind]
        simp only [Option.isSome_map, isSome_slice, Crossed, hpair, List.length_append,
          List.length_cons]
        simp
      · have hrfind : Text.rfind (u ++ '[' :: v) ']' = none :=
          rfind_eq_none (by simp [hclose, hbefore])
        rw [hrfind]
        simp [Crossed, hclose, hbefore]
  · simp [bracketed, find_eq_none hopen, Crossed, hopen]

def termImmediates (term : Text) : List Text :=
  if '*' ∈ term then
    match (term.splitOn '*').map trim with
    | [first, second] =>
      if (parseRegister first).isSome then [second]
      else if (parseRegister second).isSome then [first]
      else [term]
    | _ => []
  else if (parseRegister (term.dropWhile (· = '-'))).isSome then [] else [term]

def addressImmediates (s : Text) : List Text :=
  match bracketed (Ir.stripSizePrefix s.trim) with
  | some inner => (addressTerms inner).flatMap termImmediates
  | none => []

structure AddressOk (s : Text) : Prop where
  brackets : ¬ Crossed s
  immediates : ∀ t ∈ addressImmediates s, ¬ NegatesLeast t

def OperandOk (s : Text) : Prop := if isMemoryOperand s then AddressOk s else ¬ NegatesLeast s

lemma addressOk_iff : AddressOk s ↔ ¬ Crossed s ∧ ∀ t ∈ addressImmediates s, ¬ NegatesLeast t :=
  ⟨fun h => ⟨h.brackets, h.immediates⟩, fun h => ⟨h.1, h.2⟩⟩

lemma guarded_addressStep (a : AddressState) (term : Text) :
    Guarded (∀ t ∈ termImmediates term, ¬ NegatesLeast t) (addressStep versions a term)
      (some (Ir.addressStep versions a term)) := by
  have hterm : Guarded (¬ NegatesLeast term) ((parseImmediate term).map (addDisp a))
      (some (addDisp a (Ir.parseImmediate term))) := (guarded_parseImmediate term).map _
  have hscale : ∀ (vb : VarBase) (t : Text), Guarded (¬ NegatesLeast t)
      ((parseImmediate t).bind fun scale => some { a with
        indexReg := some (versions.currentVar vb)
        scale := (scale.getD 1).setWidth 8 })
      (some { a with
        indexReg := some (versions.currentVar vb)
        scale := ((Ir.parseImmediate t).getD 1).setWidth 8 }) := by
    intro vb t
    refine Guarded.congr ((guarded_parseImmediate t).bind_some (Guarded.pure _)) ?_
    rw [and_true]
  simp only [addressStep, Ir.addressStep, termImmediates]
  by_cases hstar : '*' ∈ term
  · simp only [if_pos hstar]
    rcases (term.splitOn '*').map trim with _ | ⟨first, _ | ⟨second, _ | ⟨third, more⟩⟩⟩
    · exact (Guarded.pure a).congr (by simp)
    · exact (Guarded.pure a).congr (by simp)
    · cases hfirst : parseRegister first with
      | some vb => simpa [hfirst] using hscale vb second
      | none =>
        cases hsecond : parseRegister second with
        | some vb => simpa [hfirst, hsecond] using hscale vb first
        | none =>
          cases himm : Ir.parseImmediate term <;> simpa [hfirst, hsecond, himm, addDisp] using hterm
    · exact (Guarded.pure a).congr (by simp)
  · simp only [if_neg hstar]
    cases hr : parseRegister (term.dropWhile (· = '-')) with
    | some vb =>
      simp only [Option.isSome_some, if_true]
      refine Guarded.congr ?_ (iff_true_intro (List.forall_mem_nil _)).symm
      by_cases hbase : a.baseReg = none
      · simpa only [if_pos hbase] using Guarded.pure _
      · by_cases hindex : a.indexReg = none
        · simpa only [if_neg hbase, if_pos hindex] using Guarded.pure _
        · simpa only [if_neg hbase, if_neg hindex] using Guarded.pure _
    | none =>
      cases himm : Ir.parseImmediate term <;> simpa [himm, addDisp] using hterm

lemma guarded_parseMemoryOperand (s : Text) :
    Guarded (AddressOk s) (parseMemoryOperand s versions) (Ir.parseMemoryOperand s versions) := by
  have hcrossed : Crossed (Ir.stripSizePrefix s.trim) ↔ Crossed s :=
    crossed_congr ((brackets_stripSizePrefix _).trans (brackets_trim s))
  have hbracketed := Guarded.of_isSome
    ((isSome_bracketed (Ir.stripSizePrefix s.trim)).trans (not_congr hcrossed))
  rw [parseMemoryOperand, stripSizePrefix_eq]
  refine Guarded.congr (hbracketed.bind (q := ∀ t ∈ addressImmediates s, ¬ NegatesLeast t)
    fun _ inner hinner => ?_) addressOk_iff.symm
  have hterms := guarded_foldlM (f := addressStep versions) (g := Ir.addressStep versions)
    (l := addressTerms inner) (fun a term _ => guarded_addressStep a term) ⟨none, none, 1, 0⟩
  refine Guarded.congr (hterms.bind_some (q := True) (Guarded.pure _)) ?_
  simp only [addressImmediates, hinner, List.mem_flatMap, and_true]
  grind

lemma addressOk_trim : AddressOk (trim s) ↔ AddressOk s := by
  rw [addressOk_iff, addressOk_iff, crossed_congr (brackets_trim s), addressImmediates, trim_trim,
    ← addressImmediates]

lemma not_negatesLeast_of_none (h : Ir.parseImmediate s = none) : ¬ NegatesLeast s := by
  rintro ⟨rest, ds, hs, hds⟩
  rw [parseImmediate_minus hs] at h
  rcases hds with ⟨hrest, hds⟩ | ⟨hrest, hds⟩
  · have hhex : hexPrefix (trim rest) = none := by
      refine Option.eq_none_iff_forall_ne_some.mpr fun us hus => ?_
      rcases hexPrefix_eq_some_iff.mp hus with h | h <;> simp [hrest] at h
    rw [hhex, hrest, (i64FromStrRadix_eq_intMin (by norm_num)).mpr ⟨ds, rfl, hds⟩] at h
    cases h
  · simp only [hexPrefix_eq_some_iff.mpr hrest,
      (i64FromStrRadix_eq_intMin le_rfl).mpr ⟨ds, rfl, hds⟩] at h
    cases h

lemma negatesLeast_trim : NegatesLeast (trim s) ↔ NegatesLeast s := by
  rw [NegatesLeast, trim_trim, ← NegatesLeast]

lemma isMemoryOperand_trim : isMemoryOperand (trim s) ↔ isMemoryOperand s := by
  have hmem : ∀ t : Text, isMemoryOperand t ↔ '[' ∈ brackets t := by
    intro t
    simp [isMemoryOperand, brackets]
  rw [hmem, brackets_trim, ← hmem]

lemma guarded_parseSingleOperand (s : Text) :
    Guarded (OperandOk s) (parseSingleOperand s versions) (Ir.parseSingleOperand s versions) := by
  simp only [parseSingleOperand, Ir.parseSingleOperand, OperandOk, isMemoryOperand_trim]
  by_cases hmem : isMemoryOperand s
  · simp only [if_pos hmem]
    exact (guarded_parseMemoryOperand _).congr addressOk_trim
  · simp only [if_neg hmem]
    cases hr : parseRegister (trim s) with
    | some vb =>
      have hnone := parseImmediate_of_register (by rw [hr]; rfl)
      exact (Guarded.pure _).congr (iff_of_true trivial (not_negatesLeast_of_none hnone))
    | none =>
      refine Guarded.congr ((guarded_parseImmediate _).bind_some (Guarded.pure _)) ?_
      rw [and_true, negatesLeast_trim]

lemma dstRegister_eq (s : Text) : dstRegister s = some (Ir.dstRegister s) := by
  rw [dstRegister, stripSizePrefix_eq]
  rfl

lemma parseConditionSuffix_eq (mnemonic : Text) :
    parseConditionSuffix mnemonic = some (Ir.parseConditionSuffix mnemonic) := by
  cases mnemonic with
  | nil => rfl
  | cons c m =>
    by_cases hc : c = 'j'
    · have hslice : sliceFrom ('j' :: m) 1 = some m := sliceFrom_append (p := ['j']) (by decide) m
      simp [parseConditionSuffix, Ir.parseConditionSuffix, hc, hslice]
    · simp [parseConditionSuffix, Ir.parseConditionSuffix, hc]

def nestStep (n : ℕ) (c : Char) : ℕ := if c = '[' then n + 1 else if c = ']' then n - 1 else n

def nesting (s : Text) : ℕ := s.foldl nestStep 0

lemma guarded_splitStep (st : SplitState) (c : Char) :
    Guarded (nestStep st.bracketDepth.toNat c < 2 ^ 32) (splitStep st c)
      (some (Ir.splitStep st c)) := by
  rw [splitStep, nestStep]
  split
  · rename_i hc
    have hadd : Guarded (st.bracketDepth.toNat + 1 < 2 ^ 32) (checkedAdd st.bracketDepth 1)
        (some (st.bracketDepth + 1)) := guarded_checkedAdd st.bracketDepth 1
    have hstep : Ir.splitStep st c = ⟨st.result, st.current ++ [c], st.bracketDepth + 1⟩ :=
      if_pos hc
    rw [hstep]
    exact hadd.map _
  · refine (Guarded.pure _).congr (iff_of_true trivial ?_)
    have := st.bracketDepth.isLt
    split <;> omega

lemma splitStep_depth {st : SplitState} {c : Char}
    (h : nestStep st.bracketDepth.toNat c < 2 ^ 32) :
    (Ir.splitStep st c).bracketDepth.toNat = nestStep st.bracketDepth.toNat c := by
  rw [Ir.splitStep]
  rw [nestStep] at h ⊢
  split_ifs at h ⊢ with hopen hclose hzero hcomma
  · rw [BitVec.toNat_add]
    exact Nat.mod_eq_of_lt h
  · simp [hzero]
  · have hpos : st.bracketDepth.toNat ≠ 0 := fun h => hzero (BitVec.eq_of_toNat_eq h)
    show (st.bracketDepth - 1).toNat = _
    have hone : (1 : BitVec 32) ≤ st.bracketDepth := by
      rw [BitVec.le_def]
      exact Nat.one_le_iff_ne_zero.mpr hpos
    rw [BitVec.toNat_sub_of_le hone]
    rfl
  · rfl
  · rfl

lemma guarded_scan (t : Text) (st : SplitState) :
    Guarded (∀ p, p <+: t → p.foldl nestStep st.bracketDepth.toNat < 2 ^ 32)
      (t.foldlM splitStep st) (some (t.foldl Ir.splitStep st)) := by
  induction t generalizing st with
  | nil =>
    refine (Guarded.pure st).congr (iff_of_true trivial fun p hp => ?_)
    rw [List.prefix_nil.mp hp]
    exact st.bracketDepth.isLt
  | cons c t ih =>
    rw [List.foldlM_cons, List.foldl_cons]
    refine Guarded.congr ((guarded_splitStep st c).bind_some (ih _)) ?_
    constructor
    · rintro ⟨hc, ht⟩ p hp
      rcases List.prefix_cons_iff.mp hp with rfl | ⟨p, rfl, htail⟩
      · exact st.bracketDepth.isLt
      · rw [List.foldl_cons, ← splitStep_depth hc]
        exact ht p htail
    · intro h
      have hc := h [c] (List.cons_prefix_cons.mpr ⟨rfl, List.nil_prefix⟩)
      refine ⟨hc, fun p hp => ?_⟩
      rw [splitStep_depth hc]
      exact h (c :: p) (List.cons_prefix_cons.mpr ⟨rfl, hp⟩)

lemma guarded_parseOperands (opStr : Text) :
    Guarded (∀ p, p <+: trim opStr → nesting p < 2 ^ 32) (parseOperands opStr)
      (some (Ir.parseOperands opStr)) := by
  simp only [parseOperands, Ir.parseOperands]
  by_cases hnil : trim opStr = []
  · simp only [if_pos hnil]
    refine (Guarded.pure _).congr (iff_of_true trivial fun p hp => ?_)
    rw [hnil, List.prefix_nil] at hp
    rw [hp]
    norm_num [nesting]
  · simp only [if_neg hnil]
    refine Guarded.congr ((guarded_scan _ _).bind_some (Guarded.pure _)) ?_
    rw [and_true]
    rfl

end Dexe.Debug
