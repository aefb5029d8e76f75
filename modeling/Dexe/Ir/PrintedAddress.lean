import Dexe.Ir.Printed
import Dexe.Ir.Values

/-! The address of a printed memory operand. -/

namespace Dexe.Ir

open Text X86

structure TermText (t : Text) : Prop where
  ne_nil : t ≠ []
  chars : ∀ c ∈ t, InTerm c

namespace TermText

variable {t : Text}

lemma trimmed (h : TermText t) : Trimmed t := .of_forall fun c hc => (h.chars c hc).space

lemma of_alphanum (hne : t ≠ []) (h : ∀ c ∈ t, c.isAlphanum = true) : TermText t :=
  ⟨hne, fun c hc => inTerm_of_alphanum (h c hc)⟩

lemma not_mem (h : TermText t) {c : Char} (hc : ¬ InTerm c) : c ∉ t :=
  fun hmem => hc (h.chars c hmem)

end TermText

lemma not_inTerm_space : ¬ InTerm ' ' := fun h => absurd h.space (by decide)
lemma not_inTerm_plus : ¬ InTerm '+' := fun h => h.plus rfl
lemma not_inTerm_minus : ¬ InTerm '-' := fun h => h.minus rfl

def normalTerms : List Term → Text
  | [] => []
  | t :: ts => ' ' :: '+' :: ' ' :: (t.signed ++ normalTerms ts)

def closeMinus (s : Text) : Text := s.replace [' ', '-', ' '] [' ', '+', ' ', '-']

lemma closeMinus_append {t : Text} (ht : ' ' ∉ t) (u : Text) :
    closeMinus (t ++ u) = t ++ closeMinus u := replaceAux_append ht u

lemma closeMinus_minus (u : Text) :
    closeMinus (' ' :: '-' :: ' ' :: u) = ' ' :: '+' :: ' ' :: '-' :: closeMinus u := rfl

lemma closeMinus_plus {t : Text} (ht : TermText t) (u : Text) :
    closeMinus (' ' :: '+' :: ' ' :: (t ++ u)) = ' ' :: '+' :: ' ' :: closeMinus (t ++ u) := by
  obtain ⟨c, t, rfl⟩ := List.exists_cons_of_ne_nil ht.ne_nil
  have hc : '-' ≠ c := (ht.chars c List.mem_cons_self).minus.symm
  have hspace : closeMinus (' ' :: (c :: t ++ u)) = ' ' :: closeMinus (c :: t ++ u) :=
    replaceAux_cons (by simp [List.isPrefixOf, hc])
  have hplus : closeMinus (' ' :: '+' :: ' ' :: (c :: t ++ u)) =
      ' ' :: '+' :: closeMinus (' ' :: (c :: t ++ u)) := rfl
  rw [hplus, hspace]

lemma closeMinus_laterTerms {ts : List Term} (h : ∀ t ∈ ts, TermText t.text) :
    closeMinus (laterTerms ts) = normalTerms ts := by
  induction ts with
  | nil => rfl
  | cons t ts ih =>
    have ht := h t List.mem_cons_self
    have hrest : closeMinus (t.text ++ laterTerms ts) = t.text ++ normalTerms ts := by
      rw [closeMinus_append (ht.not_mem not_inTerm_space),
        ih fun t ht => h t (List.mem_cons_of_mem _ ht)]
    rcases t with ⟨negative, text⟩
    cases negative with
    | true =>
      have hlater : laterTerms (⟨true, text⟩ :: ts) =
          ' ' :: '-' :: ' ' :: (text ++ laterTerms ts) := by
        simp [laterTerms]
      rw [hlater, closeMinus_minus, hrest]
      rfl
    | false =>
      have hlater : laterTerms (⟨false, text⟩ :: ts) =
          ' ' :: '+' :: ' ' :: (text ++ laterTerms ts) := by
        simp [laterTerms]
      rw [hlater, closeMinus_plus ht, hrest]
      rfl

lemma not_mem_signed {t : Term} (ht : TermText t.text) {c : Char} (hc : ¬ InTerm c)
    (hne : c ≠ '-') :
    c ∉ t.signed := by
  have hmem := ht.not_mem hc
  rw [Term.signed]
  split
  · simp [hne, hmem]
  · exact hmem

def splitMinus (s : Text) : Text := s.replace ['-', ' '] ['+', ' ', '-']

lemma splitMinus_signed {t : Term} (ht : TermText t.text) (u : Text) :
    splitMinus (t.signed ++ u) = t.signed ++ splitMinus u := by
  have htext : splitMinus (t.text ++ u) = t.text ++ splitMinus u :=
    replaceAux_append (ht.not_mem not_inTerm_minus) u
  rw [Term.signed]
  split
  · obtain ⟨c, s, hs⟩ := List.exists_cons_of_ne_nil ht.ne_nil
    have hc : ' ' ≠ c := by
      rintro rfl
      exact ht.not_mem not_inTerm_space (hs ▸ List.mem_cons_self)
    have hminus : splitMinus ('-' :: (t.text ++ u)) = '-' :: splitMinus (t.text ++ u) := by
      rw [hs]
      exact replaceAux_cons (by simp [List.isPrefixOf, hc])
    rw [List.cons_append, hminus, htext, List.cons_append]
  · exact htext

lemma splitMinus_normalTerms {ts : List Term} (h : ∀ t ∈ ts, TermText t.text) :
    splitMinus (normalTerms ts) = normalTerms ts := by
  induction ts with
  | nil => rfl
  | cons t ts ih =>
    have hsigned := splitMinus_signed (h t List.mem_cons_self) (normalTerms ts)
    rw [ih fun t ht => h t (List.mem_cons_of_mem _ ht)] at hsigned
    have hplus : ∀ u, splitMinus (' ' :: '+' :: ' ' :: u) = ' ' :: '+' :: ' ' :: splitMinus u :=
      fun _ => rfl
    rw [normalTerms, hplus, hsigned]

lemma trimmed_signed {t : Term} (ht : TermText t.text) : Trimmed t.signed := by
  have htext : ∀ c ∈ t.text, isWhitespace c = false := fun c hc => (ht.chars c hc).space
  refine .of_forall ?_
  rw [Term.signed]
  split
  · intro c hc
    rcases List.mem_cons.mp hc with rfl | hc
    · decide
    · exact htext c hc
  · exact htext

lemma signed_ne_nil {t : Term} (ht : TermText t.text) : t.signed ≠ [] := by
  rw [Term.signed]
  split
  · simp
  · exact ht.ne_nil

lemma split_normalTerms {ts : List Term} (h : ∀ t ∈ ts, TermText t.text) {s : Text} (hs : '+' ∉ s) :
    ((s ++ normalTerms ts).splitOn '+').map trim = trim s :: ts.map Term.signed := by
  induction ts generalizing s with
  | nil => rw [normalTerms, List.append_nil, List.splitOn_eq_singleton hs]; rfl
  | cons t ts ih =>
    have ht := h t List.mem_cons_self
    have hplus : '+' ∉ ' ' :: t.signed := by
      simpa using not_mem_signed ht not_inTerm_plus (by decide)
    have htext : s ++ normalTerms (t :: ts) =
        (s ++ " ") ++ '+' :: (' ' :: t.signed ++ normalTerms ts) := by
      simp [normalTerms]
    have hspace : '+' ∉ s ++ " " := by simpa using hs
    rw [htext, List.splitOn_append_cons_self_of_not_mem hspace, List.map_cons,
      ih (fun t ht => h t (List.mem_cons_of_mem _ ht)) hplus, trim_append_space, trim_cons_space,
      (trimmed_signed ht).trim_eq, List.map_cons]

theorem addressTerms_termsText {ts : List Term} (h : ∀ t ∈ ts, TermText t.text) :
    addressTerms (termsText ts) = ts.map Term.signed := by
  have hsource : ∀ inner, addressTerms inner =
      (((splitMinus (closeMinus inner)).splitOn '+').map trim).filter fun t => t ≠ [] :=
    fun _ => rfl
  have hkeep : (ts.map Term.signed).filter (fun t => t ≠ []) = ts.map Term.signed := by
    refine List.filter_eq_self.mpr fun s hs => ?_
    obtain ⟨t, ht, rfl⟩ := List.mem_map.mp hs
    exact decide_eq_true (signed_ne_nil (h t ht))
  cases ts with
  | nil => decide
  | cons t ts =>
    have ht := h t List.mem_cons_self
    have hts : ∀ t ∈ ts, TermText t.text := fun t ht => h t (List.mem_cons_of_mem _ ht)
    have hnormal : splitMinus (closeMinus (termsText (t :: ts))) = t.signed ++ normalTerms ts := by
      rw [termsText, closeMinus_append (not_mem_signed ht not_inTerm_space (by decide)),
        closeMinus_laterTerms hts, splitMinus_signed ht, splitMinus_normalTerms hts]
    have hsplit := split_normalTerms hts (not_mem_signed ht not_inTerm_plus (by decide))
    rw [hsource, hnormal, hsplit, (trimmed_signed ht).trim_eq, ← List.map_cons]
    exact hkeep

variable (versions : Versions)

lemma dropWhile_minus {t : Text} (ht : TermText t) : t.dropWhile (· = '-') = t := by
  obtain ⟨c, s, rfl⟩ := List.exists_cons_of_ne_nil ht.ne_nil
  have hc : c ≠ '-' := (ht.chars c List.mem_cons_self).minus
  simp [hc]

lemma termText_name (r : Reg) : TermText r.name :=
  .of_alphanum (by cases r <;> decide) (alphanum_name r)

lemma termText_magnitude (n : ℕ) : TermText (magnitudeText n) :=
  .of_alphanum (magnitude_ne_nil n) (alphanum_magnitude n)

lemma not_mem_star {t : Text} (h : ∀ c ∈ t, c.isAlphanum = true) : '*' ∉ t :=
  fun hmem => absurd (h '*' hmem) (by decide)

structure Names (t : Text) (r : Reg) : Prop where
  ne_nil : t ≠ []
  alphanum : ∀ c ∈ t, c.isAlphanum = true
  parse : parseRegister t = some r.base

lemma names_name (r : Reg) : Names r.name r :=
  ⟨(termText_name r).ne_nil, alphanum_name r, parseRegister_name r⟩

section Named

variable {t : Text} {r : Reg} (h : Names t r)

include h

lemma Names.termText : TermText t := .of_alphanum h.ne_nil h.alphanum

lemma addressStep_name (s : AddressState) :
    addressStep versions s t =
      if s.baseReg = none then { s with baseReg := some (versions.currentVar r.base) }
      else if s.indexReg = none then { s with indexReg := some (versions.currentVar r.base) }
      else s := by
  rw [addressStep, if_neg (not_mem_star h.alphanum), dropWhile_minus h.termText, h.parse]

lemma splitOn_scaled (scale : Scale) :
    ((t ++ "*" ++ dec scale.factor).splitOn '*').map trim = [t, dec scale.factor] := by
  have hname : '*' ∉ t := not_mem_star h.alphanum
  have hdec : '*' ∉ dec scale.factor :=
    not_mem_star fun c hc => alphanum_of_isHexDigit (dec_chars hc)
  have htrim : trim (dec scale.factor) = dec scale.factor := by cases scale <;> decide
  have htext : t ++ "*" ++ dec scale.factor = t ++ '*' :: dec scale.factor := by simp
  rw [htext, List.splitOn_append_cons_self_of_not_mem hname, List.splitOn_eq_singleton hdec,
    List.map_cons, List.map_singleton, h.termText.trimmed.trim_eq, htrim]

lemma addressStep_scaled (s : AddressState) (scale : Scale) :
    addressStep versions s (t ++ "*" ++ dec scale.factor) =
      { s with
        indexReg := some (versions.currentVar r.base)
        scale := BitVec.ofNat 8 scale.factor } := by
  have hscale : ((parseImmediate (dec scale.factor)).getD 1).setWidth 8 =
      BitVec.ofNat 8 scale.factor := by
    cases scale <;> decide
  have hstar : '*' ∈ t ++ "*" ++ dec scale.factor := by simp
  rw [addressStep, if_pos hstar, splitOn_scaled h]
  simp only [h.parse, Option.isSome_some, if_true, hscale]

end Named

lemma addressStep_disp (s : AddressState) (n : Numeral) :
    addressStep versions s (Term.signed ⟨n.negative, magnitudeText n.magnitude⟩) =
      { s with disp := s.disp + n.value } := by
  have htext : Term.signed ⟨n.negative, magnitudeText n.magnitude⟩ = n.text := by
    rw [Term.signed, Numeral.text]
    cases n.negative <;> rfl
  have hstar : '*' ∉ n.text := by
    have hmag := not_mem_star (alphanum_magnitude n.magnitude)
    rw [Numeral.text]
    split <;> simpa using hmag
  have hdrop : n.text.dropWhile (· = '-') = magnitudeText n.magnitude := by
    have hmag := dropWhile_minus (termText_magnitude n.magnitude)
    rw [Numeral.text]
    split
    · simpa using hmag
    · exact hmag
  rw [htext, addressStep, if_neg hstar, hdrop, parseRegister_magnitude, parseImmediate_text]

def AddressState.value (regs : VarBase → U64) (a : AddressState) : U64 :=
  addrValue regs a.baseReg a.indexReg a.scale a.disp

lemma signed_positive (t : Text) : Term.signed ⟨false, t⟩ = t := rfl

lemma scaledText_eq {scale : Scale} (h : scale ≠ .one) (t : Text) :
    MemRef.scaledText t scale = t ++ "*" ++ dec scale.factor := by
  cases scale with
  | one => exact absurd rfl h
  | _ => rfl

variable (regs : VarBase → U64)

lemma value_disp (s : AddressState) (n : Numeral) :
    (addressStep versions s (Term.signed ⟨n.negative, magnitudeText n.magnitude⟩)).value regs =
      s.value regs + n.value := by
  rw [addressStep_disp]
  simp only [AddressState.value, addrValue, BitVec.add_assoc]

lemma value_index {s : AddressState} (hindex : s.indexReg = none) (hscale : s.scale = 1)
    (hdisp : s.disp = 0) {t : Text} {r : Reg} (h : Names t r) (scale : Scale) :
    (addressStep versions s (MemRef.scaledText t scale)).value regs =
      s.value regs + regs r.base * BitVec.ofNat 64 scale.factor := by
  rcases s with ⟨base, index, k, disp⟩
  subst hindex hscale hdisp
  by_cases hone : scale = .one
  · subst hone
    have hfactor : BitVec.ofNat 64 (Scale.factor .one) = 1 := rfl
    show (addressStep versions _ t).value regs = _
    rw [addressStep_name versions h]
    cases base <;> simp [AddressState.value, addrValue, hfactor]
  · have hvalue : (if (BitVec.ofNat 8 scale.factor).toNat > 1
        then (BitVec.ofNat 8 scale.factor).setWidth 64 else 1) = BitVec.ofNat 64 scale.factor := by
      cases scale <;> decide
    rw [scaledText_eq hone, addressStep_scaled versions h]
    simp only [AddressState.value, addrValue, Option.elim_some, Option.elim_none, hvalue,
      Versions.currentVar_base]
    simp

section Terms

variable {name : Reg → Text} (h : ∀ r, Names (name r) r) (m : MemRef)

include h

lemma foldl_terms :
    (((m.namedTerms name).map Term.signed).foldl (addressStep versions) ⟨none, none, 1, 0⟩).value
      regs = m.address fun r => regs r.base := by
  rcases m with ⟨base, index, disp⟩
  obtain ⟨s, hbase, hindex, hscale, hdisp, hs⟩ : ∃ s : AddressState,
      (base.toList.map name).foldl (addressStep versions) ⟨none, none, 1, 0⟩ = s ∧
      s.indexReg = none ∧ s.scale = 1 ∧ s.disp = 0 ∧
      s.value regs = base.elim 0 fun r => regs r.base := by
    refine ⟨_, rfl, ?_⟩
    rcases base with _ | r
    · simp [AddressState.value, addrValue]
    · simp [addressStep_name versions (h r), AddressState.value, addrValue]
  have hterms : (MemRef.namedTerms name ⟨base, index, disp⟩).map Term.signed =
      base.toList.map name ++ index.toList.map (fun i => MemRef.scaledText (name i.1) i.2) ++
        disp.toList.map fun n => Term.signed ⟨n.negative, magnitudeText n.magnitude⟩ := by
    simp [MemRef.namedTerms, signed_positive, Function.comp_def]
  have hvalue := fun r => value_index versions regs hindex hscale hdisp (h r)
  rw [hterms, List.foldl_append, List.foldl_append, hbase]
  rcases index with _ | ⟨r, scale⟩ <;> rcases disp with _ | n <;>
    simp [value_disp, hvalue, hs, MemRef.address]

lemma termText_of_mem {t : Term} (ht : t ∈ m.namedTerms name) : TermText t.text := by
  simp only [MemRef.namedTerms, List.mem_append, List.mem_map] at ht
  rcases ht with (⟨r, -, rfl⟩ | ⟨⟨r, scale⟩, -, rfl⟩) | ⟨n, -, rfl⟩
  · exact (h r).termText
  · by_cases hscale : scale = .one
    · subst hscale
      exact (h r).termText
    · have hdec : ∀ c ∈ dec scale.factor, InTerm c :=
        fun c hc => inTerm_of_alphanum (alphanum_of_isHexDigit (dec_chars hc))
      have hstar : InTerm '*' :=
        ⟨⟨by decide, by decide, by decide, by decide⟩, by decide, by decide⟩
      show TermText (MemRef.scaledText (name r) scale)
      rw [scaledText_eq hscale]
      refine ⟨by simp, ?_⟩
      intro c hc
      simp only [List.mem_append, String.reduceToList, List.mem_singleton] at hc
      rcases hc with (hc | rfl) | hc
      · exact (h r).termText.chars c hc
      · exact hstar
      · exact hdec c hc
  · exact termText_magnitude n.magnitude

end Terms

end Dexe.Ir
