import Dexe.Frontend.Seeds

/-! More symbols: the functions that are found are cut further, and nothing else happens to them. -/

namespace Dexe.Frontend

open Std Collections Cfg

variable {info : BinaryInfo} {insns : List DisassembledInsn} {symbols symbols' : SymbolTable}
  {textEnd a s e : U64} {cs : Capstone} {starts starts' : List U64}
  {functions functions' : List DisassembledFunction}

def StartsIn (s e : U64) (f : DisassembledFunction) : Prop := s ≤ f.startAddr ∧ f.startAddr < e

instance (s e : U64) : DecidablePred (StartsIn s e) := fun _ => inferInstanceAs (Decidable (_ ∧ _))

def IsEnd (starts : List U64) (textEnd e : U64) : Prop :=
  e ∈ starts ∨ (e = textEnd ∧ ∀ t ∈ starts, t ≤ textEnd)

lemma IsEnd.tail {t : U64} (h : IsEnd (t :: starts) textEnd e) (hte : t < e) :
    IsEnd starts textEnd e := by
  rcases h with h | ⟨rfl, h⟩
  · rcases List.mem_cons.mp h with rfl | h
    · exact absurd hte (BitVec.lt_irrefl e)
    · exact .inl h
  · exact .inr ⟨rfl, fun t ht => h t (List.mem_cons_of_mem _ ht)⟩

lemma next_start (hsorted : starts.Pairwise (· < ·)) (hend : IsEnd starts textEnd e)
    (hs : ∀ t ∈ starts, s ≤ t) :
    (starts.filter fun t => decide (s ≤ t ∧ t < e)).head?.getD e = starts.head?.getD textEnd := by
  cases starts with
  | nil =>
    rcases hend with h | ⟨rfl, -⟩
    · cases h
    · rfl
  | cons t starts =>
    obtain ⟨hhead, -⟩ := List.pairwise_cons.mp hsorted
    by_cases ht : t < e
    · simp [ht, hs t List.mem_cons_self]
    · have hle : e ≤ t := BitVec.not_lt.mp ht
      have hnone : ∀ u ∈ t :: starts, ¬ (s ≤ u ∧ u < e) := by
        rintro u hu ⟨-, hlt⟩
        rcases List.mem_cons.mp hu with rfl | hu
        · exact ht hlt
        · exact ht (BitVec.lt_trans (hhead u hu) hlt)
      have heq : t = e := by
        rcases hend with hmem | ⟨rfl, hall⟩
        · rcases List.mem_cons.mp hmem with rfl | hmem
          · rfl
          · exact absurd (hhead e hmem) (BitVec.not_lt.mpr hle)
        · exact BitVec.le_antisymm (hall t List.mem_cons_self) hle
      rw [List.filter_eq_nil_iff.mpr fun u hu => by simpa using hnone u hu]
      exact heq.symm

lemma filter_splitFunctions (hsorted : starts.Pairwise (· < ·)) (hend : IsEnd starts textEnd e) :
    (splitFunctions symbols insns starts textEnd).filter (fun f => decide (StartsIn s e f)) =
      splitFunctions symbols insns (starts.filter fun t => decide (s ≤ t ∧ t < e)) e := by
  induction starts with
  | nil => rfl
  | cons t starts ih =>
    obtain ⟨hhead, htail⟩ := List.pairwise_cons.mp hsorted
    have hfirst : ((functionAt symbols insns t (starts.head?.getD textEnd)).toList.filter
        fun f => decide (StartsIn s e f)) =
          if s ≤ t ∧ t < e then (functionAt symbols insns t (starts.head?.getD textEnd)).toList
          else [] := by
      cases hf : functionAt symbols insns t (starts.head?.getD textEnd) with
      | none => split <;> rfl
      | some f =>
        have hstart : f.startAddr = t := by rw [functionAt_some hf]
        simp only [Option.toList_some, List.filter_cons, StartsIn, hstart, decide_eq_true_eq,
          List.filter_nil]
    rw [splitFunctions_cons, List.filter_append, hfirst]
    by_cases hte : t < e
    · rw [ih htail (hend.tail hte)]
      by_cases hst : s ≤ t
      · have hs : ∀ u ∈ starts, s ≤ u := fun u hu =>
          BitVec.le_trans hst (BitVec.le_of_lt (hhead u hu))
        have hnext := next_start (s := s) htail (hend.tail hte) hs
        rw [if_pos ⟨hst, hte⟩, List.filter_cons_of_pos (by simp [hst, hte]), splitFunctions_cons,
          hnext]
      · rw [if_neg fun h => hst h.1, List.filter_cons_of_neg (by simp [hst])]
        rfl
    · have hlate : ∀ u ∈ starts, ¬ (s ≤ u ∧ u < e) := fun u hu h =>
        hte (BitVec.lt_trans (hhead u hu) h.2)
      have hnil : (splitFunctions symbols insns starts textEnd).filter
          (fun f => decide (StartsIn s e f)) = [] := by
        rw [List.filter_eq_nil_iff]
        intro f hf
        rw [decide_eq_true_eq]
        exact hlate _ (startAddr_mem hf)
      rw [if_neg fun h => hte h.2, hnil, List.filter_cons_of_neg (by simp [hte]),
        List.filter_eq_nil_iff.mpr fun u hu => by simpa using hlate u hu]
      rfl

lemma flatMap_filter (hinc : Increasing insns) (hsorted : starts.Pairwise (· < ·)) (hs : s ∈ starts)
    (hend : IsEnd starts textEnd e) (hse : s < e) :
    ((splitFunctions symbols insns starts textEnd).filter
        fun f => decide (StartsIn s e f)).flatMap (·.instructions) =
      insns.filter fun i => decide (s ≤ i.address ∧ i.address < e) := by
  rw [filter_splitFunctions hsorted hend]
  have hsub : (starts.filter fun t => decide (s ≤ t ∧ t < e)).Pairwise (· < ·) := hsorted.filter _
  have hmem : s ∈ starts.filter fun t => decide (s ≤ t ∧ t < e) :=
    List.mem_filter.mpr ⟨hs, by simp [hse]⟩
  have hrange : ∀ t ∈ starts.filter (fun t => decide (s ≤ t ∧ t < e)), s ≤ t ∧ t < e := by
    intro t ht
    simpa using (List.mem_filter.mp ht).2
  cases hmid : starts.filter fun t => decide (s ≤ t ∧ t < e) with
  | nil =>
    rw [hmid] at hmem
    cases hmem
  | cons t mid =>
    rw [hmid] at hsub hmem hrange
    obtain rfl : t = s := by
      rcases List.mem_cons.mp hmem with h | h
      · exact h.symm
      · have hlt := (List.pairwise_cons.mp hsub).1 s h
        exact absurd (hrange t List.mem_cons_self).1 (BitVec.not_le.mpr hlt)
    exact flatMap_splitFunctions hinc hsub fun u hu => BitVec.le_of_lt (hrange u hu).2

lemma isEnd_of_mem {f : DisassembledFunction} (hle : ∀ t ∈ starts, t ≤ textEnd)
    (h : f ∈ splitFunctions symbols insns starts textEnd) : IsEnd starts textEnd f.endAddr := by
  induction starts with
  | nil => cases h
  | cons t starts ih =>
    rw [splitFunctions_cons] at h
    rcases List.mem_append.mp h with h | h
    · rw [functionAt_some (Option.mem_toList.mp h)]
      cases starts with
      | nil => exact .inr ⟨rfl, hle⟩
      | cons u starts => exact .inl (List.mem_cons_of_mem _ List.mem_cons_self)
    · rcases ih (fun t ht => hle t (List.mem_cons_of_mem _ ht)) h with hmem | ⟨heq, -⟩
      · exact .inl (List.mem_cons_of_mem _ hmem)
      · exact .inr ⟨heq, hle⟩

lemma IsSlice.start_lt {f : DisassembledFunction} (h : IsSlice insns f) :
    f.startAddr < f.endAddr := by
  obtain ⟨i, hi⟩ := List.exists_mem_of_ne_nil _ h.nonempty
  obtain ⟨hge, hlt⟩ := h.mem_range hi
  bv_omega

/-- With more symbols, the functions that are found are cut at more places: each one is the
functions of the finer run that start in its range, put together. -/
theorem discoverFunctions_cuts (hsub : ∀ a, a ∈ info.symbols → a ∈ symbols')
    (h : discoverFunctions cs info = .ok functions)
    (h' : discoverFunctions cs { info with symbols := symbols' } = .ok functions')
    (hd : cs.disasmAll info.textData info.textSectionAddr = .ok insns) (hinc : Increasing insns)
    (hfits : Fits info) (hin : ∀ i ∈ insns, InSection info i.address) :
    ∀ f ∈ functions, f.instructions =
      (functions'.filter fun g => decide (StartsIn f.startAddr f.endAddr g)).flatMap
        (·.instructions) := by
  rw [discoverFunctions_eq h hd, discoverFunctions_eq h' hd]
  intro f hf
  have hslice := splitFunctions_slice hf
  have htested : ∀ i ∈ insns, Tested info i.address := fun i hi => (tested_iff hfits).mpr (hin i hi)
  have hle : ∀ t ∈ sortedStarts info insns, t ≤ endOfText info := fun t ht =>
    BitVec.le_of_lt (tested_of_mem_starts htested ht).2
  have htested' : ∀ i ∈ insns, Tested { info with symbols := symbols' } i.address := htested
  have hle' : ∀ t ∈ sortedStarts { info with symbols := symbols' } insns, t ≤ endOfText info :=
    fun t ht => BitVec.le_of_lt (tested_of_mem_starts htested' ht).2
  have hstarts : ∀ t ∈ sortedStarts info insns,
      t ∈ sortedStarts { info with symbols := symbols' } insns := by
    intro t ht
    rw [mem_sortedStarts, mem_funcStarts] at ht ⊢
    refine ht.imp_left ?_
    rintro ⟨hsection, hsymbol⟩
    exact ⟨hsection, hsymbol.imp_left (hsub t)⟩
  have hend : IsEnd (sortedStarts { info with symbols := symbols' } insns) (endOfText info)
      f.endAddr := by
    rcases isEnd_of_mem hle hf with hmem | ⟨heq, -⟩
    · exact .inl (hstarts _ hmem)
    · exact .inr ⟨heq, hle'⟩
  rw [hslice.instructions]
  exact (flatMap_filter hinc sortedStarts_sorted (hstarts _ (startAddr_mem hf)) hend
    hslice.start_lt).symm

def innerText : BinaryInfo := ⟨.elf, 0x1000, 0x1000, [0x55, 0x90, 0xc3], ∅⟩

def innerInsns : List DisassembledInsn :=
  [⟨0x1000, 1, "push", "rbp", [0x55]⟩, ⟨0x1001, 1, "nop", "", [0x90]⟩,
    ⟨0x1002, 1, "ret", "", [0xc3]⟩]

def innerSymbols : SymbolTable := (∅ : SymbolTable).insert 0x1001 "inner"

theorem innerText_cuts : ∃ functions functions',
    discoverFunctions (decoderOf innerText.textData 0x1000 innerInsns) innerText = .ok functions ∧
    discoverFunctions (decoderOf innerText.textData 0x1000 innerInsns)
      { innerText with symbols := innerSymbols } = .ok functions' ∧
    functions.length = 1 ∧ functions'.length = 2 ∧
    ∀ f ∈ functions, f.instructions =
      (functions'.filter fun g => decide (StartsIn f.startAddr f.endAddr g)).flatMap
        (·.instructions) := by
  have hsub : ∀ a, a ∈ innerText.symbols → a ∈ innerSymbols := fun a ha =>
    absurd ha TreeMap.not_mem_emptyc
  have hd : (decoderOf innerText.textData 0x1000 innerInsns).disasmAll innerText.textData
      innerText.textSectionAddr = .ok innerInsns := rfl
  exact ⟨_, _, rfl, rfl, by decide, by decide,
    discoverFunctions_cuts hsub rfl rfl hd (by decide) (by decide) (by decide)⟩

end Dexe.Frontend
