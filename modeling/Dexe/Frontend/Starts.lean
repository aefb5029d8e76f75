import Dexe.Bits.Checked
import Dexe.Frontend.Split

/-! The starts that are discovered, and the functions between them. -/

namespace Dexe.Frontend

open Std Collections Cfg Bits

variable {info : BinaryInfo} {insns : List DisassembledInsn} {symbols : SymbolTable}
  {textEnd a : U64}

def endOfText (info : BinaryInfo) : U64 :=
  info.textSectionAddr + BitVec.ofNat 64 info.textData.length

/-- The test of the source for an address in the text, with an end that wraps around. -/
def Tested (info : BinaryInfo) (a : U64) : Prop := inText info.textSectionAddr (endOfText info) a

def InSection (info : BinaryInfo) (a : U64) : Prop :=
  info.textSectionAddr.toNat ≤ a.toNat ∧
    a.toNat < info.textSectionAddr.toNat + info.textData.length

instance (info : BinaryInfo) : DecidablePred (InSection info) :=
  fun _ => inferInstanceAs (Decidable (_ ∧ _))

def Fits (info : BinaryInfo) : Prop :=
  info.textSectionAddr.toNat + info.textData.length < 2 ^ 64

instance (info : BinaryInfo) : Decidable (Fits info) := inferInstanceAs (Decidable (_ < _))

lemma toNat_length (h : info.textData.length < 2 ^ 64) :
    (BitVec.ofNat 64 info.textData.length).toNat = info.textData.length := by
  rw [BitVec.toNat_ofNat, Nat.mod_eq_of_lt h]

lemma Fits.length_lt (h : Fits info) : info.textData.length < 2 ^ 64 :=
  (Nat.le_add_left _ _).trans_lt h

lemma tested_iff (h : Fits info) : Tested info a ↔ InSection info a := by
  have hlen := toNat_length h.length_lt
  rw [Tested, endOfText, inText, lt_add_iff (hlen.symm ▸ h), hlen, BitVec.le_def, InSection]

lemma not_tested (hlen : info.textData.length < 2 ^ 64) (h : ¬ Fits info) : ¬ Tested info a := by
  rintro ⟨hge, hlt⟩
  have hend := toNat_length hlen
  have haddr := info.textSectionAddr.isLt
  rw [Fits] at h
  rw [endOfText, BitVec.lt_def, BitVec.toNat_add, hend] at hlt
  rw [BitVec.le_def] at hge
  omega

def IsCallTarget (info : BinaryInfo) (insns : List DisassembledInsn) (a : U64) : Prop :=
  ∃ i ∈ insns, i.mnemonic = "call" ∧ parseHexTarget i.opStr = some a ∧ Tested info a ∧
    ∃ j ∈ insns, j.address = a

def IsSeed (info : BinaryInfo) (a : U64) : Prop :=
  InSection info a ∧ (a ∈ info.symbols ∨ a = info.entryPoint)

lemma contains_addrToIdx : (addrToIdx insns).contains a = true ↔ ∃ j ∈ insns, j.address = a := by
  have hstep : ∀ (m : TreeMap U64 ℕ) (p : DisassembledInsn × ℕ),
      (m.insert p.1.address p.2).contains a = true ↔ m.contains a = true ∨ p.1.address = a := by
    intro m p
    rw [TreeMap.contains_insert, Bool.or_eq_true, beq_iff_eq, Std.compare_eq_iff_eq, or_comm]
  have h := foldl_iff (fun m : TreeMap U64 ℕ => m.contains a = true) (fun p => p.1.address = a)
    hstep
    insns.zipIdx ∅
  rw [addrToIdx, h]
  constructor
  · rintro (hnone | ⟨p, hp, ha⟩)
    · simp at hnone
    · exact ⟨p.1, List.mem_zipIdx' hp |>.2 ▸ List.getElem_mem _, ha⟩
  · rintro ⟨j, hj, ha⟩
    obtain ⟨k, hk, rfl⟩ := List.getElem_of_mem hj
    exact .inr ⟨(insns[k], k), List.mem_zipIdx_iff_getElem?.mpr (by simp [hk]), ha⟩

lemma mem_symbolStarts {starts : TreeSet U64} :
    a ∈ symbolStarts info.textSectionAddr (endOfText info) info.symbols starts ↔
      a ∈ starts ∨ Tested info a ∧ a ∈ info.symbols := by
  have hstep : ∀ (s : TreeSet U64) (b : U64),
      (a ∈ if inText info.textSectionAddr (endOfText info) b then s.insert b else s) ↔
        a ∈ s ∨ Tested info b ∧ a = b := by
    intro s b
    by_cases hb : inText info.textSectionAddr (endOfText info) b
    · rw [if_pos hb, mem_insert_iff]
      simp [Tested, hb]
    · rw [if_neg hb]
      simp [Tested, hb]
  have h := foldl_iff (a ∈ ·) (fun b => Tested info b ∧ a = b) hstep info.symbols.keys starts
  rw [symbolStarts, h]
  refine or_congr_right ?_
  constructor
  · rintro ⟨b, hb, hin, rfl⟩
    exact ⟨hin, TreeMap.mem_keys.mp hb⟩
  · rintro ⟨hin, ha⟩
    exact ⟨a, TreeMap.mem_keys.mpr ha, hin, rfl⟩

lemma mem_entryStart {starts : TreeSet U64} :
    a ∈ entryStart info.textSectionAddr (endOfText info) info.entryPoint starts ↔
      a ∈ starts ∨ Tested info a ∧ a = info.entryPoint := by
  rw [entryStart]
  by_cases h : inText info.textSectionAddr (endOfText info) info.entryPoint
  · rw [if_pos h, mem_insert_iff]
    refine or_congr_right ⟨?_, fun ha => ha.2⟩
    rintro rfl
    exact ⟨h, rfl⟩
  · rw [if_neg h]
    refine ⟨.inl, ?_⟩
    rintro (ha | ⟨hin, rfl⟩)
    · exact ha
    · exact absurd hin h

lemma mem_prologueStarts {starts : TreeSet U64} :
    a ∈ prologueStarts insns starts ↔
      a ∈ starts ∨ ∃ i ∈ insns, isPrologue i ∧ i.address = a := by
  apply foldl_iff (a ∈ ·) (fun i => isPrologue i ∧ i.address = a)
  intro s i
  by_cases hi : isPrologue i
  · rw [if_pos hi, mem_insert_iff]
    simp [hi, eq_comm]
  · rw [if_neg hi]
    simp [hi]

lemma mem_callStarts {starts : TreeSet U64} :
    a ∈ callStarts info.textSectionAddr (endOfText info) (addrToIdx insns) insns starts ↔
      a ∈ starts ∨ IsCallTarget info insns a := by
  apply foldl_iff (a ∈ ·) fun i : DisassembledInsn => i.mnemonic = "call" ∧
    parseHexTarget i.opStr = some a ∧ Tested info a ∧ ∃ j ∈ insns, j.address = a
  intro s i
  by_cases hm : i.mnemonic = "call"
  · rw [if_pos hm]
    cases hp : parseHexTarget i.opStr with
    | none => simp
    | some target =>
      simp only [contains_addrToIdx]
      by_cases ht : inText info.textSectionAddr (endOfText info) target ∧
          ∃ j ∈ insns, j.address = target
      · rw [if_pos ht, mem_insert_iff]
        refine or_congr_right ⟨?_, fun h => (Option.some.inj h.2.1).symm⟩
        rintro rfl
        exact ⟨hm, rfl, ht⟩
      · rw [if_neg ht]
        refine ⟨.inl, ?_⟩
        rintro (ha | ⟨-, htarget, h⟩)
        · exact ha
        · rw [Option.some.inj htarget] at ht
          exact absurd h ht
  · rw [if_neg hm]
    refine ⟨.inl, ?_⟩
    rintro (ha | ⟨hcall, -⟩)
    · exact ha
    · exact absurd hcall hm

lemma mem_funcStarts :
    a ∈ funcStarts info insns ↔
      Tested info a ∧ (a ∈ info.symbols ∨ a = info.entryPoint) ∨
        (∃ i ∈ insns, isPrologue i ∧ i.address = a) ∨ IsCallTarget info insns a := by
  rw [funcStarts]
  refine mem_callStarts.trans ?_
  rw [mem_prologueStarts]
  rw [show info.textSectionAddr + BitVec.ofNat 64 info.textData.length = endOfText info from rfl,
    mem_entryStart, mem_symbolStarts]
  simp only [TreeSet.not_mem_emptyc, false_or]
  rw [and_or_left, or_assoc]

def sortedStarts (info : BinaryInfo) (insns : List DisassembledInsn) : List U64 :=
  (funcStarts info insns).toList

lemma sortedStarts_sorted : (sortedStarts info insns).Pairwise (· < ·) :=
  (TreeSet.ordered_toList).imp compare_lt_iff.mp

lemma mem_sortedStarts : a ∈ sortedStarts info insns ↔ a ∈ funcStarts info insns :=
  TreeSet.mem_toList

lemma discoverFunctions_eq {cs : Capstone} {functions : List DisassembledFunction}
    (h : discoverFunctions cs info = .ok functions)
    (hd : cs.disasmAll info.textData info.textSectionAddr = .ok insns) :
    functions = splitFunctions info.symbols insns (sortedStarts info insns) (endOfText info) := by
  rw [discoverFunctions] at h
  cases hb : cs.build with
  | error e =>
    rw [hb] at h
    cases h
  | ok u =>
    rw [hb, hd] at h
    cases h
    rfl

lemma splitFunctions_cons (start : U64) (starts : List U64) :
    splitFunctions symbols insns (start :: starts) textEnd =
      (functionAt symbols insns start (starts.head?.getD textEnd)).toList ++
        splitFunctions symbols insns starts textEnd := by
  have hrest : (starts.zipIdx 1).filterMap (fun p =>
      functionAt symbols insns p.1 ((start :: starts)[p.2 + 1]?.getD textEnd)) =
      splitFunctions symbols insns starts textEnd := by
    rw [List.zipIdx_succ, List.filterMap_map]
    rfl
  have hhead : (start :: starts)[0 + 1]? = starts.head? := List.head?_eq_getElem?.symm
  rw [splitFunctions, List.zipIdx_cons, List.filterMap_cons, hrest, hhead]
  cases functionAt symbols insns start (starts.head?.getD textEnd) <;> rfl

lemma functionAt_none {start stop : U64} (h : functionAt symbols insns start stop = none) :
    (insns.filter fun i => decide (start ≤ i.address ∧ i.address < stop)) = [] := by
  simp only [functionAt] at h
  split at h
  · assumption
  · cases h

lemma functionAt_some {start stop : U64} {f : DisassembledFunction}
    (h : functionAt symbols insns start stop = some f) :
    f = ⟨funcName symbols start, start, stop,
      insns.filter fun i => decide (start ≤ i.address ∧ i.address < stop)⟩ := by
  simp only [functionAt] at h
  split at h
  · cases h
  · exact (Option.some.inj h).symm

lemma startAddr_mem {starts : List U64} {f : DisassembledFunction}
    (h : f ∈ splitFunctions symbols insns starts textEnd) : f.startAddr ∈ starts := by
  induction starts with
  | nil => cases h
  | cons start starts ih =>
    rw [splitFunctions_cons] at h
    rcases List.mem_append.mp h with h | h
    · rw [functionAt_some (Option.mem_toList.mp h)]
      exact List.mem_cons_self
    · exact List.mem_cons_of_mem _ (ih h)

structure Separated (functions : List DisassembledFunction) : Prop where
  nonempty : ∀ f ∈ functions, f.instructions ≠ []
  inside : ∀ f ∈ functions, ∀ i ∈ f.instructions,
    f.startAddr ≤ i.address ∧ i.address < f.endAddr
  ascending : functions.Pairwise fun f g => f.startAddr < g.startAddr
  disjoint : functions.Pairwise fun f g => ∀ a, f.startAddr ≤ a ∧ a < f.endAddr →
    ¬ (g.startAddr ≤ a ∧ a < g.endAddr)

lemma pairwise_splitFunctions {starts : List U64} (hstarts : starts.Pairwise (· < ·)) :
    (splitFunctions symbols insns starts textEnd).Pairwise fun f g =>
      f.startAddr < g.startAddr ∧ f.endAddr ≤ g.startAddr := by
  induction starts with
  | nil => exact .nil
  | cons start starts ih =>
    obtain ⟨hhead, htail⟩ := List.pairwise_cons.mp hstarts
    rw [splitFunctions_cons, List.pairwise_append]
    refine ⟨?_, ih htail, ?_⟩
    · cases functionAt symbols insns start (starts.head?.getD textEnd) with
      | none => exact .nil
      | some f => exact List.pairwise_singleton _ f
    · intro f hf g hg
      rw [functionAt_some (Option.mem_toList.mp hf)]
      have hmem := startAddr_mem hg
      refine ⟨hhead _ hmem, ?_⟩
      cases starts with
      | nil => cases hmem
      | cons next starts =>
        rcases List.mem_cons.mp hmem with he | hmem
        · rw [he]
          exact BitVec.le_refl next
        · exact BitVec.le_of_lt ((List.pairwise_cons.mp htail).1 _ hmem)

lemma separated_splitFunctions {starts : List U64} (hstarts : starts.Pairwise (· < ·)) :
    Separated (splitFunctions symbols insns starts textEnd) := by
  have hpairs : (splitFunctions symbols insns starts textEnd).Pairwise fun f g =>
      f.startAddr < g.startAddr ∧ f.endAddr ≤ g.startAddr := pairwise_splitFunctions hstarts
  refine ⟨?_, ?_, ?_, ?_⟩
  · intro f hf
    exact (splitFunctions_slice hf).nonempty
  · intro f hf i hi
    exact (splitFunctions_slice hf).mem_range hi
  · exact hpairs.imp fun h => h.1
  · refine hpairs.imp ?_
    rintro f g ⟨-, hle⟩ a ⟨-, hlt⟩ ⟨hge, -⟩
    exact absurd (BitVec.le_trans hle hge) (BitVec.not_le.mpr hlt)

lemma flatMap_functionAt (start stop : U64) :
    (functionAt symbols insns start stop).toList.flatMap (·.instructions) =
      insns.filter fun i => decide (start ≤ i.address ∧ i.address < stop) := by
  cases h : functionAt symbols insns start stop with
  | none => exact (functionAt_none h).symm
  | some f =>
    rw [functionAt_some h]
    exact List.append_nil _

lemma flatMap_splitFunctions (hinc : Increasing insns) {start : U64} {starts : List U64}
    (hstarts : (start :: starts).Pairwise (· < ·)) (hend : ∀ s ∈ start :: starts, s ≤ textEnd) :
    (splitFunctions symbols insns (start :: starts) textEnd).flatMap (·.instructions) =
      insns.filter fun i => decide (start ≤ i.address ∧ i.address < textEnd) := by
  induction starts generalizing start with
  | nil =>
    rw [splitFunctions_cons, List.flatMap_append, flatMap_functionAt]
    exact List.append_nil _
  | cons next starts ih =>
    obtain ⟨hhead, htail⟩ := List.pairwise_cons.mp hstarts
    have hnext : start < next := hhead next List.mem_cons_self
    have hle : next ≤ textEnd := hend next (List.mem_cons_of_mem _ List.mem_cons_self)
    rw [splitFunctions_cons, List.flatMap_append, List.head?_cons, Option.getD_some,
      flatMap_functionAt, ih htail (fun s hs => hend s (List.mem_cons_of_mem _ hs)),
      filter_append_filter hinc]
    · apply List.filter_congr
      intro i _
      rw [← Bool.decide_or, decide_eq_decide]
      constructor
      · rintro (⟨hge, hlt⟩ | ⟨hge, hlt⟩)
        · exact ⟨hge, by bv_omega⟩
        · exact ⟨by bv_omega, hlt⟩
      · rintro ⟨hge, hlt⟩
        by_cases hi : i.address < next
        · exact .inl ⟨hge, hi⟩
        · exact .inr ⟨BitVec.not_lt.mp hi, hlt⟩
    · intro i hi
      simp only [decide_eq_true_eq, decide_eq_false_iff_not, not_and] at hi ⊢
      intro hge
      exact absurd hi.2 (BitVec.not_lt.mpr hge)
    · intro i j hij hi
      simp only [decide_eq_true_eq, decide_eq_false_iff_not, not_and] at hi ⊢
      intro _
      exact BitVec.not_lt.mpr (BitVec.le_trans hi.1 (BitVec.le_of_lt hij))

variable {cs : Capstone} {functions : List DisassembledFunction}

structure Partitions (info : BinaryInfo) (insns : List DisassembledInsn)
    (functions : List DisassembledFunction) : Prop where
  separated : Separated functions
  covers : ∀ start ∈ (funcStarts info insns).min?,
    functions.flatMap (·.instructions) = insns.filter fun i => decide (start ≤ i.address)
  empty : (funcStarts info insns).min? = none → functions = []

lemma tested_of_mem_starts (hin : ∀ i ∈ insns, Tested info i.address)
    (h : a ∈ sortedStarts info insns) : Tested info a := by
  rcases mem_funcStarts.mp (mem_sortedStarts.mp h) with h | ⟨i, hi, -, rfl⟩ | ⟨i, -, -, -, h, -⟩
  · exact h.1
  · exact hin i hi
  · exact h

lemma flatMap_sortedStarts (hinc : Increasing insns) (hin : ∀ i ∈ insns, Tested info i.address)
    {start : U64} (hstart : start ∈ (funcStarts info insns).min?) :
    (splitFunctions info.symbols insns (sortedStarts info insns) (endOfText info)).flatMap
        (·.instructions) = insns.filter fun i => decide (start ≤ i.address) := by
  have hhead : (sortedStarts info insns).head? = some start := by
    rw [sortedStarts, ← TreeSet.min?_eq_head?_toList]
    exact hstart
  obtain ⟨starts, hstarts⟩ := List.head?_eq_some_iff.mp hhead
  have hsorted : (sortedStarts info insns).Pairwise (· < ·) := sortedStarts_sorted
  have hend : ∀ s ∈ sortedStarts info insns, s ≤ endOfText info :=
    fun s hs => BitVec.le_of_lt (tested_of_mem_starts hin hs).2
  rw [hstarts] at hsorted hend ⊢
  rw [flatMap_splitFunctions hinc hsorted hend]
  apply List.filter_congr
  intro i hi
  simp [(hin i hi).2]

theorem discoverFunctions_partitions (h : discoverFunctions cs info = .ok functions)
    (hd : cs.disasmAll info.textData info.textSectionAddr = .ok insns) (hinc : Increasing insns)
    (hfits : Fits info) (hin : ∀ i ∈ insns, InSection info i.address) :
    Partitions info insns functions := by
  rw [discoverFunctions_eq h hd]
  refine ⟨separated_splitFunctions sortedStarts_sorted, ?_, ?_⟩
  · intro start hstart
    exact flatMap_sortedStarts hinc (fun i hi => (tested_iff hfits).mpr (hin i hi)) hstart
  · intro hnone
    have hnil : sortedStarts info insns = [] := by
      rw [TreeSet.min?_eq_head?_toList] at hnone
      exact List.head?_eq_none_iff.mp hnone
    rw [hnil]
    rfl

def smallBytes : List UInt8 := [0x55, 0xe8, 2, 0, 0, 0, 0x5d, 0xc3, 0xc3]

def smallSymbols : SymbolTable := (∅ : SymbolTable).insert 0x1008 "helper"

def smallText : BinaryInfo := ⟨.elf, 0x1000, 0x1000, smallBytes, smallSymbols⟩

def smallInsns : List DisassembledInsn :=
  [⟨0x1000, 1, "push", "rbp", [0x55]⟩, ⟨0x1001, 5, "call", "0x1008", [0xe8, 2, 0, 0, 0]⟩,
    ⟨0x1006, 1, "pop", "rbp", [0x5d]⟩, ⟨0x1007, 1, "ret", "", [0xc3]⟩,
    ⟨0x1008, 1, "ret", "", [0xc3]⟩]

def smallFunctions : List DisassembledFunction :=
  [⟨"func_0x1000", 0x1000, 0x1008, smallInsns.take 4⟩,
    ⟨"helper", 0x1008, 0x1009, smallInsns.drop 4⟩]

def smallDecoder : Capstone := decoderOf smallBytes 0x1000 smallInsns

lemma smallDecoder_ok :
    smallDecoder.disasmAll smallText.textData smallText.textSectionAddr = .ok smallInsns := by rfl

lemma smallFunctions_ok : discoverFunctions smallDecoder smallText = .ok smallFunctions := by rfl

theorem smallText_partitions : Partitions smallText smallInsns smallFunctions :=
  discoverFunctions_partitions smallFunctions_ok smallDecoder_ok (by decide) (by decide)
    (by decide)

end Dexe.Frontend
