import Dexe.Frontend.Starts

/-! Functions that start at an address of the decoded stream, and seeds that are none. -/

namespace Dexe.Frontend

open Std Collections Cfg

variable {info : BinaryInfo} {insns : List DisassembledInsn} {symbols : SymbolTable}
  {textEnd a : U64} {cs : Capstone} {functions : List DisassembledFunction}

def StartsAtHead (f : DisassembledFunction) : Prop :=
  ∃ i, f.instructions.head? = some i ∧ i.address = f.startAddr

lemma mem_filter_range {start stop : U64} {i : DisassembledInsn} :
    i ∈ insns.filter (fun i => decide (start ≤ i.address ∧ i.address < stop)) ↔
      i ∈ insns ∧ start ≤ i.address ∧ i.address < stop := by
  rw [List.mem_filter, decide_eq_true_eq]

lemma functionAt_of_lt (symbols : SymbolTable) {start stop : U64} {i : DisassembledInsn}
    (hi : i ∈ insns) (hia : i.address = start) (hlt : start < stop) :
    ∃ f, functionAt symbols insns start stop = some f ∧ f.startAddr = start ∧
      f.name = funcName symbols start := by
  have hmem := mem_filter_range.mpr ⟨hi, BitVec.le_of_eq hia.symm, hia ▸ hlt⟩
  exact ⟨_, if_neg (List.ne_nil_of_mem hmem), rfl, rfl⟩

lemma functionAt_of_le (symbols : SymbolTable) (insns : List DisassembledInsn) {start stop : U64}
    (hle : stop ≤ start) :
    functionAt symbols insns start stop = none := by
  apply if_pos
  rw [List.filter_eq_nil_iff]
  intro i _ hi
  obtain ⟨hge, hlt⟩ := of_decide_eq_true hi
  exact absurd (BitVec.le_trans hle hge) (BitVec.not_le.mpr hlt)

lemma exists_function {starts : List U64} (hstarts : starts.Pairwise (· < ·)) (ha : a ∈ starts)
    (hend : a < textEnd) {i : DisassembledInsn} (hi : i ∈ insns) (hia : i.address = a) :
    ∃ f ∈ splitFunctions symbols insns starts textEnd, f.startAddr = a ∧
      f.name = funcName symbols a := by
  induction starts with
  | nil => cases ha
  | cons start starts ih =>
    obtain ⟨hhead, htail⟩ := List.pairwise_cons.mp hstarts
    rw [splitFunctions_cons]
    rcases List.mem_cons.mp ha with rfl | ha
    · have hstop : a < starts.head?.getD textEnd := by
        cases starts with
        | nil => exact hend
        | cons next starts => exact hhead next List.mem_cons_self
      obtain ⟨f, hfunction, hf⟩ := functionAt_of_lt symbols hi hia hstop
      rw [hfunction]
      exact ⟨f, List.mem_cons_self, hf⟩
    · obtain ⟨f, hf, hstart⟩ := ih htail ha
      exact ⟨f, List.mem_append_right _ hf, hstart⟩

lemma IsSlice.head {f : DisassembledFunction} (h : IsSlice insns f) (hinc : Increasing insns)
    {i : DisassembledInsn} (hi : i ∈ insns) (hia : i.address = f.startAddr) :
    f.instructions.head? = some i := by
  obtain ⟨j, l, hl⟩ := List.exists_cons_of_ne_nil h.nonempty
  have hj := h.mem_range (hl ▸ List.mem_cons_self)
  have hrange : f.startAddr < f.endAddr := by
    obtain ⟨hge, hlt⟩ := hj
    bv_omega
  have hmem : i ∈ f.instructions := by
    rw [h.instructions]
    exact mem_filter_range.mpr ⟨hi, BitVec.le_of_eq hia.symm, hia ▸ hrange⟩
  have hsorted := h.increasing hinc
  rw [hl] at hmem hsorted ⊢
  rcases List.mem_cons.mp hmem with rfl | hmem
  · rfl
  · have hlt := (List.pairwise_cons.mp hsorted).1 i hmem
    rw [hia] at hlt
    exact absurd hj.1 (BitVec.not_le.mpr hlt)

def Consecutive (stop : ℕ) : ℕ → List DisassembledInsn → Prop
  | _, [] => True
  | a, i :: l => i.address.toNat = a ∧ 0 < i.size.toNat ∧ a + i.size.toNat ≤ stop ∧
      Consecutive stop (a + i.size.toNat) l

lemma Consecutive.le {stop a : ℕ} {l : List DisassembledInsn} (h : Consecutive stop a l) :
    ∀ i ∈ l, a ≤ i.address.toNat := by
  induction l generalizing a with
  | nil => simp
  | cons i l ih =>
    obtain ⟨ha, -, -, h⟩ := h
    rw [List.forall_mem_cons]
    refine ⟨ha.ge, ?_⟩
    intro j hj
    have := ih h j hj
    omega

lemma Consecutive.increasing {stop a : ℕ} {l : List DisassembledInsn} (h : Consecutive stop a l) :
    Increasing l := by
  induction l generalizing a with
  | nil => exact .nil
  | cons i l ih =>
    obtain ⟨ha, hsize, -, h⟩ := h
    refine .cons ?_ (ih h)
    intro j hj
    have := h.le j hj
    apply BitVec.lt_def.mpr
    omega

/-- Every seed is the start of a function, and every function starts with its first
instruction. -/
structure KeepsSeeds (info : BinaryInfo) (functions : List DisassembledFunction) : Prop where
  seeds : ∀ a, IsSeed info a → ∃ f ∈ functions, f.startAddr = a
  heads : ∀ f ∈ functions, StartsAtHead f

lemma instruction_of_kept {starts : List U64}
    (h : KeepsSeeds info (splitFunctions symbols insns starts textEnd)) (ha : IsSeed info a) :
    ∃ i ∈ insns, i.address = a := by
  obtain ⟨f, hf, rfl⟩ := h.seeds a ha
  obtain ⟨i, hi, hia⟩ := h.heads f hf
  have hmem := List.mem_of_mem_head? hi
  rw [(splitFunctions_slice hf).instructions] at hmem
  exact ⟨i, (mem_filter_range.mp hmem).1, hia⟩

lemma startsAtHead {starts : List U64} (hinc : Increasing insns)
    (hstarts : ∀ s ∈ starts, ∃ i ∈ insns, i.address = s) {f : DisassembledFunction}
    (hf : f ∈ splitFunctions symbols insns starts textEnd) : StartsAtHead f := by
  obtain ⟨i, hi, hia⟩ := hstarts _ (startAddr_mem hf)
  exact ⟨i, (splitFunctions_slice hf).head hinc hi hia, hia⟩

lemma keepsSeeds_of_fits (hfits : Fits info) (hinc : Increasing insns) :
    KeepsSeeds info (splitFunctions info.symbols insns (sortedStarts info insns) (endOfText info)) ↔
      ∀ a, IsSeed info a → ∃ i ∈ insns, i.address = a := by
  refine ⟨fun hkept a ha => instruction_of_kept hkept ha, fun hseeds => ⟨?_, ?_⟩⟩
  · intro a ha
    obtain ⟨i, hi, hia⟩ := hseeds a ha
    have htested : Tested info a := (tested_iff hfits).mpr ha.1
    have hmem : a ∈ sortedStarts info insns :=
      mem_sortedStarts.mpr (mem_funcStarts.mpr (.inl ⟨htested, ha.2⟩))
    obtain ⟨f, hf, hstart, -⟩ := exists_function sortedStarts_sorted hmem htested.2 hi hia
    exact ⟨f, hf, hstart⟩
  · intro f hf
    refine startsAtHead hinc (fun s hs => ?_) hf
    rcases mem_funcStarts.mp (mem_sortedStarts.mp hs) with h | ⟨i, hi, -, hia⟩ | ⟨-, -, -, -, -, h⟩
    · exact hseeds s ⟨(tested_iff hfits).mp h.1, h.2⟩
    · exact ⟨i, hi, hia⟩
    · exact h

def IsPrologueAt (insns : List DisassembledInsn) (a : U64) : Prop :=
  ∃ i ∈ insns, isPrologue i ∧ i.address = a

lemma mem_sortedStarts_of_not_fits (hlen : info.textData.length < 2 ^ 64) (hfits : ¬ Fits info) :
    a ∈ sortedStarts info insns ↔ IsPrologueAt insns a := by
  rw [mem_sortedStarts, mem_funcStarts]
  constructor
  · rintro (h | h | ⟨-, -, -, -, h, -⟩)
    · exact absurd h.1 (not_tested hlen hfits)
    · exact h
    · exact absurd h (not_tested hlen hfits)
  · intro h
    exact .inr (.inl h)

lemma exists_function_iff_later {starts : List U64} (hstarts : starts.Pairwise (· < ·))
    (hinsns : ∀ s ∈ starts, ∃ i ∈ insns, i.address = s) (hend : ∀ s ∈ starts, textEnd ≤ s) :
    (∃ f ∈ splitFunctions symbols insns starts textEnd, f.startAddr = a) ↔
      a ∈ starts ∧ ∃ b ∈ starts, a < b := by
  induction starts with
  | nil => simp [splitFunctions]
  | cons start starts ih =>
    obtain ⟨hhead, htail⟩ := List.pairwise_cons.mp hstarts
    have hrest := ih htail (fun s hs => hinsns s (List.mem_cons_of_mem _ hs))
      fun s hs => hend s (List.mem_cons_of_mem _ hs)
    rw [splitFunctions_cons]
    cases starts with
    | nil =>
      have hnone := functionAt_of_le symbols insns (hend start List.mem_cons_self)
      rw [List.head?_nil, Option.getD_none, hnone]
      refine iff_of_false (by simp [splitFunctions]) ?_
      rintro ⟨ha, b, hb, hlt⟩
      rw [List.mem_singleton.mp ha, List.mem_singleton.mp hb] at hlt
      exact BitVec.lt_irrefl start hlt
    | cons next starts =>
      obtain ⟨i, hi, hia⟩ := hinsns start List.mem_cons_self
      have hnext : start < next := hhead next List.mem_cons_self
      obtain ⟨f, hf, hstart, -⟩ := functionAt_of_lt symbols hi hia hnext
      rw [List.head?_cons, Option.getD_some, hf, Option.toList_some, List.singleton_append,
        List.exists_mem_cons_iff, hrest, hstart]
      constructor
      · rintro (rfl | ⟨ha, b, hb, hlt⟩)
        · exact ⟨List.mem_cons_self, next, by simp, hnext⟩
        · exact ⟨List.mem_cons_of_mem _ ha, b, List.mem_cons_of_mem _ hb, hlt⟩
      · rintro ⟨ha, b, hb, hlt⟩
        rcases List.mem_cons.mp ha with rfl | hmem
        · exact .inl rfl
        · rcases List.mem_cons.mp hb with rfl | hb
          · exact absurd (hhead a hmem) (BitVec.not_lt.mpr (BitVec.le_of_lt hlt))
          · exact .inr ⟨hmem, b, hb, hlt⟩

lemma keepsSeeds_of_not_fits (hlen : info.textData.length < 2 ^ 64) (hfits : ¬ Fits info)
    (hc : Consecutive (info.textSectionAddr.toNat + info.textData.length)
      info.textSectionAddr.toNat insns) :
    KeepsSeeds info (splitFunctions info.symbols insns (sortedStarts info insns) (endOfText info)) ↔
      ∀ a, IsSeed info a → IsPrologueAt insns a ∧ ∃ b, IsPrologueAt insns b ∧ a < b := by
  have hmem : ∀ a, a ∈ sortedStarts info insns ↔ IsPrologueAt insns a := fun a =>
    mem_sortedStarts_of_not_fits hlen hfits
  have hinsns : ∀ s ∈ sortedStarts info insns, ∃ i ∈ insns, i.address = s := by
    intro s hs
    obtain ⟨i, hi, -, hia⟩ := (hmem s).mp hs
    exact ⟨i, hi, hia⟩
  have hend : ∀ s ∈ sortedStarts info insns, endOfText info ≤ s := by
    intro s hs
    obtain ⟨i, hi, rfl⟩ := hinsns s hs
    have hle := hc.le i hi
    by_contra hlt
    exact not_tested hlen hfits ⟨BitVec.le_def.mpr hle, BitVec.not_le.mp hlt⟩
  have hfunction : ∀ a, (∃ f ∈ splitFunctions info.symbols insns (sortedStarts info insns)
      (endOfText info), f.startAddr = a) ↔
        IsPrologueAt insns a ∧ ∃ b, IsPrologueAt insns b ∧ a < b := by
    intro a
    rw [exists_function_iff_later sortedStarts_sorted hinsns hend, hmem]
    simp only [hmem]
  constructor
  · intro h a ha
    exact (hfunction a).mp (h.seeds a ha)
  · intro h
    exact ⟨fun a ha => (hfunction a).mpr (h a ha),
      fun f hf => startsAtHead hc.increasing hinsns hf⟩

/-- What a seed has to be: the address of a decoded instruction, and where the end of the text is
no address, that of a prologue with another one behind it. -/
structure Startable (info : BinaryInfo) (insns : List DisassembledInsn) (a : U64) : Prop where
  decoded : ∃ i ∈ insns, i.address = a
  wrapped : Fits info ∨ IsPrologueAt insns a ∧ ∃ b, IsPrologueAt insns b ∧ a < b

/-- The seeds are kept exactly when each of them can start a function. -/
theorem keepsSeeds_iff (h : discoverFunctions cs info = .ok functions)
    (hd : cs.disasmAll info.textData info.textSectionAddr = .ok insns)
    (hc : Consecutive (info.textSectionAddr.toNat + info.textData.length)
      info.textSectionAddr.toNat insns) (hlen : info.textData.length < 2 ^ 64) :
    KeepsSeeds info functions ↔ ∀ a, IsSeed info a → Startable info insns a := by
  rw [discoverFunctions_eq h hd]
  by_cases hfits : Fits info
  · rw [keepsSeeds_of_fits hfits hc.increasing]
    exact forall₂_congr fun a _ => ⟨fun hi => ⟨hi, .inl hfits⟩, fun hs => hs.decoded⟩
  · rw [keepsSeeds_of_not_fits hlen hfits hc]
    refine forall₂_congr fun a _ => ⟨fun hp => ⟨?_, .inr hp⟩, fun hs => ?_⟩
    · obtain ⟨⟨i, hi, -, hia⟩, -⟩ := hp
      exact ⟨i, hi, hia⟩
    · exact hs.wrapped.resolve_left hfits

def shiftedBytes : List UInt8 := [0xb8, 0x55, 0x48, 0x89, 0xe5, 0xc3]

def shiftedText : BinaryInfo := ⟨.elf, 0x1001, 0x1000, shiftedBytes, ∅⟩

def shiftedInsns : List DisassembledInsn :=
  [⟨0x1000, 5, "mov", "eax, 0xe5894855", [0xb8, 0x55, 0x48, 0x89, 0xe5]⟩,
    ⟨0x1005, 1, "ret", "", [0xc3]⟩]

def shiftedDecoder : Capstone := decoderOf shiftedBytes 0x1000 shiftedInsns

theorem shiftedText_loses_entry :
    ∃ functions, discoverFunctions shiftedDecoder shiftedText = .ok functions ∧
      Consecutive (0x1000 + shiftedBytes.length) 0x1000 shiftedInsns ∧
      ¬ KeepsSeeds shiftedText functions := by
  have hok : discoverFunctions shiftedDecoder shiftedText =
      .ok (splitFunctions shiftedText.symbols shiftedInsns (sortedStarts shiftedText shiftedInsns)
        (endOfText shiftedText)) := rfl
  refine ⟨_, hok, by simp [Consecutive, shiftedInsns, shiftedBytes], ?_⟩
  intro hkept
  have hseed : IsSeed shiftedText 0x1001 := ⟨by decide, .inr rfl⟩
  exact absurd (instruction_of_kept hkept hseed) (by decide)

theorem smallText_keepsSeeds_iff :
    KeepsSeeds smallText smallFunctions ↔
      ∀ a, IsSeed smallText a → Startable smallText smallInsns a :=
  keepsSeeds_iff smallFunctions_ok smallDecoder_ok
    (by simp [Consecutive, smallInsns, smallText, smallBytes]) (by decide)

end Dexe.Frontend
