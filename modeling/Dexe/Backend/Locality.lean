import Dexe.Backend.Names

/-! What the text of a function depends on: the names of the functions that it calls directly. -/

namespace Dexe.Backend

open Std Collections

variable {symbols symbols' : SymbolTable} {funcNames funcNames' : TreeMap U64 Text}

def SameName (symbols symbols' : SymbolTable) (funcNames funcNames' : TreeMap U64 Text)
    (op : Opcode) : Prop :=
  ∀ addr fallthrough, op = .call (.direct addr) fallthrough →
    resolveCallName addr symbols funcNames = resolveCallName addr symbols' funcNames'

lemma emitInstruction_congr {ir : IRInstruction}
    (h : SameName symbols symbols' funcNames funcNames' ir.opcode) :
    emitInstruction ir symbols funcNames = emitInstruction ir symbols' funcNames' := by
  obtain ⟨addr, op⟩ := ir
  cases op with
  | call target fallthrough =>
    cases target with
    | direct a =>
      have hname := h a fallthrough rfl
      unfold emitInstruction
      simp only [hname]
    | indirect op => rfl
    | external name => rfl
  | _ => rfl

lemma emitInstructionLine_congr {ir : IRInstruction}
    (h : SameName symbols symbols' funcNames funcNames' ir.opcode) :
    emitInstructionLine symbols funcNames ir = emitInstructionLine symbols' funcNames' ir := by
  rw [emitInstructionLine, emitInstructionLine, emitInstruction_congr h]

lemma emitBlock_congr {b : IRBlock}
    (h : ∀ ir ∈ b.instructions, SameName symbols symbols' funcNames funcNames' ir.opcode) :
    emitBlock symbols funcNames b = emitBlock symbols' funcNames' b := by
  rw [emitBlock, emitBlock, List.map_congr_left fun ir hir => emitInstructionLine_congr (h ir hir)]

lemma emitFunction_congr {f : IRFunction} (h : ∀ b ∈ f.blockList, ∀ ir ∈ b.instructions,
      SameName symbols symbols' funcNames funcNames' ir.opcode) :
    emitFunction symbols funcNames f = emitFunction symbols' funcNames' f := by
  rw [emitFunction, emitFunction, List.map_congr_left fun b hb => emitBlock_congr (h b ?_)]
  exact (List.perm_insertionSort _ _).mem_iff.mp hb

section Entries

variable {functions : List IRFunction}
  (h : ∀ a : U64, ¬ Emitted functions a → symbols[a]? = symbols'[a]?)

include h

lemma resolveCallName_congr (addr : U64) :
    resolveCallName addr symbols (funcNameMap functions) =
      resolveCallName addr symbols' (funcNameMap functions) := by
  rw [resolveCallName, resolveCallName]
  cases hname : (funcNameMap functions)[addr]? with
  | none => rw [h addr (funcNameMap_none.mp hname)]
  | some name => rfl

lemma externDeclarations_congr :
    externDeclarations functions symbols = externDeclarations functions symbols' := by
  have htargets : ∀ d, (externTargets (emittedAddrs functions) functions).toList.foldl
      (declareTarget symbols) d = (externTargets (emittedAddrs functions) functions).toList.foldl
        (declareTarget symbols') d := by
    intro d
    apply List.foldl_ext
    intro d a ha
    have hout := (mem_externTargets.mp (TreeSet.mem_toList.mp ha)).2
    rw [declareTarget, declareTarget, h a hout]
  simp only [externDeclarations, ← emittedAddrs.eq_1, htargets]

lemma emitC_congr : emitC functions symbols = emitC functions symbols' := by
  have hbodies : ∀ f ∈ functions, emitFunction symbols (funcNameMap functions) f ++ line "" =
      emitFunction symbols' (funcNameMap functions) f ++ line "" := by
    intro f _
    rw [emitFunction_congr fun b _ ir _ addr _ _ => resolveCallName_congr h addr]
  rw [emitC, emitC, externDeclarations_congr h, List.map_congr_left hbodies]

end Entries

lemma funcNameMap_append {functions more : List IRFunction} {a : U64}
    (hnd : ((functions ++ more).map IRFunction.addr).Nodup) (h : ∀ g ∈ more, g.addr ≠ a) :
    (funcNameMap (functions ++ more))[a]? = (funcNameMap functions)[a]? := by
  by_cases ha : Emitted functions a
  · obtain ⟨f, hf, rfl⟩ := ha
    have hsub : (functions.map IRFunction.addr).Nodup := by
      rw [List.map_append] at hnd
      exact hnd.of_append_left
    rw [funcNameMap_of_mem hnd (List.mem_append_left _ hf), funcNameMap_of_mem hsub hf]
  · have hmore : ¬ Emitted (functions ++ more) a := by
      rintro ⟨f, hf, hfa⟩
      rcases List.mem_append.mp hf with hf | hf
      · exact ha ⟨f, hf, hfa⟩
      · exact h f hf hfa
    rw [funcNameMap_none.mpr ha, funcNameMap_none.mpr hmore]

/-- A function keeps its text when more functions are emitted with it, unless it calls one of
them. -/
theorem emitFunction_of_more {functions more : List IRFunction} (symbols : SymbolTable)
    (hnd : ((functions ++ more).map IRFunction.addr).Nodup) {f : IRFunction}
    (hcalls : ∀ g ∈ more, ¬ Calls [f] (.direct g.addr)) :
    emitFunction symbols (funcNameMap (functions ++ more)) f =
      emitFunction symbols (funcNameMap functions) f := by
  apply emitFunction_congr
  intro b hb ir hir addr fallthrough hop
  have hmem : ir.opcode ∈ opcodes [f] := by
    simp only [opcodes, List.flatMap_cons, List.flatMap_nil, List.append_nil]
    exact List.mem_flatMap.mpr ⟨b, hb, List.mem_map_of_mem hir⟩
  have hne : ∀ g ∈ more, g.addr ≠ addr := by
    rintro g hg rfl
    exact hcalls g hg ⟨fallthrough, hop ▸ hmem⟩
  rw [resolveCallName, resolveCallName, funcNameMap_append hnd hne]

def relay (addr callee : U64) : IRFunction where
  name := "relay"
  addr := addr
  blocks := (∅ : TreeMap BlockId IRBlock).insert 0 ⟨0, addr,
    [⟨addr, .call (.direct callee) (addr + 5)⟩, ⟨addr + 5, .ret⟩]⟩
  entryBlock := 0
  blockAddrs := (∅ : TreeMap BlockId U64).insert 0 addr

lemma calls_relay {addr callee a : U64} (h : Calls [relay addr callee] (.direct a)) :
    a = callee := by
  obtain ⟨fallthrough, h⟩ := h
  have hop : Opcode.call (.direct a) fallthrough ∈
      [Opcode.call (.direct callee) (addr + 5), .ret] := h
  rcases List.mem_pair.mp hop with hcall | hret
  · cases hcall
    rfl
  · cases hret

theorem relay_text_of_more :
    emitFunction ∅ (funcNameMap [relay 0x1000 0x2000, leaf "late" 0x3000])
        (relay 0x1000 0x2000) =
      emitFunction ∅ (funcNameMap [relay 0x1000 0x2000]) (relay 0x1000 0x2000) := by
  apply @emitFunction_of_more [relay 0x1000 0x2000] [leaf "late" 0x3000] ∅ (by decide)
  intro g hg h
  rw [List.mem_singleton.mp hg] at h
  exact absurd (calls_relay h) (by decide)

section Order

variable {functions functions' : List IRFunction} (h : functions.Perm functions')

include h

lemma calls_perm (target : CallTarget) : Calls functions target ↔ Calls functions' target := by
  have hops : (opcodes functions).Perm (opcodes functions') := h.flatMap_right _
  rw [Calls, Calls]
  simp only [hops.mem_iff]

lemma emitted_perm (a : U64) : Emitted functions a ↔ Emitted functions' a := by
  rw [Emitted, Emitted]
  simp only [h.mem_iff]

lemma externDeclarations_perm (symbols : SymbolTable) :
    externDeclarations functions symbols = externDeclarations functions' symbols := by
  have htargets : (externTargets (emittedAddrs functions) functions).toList =
      (externTargets (emittedAddrs functions') functions').toList := by
    apply toList_congr
    intro a
    rw [mem_externTargets, mem_externTargets, calls_perm h, emitted_perm h]
  have hnames : (externNames functions).toList = (externNames functions').toList := by
    apply toList_congr
    intro name
    rw [mem_externNames, mem_externNames, calls_perm h]
  have hempty : ∀ fs, externDeclarations fs symbols =
      (((externTargets (emittedAddrs fs) fs).toList.foldl (declareTarget symbols)
        ((externNames fs).toList.foldl declareUnknown
          ((externNames fs).toList.foldl declareLibc ([], ∅)))).1 ++
        if (externTargets (emittedAddrs fs) fs).toList.isEmpty ∧ (externNames fs).toList.isEmpty
          then [] else line "") := by
    intro fs
    simp only [TreeSet.isEmpty_toList]
    rfl
  rw [hempty, hempty, htargets, hnames]

lemma funcNameMap_perm (hnd : (functions.map IRFunction.addr).Nodup) (a : U64) :
    (funcNameMap functions)[a]? = (funcNameMap functions')[a]? := by
  have hnd' : (functions'.map IRFunction.addr).Nodup := (h.map _).nodup_iff.mp hnd
  by_cases ha : Emitted functions a
  · obtain ⟨f, hf, rfl⟩ := ha
    rw [funcNameMap_of_mem hnd hf, funcNameMap_of_mem hnd' (h.mem_iff.mp hf)]
  · rw [funcNameMap_none.mpr ha, funcNameMap_none.mpr fun ha' => ha ((emitted_perm h a).mpr ha')]

end Order

/-- The order in which functions are emitted is the order of their declarations and bodies, and
changes no other text. -/
theorem emitC_perm {functions : List IRFunction} (symbols : SymbolTable)
    (hnd : (functions.map IRFunction.addr).Nodup) :
    ∃ (externs : Text) (body : IRFunction → Text), ∀ fs, functions.Perm fs →
      emitC fs symbols =
        fileHeader ++ externs ++ forwardDeclarations fs ++ (fs.map body).flatten := by
  refine ⟨externDeclarations functions symbols,
    fun f => emitFunction symbols (funcNameMap functions) f ++ line "", fun fs h => ?_⟩
  have hbody : ∀ f, emitFunction symbols (funcNameMap fs) f =
      emitFunction symbols (funcNameMap functions) f := by
    intro f
    apply emitFunction_congr
    intro b _ ir _ addr _ _
    rw [resolveCallName, resolveCallName, funcNameMap_perm h hnd]
  simp only [emitC, externDeclarations_perm h, hbody]

theorem relay_any_order : ∃ (externs : Text) (body : IRFunction → Text), ∀ fs,
    [relay 0x1000 0x2000, leaf "late" 0x3000].Perm fs →
      emitC fs ∅ = fileHeader ++ externs ++ forwardDeclarations fs ++ (fs.map body).flatten :=
  emitC_perm ∅ (by decide)

end Dexe.Backend
