import Dexe.Backend.Locality
import Dexe.Frontend.Stable
import Dexe.Pipeline

/-! The whole program (`main.rs`): from a file to the text of the C file. -/

namespace Dexe.Main

open Std Collections Frontend Backend

def decompileInfo (cs : Capstone) (info : BinaryInfo) : Option (Except Text Text) :=
  match discoverFunctions cs info with
  | .error e => some (.error e)
  | .ok functions => (liftAll functions).map fun irs => .ok (emitC irs info.symbols)

def decompileLoaded (cs : Capstone) : Except Text BinaryInfo → Option (Except Text Text)
  | .error e => some (.error e)
  | .ok info => decompileInfo cs info

def decompile (loader : Loader) (cs : Capstone) : Option (Except Text Text) :=
  (loadBinary loader).bind (decompileLoaded cs)

def decompileImage (cs : Capstone) (obj : ObjectImage) : Option (Except Text Text) :=
  (loadImage obj).bind (decompileLoaded cs)

section Entries

variable {symbols symbols' : SymbolTable} (h : ∀ a : U64, symbols[a]? = symbols'[a]?)

include h

lemma keys_congr : symbols.keys = symbols'.keys := by
  have hasymm : ∀ p q : U64 × Text, compare p.1 q.1 = .lt → ¬ compare q.1 p.1 = .lt := by
    intro p q hpq hqp
    exact absurd (OrientedCmp.gt_of_lt hpq) (by simp [hqp])
  have hlist : symbols.toList = symbols'.toList := by
    apply eq_of_pairwise_of_mem_iff hasymm TreeMap.ordered_keys_toList TreeMap.ordered_keys_toList
    intro p
    rw [TreeMap.mem_toList_iff_getElem?_eq_some, TreeMap.mem_toList_iff_getElem?_eq_some, h]
  exact (TreeMap.equiv_iff_toList_eq.mpr hlist).keys_eq

lemma funcStarts_congr (info : BinaryInfo) (insns : List DisassembledInsn) :
    funcStarts { info with symbols := symbols } insns =
      funcStarts { info with symbols := symbols' } insns := by
  have hkeys := keys_congr h
  simp only [funcStarts, symbolStarts, hkeys]

lemma splitFunctions_congr (insns : List DisassembledInsn) (starts : List U64) (textEnd : U64) :
    splitFunctions symbols insns starts textEnd = splitFunctions symbols' insns starts textEnd := by
  have hname : ∀ start, funcName symbols start = funcName symbols' start := by
    intro start
    rw [funcName, funcName, h start]
  simp only [splitFunctions, functionAt, hname]

lemma discoverFunctions_congr (cs : Capstone) (info : BinaryInfo) :
    discoverFunctions cs { info with symbols := symbols } =
      discoverFunctions cs { info with symbols := symbols' } := by
  simp only [discoverFunctions, funcStarts_congr h, splitFunctions_congr h]

lemma decompileInfo_congr (cs : Capstone) (info : BinaryInfo) :
    decompileInfo cs { info with symbols := symbols } =
      decompileInfo cs { info with symbols := symbols' } := by
  simp only [decompileInfo, discoverFunctions_congr h, emitC_congr fun a _ => h a]

end Entries

/-- Of the symbols of a file, only the last name at each address has an effect. -/
theorem decompileImage_symbols (cs : Capstone) (obj : ObjectImage) {syms syms' : List ObjectSymbol}
    (h : ∀ a, lastEntered syms a = lastEntered syms' a) :
    decompileImage cs { obj with symbols := syms } =
      decompileImage cs { obj with symbols := syms' } := by
  have hlookup : ∀ a : U64, (collectSymbols syms)[a]? = (collectSymbols syms')[a]? := by
    intro a
    rw [getElem?_collectSymbols, getElem?_collectSymbols, h]
  simp only [decompileImage, loadImage]
  cases findTextSection obj.toObjectFile obj.entry with
  | none => rfl
  | some r =>
    cases r with
    | error e => rfl
    | ok text =>
      exact decompileInfo_congr hlookup cs
        ⟨binaryFormat obj.format, obj.entry, text.1, text.2, ∅⟩

def replacedSymbols : List ObjectSymbol :=
  [⟨0x1000, .text, .ok "old"⟩, ⟨0x1000, .text, .ok "new"⟩, ⟨0x1000, .other, .ok "data"⟩,
    ⟨0x1000, .text, .ok ""⟩]

def smallImage : ObjectImage where
  sectionByName name := if name = ".text" then some ⟨0x1000, 9, .ok smallBytes⟩ else none
  sections := []
  format := .elf
  entry := 0x1000
  symbols := [⟨0x1008, .text, .ok "helper"⟩]

theorem replacedSymbols_ignored :
    decompileImage smallDecoder { smallImage with symbols := replacedSymbols } =
      decompileImage smallDecoder { smallImage with symbols := [⟨0x1000, .text, .ok "new"⟩] } := by
  apply decompileImage_symbols
  intro a
  by_cases ha : a = 0x1000
  · subst ha
    decide
  · have hold : ∀ sym ∈ replacedSymbols, sym.address ≠ a := by
      intro sym hsym
      have haddr : ∀ sym ∈ replacedSymbols, sym.address = 0x1000 := by decide
      rw [haddr sym hsym]
      exact Ne.symm ha
    rw [lastEntered_eq_none hold, lastEntered_eq_none]
    intro sym hsym
    rw [List.mem_singleton.mp hsym]
    exact Ne.symm ha

def functionSymbol (f : DisassembledFunction) : ObjectSymbol := ⟨f.startAddr, .text, .ok f.name⟩

variable {cs : Capstone} {obj : ObjectImage} {info : BinaryInfo}
  {functions : List DisassembledFunction}

lemma renames_functionSymbols (symbols : List ObjectSymbol)
    (hnd : (functions.map DisassembledFunction.startAddr).Nodup)
    (hnames : ∀ f ∈ functions, f.name ≠ []) :
    Renames (collectSymbols symbols) (collectSymbols (symbols ++ functions.map functionSymbol))
      functions := by
  have hlookup : ∀ a : U64, (collectSymbols (symbols ++ functions.map functionSymbol))[a]? =
      (lastEntered (functions.map functionSymbol) a).or (collectSymbols symbols)[a]? := by
    intro a
    rw [getElem?_collectSymbols, lastEntered_append, getElem?_collectSymbols]
  have hentered : ∀ f ∈ functions, (functionSymbol f).entered = some f.name := by
    intro f hf
    simp [functionSymbol, ObjectSymbol.entered, Except.toOption, hnames f hf]
  constructor
  · intro f hf
    have hlast : lastEntered (functions.map functionSymbol) f.startAddr = some f.name := by
      apply lastEntered_eq_some ⟨functionSymbol f, List.mem_map_of_mem hf, rfl⟩
      intro sym hsym ha
      obtain ⟨g, hg, rfl⟩ := List.mem_map.mp hsym
      obtain rfl := List.inj_on_of_nodup_map hnd hg hf ha
      exact hentered g hg
    rw [hlookup, hlast]
    rfl
  · intro a ha
    rw [hlookup, lastEntered_eq_none]
    · rfl
    · intro sym hsym
      obtain ⟨f, hf, rfl⟩ := List.mem_map.mp hsym
      exact ha f hf

lemma collectSymbols_ne_nil {syms : List ObjectSymbol} {a : U64} {name : Text}
    (h : (collectSymbols syms)[a]? = some name) : name ≠ [] := by
  rw [getElem?_collectSymbols] at h
  obtain ⟨sym, -, hsym⟩ := List.exists_of_findSome?_eq_some h
  rintro rfl
  split at hsym
  · rw [ObjectSymbol.entered] at hsym
    split at hsym
    · obtain ⟨name, -, hname⟩ := Option.bind_eq_some_iff.mp hsym
      split at hname
      · cases hname
      · cases hname
        contradiction
    · cases hsym
  · cases hsym

lemma funcName_ne_nil (syms : List ObjectSymbol) (a : U64) :
    funcName (collectSymbols syms) a ≠ [] := by
  rw [funcName]
  cases h : (collectSymbols syms)[a]? with
  | none => exact List.append_ne_nil_of_left_ne_nil (by decide) _
  | some name => exact collectSymbols_ne_nil h

lemma decompileInfo_renamed {symbols' : SymbolTable}
    (hfound : discoverFunctions cs info = .ok functions)
    (hr : Renames info.symbols symbols' functions) :
    decompileInfo cs { info with symbols := symbols' } = decompileInfo cs info := by
  rw [decompileInfo, decompileInfo, hfound, discoverFunctions_renamed hfound hr]
  apply Option.map_congr
  intro irs hirs
  have haddr := Pipeline.map_addr hirs
  have houtside : ∀ a : U64, ¬ Emitted irs a → symbols'[a]? = info.symbols[a]? := by
    intro a ha
    apply hr.other
    rintro f hf rfl
    obtain ⟨ir, hir, heq⟩ := List.mem_map.mp (haddr ▸ List.mem_map_of_mem hf)
    exact ha ⟨ir, hir, heq⟩
  rw [emitC_congr houtside]

/-- With symbols for the functions that were found the same file is decompiled to the same C. -/
theorem decompileImage_stable (hload : loadImage obj = some (.ok info))
    (hfound : discoverFunctions cs info = .ok functions) :
    decompileImage cs { obj with symbols := obj.symbols ++ functions.map functionSymbol } =
      decompileImage cs obj := by
  obtain ⟨r, htext, hr⟩ := Option.map_eq_some_iff.mp hload
  cases r with
  | error e => cases hr
  | ok text =>
    cases hr
    have hnames : ∀ f ∈ functions, f.name ≠ [] := by
      obtain ⟨insns, hd, -⟩ := discoverFunctions_slices hfound
      intro f hf
      rw [discoverFunctions_eq hfound hd] at hf
      rw [name_splitFunctions hf]
      exact funcName_ne_nil obj.symbols f.startAddr
    have hrenames := renames_functionSymbols obj.symbols (nodup_startAddr hfound) hnames
    simp only [decompileImage, loadImage, htext]
    exact decompileInfo_renamed hfound hrenames

theorem smallImage_stable : loadImage smallImage = some (.ok smallText) ∧
    discoverFunctions smallDecoder smallText = .ok smallFunctions ∧
    decompileImage smallDecoder
        { smallImage with symbols := smallImage.symbols ++ smallFunctions.map functionSymbol } =
      decompileImage smallDecoder smallImage := by
  have hload : loadImage smallImage = some (.ok smallText) := rfl
  exact ⟨hload, smallFunctions_ok, decompileImage_stable hload smallFunctions_ok⟩

end Dexe.Main
