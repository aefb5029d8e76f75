import Dexe.Frontend.Sections

/-! Loading a binary (`load_binary`). The file system and the object crate are parameters. -/

namespace Dexe.Frontend

open Std

inductive SymbolKind
  | text | other
  deriving DecidableEq, Repr

structure ObjectSymbol where
  address : U64
  kind : SymbolKind
  name : Except Text Text

inductive ObjectFormat
  | elf | pe | other
  deriving DecidableEq, Repr

structure ObjectImage extends ObjectFile where
  format : ObjectFormat
  entry : U64
  symbols : List ObjectSymbol

structure Loader where
  read : Except Text (List UInt8)
  parse : List UInt8 → Except Text ObjectImage

def binaryFormat : ObjectFormat → BinaryFormat
  | .elf => .elf
  | .pe => .pe
  | .other => .unknown

def symbolStep (symbols : SymbolTable) (sym : ObjectSymbol) : SymbolTable :=
  if sym.kind = .text then
    match sym.name with
    | .ok name => if name = [] then symbols else symbols.insert sym.address name
    | .error _ => symbols
  else symbols

def collectSymbols (syms : List ObjectSymbol) : SymbolTable := syms.foldl symbolStep ∅

def binaryInfo (obj : ObjectImage) (text : U64 × List UInt8) : BinaryInfo :=
  ⟨binaryFormat obj.format, obj.entry, text.1, text.2, collectSymbols obj.symbols⟩

/-- A result `none` is an overflow of the source. -/
def loadImage (obj : ObjectImage) : Option (Except Text BinaryInfo) :=
  (findTextSection obj.toObjectFile obj.entry).map fun r => r.map (binaryInfo obj)

def loadBinary (loader : Loader) : Option (Except Text BinaryInfo) :=
  match loader.read with
  | .error e => some (.error e)
  | .ok raw =>
    match loader.parse raw with
    | .error e => some (.error e)
    | .ok obj => loadImage obj

def ObjectSymbol.entered (sym : ObjectSymbol) : Option Text :=
  if sym.kind = .text then sym.name.toOption.bind fun name => if name = [] then none else some name
  else none

def lastEntered (syms : List ObjectSymbol) (a : U64) : Option Text :=
  syms.reverse.findSome? fun sym => if sym.address = a then sym.entered else none

lemma symbolStep_eq (symbols : SymbolTable) (sym : ObjectSymbol) :
    symbolStep symbols sym =
      sym.entered.elim symbols fun name => symbols.insert sym.address name := by
  rw [symbolStep, ObjectSymbol.entered]
  split
  · cases sym.name with
    | error e => rfl
    | ok name => by_cases hname : name = [] <;> simp [hname, Except.toOption]
  · rfl

lemma lastEntered_snoc (syms : List ObjectSymbol) (sym : ObjectSymbol) (a : U64) :
    lastEntered (syms ++ [sym]) a =
      ((if sym.address = a then sym.entered else none).or (lastEntered syms a)) := by
  rw [lastEntered, List.reverse_concat, List.findSome?_cons]
  cases if sym.address = a then sym.entered else none <;> rfl

lemma lastEntered_eq_none {syms : List ObjectSymbol} {a : U64} (h : ∀ sym ∈ syms, sym.address ≠ a) :
    lastEntered syms a = none := by
  rw [lastEntered, List.findSome?_eq_none_iff]
  intro sym hsym
  exact if_neg (h sym (List.mem_reverse.mp hsym))

lemma lastEntered_append (syms more : List ObjectSymbol) (a : U64) :
    lastEntered (syms ++ more) a = (lastEntered more a).or (lastEntered syms a) := by
  rw [lastEntered, List.reverse_append, List.findSome?_append]
  rfl

lemma lastEntered_eq_some {syms : List ObjectSymbol} {a : U64} {name : Text}
    (hmem : ∃ sym ∈ syms, sym.address = a)
    (h : ∀ sym ∈ syms, sym.address = a → sym.entered = some name) :
    lastEntered syms a = some name := by
  obtain ⟨sym, hsym, ha⟩ := hmem
  cases hlast : lastEntered syms a with
  | none =>
    have hnone := List.findSome?_eq_none_iff.mp hlast sym (List.mem_reverse.mpr hsym)
    rw [if_pos ha, h sym hsym ha] at hnone
    cases hnone
  | some found =>
    obtain ⟨sym', hsym', hfound⟩ := List.exists_of_findSome?_eq_some hlast
    have ha' : sym'.address = a := by
      by_contra hne
      rw [if_neg hne] at hfound
      cases hfound
    rw [if_pos ha', h sym' (List.mem_reverse.mp hsym') ha'] at hfound
    exact hfound.symm

lemma getElem?_collectSymbols (syms : List ObjectSymbol) (a : U64) :
    (collectSymbols syms)[a]? = lastEntered syms a := by
  induction syms using List.reverseRecOn with
  | nil => rfl
  | append_singleton syms sym ih =>
    have hfold : collectSymbols (syms ++ [sym]) = symbolStep (collectSymbols syms) sym := by
      simp [collectSymbols]
    rw [hfold, symbolStep_eq, lastEntered_snoc, ← ih]
    cases sym.entered with
    | none => simp
    | some name =>
      rw [Option.elim_some, TreeMap.getElem?_insert]
      by_cases ha : sym.address = a
      · simp [ha]
      · have hcmp : ¬ compare sym.address a = .eq := fun h => ha (LawfulEqCmp.eq_of_compare h)
        simp [ha, hcmp]

end Dexe.Frontend
