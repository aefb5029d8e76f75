import Dexe.Main
import Dexe.Programs.Checker

/-! From a file to a C file that does what the code in it does. -/

namespace Dexe.Programs

open Std Ir X86 Clang Backend Straight Cfg Trace Frontend Main

variable {cs : Capstone} {obj : ObjectImage} {info : BinaryInfo}
  {functions : List DisassembledFunction} {irs : List IRFunction}

lemma decompileImage_eq (hload : loadImage obj = some (.ok info))
    (hfound : discoverFunctions cs info = .ok functions) (hlift : liftAll functions = some irs) :
    decompileImage cs obj = some (.ok (emitC irs info.symbols)) := by
  rw [decompileImage, hload, Option.bind_some, decompileLoaded, decompileInfo, hfound]
  simp only [hlift]
  rfl

/-- The C file of a file has one definition for each function that was found, and each of them
refines the machine code of its function. -/
theorem decompileImage_refines (hload : loadImage obj = some (.ok info))
    (hfound : discoverFunctions cs info = .ok functions) (hlift : liftAll functions = some irs)
    (hread : ∀ ir ∈ irs, Readable info.symbols (funcNameMap irs) ir) :
    ∃ declarations bodies Fs,
      decompileImage cs obj = some (.ok (fileHeader ++ declarations ++ bodies)) ∧
      parseDefinitions bodies = some Fs ∧ List.Forall₂ Emits functions Fs := by
  obtain ⟨Fs, hparse, hemits⟩ := emitC_refines hlift hread
  refine ⟨Backend.declarationText irs info.symbols, _, Fs, ?_, hparse, hemits⟩
  rw [decompileImage_eq hload hfound hlift, emitC_eq]

def sumDownBytes : List UInt8 :=
  [0x48, 0x31, 0xc0, 0x48, 0x01, 0xf8, 0x48, 0xff, 0xcf, 0x48, 0x83, 0xff, 0x00, 0x75, 0xf4, 0xc3]

def starter : DisassembledFunction where
  name := "start"
  startAddr := 0x1010
  endAddr := 0x1016
  instructions :=
    [⟨0x1010, 5, "call", "0x1000", [0xe8, 0xeb, 0xff, 0xff, 0xff]⟩, ⟨0x1015, 1, "ret", "", [0xc3]⟩]

def sumDownImage : ObjectImage where
  sectionByName name := if name = ".text" then
    some ⟨0x1000, 22, .ok (sumDownBytes ++ [0xe8, 0xeb, 0xff, 0xff, 0xff, 0xc3])⟩ else none
  sections := []
  format := .elf
  entry := 0x1010
  symbols := [⟨0x1000, .text, .ok "sum_down"⟩, ⟨0x1010, .text, .ok "start"⟩]

def sumDownDecoder : Capstone :=
  decoderOf (sumDownBytes ++ [0xe8, 0xeb, 0xff, 0xff, 0xff, 0xc3]) 0x1000
    (sumDown.instructions ++ starter.instructions)

lemma sumDown_found : ∃ info, loadImage sumDownImage = some (.ok info) ∧
    discoverFunctions sumDownDecoder info = .ok [sumDown, starter] := ⟨_, rfl, rfl⟩

lemma starter_lifted : ∃ ir, liftFunction (buildCfg starter) = some ir ∧ ir.name = "start" ∧
    ir.addr = 0x1010 ∧ ir.blockList.flatMap IRBlock.instructions =
      [⟨0x1010, .call (.direct 0x1000) 0x1015⟩, ⟨0x1015, .ret⟩] := ⟨_, rfl, rfl, rfl, rfl⟩

lemma starter_readable {symbols : SymbolTable} {ir ir' : IRFunction}
    (hir : liftFunction (buildCfg sumDown) = some ir)
    (hir' : liftFunction (buildCfg starter) = some ir') :
    ∀ f ∈ [ir, ir'], Readable symbols (funcNameMap [ir, ir']) f := by
  obtain ⟨x, hx, hname, haddr, hins⟩ := starter_lifted
  obtain rfl : x = ir' := Option.some.inj (hx.symm.trans hir')
  obtain ⟨hsum, hsumAddr⟩ := Pipeline.lift_name hir
  have hnd : ([ir, x].map IRFunction.addr).Nodup := by
    show [ir.addr, x.addr].Nodup
    rw [hsumAddr, haddr]
    decide
  have hcallee : resolveCallName 0x1000 symbols (funcNameMap [ir, x]) =
      sanitiseCIdent "sum_down" := by
    have hmap := funcNameMap_of_mem hnd List.mem_cons_self
    rw [hsumAddr, hsum] at hmap
    rw [resolveCallName, show (0x1000 : U64) = sumDown.startAddr from rfl, hmap]
    rfl
  intro f hf
  rcases List.mem_pair.mp hf with rfl | rfl
  · exact shown_sumDown.readable symbols _ hir
  · apply readable_of_blocks (by rw [hname]; decide) rfl
    rw [hins]
    intro i hi
    rcases List.mem_pair.mp hi with rfl | rfl
    · refine ⟨?_, by simp [CommentEnds, comment]⟩
      show IsIdent (resolveCallName 0x1000 symbols _)
      rw [hcallee]
      decide
    · exact ⟨trivial, by simp [CommentEnds, comment]⟩

theorem sumDownImage_refines : ∃ declarations bodies F G,
    decompileImage sumDownDecoder sumDownImage =
      some (.ok (fileHeader ++ declarations ++ bodies)) ∧
    parseDefinitions bodies = some [F, G] ∧ F.name = sanitiseCIdent "sum_down" ∧
    ∀ σ s, Matches σ s → Refines sumDownCode F σ s := by
  obtain ⟨info, hload, hfound⟩ := sumDown_found
  obtain ⟨ir, hir⟩ := shown_sumDown.lifts
  obtain ⟨ir', hir', -⟩ := starter_lifted
  have hlift : liftAll [sumDown, starter] = some [ir, ir'] := by
    rw [liftAll, List.mapM_cons, hir, List.mapM_cons, hir']
    rfl
  obtain ⟨declarations, bodies, Fs, himage, hparse, hall⟩ :=
    decompileImage_refines hload hfound hlift (starter_readable hir hir')
  obtain ⟨F, Fs, hF, hrest, rfl⟩ := List.forall₂_cons_left_iff.mp hall
  obtain ⟨G, Fs, hG, hnil, rfl⟩ := List.forall₂_cons_left_iff.mp hrest
  rw [List.forall₂_nil_left_iff] at hnil
  subst hnil
  refine ⟨declarations, bodies, F, G, himage, hparse, hF.name, fun σ s hm => ?_⟩
  exact hF.refines sumDownCode shown_sumDown σ s hm (always_followed sumDown_passes s)

end Dexe.Programs
