import Dexe.Backend.Names
import Dexe.Frontend.Seeds
import Dexe.Ir.Blocks
import Dexe.Ir.Printed

/-! The stages of `main.rs` one after the other: where direct calls lead. -/

namespace Dexe

open Std Cfg Ir Frontend Backend

/-- The stages 2 and 3 for every function; `none` is a panic of the lifter. -/
def liftAll (functions : List DisassembledFunction) : Option (List IRFunction) :=
  functions.mapM fun f => liftFunction (buildCfg f)

namespace Pipeline

variable {info : BinaryInfo} {cs : Capstone} {insns : List DisassembledInsn}
  {functions : List DisassembledFunction} {irs : List IRFunction} {f : DisassembledFunction}
  {ir : IRFunction} {c i : DisassembledInsn}

lemma lift_name (h : liftFunction (buildCfg f) = some ir) :
    ir.name = f.name ∧ ir.addr = f.startAddr := by
  obtain ⟨blocks, -, hir⟩ := Option.bind_eq_some_iff.mp h
  cases hir
  rw [buildCfg]
  split <;> exact ⟨rfl, rfl⟩

lemma lifted_of_mem (hirs : liftAll functions = some irs) (hf : f ∈ functions) :
    ∃ ir ∈ irs, liftFunction (buildCfg f) = some ir := by
  obtain ⟨k, hk, rfl⟩ := List.getElem_of_mem hf
  have hall := forall₂_of_mapM hirs
  have hk' : k < irs.length := hall.length_eq ▸ hk
  exact ⟨irs[k], List.getElem_mem hk', hall.get hk hk'⟩

lemma map_addr (hirs : liftAll functions = some irs) :
    irs.map IRFunction.addr = functions.map DisassembledFunction.startAddr := by
  rw [← List.forall₂_eq_eq_eq, List.forall₂_map_left_iff, List.forall₂_map_right_iff]
  exact (forall₂_of_mapM hirs).flip.imp fun ir f h => (lift_name h).2

lemma liftInsn_call (hm : c.mnemonic = "call") {a : U64} (hop : hexOperand c.opStr = some a.toNat)
    (versions : Versions) :
    liftInsn c versions =
      some ([⟨c.address, .call (.direct a) (nextAddress c)⟩], versions) := by
  have hlocked : lockedMnemonic c.mnemonic = (false, ("call" : Text)) := by
    rw [hm]
    decide
  have harm : armOf false "call" = .call := by decide
  have hplain := plain_of_hexOperand hop
  have htrim := (Text.Trimmed.of_forall fun c hc => (hplain c hc).1).trim_eq
  have hmem : ¬ isMemoryOperand c.opStr := fun h => (hplain '[' h).2.2.1 rfl
  have hregister : parseRegister c.opStr = none := by
    obtain ⟨ds, hds, -⟩ := hexOperand_eq_some hop
    have htrimmed := Text.Trimmed.of_forall fun c hc => (hplain c hc).1
    rw [hds] at htrimmed ⊢
    exact parseRegister_eq_none htrimmed (by decide) (by decide)
  have hcall : liftCall c.opStr versions (nextAddress c) =
      some (.call (.direct a) (nextAddress c)) := by
    simp only [liftCall, htrim, if_neg hmem, hregister, parseImmediate_hexOperand hop a.isLt,
      BitVec.ofNat_toNat, BitVec.setWidth_eq]
  have harmed : liftArm .call "call" [c.opStr] c versions =
      some (.call (.direct a) (nextAddress c), versions) := by
    rw [liftArm, hcall]
    rfl
  rw [liftInsn, hlocked]
  simp only [parseOperands_hexOperand hop, harm, liftBefore]
  rw [harmed]
  rfl

def LiftsTo (i : DisassembledInsn) (x : IRInstruction) : Prop :=
  ∃ versions versions' irs, liftInsn i versions = some (irs, versions') ∧ x ∈ irs

lemma liftsTo_call (hm : c.mnemonic = "call") {a : U64} (hop : hexOperand c.opStr = some a.toNat)
    {x : IRInstruction} :
    LiftsTo c x ↔ x = ⟨c.address, .call (.direct a) (nextAddress c)⟩ := by
  constructor
  · rintro ⟨versions, versions', irs, hlift, hx⟩
    rw [liftInsn_call hm hop] at hlift
    cases hlift
    exact List.mem_singleton.mp hx
  · rintro rfl
    exact ⟨Versions.initial, _, _, liftInsn_call hm hop _, List.mem_singleton_self _⟩

lemma mem_liftInsns {l : List DisassembledInsn} {versions versions' : Versions}
    {xs : List IRInstruction} (h : liftInsns l versions = some (xs, versions')) :
    (∀ i ∈ l, ∃ x ∈ xs, LiftsTo i x) ∧ ∀ x ∈ xs, ∃ i ∈ l, LiftsTo i x := by
  induction l generalizing versions xs with
  | nil =>
    cases h
    simp
  | cons i l ih =>
    obtain ⟨⟨first, w⟩, hfirst, h⟩ := Option.bind_eq_some_iff.mp h
    obtain ⟨⟨rest, w'⟩, hrest, h⟩ := Option.bind_eq_some_iff.mp h
    cases h
    obtain ⟨hinsns, hxs⟩ := ih hrest
    obtain ⟨x, hx⟩ := List.exists_mem_of_ne_nil _ (liftInsn_isLiftOf hfirst).ne_nil
    refine ⟨?_, ?_⟩
    · intro j hj
      rcases List.mem_cons.mp hj with rfl | hj
      · exact ⟨x, List.mem_append_left _ hx, versions, w, first, hfirst, hx⟩
      · obtain ⟨y, hy, hlifts⟩ := hinsns j hj
        exact ⟨y, List.mem_append_right _ hy, hlifts⟩
    · intro y hy
      rcases List.mem_append.mp hy with hy | hy
      · exact ⟨i, List.mem_cons_self, versions, w, first, hfirst, hy⟩
      · obtain ⟨j, hj, hlifts⟩ := hxs y hy
        exact ⟨j, List.mem_cons_of_mem _ hj, hlifts⟩

lemma mem_graphBlocks (hne : f.instructions ≠ []) (hinc : Increasing f.instructions) :
    c ∈ f.instructions ↔ ∃ bb ∈ graphBlocks f, c ∈ bb.instructions := by
  have hflat : ((graphBlocks f).map BasicBlock.instructions).flatten = f.instructions := by
    rw [graphBlocks_instructions hne hinc]
    exact Collections.flatten_runs _ _
  rw [← hflat, List.mem_flatten]
  constructor
  · rintro ⟨l, hl, hc⟩
    obtain ⟨bb, hbb, rfl⟩ := List.mem_map.mp hl
    exact ⟨bb, hbb, hc⟩
  · rintro ⟨bb, hbb, hc⟩
    exact ⟨bb.instructions, List.mem_map_of_mem hbb, hc⟩

lemma IsLiftOfBlock.liftInsns {bb : BasicBlock} {b : IRBlock} (h : IsLiftOfBlock bb b) :
    ∃ versions, liftInsns bb.instructions Versions.initial = some (b.instructions, versions) := by
  obtain ⟨⟨xs, versions⟩, hxs, h⟩ := Option.bind_eq_some_iff.mp h
  cases h
  exact ⟨versions, hxs⟩

structure LiftedAs (ir : IRFunction) (c : DisassembledInsn) (op : Opcode) : Prop where
  present : ∃ b ∈ ir.blockList, ⟨c.address, op⟩ ∈ b.instructions
  only : ∀ b ∈ ir.blockList, ∀ x ∈ b.instructions, x.addr = c.address → x.opcode = op

lemma liftedAs_call (hne : f.instructions ≠ []) (hinc : Increasing f.instructions)
    (hlift : liftFunction (buildCfg f) = some ir) (hc : c ∈ f.instructions)
    (hm : c.mnemonic = "call") {a : U64} (hop : hexOperand c.opStr = some a.toNat) :
    LiftedAs ir c (.call (.direct a) (nextAddress c)) := by
  have hblocks := blockList_lift hne hinc hlift
  refine ⟨?_, ?_⟩
  · obtain ⟨bb, hbb, hcbb⟩ := (mem_graphBlocks hne hinc).mp hc
    obtain ⟨k, hk, rfl⟩ := List.getElem_of_mem hbb
    have hk' : k < ir.blockList.length := hblocks.length_eq ▸ hk
    obtain ⟨versions, hxs⟩ := IsLiftOfBlock.liftInsns (hblocks.get hk hk')
    obtain ⟨x, hx, hlifts⟩ := (mem_liftInsns hxs).1 c hcbb
    rw [(liftsTo_call hm hop).mp hlifts] at hx
    exact ⟨ir.blockList[k], List.getElem_mem hk', hx⟩
  · intro b hb x hx haddr
    obtain ⟨k, hk', rfl⟩ := List.getElem_of_mem hb
    have hk : k < (graphBlocks f).length := hblocks.length_eq ▸ hk'
    obtain ⟨versions, hxs⟩ := IsLiftOfBlock.liftInsns (hblocks.get hk hk')
    obtain ⟨j, hj, hlifts⟩ := (mem_liftInsns hxs).2 x hx
    have hjf : j ∈ f.instructions :=
      (mem_graphBlocks hne hinc).mpr ⟨_, List.getElem_mem hk, hj⟩
    obtain ⟨w, w', xs, hxlift, hxmem⟩ := hlifts
    have hja : x.addr = j.address := (liftInsn_isLiftOf hxlift).addr x hxmem
    obtain rfl : j = c := hinc.eq_of_address hjf hc (hja.symm.trans haddr)
    rw [(liftsTo_call hm hop).mp ⟨w, w', xs, hxlift, hxmem⟩]

def callText (fallthrough : U64) (ident : Text) : Text :=
  "cpu.rsp -= 8; *(uint64_t*)(uintptr_t)(cpu.rsp) = 0x" ++ Text.hex fallthrough.toNat ++ "; " ++
    ("cpu.rax = " ++ ident ++ "();")

/-- The function at the instruction `i` is emitted, and the calls `c` that go to the address of
`i` are calls of it. -/
structure CallsBody (info : BinaryInfo) (functions : List DisassembledFunction)
    (irs : List IRFunction) (c i : DisassembledInsn) (f : DisassembledFunction) (ir : IRFunction) :
    Prop where
  lifted : liftFunction (buildCfg f) = some ir
  name : ir.name = f.name
  calls : ∀ g ∈ functions, c ∈ g.instructions → ∀ gir, liftFunction (buildCfg g) = some gir →
    LiftedAs gir c (.call (.direct i.address) (nextAddress c))
  rendered : emitInstruction ⟨c.address, .call (.direct i.address) (nextAddress c)⟩ info.symbols
    (funcNameMap irs) = callText (nextAddress c) (sanitiseCIdent ir.name)
  notExtern : i.address ∉ externTargets (emittedAddrs irs) irs

def callerBytes : List UInt8 := [0xe8, 1, 0, 0, 0, 0xc3, 0xc3]

def callerInfo : BinaryInfo := ⟨.elf, 0x1000, 0x1000, callerBytes, ∅⟩

def callerCall : DisassembledInsn := ⟨0x1000, 5, "call", "0x1006", [0xe8, 1, 0, 0, 0]⟩

def calleeRet : DisassembledInsn := ⟨0x1006, 1, "ret", "", [0xc3]⟩

def callerInsns : List DisassembledInsn :=
  [callerCall, ⟨0x1005, 1, "ret", "", [0xc3]⟩, calleeRet]

def callerDecoder : Capstone := decoderOf callerBytes 0x1000 callerInsns

def callerFunctions : List DisassembledFunction :=
  [⟨"func_0x1000", 0x1000, 0x1006, [callerCall, ⟨0x1005, 1, "ret", "", [0xc3]⟩]⟩,
    ⟨"func_0x1006", 0x1006, 0x1007, [calleeRet]⟩]

lemma callerDecoder_ok :
    callerDecoder.disasmAll callerInfo.textData callerInfo.textSectionAddr = .ok callerInsns := by
  rfl

lemma callerFunctions_ok : discoverFunctions callerDecoder callerInfo = .ok callerFunctions := by
  rfl

lemma callerFunctions_lift : (liftAll callerFunctions).isSome = true := by decide

end Pipeline

end Dexe
