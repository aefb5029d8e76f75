import Dexe.Debug.Pipeline
import Dexe.Frontend.Starts
import Dexe.Main

/-! The whole program in a debug build, beside a release build. -/

namespace Dexe

open Std Cfg Ir Frontend Backend Collections Bits

namespace Frontend

def DecodesInside (cs : Capstone) (info : BinaryInfo) : Prop :=
  ∀ insns, cs.disasmAll info.textData info.textSectionAddr = .ok insns → Fits info →
    ∀ i ∈ insns, i.address.toNat + i.size.toNat ≤ info.textSectionAddr.toNat + info.textData.length

lemma decoderOf_inside {data : List UInt8} {addr : U64} {insns : List DisassembledInsn}
    {info : BinaryInfo} (h : ∀ i ∈ insns,
      i.address.toNat + i.size.toNat ≤ info.textSectionAddr.toNat + info.textData.length) :
    DecodesInside (decoderOf data addr insns) info :=
  fun _ hd _ => decoderOf_eq_ok hd ▸ h

end Frontend

namespace Debug

def discoverFunctions (cs : Capstone) (info : BinaryInfo) :
    Option (Except Text (List DisassembledFunction)) :=
  match cs.build with
  | .error e => some (.error ("capstone init: " ++ e))
  | .ok () =>
    match cs.disasmAll info.textData info.textSectionAddr with
    | .error e => some (.error ("capstone disasm: " ++ e))
    | .ok insns =>
      (checkedAdd info.textSectionAddr (BitVec.ofNat 64 info.textData.length)).map fun textEnd =>
        .ok (splitFunctions info.symbols insns (funcStarts info insns).toList textEnd)

def liftAll (functions : List DisassembledFunction) : Option (List IRFunction) := do
  let cfgs ← functions.mapM buildCfg
  cfgs.mapM liftFunction

def decompileFound (symbols : SymbolTable) :
    Except Text (List DisassembledFunction) → Option (Except Text Text)
  | .error e => some (.error e)
  | .ok functions => (liftAll functions).map fun irs => .ok (emitC irs symbols)

def decompileInfo (cs : Capstone) (info : BinaryInfo) : Option (Except Text Text) :=
  (discoverFunctions cs info).bind (decompileFound info.symbols)

structure FunctionOk (f : DisassembledFunction) : Prop where
  insns : ∀ i ∈ f.instructions, InsnOk i
  versions : ∀ g ∈ blockRuns f, ∀ base, (g.flatMap numbered).count base < 2 ^ 32

structure ProgramOk (info : BinaryInfo) (functions : List DisassembledFunction) : Prop where
  stop : Fits info
  functions : ∀ f ∈ functions, FunctionOk f

variable {cs : Capstone} {info : BinaryInfo} {functions : List DisassembledFunction}

lemma blocksOk_iff {f : DisassembledFunction} :
    (∀ g ∈ blockRuns f, BlockOk g) ↔ FunctionOk f := by
  have hflat : ∀ i, i ∈ f.instructions ↔ ∃ g ∈ blockRuns f, i ∈ g := by
    intro i
    rw [← List.mem_flatten, blockRuns, flatten_runs]
  constructor
  · intro h
    refine ⟨fun i hi => ?_, fun g hg => (h g hg).versions⟩
    obtain ⟨g, hg, hig⟩ := (hflat i).mp hi
    exact (h g hg).sound i hig
  · intro h g hg
    exact ⟨fun i hi => h.insns i ((hflat i).mpr ⟨g, hg, hi⟩), h.versions g hg⟩

lemma mem_of_mem_blocks {f : DisassembledFunction} (hinc : Increasing f.instructions) :
    ∀ p ∈ (Dexe.buildCfg f).blocks.toList, ∀ i ∈ p.2.instructions, i ∈ f.instructions := by
  apply (mem_blockRuns_iff (P := fun g => ∀ i ∈ g, i ∈ f.instructions) hinc).mpr
  intro g hg i hi
  rw [← flatten_runs (lead f.instructions) f.instructions]
  exact List.mem_flatten.mpr ⟨g, hg, hi⟩

lemma guarded_function {f : DisassembledFunction} (hinc : Increasing f.instructions)
    (hfit : ∀ i ∈ f.instructions, i.address.toNat + i.size.toNat < 2 ^ 64) :
    Guarded (FunctionOk f) (liftFunction (Dexe.buildCfg f))
      (Dexe.liftFunction (Dexe.buildCfg f)) := by
  have hlift := guarded_liftFunction fun p hp i hi => hfit i (mem_of_mem_blocks hinc p hp i hi)
  exact hlift.congr ((mem_blockRuns_iff hinc).trans blocksOk_iff)

lemma guarded_liftAll (hfunctions : ∀ f ∈ functions, Increasing f.instructions ∧
      ∀ i ∈ f.instructions, i.address.toNat + i.size.toNat < 2 ^ 64) :
    Guarded (∀ f ∈ functions, FunctionOk f) (liftAll functions) (Dexe.liftAll functions) := by
  have hcfgs : functions.mapM buildCfg = some (functions.map Dexe.buildCfg) := by
    induction functions with
    | nil => rfl
    | cons f functions ih =>
      obtain ⟨hinc, hfit⟩ := hfunctions f List.mem_cons_self
      rw [List.mapM_cons, buildCfg_eq hinc hfit, ih fun f hf =>
        hfunctions f (List.mem_cons_of_mem _ hf)]
      rfl
  have hlift := guarded_mapM fun f hf => guarded_function (hfunctions f hf).1 (hfunctions f hf).2
  rw [liftAll, hcfgs]
  refine hlift.of_eq ?_
  show (functions.map Dexe.buildCfg).mapM liftFunction = _
  rw [List.mapM_map]
  rfl

lemma found_functions (hcs : DecodesInOrder cs info) (hin : DecodesInside cs info)
    (hfits : Fits info)
    (h : Frontend.discoverFunctions cs info = .ok functions) :
    ∀ f ∈ functions, Increasing f.instructions ∧
      ∀ i ∈ f.instructions, i.address.toNat + i.size.toNat < 2 ^ 64 := by
  obtain ⟨insns, hd, hslices⟩ := discoverFunctions_slices h
  intro f hf
  refine ⟨(discoverFunctions_increasing hcs h hf).2, fun i hi => ?_⟩
  rw [(hslices f hf).instructions] at hi
  exact (hin _ hd hfits i (List.mem_of_mem_filter hi)).trans_lt hfits

lemma discoverFunctions_decoded {insns : List DisassembledInsn} (hbuild : cs.build = .ok ())
    (hd : cs.disasmAll info.textData info.textSectionAddr = .ok insns)
    (hlen : info.textData.length < 2 ^ 64) :
    ∃ functions, Frontend.discoverFunctions cs info = .ok functions ∧
      Guarded (Fits info) (discoverFunctions cs info) (some (.ok functions)) := by
  refine ⟨splitFunctions info.symbols insns (funcStarts info insns).toList
    (info.textSectionAddr + BitVec.ofNat 64 info.textData.length), ?_, ?_⟩
  · rw [Frontend.discoverFunctions, hbuild, hd]
    rfl
  · have hadd : Guarded (Fits info)
        (checkedAdd info.textSectionAddr (BitVec.ofNat 64 info.textData.length))
        (some (info.textSectionAddr + BitVec.ofNat 64 info.textData.length)) :=
      (guarded_checkedAdd _ _).congr (by rw [toNat_length hlen, Fits])
    simp only [discoverFunctions, hbuild, hd]
    exact hadd.map _

structure Agrees (cs : Capstone) (info : BinaryInfo) : Prop where
  isSome_iff : (decompileInfo cs info).isSome ↔ ∀ functions,
    Frontend.discoverFunctions cs info = .ok functions → ProgramOk info functions
  release : ∀ r, decompileInfo cs info = some r → Main.decompileInfo cs info = some r

lemma agrees_of_error {e : Text} (hfound : Frontend.discoverFunctions cs info = .error e)
    (hdebug : discoverFunctions cs info = some (.error e)) : Agrees cs info := by
  have hinfo : decompileInfo cs info = some (.error e) := by
    rw [decompileInfo, hdebug]
    rfl
  refine ⟨?_, fun r hr => ?_⟩
  · rw [hinfo, hfound]
    exact iff_of_true rfl fun functions h => by cases h
  · rw [← hr, hinfo, Main.decompileInfo, hfound]

/-- A debug build goes through exactly where the end of the text is an address and every function
can be read and numbered, and then it writes what a release build writes. -/
theorem decompileInfo_agrees (hcs : DecodesInOrder cs info) (hin : DecodesInside cs info)
    (hlen : info.textData.length < 2 ^ 64) :
    Agrees cs info := by
  cases hbuild : cs.build with
  | error e =>
    have hfound : Frontend.discoverFunctions cs info = .error ("capstone init: " ++ e) := by
      rw [Frontend.discoverFunctions, hbuild]
      rfl
    have hdebug : discoverFunctions cs info = some (.error ("capstone init: " ++ e)) := by
      simp only [discoverFunctions, hbuild]
    exact agrees_of_error hfound hdebug
  | ok u =>
    cases hd : cs.disasmAll info.textData info.textSectionAddr with
    | error e =>
      have hfound : Frontend.discoverFunctions cs info = .error ("capstone disasm: " ++ e) := by
        rw [Frontend.discoverFunctions, hbuild, hd]
        rfl
      have hdebug : discoverFunctions cs info = some (.error ("capstone disasm: " ++ e)) := by
        simp only [discoverFunctions, hbuild, hd]
      exact agrees_of_error hfound hdebug
    | ok insns =>
      obtain ⟨functions, hfound, hdiscover⟩ := discoverFunctions_decoded hbuild hd hlen
      have hguarded : Guarded (ProgramOk info functions) (decompileInfo cs info)
          (Main.decompileInfo cs info) := by
        have hmain : Main.decompileInfo cs info =
            (Dexe.liftAll functions).map fun irs => .ok (emitC irs info.symbols) := by
          rw [Main.decompileInfo, hfound]
        have hfunctions : Fits info → Guarded (∀ f ∈ functions, FunctionOk f)
              (decompileFound info.symbols (.ok functions)) (Main.decompileInfo cs info) := by
          -- no end of an instruction overflows, since that of the text does not
          intro hfits
          rw [hmain]
          exact (guarded_liftAll (found_functions hcs hin hfits hfound)).map _
        have hboth := hdiscover.bind (f := decompileFound info.symbols)
          (g := fun _ => Main.decompileInfo cs info) fun hfits a ha => by
            cases ha
            exact hfunctions hfits
        exact hboth.congr ⟨fun h => ⟨h.1, h.2⟩, fun h => ⟨h.stop, h.functions⟩⟩
      refine ⟨?_, fun r => hguarded.agrees⟩
      rw [hguarded.isSome_iff, hfound]
      exact ⟨fun h fs hfs => Except.ok.inj hfs ▸ h, fun h => h _ rfl⟩

theorem smallText_agrees : Agrees smallDecoder smallText :=
  decompileInfo_agrees (decoderOf_inOrder _ (by decide)) (decoderOf_inside (by decide)) (by decide)

end Debug

end Dexe
