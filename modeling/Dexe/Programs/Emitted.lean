import Dexe.Pipeline
import Dexe.Programs.Refinement

/-! The emitted file: each function that C reads in it does what the machine code does that the
function was lifted from. -/

namespace Dexe.Programs

open Std Ir X86 Clang Backend Straight Cfg Trace

structure Shown (func : DisassembledFunction) (code : Program) : Prop where
  nonempty : func.instructions ≠ []
  increasing : Increasing func.instructions
  shows : List.Forall₂ ShowsAt func.instructions code
  name : IsIdent (sanitiseCIdent func.name)

/-- From matching states, and as long as the emitted C can follow, the function returns what the
code returns, returns only then, and is never stuck. It does not pop the return address, though. -/
structure Refines (code : Program) (F : FunctionDef) (σ : Clang.State) (s : X86.State) : Prop where
  returns : ∀ r, Finishes (X86.next code) (.start code s) r →
    ∃ σ', Finishes F.next (F.start σ) (r.state.regs .rax, σ') ∧ Unpopped r σ'
  only : ∀ v σ', Finishes F.next (F.start σ) (v, σ') →
    ∃ r, Finishes (X86.next code) (.start code s) r ∧ v = r.state.regs .rax ∧ Unpopped r σ'
  safe : Always F.next (fun t => F.next t ≠ .stuck) (F.start σ)

lemma Setting.refines {symbols : SymbolTable} {funcNames : TreeMap U64 Text}
    (S : Setting symbols funcNames) (hlocal : S.F.localName = "tmp") {σ : Clang.State}
    {s : X86.State} (hm : Matches σ s)
    (hf : Always (X86.next S.code) (Followed S.code) (.start S.code s)) :
    Refines S.code S.F σ s := by
  have hsim := S.simulates
  have hstart := S.related_start hm hlocal
  refine ⟨?_, ?_, hsim.never_stuck hstart hf⟩
  · intro r hr
    obtain ⟨⟨v, σ'⟩, hfin, hv, hstate⟩ := hsim.finishes hstart hf hr
    cases hv
    exact ⟨σ', hfin, hstate⟩
  · intro v σ' hfin
    obtain ⟨r, hr, hv, hstate⟩ := hsim.finishes_of_finishes hstart hf hfin
    exact ⟨r, hr, hv, hstate⟩

variable (symbols : SymbolTable) (funcNames : TreeMap U64 Text) {func : DisassembledFunction}
  {code : Program}

lemma reads_of_compiles {i : Instr} {ops : List Opcode} (h : Compiles i ops) :
    ∀ op ∈ ops, Backend.Reads symbols funcNames op := by
  intro op hop
  cases h with
  | plain h =>
    rw [List.mem_singleton.mp hop]
    exact reads_of_embeds symbols funcNames h
  | leave hdst hop' hdst' =>
    simp only [List.mem_cons, List.not_mem_nil, or_false] at hop
    rcases hop with rfl | rfl <;> exact ⟨trivial, by simp [CommentEnds, comment]⟩
  | _ =>
    rw [List.mem_singleton.mp hop]
    exact ⟨trivial, by simp [CommentEnds, comment]⟩

lemma liftInsns_shows {ds : List DisassembledInsn} (h : ∀ d ∈ ds, ∃ i, Shows d i)
    (versions : Versions) :
    ∃ irs versions', liftInsns ds versions = some (irs, versions') ∧
      ∀ ir ∈ irs, Backend.Reads symbols funcNames ir.opcode := by
  induction ds generalizing versions with
  | nil => exact ⟨[], versions, rfl, by simp⟩
  | cons d ds ih =>
    obtain ⟨i, hi⟩ := h d List.mem_cons_self
    obtain ⟨ops, v, hops, hcompiles⟩ := liftInsn_shows versions hi
    obtain ⟨irs, v', hirs, hreads⟩ := ih (fun d hd => h d (List.mem_cons_of_mem _ hd)) v
    refine ⟨codeOf d.address ops ++ irs, v', liftInsns_cons hops hirs, fun ir hir => ?_⟩
    rcases List.mem_append.mp hir with hir | hir
    · obtain ⟨op, hop, rfl⟩ := List.mem_map.mp hir
      exact reads_of_compiles symbols funcNames hcompiles op hop
    · exact hreads ir hir

namespace Shown

lemma mem_graphBlocks {id : BlockId} {bb : BasicBlock}
    (hbb : (buildCfg func).blocks[id]? = some bb) : bb ∈ graphBlocks func :=
  List.mem_map.mpr ⟨(id, bb), TreeMap.mem_toList_iff_getElem?_eq_some.mpr hbb, rfl⟩

variable (h : Shown func code)

include h

lemma exists_shows {bb : BasicBlock} (hbb : bb ∈ graphBlocks func) :
    ∀ d ∈ bb.instructions, ∃ i, Shows d i := by
  intro d hd
  have hmem := (Pipeline.mem_graphBlocks h.nonempty h.increasing).mpr ⟨bb, hbb, hd⟩
  obtain ⟨k, hk, rfl⟩ := List.getElem_of_mem hmem
  have hlen := h.shows.length_eq
  exact ⟨_, (h.shows.get hk (by omega)).shows⟩

lemma lifts : ∃ ir, liftFunction (buildCfg func) = some ir := by
  have hblocks : ∀ id b, (buildCfg func).blocks[id]? = some b → (liftBlock id b).isSome := by
    intro id b hb
    obtain ⟨irs, v, hirs, -⟩ := liftInsns_shows ∅ ∅ (h.exists_shows (mem_graphBlocks hb))
      Versions.initial
    have hlift : liftBlock id b = some ⟨id, b.startAddr, irs⟩ :=
      (congrArg (Option.bind · _) hirs).trans rfl
    rw [hlift]
    rfl
  obtain ⟨ir, hir, -⟩ := liftFunction_of_blocks hblocks
  exact ⟨ir, hir⟩

lemma readable {ir : IRFunction} (hir : liftFunction (buildCfg func) = some ir) :
    Readable symbols funcNames ir := by
  refine ⟨(Pipeline.lift_name hir).1 ▸ h.name, ?_⟩
  intro b hb x hx
  have hlift := blockList_lift h.nonempty h.increasing hir
  obtain ⟨k, hk, rfl⟩ := List.getElem_of_mem hb
  have hk' : k < (graphBlocks func).length := by
    rw [hlift.length_eq]
    exact hk
  have hblock := hlift.get hk' hk
  obtain ⟨irs, v, hirs, hreads⟩ := liftInsns_shows symbols funcNames
    (h.exists_shows (List.getElem_mem hk')) Versions.initial
  obtain ⟨⟨irs', v'⟩, hirs', hb'⟩ := Option.bind_eq_some_iff.mp hblock
  rw [List.get_eq_getElem, hirs] at hirs'
  cases hirs'
  have hinsns : irs = (ir.blockList[k]).instructions :=
    congrArg IRBlock.instructions (Option.some.inj hb')
  rw [← hinsns] at hx
  exact hreads x hx

lemma setting {ir : IRFunction} (hir : liftFunction (buildCfg func) = some ir) :
    ∃ S : Setting symbols funcNames, S.code = code ∧ S.F = functionDef symbols funcNames ir := by
  obtain ⟨items, hbody, hlaid⟩ := laid_functionDef symbols funcNames h.nonempty h.increasing hir
  exact ⟨⟨func.instructions, code, _, items, h.increasing, h.shows, hbody, hlaid⟩, rfl, rfl⟩

lemma refines {ir : IRFunction} (hir : liftFunction (buildCfg func) = some ir) {σ : Clang.State}
    {s : X86.State} (hm : Matches σ s)
    (hf : Always (X86.next code) (Followed code) (.start code s)) :
    Refines code (functionDef symbols funcNames ir) σ s := by
  obtain ⟨S, rfl, hF⟩ := h.setting symbols funcNames hir
  rw [← hF]
  exact S.refines (by rw [hF]; rfl) hm hf

end Shown

structure Emits (f : DisassembledFunction) (F : FunctionDef) : Prop where
  name : F.name = sanitiseCIdent f.name
  refines : ∀ code, Shown f code → ∀ σ s, Matches σ s →
    Always (X86.next code) (Followed code) (.start code s) → Refines code F σ s

variable {funcs : List DisassembledFunction} {irs : List IRFunction} {symbols}

lemma emitC_refines (hlift : liftAll funcs = some irs)
    (hread : ∀ ir ∈ irs, Readable symbols (funcNameMap irs) ir) :
    ∃ Fs, parseDefinitions (bodies irs symbols) = some Fs ∧ List.Forall₂ Emits funcs Fs := by
  refine ⟨_, parseDefinitions_bodies hread, ?_⟩
  rw [List.forall₂_map_right_iff]
  refine (forall₂_of_mapM hlift).imp fun f ir hir => ⟨?_, ?_⟩
  · show sanitiseCIdent ir.name = sanitiseCIdent f.name
    rw [(Pipeline.lift_name hir).1]
  · intro code hcode σ s hm hf
    exact hcode.refines symbols (funcNameMap irs) hir hm hf

def sumDown : DisassembledFunction where
  name := "sum_down"
  startAddr := 0x1000
  endAddr := 0x1010
  instructions :=
    [⟨0x1000, 3, "xor", "rax, rax", [0x48, 0x31, 0xc0]⟩,
      ⟨0x1003, 3, "add", "rax, rdi", [0x48, 0x01, 0xf8]⟩,
      ⟨0x1006, 3, "dec", "rdi", [0x48, 0xff, 0xcf]⟩,
      ⟨0x1009, 4, "cmp", "rdi, 0", [0x48, 0x83, 0xff, 0x00]⟩,
      ⟨0x100d, 2, "jne", "0x1003", [0x75, 0xf4]⟩, ⟨0x100f, 1, "ret", "", [0xc3]⟩]

lemma zero_bound : 0 < if false then 2 ^ 63 else 2 ^ 64 := by decide

def sumDownCode : Program :=
  [(0x1000, .plain (.alu .xor .rax (.reg .rax))), (0x1003, .plain (.alu .add .rax (.reg .rdi))),
    (0x1006, .plain (.unary .dec .rdi)),
    (0x1009, .plain (.compare .cmp .rdi (.imm ⟨false, 0, zero_bound⟩))),
    (0x100d, .branch .ne 0x1003), (0x100f, .ret 0)]

lemma shown_sumDown : Shown sumDown sumDownCode where
  nonempty := by decide
  increasing := by decide
  shows := by
    refine .cons ⟨rfl, .plain ⟨by decide, _, .head _, by decide⟩⟩ <|
      .cons ⟨rfl, .plain ⟨by decide, _, .head _, by decide⟩⟩ <|
      .cons ⟨rfl, .plain ⟨by decide, _, .head _, by decide⟩⟩ <|
      .cons ⟨rfl, .plain ⟨by decide, _, .head _, by decide⟩⟩ <|
      .cons ⟨rfl, .branch List.mem_cons_self ?_ ?_ ?_⟩ <|
      .cons ⟨rfl, .ret ?_ (.inl ⟨rfl, rfl⟩)⟩ .nil
    all_goals decide
  name := by decide

end Dexe.Programs
