import Dexe.Backend.Declarations
import Dexe.Cfg.Edges
import Dexe.Control.Layout
import Dexe.Pipeline
import Dexe.Straight.Refinement

/-! One pass over the instructions of a function writes the text that the graph, the SSA form and
the emitter are used for. -/

namespace Dexe

open Std Cfg Ir Backend Collections Text Clang

namespace Backend

variable (symbols : SymbolTable) (funcNames : TreeMap U64 Text)

lemma opcodeStmts_erase (op : Opcode) :
    opcodeStmts symbols funcNames op.erase = opcodeStmts symbols funcNames op := by
  cases op with
  | call target fallthrough =>
    cases target with
    | indirect op =>
      simp only [Opcode.erase, CallTarget.erase, opcodeStmts, callTree, operandTree_erase]
    | _ => rfl
  | _ => simp only [Opcode.erase, opcodeStmts, setTo, binaryStmt, cmpTree, compareTree, testTree,
      atomicTree, varTree_erase, operandTree_erase, memAddrTree_erase]

lemma emitInstruction_erase (ir : IRInstruction) :
    emitInstruction ir.erase symbols funcNames = emitInstruction ir symbols funcNames := by
  have hcomment : comment ir.opcode.erase = comment ir.opcode := by
    obtain ⟨addr, op⟩ := ir
    cases op <;> rfl
  rw [emitInstruction_eq, emitInstruction_eq, IRInstruction.erase, hcomment, opcodeStmts_erase]

lemma emitInstructionLine_erase (ir : IRInstruction) :
    emitInstructionLine symbols funcNames ir.erase = emitInstructionLine symbols funcNames ir := by
  rw [emitInstructionLine, emitInstructionLine, emitInstruction_erase]

end Backend

namespace Control

variable (symbols : SymbolTable) (funcNames : TreeMap U64 Text)

def translateInsn (insn : DisassembledInsn) : Option Text :=
  (liftErased insn Versions.initial).map fun irs =>
    irs.flatMap (emitInstructionLine symbols funcNames)

def startText (p : DisassembledInsn → Bool) (i : DisassembledInsn) : Text :=
  if p i then line (blockLabel i.address ++ ":") ++ line "    \x7b" else []

def endText (p : DisassembledInsn → Bool) (rest : List DisassembledInsn) : Text :=
  if rest.head?.all p then line "    \x7d" else []

def translateInsns (p : DisassembledInsn → Bool) : List DisassembledInsn → Option Text
  | [] => some []
  | i :: rest => do
    let text ← translateInsn symbols funcNames i
    let more ← translateInsns p rest
    return startText p i ++ text ++ endText p rest ++ more

def translate (func : DisassembledFunction) : Option Text := do
  let body ← translateInsns symbols funcNames (lead func.instructions) func.instructions
  return line ("uint64_t " ++ sanitiseCIdent func.name ++ "(void) \x7b") ++
    line "    uint64_t tmp = 0; (void)tmp;" ++ body ++ line "    return cpu.rax;" ++ line "\x7d"

variable {symbols funcNames} {p : DisassembledInsn → Bool}

lemma translateInsn_eq (i : DisassembledInsn) (versions : Versions) :
    translateInsn symbols funcNames i = (liftInsn i versions).map fun q =>
      q.1.flatMap (emitInstructionLine symbols funcNames) := by
  rw [translateInsn, liftErased_any i _ versions, liftErased, Option.map_map]
  congr 1
  funext q
  rw [Function.comp_apply, List.flatMap_map]
  exact List.flatMap_congr fun ir _ => emitInstructionLine_erase symbols funcNames ir

lemma translateInsn_of_lift {i : DisassembledInsn} {versions versions' : Versions}
    {irs : List IRInstruction} (h : liftInsn i versions = some (irs, versions')) :
    translateInsn symbols funcNames i =
      some (irs.flatMap (emitInstructionLine symbols funcNames)) := by
  rw [translateInsn_eq i versions, h]
  rfl

lemma translateInsns_isSome {l : List DisassembledInsn}
    (h : (translateInsns symbols funcNames p l).isSome) :
    ∀ i ∈ l, (translateInsn symbols funcNames i).isSome := by
  induction l with
  | nil => simp
  | cons i l ih =>
    rw [translateInsns] at h
    cases ht : translateInsn symbols funcNames i with
    | none => simp [ht] at h
    | some text =>
      cases hm : translateInsns symbols funcNames p l with
      | none => simp [hm] at h
      | some more =>
        intro j hj
        rcases List.mem_cons.mp hj with rfl | hj
        · simp [ht]
        · exact ih (by simp [hm]) j hj

lemma liftInsns_isSome {l : List DisassembledInsn} (versions : Versions)
    (h : ∀ i ∈ l, (translateInsn symbols funcNames i).isSome) :
    (liftInsns l versions).isSome := by
  induction l generalizing versions with
  | nil => rfl
  | cons i l ih =>
    have hi := h i List.mem_cons_self
    rw [translateInsn_eq i versions, Option.isSome_map] at hi
    obtain ⟨⟨irs, v⟩, hirs⟩ := Option.isSome_iff_exists.mp hi
    obtain ⟨⟨rest, v'⟩, hrest⟩ := Option.isSome_iff_exists.mp
      (ih v fun j hj => h j (List.mem_cons_of_mem _ hj))
    rw [liftInsns_cons hirs hrest]
    rfl

lemma translateInsns_block {i : DisassembledInsn} {tl rest : List DisassembledInsn}
    {versions versions' : Versions} {irs : List IRInstruction} {more : Text}
    (hlift : liftInsns (i :: tl) versions = some (irs, versions')) (htl : ∀ j ∈ tl, p j = false)
    (hend : rest.head?.all p = true)
    (hrest : translateInsns symbols funcNames p rest = some more) :
    translateInsns symbols funcNames p (i :: tl ++ rest) = some (startText p i ++
      irs.flatMap (emitInstructionLine symbols funcNames) ++ line "    \x7d" ++ more) := by
  induction tl generalizing i versions irs with
  | nil =>
    obtain ⟨⟨first, v⟩, hfirst, h⟩ := Option.bind_eq_some_iff.mp hlift
    obtain ⟨⟨none, v'⟩, hnone, h⟩ := Option.bind_eq_some_iff.mp h
    cases hnone
    cases h
    simp [translateInsns, translateInsn_of_lift hfirst, hrest, endText, hend]
  | cons j tl ih =>
    obtain ⟨⟨first, v⟩, hfirst, h⟩ := Option.bind_eq_some_iff.mp hlift
    obtain ⟨⟨later, v'⟩, hlater, h⟩ := Option.bind_eq_some_iff.mp h
    cases h
    have hpj : p j = false := htl j List.mem_cons_self
    have htail := ih hlater fun k hk => htl k (List.mem_cons_of_mem _ hk)
    rw [List.cons_append, translateInsns, translateInsn_of_lift hfirst, htail]
    simp [startText, endText, hpj]

lemma translateInsns_blocks {bbs : List BasicBlock} {bs : List IRBlock}
    (hlift : List.Forall₂ IsLiftOfBlock bbs bs)
    (hlead : ∀ bb ∈ bbs, ∃ i tl, bb.instructions = i :: tl ∧ bb.startAddr = i.address ∧
      p i = true ∧ ∀ j ∈ tl, p j = false) :
    translateInsns symbols funcNames p (bbs.flatMap BasicBlock.instructions) =
      some (bs.map (emitBlock symbols funcNames)).flatten := by
  induction hlift with
  | nil => rfl
  | @cons bb b bbs bs hb hbs ih =>
    obtain ⟨i, tl, hins, hstart, hpi, htl⟩ := hlead bb List.mem_cons_self
    obtain ⟨⟨irs, v⟩, hirs, hblock⟩ := Option.bind_eq_some_iff.mp hb
    cases hblock
    have hrest := ih fun bb hbb => hlead bb (List.mem_cons_of_mem _ hbb)
    have hend : (bbs.flatMap BasicBlock.instructions).head?.all p = true := by
      cases bbs with
      | nil => rfl
      | cons bb' bbs =>
        obtain ⟨i', tl', hins', -, hpi', -⟩ := hlead bb' (by simp)
        simp [hins', hpi']
    rw [hins] at hirs
    rw [List.flatMap_cons, hins, translateInsns_block hirs htl hend hrest]
    simp [startText, hpi, emitBlock, hstart, List.flatMap_def]

section Function

variable {func : DisassembledFunction}

lemma liftFunction_isSome (hne : func.instructions ≠ []) (hinc : Increasing func.instructions)
    (h : ∀ i ∈ func.instructions, (translateInsn symbols funcNames i).isSome) :
    (liftFunction (buildCfg func)).isSome := by
  have hblocks : ∀ id b, (buildCfg func).blocks[id]? = some b → (liftBlock id b).isSome := by
    intro id b hb
    obtain ⟨g, hg, rfl⟩ := (exists_block_iff hne hinc (P := (b.instructions = ·))).mp ⟨b, hb, rfl⟩
    have hmem : ∀ i ∈ b.instructions, i ∈ func.instructions := by
      intro i hi
      rw [← flatten_blockRuns]
      exact List.mem_flatten.mpr ⟨_, mem_blockRuns hg, hi⟩
    obtain ⟨⟨irs, v⟩, hirs⟩ := Option.isSome_iff_exists.mp
      (liftInsns_isSome Versions.initial fun i hi => h i (hmem i hi))
    have hlift : liftBlock id b = some ⟨id, b.startAddr, irs⟩ :=
      (congrArg (Option.bind · _) hirs).trans rfl
    rw [hlift, Option.isSome_some]
  obtain ⟨ir, hir, -⟩ := Straight.liftFunction_of_blocks hblocks
  rw [hir, Option.isSome_some]

variable (symbols funcNames) in
theorem emitFunction_one_pass (hinc : Increasing func.instructions) :
    (liftFunction (buildCfg func)).map (emitFunction symbols funcNames) =
      translate symbols funcNames func := by
  by_cases hne : func.instructions = []
  · have hcfg : buildCfg func = ⟨func.name, func.startAddr, ∅, 0, [], ∅⟩ := by
      unfold buildCfg
      rw [hne]
    rw [hcfg, translate, hne]
    rfl
  · cases hlift : liftFunction (buildCfg func) with
    | none =>
      cases hbody : translateInsns symbols funcNames (lead func.instructions) func.instructions with
      | none =>
        rw [translate, hbody]
        rfl
      | some body =>
        have hall := translateInsns_isSome (Option.isSome_of_eq_some hbody)
        have hsome := liftFunction_isSome hne hinc hall
        rw [hlift] at hsome
        cases hsome
    | some ir =>
      have hins : (graphBlocks func).flatMap BasicBlock.instructions = func.instructions := by
        rw [List.flatMap_def, graphBlocks_instructions hne hinc]
        exact flatten_runs _ _
      have hbody : translateInsns symbols funcNames (lead func.instructions)
          ((graphBlocks func).flatMap BasicBlock.instructions) = _ :=
        translateInsns_blocks (blockList_lift hne hinc hlift) fun bb hbb =>
          lead_of_mem_graphBlocks hne hinc hbb
      rw [hins] at hbody
      have hname : ir.name = func.name := (Pipeline.lift_name hlift).1
      rw [translate, hbody, Option.map_some, emitFunction, sortedBlocks_lift hne hinc hlift, hname]
      rfl

end Function

def nameMap (functions : List DisassembledFunction) : TreeMap U64 Text :=
  TreeMap.ofList (functions.map fun f => (f.startAddr, sanitiseCIdent f.name))

lemma funcNameMap_eq {functions : List DisassembledFunction} {irs : List IRFunction}
    (h : liftAll functions = some irs) : funcNameMap irs = nameMap functions := by
  rw [funcNameMap, nameMap]
  congr 1
  rw [← List.forall₂_eq_eq_eq, List.forall₂_map_left_iff, List.forall₂_map_right_iff]
  refine (forall₂_of_mapM h).flip.imp fun ir f hlift => ?_
  obtain ⟨hname, haddr⟩ := Pipeline.lift_name hlift
  rw [hname, haddr]

lemma mapM_map_of_eq {α β γ : Type} {f : α → Option β} {g : β → γ} {k : α → Option γ} {l : List α}
    (h : ∀ a ∈ l, (f a).map g = k a) : (l.mapM f).map (List.map g) = l.mapM k := by
  induction l with
  | nil => rfl
  | cons a l ih =>
    have ha := h a List.mem_cons_self
    have hl := ih fun b hb => h b (List.mem_cons_of_mem _ hb)
    rw [List.mapM_cons, List.mapM_cons, ← ha, ← hl]
    cases f a with
    | none => rfl
    | some b => cases l.mapM f <;> rfl

/-- The passes of the decompiler write the bodies that one pass over the instructions of each
function writes, and panic where one of these does. -/
theorem bodies_one_pass {functions : List DisassembledFunction}
    (hinc : ∀ f ∈ functions, Increasing f.instructions) (symbols : SymbolTable) :
    (liftAll functions).map (fun irs => bodies irs symbols) =
      (functions.mapM (translate symbols (nameMap functions))).map fun texts =>
        (texts.map (· ++ line "")).flatten := by
  have hmap := mapM_map_of_eq fun f hf =>
    emitFunction_one_pass symbols (nameMap functions) (hinc f hf)
  rw [← hmap]
  cases h : liftAll functions with
  | none =>
    rw [liftAll] at h
    rw [h]
    rfl
  | some irs =>
    have hnames := funcNameMap_eq h
    rw [liftAll] at h
    rw [h, Option.map_some, Option.map_some, Option.map_some, bodies, hnames, List.map_map]
    rfl

theorem countdown_one_pass :
    (liftAll [countdown]).map (fun irs => bodies irs ∅) =
      ([countdown].mapM (translate ∅ (nameMap [countdown]))).map fun texts =>
        (texts.map (· ++ line "")).flatten := by
  apply bodies_one_pass
  intro f hf
  rw [List.mem_singleton.mp hf]
  decide

end Control

end Dexe
