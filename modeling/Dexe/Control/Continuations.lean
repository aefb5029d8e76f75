import Dexe.Backend.Evaluation
import Dexe.Backend.Reading
import Dexe.Control.BlockEnds
import Dexe.Ir.Numbering

/-! The addresses at which a function goes on after a call or a conditional jump. -/

namespace Dexe

def Opcode.continuation : Opcode → Option U64
  | .jcc _ _ fallthrough => some fallthrough
  | .call _ fallthrough => some fallthrough
  | _ => none

namespace Cfg

open Collections

def Contiguous (insns : List DisassembledInsn) : Prop :=
  ∀ i j, Follows insns i j →
    0 < i.size.toNat ∧ j.address.toNat = i.address.toNat + i.size.toNat

variable {insns : List DisassembledInsn} {i j : DisassembledInsn}

lemma Contiguous.tail (h : Contiguous (i :: insns)) : Contiguous insns :=
  fun j k hjk => h j k (follows_cons.mpr (.inr hjk))

lemma Contiguous.increasing (h : Contiguous insns) : Increasing insns := by
  induction insns with
  | nil => exact .nil
  | cons i l ih =>
    have hl := ih h.tail
    refine .cons ?_ hl
    cases l with
    | nil => simp
    | cons j l =>
      obtain ⟨hsize, haddr⟩ := h i j (follows_cons.mpr (.inl ⟨rfl, rfl⟩))
      have hij : i.address < j.address := by
        apply BitVec.lt_def.mpr
        omega
      rw [List.forall_mem_cons]
      refine ⟨hij, fun k hk => ?_⟩
      exact BitVec.lt_trans hij ((List.pairwise_cons.mp hl).1 k hk)

lemma Contiguous.next (h : Contiguous insns) (hij : Follows insns i j) :
    Ir.nextAddress i = j.address := by
  obtain ⟨-, haddr⟩ := h i j hij
  have hj := j.address.isLt
  apply BitVec.eq_of_toNat_eq
  rw [Ir.nextAddress, BitVec.toNat_add, BitVec.toNat_setWidth]
  omega

end Cfg

namespace Ir

variable {d : DisassembledInsn} {versions versions' : Versions} {irs : List IRInstruction}

def CallsRegister (d : DisassembledInsn) : Prop :=
  ∃ first ∈ (parseOperands d.opStr).head?,
    ¬ isMemoryOperand first.trim ∧ (parseRegister first.trim).isSome

instance (d : DisassembledInsn) : Decidable (CallsRegister d) :=
  decidable_of_iff ((parseOperands d.opStr).head?.any fun first =>
    decide (¬ isMemoryOperand first.trim ∧ (parseRegister first.trim).isSome)) <| by
    rw [CallsRegister]
    cases (parseOperands d.opStr).head? <;> simp

lemma liftCall_continuation {t : Text} {fallthrough : U64} {op : Opcode}
    (h : liftCall t versions fallthrough = some op) :
    ∃ target, op = .call target
      (if ¬ isMemoryOperand t.trim ∧ (parseRegister t.trim).isSome then 0 else fallthrough) := by
  simp only [liftCall] at h
  by_cases hmem : isMemoryOperand t.trim
  · rw [if_pos hmem] at h
    obtain ⟨o, -, rfl⟩ := Option.map_eq_some_iff.mp h
    rw [if_neg fun hno => hno.1 hmem]
    exact ⟨_, rfl⟩
  · rw [if_neg hmem] at h
    cases hreg : parseRegister t.trim with
    | some vb =>
      simp only [hreg] at h
      cases h
      rw [if_pos ⟨hmem, rfl⟩]
      exact ⟨_, rfl⟩
    | none =>
      rw [if_neg fun hyes => absurd hyes.2 (by simp)]
      simp only [hreg] at h
      cases hnumber : parseImmediate t.trim with
      | some a =>
        simp only [hnumber] at h
        cases h
        exact ⟨_, rfl⟩
      | none =>
        simp only [hnumber] at h
        cases h
        exact ⟨_, rfl⟩

def Continues (d : DisassembledInsn) : Prop :=
  d.mnemonic ∈ Cfg.condJumps ∨ d.mnemonic = "call" ∧ parseOperands d.opStr ≠ []

lemma liftInsn_continuation (hkind : Continues d)
    (h : liftInsn d versions = some (irs, versions')) :
    ∃ op, irs = [⟨d.address, op⟩] ∧ op.continuation =
      some (if d.mnemonic = "call" ∧ CallsRegister d then 0 else nextAddress d) := by
  rcases hkind with hcond | ⟨hcall, hops⟩
  · have harm := armOfInsn_condJump hcond
    obtain ⟨op, rfl, hop⟩ := liftInsn_single (by simp [harm]) h
    rw [harm] at hop
    cases hop
    have hno : d.mnemonic ≠ "call" := by
      intro h
      rw [h] at hcond
      exact absurd hcond (by decide)
    rw [if_neg fun hyes => hno hyes.1]
    exact ⟨_, rfl, rfl⟩
  · have harm := armOfInsn_call hcall
    obtain ⟨op, rfl, hop⟩ := liftInsn_single (by simp [harm]) h
    obtain ⟨first, more, hfirst⟩ := List.exists_cons_of_ne_nil hops
    rw [harm, hfirst] at hop
    obtain ⟨o, ho, hoe⟩ := Option.map_eq_some_iff.mp hop
    cases hoe
    obtain ⟨target, rfl⟩ := liftCall_continuation ho
    have hregister : CallsRegister d ↔ ¬ isMemoryOperand first.trim ∧
        (parseRegister first.trim).isSome := by
      simp [CallsRegister, hfirst]
    exact ⟨_, rfl, by simp only [Opcode.continuation, hcall, hregister, true_and]⟩

end Ir

namespace Control

open Std Backend Cfg Ir Collections Clang

variable (symbols : SymbolTable) (funcNames : TreeMap U64 Text)

/-- The instruction records the address, and the C that is emitted for a call first pushes it. -/
structure ContinuesAt (instr : IRInstruction) (a : U64) : Prop where
  recorded : instr.opcode.continuation = some a
  pushed : ∀ target fallthrough, instr.opcode = .call target fallthrough →
    ∃ s rest stmts, emitInstruction instr symbols funcNames = s ++ rest ∧ parse s = some stmts ∧
      ∀ σ : State, execAll σ stmts = some
        ((σ.set (place .rsp) (σ.vars (place .rsp) - 8)).poke (σ.vars (place .rsp) - 8) a)

lemma continuesAt_iff {instr : IRInstruction} {a : U64} :
    ContinuesAt symbols funcNames instr a ↔ instr.opcode.continuation = some a := by
  refine ⟨ContinuesAt.recorded, fun h => ⟨h, fun target fallthrough hop => ?_⟩⟩
  rw [hop] at h
  obtain rfl : fallthrough = a := Option.some.inj h
  have hfits : ∀ s ∈ pushStmts (hexNum fallthrough.toNat .none), s.Fits :=
    Backend.fits_pushStmts (e := hexNum _ _) trivial
  let push := pushStmts (hexNum fallthrough.toNat .none)
  let call := Stmt.expr (.bin .assign (cpuField "rax") (callTree symbols funcNames target))
  refine ⟨stmtsText push, " " ++ call.text, push, ?_, parse_stmtsText hfits,
    fun σ => execAll_pushStmts (hasInt_hexNum fallthrough .none)⟩
  rw [emitInstruction_eq, hop]
  show stmtsText (push ++ [call]) = _
  rw [pushStmts_append_text, List.append_assoc]

variable {func : DisassembledFunction} {ir : IRFunction} {k : ℕ} {bb : BasicBlock}
  {b next : IRBlock} {last : DisassembledInsn}

lemma instructions_ne_nil (hbb : (buildCfg func).blocks[k]? = some bb) :
    func.instructions ≠ [] := by
  rintro hnil
  rw [buildCfg, hnil] at hbb
  simp at hbb

lemma sortedBlocks_of_block (hinc : Increasing func.instructions)
    (hlift : liftFunction (buildCfg func) = some ir) (hbb : (buildCfg func).blocks[k]? = some bb)
    (hb : ir.blocks[k]? = some b) : (sortedBlocks ir)[k]? = some b ∧ IsLiftOfBlock bb b := by
  have hne := instructions_ne_nil hbb
  have hblocks := blockList_lift hne hinc hlift
  have hget := liftFunction_getElem? hlift hbb
  rw [hb] at hget
  rw [← graphBlocks_getElem? hne hinc] at hbb
  obtain ⟨hk, rfl⟩ := List.getElem?_eq_some_iff.mp hbb
  have hk' : k < ir.blockList.length := hblocks.length_eq ▸ hk
  have hlifted : IsLiftOfBlock (graphBlocks func)[k] ir.blockList[k] := hblocks.get hk hk'
  have hid : (graphBlocks func)[k].id = k := by
    rw [graphBlocks_getElem? hne hinc, buildCfg_getElem? hne hinc] at hbb
    obtain ⟨g, -, hg⟩ := hbb
    exact (basicBlock_eq_some hg).1
  have hsame : b = ir.blockList[k] := by
    rw [IsLiftOfBlock, hid] at hlifted
    exact Option.some.inj (hget.trans hlifted)
  rw [sortedBlocks_lift hne hinc hlift, List.getElem?_eq_getElem hk', hsame]
  exact ⟨rfl, hlifted⟩

lemma startAddr_of_next (hinc : Increasing func.instructions)
    (hlift : liftFunction (buildCfg func) = some ir) (hbb : (buildCfg func).blocks[k]? = some bb)
    (hlast : bb.instructions.getLast? = some last)
    (hnext : (sortedBlocks ir)[k + 1]? = some next) :
    ∃ j, Follows func.instructions last j ∧ j.address = next.startAddr := by
  have hne := instructions_ne_nil hbb
  have hblocks := blockList_lift hne hinc hlift
  rw [sortedBlocks_lift hne hinc hlift] at hnext
  obtain ⟨hk', rfl⟩ := List.getElem?_eq_some_iff.mp hnext
  have hk : k + 1 < (graphBlocks func).length := hblocks.length_eq.symm ▸ hk'
  have hlifted : IsLiftOfBlock (graphBlocks func)[k + 1] ir.blockList[k + 1] := hblocks.get hk hk'
  have hstart := startAddr_of_mem_graphBlocks hne hinc (List.getElem_mem hk)
  obtain ⟨j, hj, haddr⟩ := Option.map_eq_some_iff.mp hstart
  rw [← graphBlocks_getElem? hne hinc] at hbb
  refine ⟨j, ?_, haddr.trans hlifted.parts.2.1.symm⟩
  rw [← flatten_blockRuns, follows_flatten (nil_not_mem_blockRuns func),
    ← graphBlocks_instructions hne hinc]
  exact .inr ⟨k, bb.instructions, (graphBlocks func)[k + 1].instructions, by simp [hbb],
    by simp [List.getElem?_eq_getElem hk], hlast, hj⟩

lemma last_of_isLiftOfBlock (h : IsLiftOfBlock bb b) (hlast : bb.instructions.getLast? = some last)
    (hkind : Continues last) : ∃ instr, b.instructions.getLast? = some instr ∧
      instr.opcode.continuation =
        some (if last.mnemonic = "call" ∧ CallsRegister last then 0 else nextAddress last) := by
  obtain ⟨⟨irs, v⟩, hirs, h⟩ := Option.bind_eq_some_iff.mp h
  cases h
  have hins : bb.instructions = bb.instructions.dropLast ++ [last] :=
    (List.dropLast_append_getLast? last hlast).symm
  rw [hins, liftInsns_append] at hirs
  obtain ⟨⟨before, v₁⟩, -, hrest⟩ := Option.bind_eq_some_iff.mp hirs
  obtain ⟨⟨one, v₂⟩, hone, hrest⟩ := Option.map_eq_some_iff.mp hrest
  cases hrest
  obtain ⟨⟨first, v₃⟩, hfirst, hone⟩ := Option.bind_eq_some_iff.mp hone
  cases hone
  obtain ⟨op, rfl, hop⟩ := liftInsn_continuation hkind hfirst
  exact ⟨⟨last.address, op⟩, by simp, hop⟩

/-- The lifter, the graph and the emitter name one place for what comes after a block exactly when
the block does not end in a call through a register. -/
theorem continuation_iff (hcontiguous : Contiguous func.instructions)
    (hlift : liftFunction (buildCfg func) = some ir) (hbb : (buildCfg func).blocks[k]? = some bb)
    (hlast : bb.instructions.getLast? = some last) (hkind : Continues last)
    (hb : ir.blocks[k]? = some b) (hnext : (sortedBlocks ir)[k + 1]? = some next) :
    (sortedBlocks ir)[k]? = some b ∧
    ((∃ instr, b.instructions.getLast? = some instr ∧
        ContinuesAt symbols funcNames instr next.startAddr) ↔
      ¬ (last.mnemonic = "call" ∧ CallsRegister last)) := by
  have hinc := hcontiguous.increasing
  obtain ⟨hsorted, hlifted⟩ := sortedBlocks_of_block hinc hlift hbb hb
  obtain ⟨j, hfollows, haddr⟩ := startAddr_of_next hinc hlift hbb hlast hnext
  obtain ⟨instr, hinstr, hcontinuation⟩ := last_of_isLiftOfBlock hlifted hlast hkind
  refine ⟨hsorted, ?_⟩
  simp only [hinstr, Option.some.injEq, exists_eq_left', continuesAt_iff, hcontinuation]
  by_cases hregister : last.mnemonic = "call" ∧ CallsRegister last
  · rw [if_pos hregister]
    -- no instruction that has another one before it is at address 0
    have hpos : next.startAddr ≠ 0 := by
      intro hzero
      obtain ⟨hsize, hsum⟩ := hcontiguous last j hfollows
      rw [haddr, hzero] at hsum
      simp only [BitVec.ofNat_eq_ofNat, BitVec.toNat_ofNat, Nat.zero_mod] at hsum
      omega
    exact iff_of_false (fun h => hpos h.symm) (not_not_intro hregister)
  · rw [if_neg hregister, hcontiguous.next hfollows]
    exact iff_of_true haddr hregister

def registerCall : DisassembledFunction :=
  ⟨"main", 0x1000, 0x1003,
    [⟨0x1000, 2, "call", "rax", [0xff, 0xd0]⟩, ⟨0x1002, 1, "ret", "", [0xc3]⟩]⟩

lemma registerCall_contiguous : Contiguous registerCall.instructions := by
  intro i j h
  obtain ⟨k, hi, hj⟩ := follows_iff_getElem?.mp h
  cases k with
  | zero =>
    cases hi
    cases hj
    decide
  | succ k => simp [registerCall] at hj

lemma lift_registerCall : (liftFunction (buildCfg registerCall)).map (fun ir =>
      ((ir.blocks[0]?.map fun b => b.instructions), (sortedBlocks ir)[1]?.map (·.startAddr))) =
    some (some [⟨0x1000, .call (.indirect (.var ⟨.rax, 0⟩)) 0⟩], some 0x1002) := by
  decide

lemma blocks_registerCall : (buildCfg registerCall).blocks[0]?.map (·.instructions) =
    some [⟨0x1000, 2, "call", "rax", [0xff, 0xd0]⟩] := by
  decide

theorem registerCall_continues_at_zero : Contiguous registerCall.instructions ∧
    ∃ ir bb b next, liftFunction (buildCfg registerCall) = some ir ∧
      (buildCfg registerCall).blocks[0]? = some bb ∧ ir.blocks[0]? = some b ∧
      (sortedBlocks ir)[1]? = some next ∧ (∀ last ∈ bb.instructions.getLast?, Continues last) ∧
      ¬ ∃ instr, b.instructions.getLast? = some instr ∧
        ContinuesAt ∅ ∅ instr next.startAddr := by
  obtain ⟨ir, hir, hboth⟩ := Option.map_eq_some_iff.mp lift_registerCall
  obtain ⟨hb, hnext⟩ := Prod.mk.inj hboth
  obtain ⟨b, hb, hins⟩ := Option.map_eq_some_iff.mp hb
  obtain ⟨next, hnext, hstart⟩ := Option.map_eq_some_iff.mp hnext
  obtain ⟨bb, hbb, hbbins⟩ := Option.map_eq_some_iff.mp blocks_registerCall
  refine ⟨registerCall_contiguous, ir, bb, b, next, hir, hbb, hb, hnext, ?_, ?_⟩
  · rw [hbbins]
    rintro last ⟨⟩
    exact .inr ⟨rfl, by decide⟩
  · rw [hins, hstart]
    rintro ⟨instr, hinstr, hcontinues⟩
    cases hinstr
    exact absurd hcontinues.recorded (by decide)

theorem registerCall_continuation_iff :
    ∃ ir bb b next, liftFunction (buildCfg registerCall) = some ir ∧
      (buildCfg registerCall).blocks[0]? = some bb ∧ (sortedBlocks ir)[1]? = some next ∧
      (sortedBlocks ir)[0]? = some b ∧
      ((∃ instr, b.instructions.getLast? = some instr ∧
          ContinuesAt ∅ ∅ instr next.startAddr) ↔
        ¬ (("call" : Text) = "call" ∧
          CallsRegister ⟨0x1000, 2, "call", "rax", [0xff, 0xd0]⟩)) := by
  obtain ⟨ir, hir, hboth⟩ := Option.map_eq_some_iff.mp lift_registerCall
  obtain ⟨hb, hnext⟩ := Prod.mk.inj hboth
  obtain ⟨b, hb, -⟩ := Option.map_eq_some_iff.mp hb
  obtain ⟨next, hnext, -⟩ := Option.map_eq_some_iff.mp hnext
  obtain ⟨bb, hbb, hbbins⟩ := Option.map_eq_some_iff.mp blocks_registerCall
  have hlast : bb.instructions.getLast? = some ⟨0x1000, 2, "call", "rax", [0xff, 0xd0]⟩ := by
    rw [hbbins]
    rfl
  exact ⟨ir, bb, b, next, hir, hbb, hnext,
    continuation_iff ∅ ∅ registerCall_contiguous hir hbb hlast (.inr ⟨rfl, by decide⟩) hb hnext⟩

end Control

end Dexe
