import Dexe.Straight.Conditions

/-! Where the emitted conditions are the conditions of the flags. -/

namespace Dexe.Straight

open Std Ir X86 Clang Backend Collections

variable {code : List Insn} {σ : Clang.State} {s : X86.State}

variable (symbols : SymbolTable) (funcNames : TreeMap U64 Text)

lemma exec_undefined {i : Insn} {op : Opcode} (h : Embeds i op) (hm : Matches σ s)
    (hdef : ¬ Defined s i) :
    ∃ st, opcodeStmts symbols funcNames op = [st] ∧ exec σ st = none := by
  simp only [Defined, not_forall, not_not] at hdef
  obtain ⟨r, rfl, hr⟩ := hdef
  cases h with
  | @unary _ _ src dst hdst hwide hsrc =>
    refine ⟨_, rfl, ?_⟩
    have ha := hasInt_of_means hm hsrc
    have hneg : eval σ (.un .neg (.cast .int64 (operandTree dst))) = none := by
      rw [eval, ha.cast .int64 (by decide), Option.bind_some]
      show Val.neg ⟨.i64, s.regs r⟩ = none
      rw [hr]
      exact Val.neg_i64_intMin
    have hcast : evalInt σ (.cast .uint64 (.paren (.un .neg (.cast .int64 (operandTree dst))))) =
        none := by
      rw [evalInt, eval, eval, hneg]
      rfl
    rw [setTo, exec, execExpr, target_varTree, Option.bind_some, hcast]
    rfl

lemma execAll_undefined {irs : List IRInstruction}
    (h : List.Forall₂ (fun i (ir : IRInstruction) => Embeds i ir.opcode) code irs)
    (hm : Matches σ s) (hdef : ¬ DefinedRun s code) :
    execAll σ (irs.flatMap fun ir => opcodeStmts symbols funcNames ir.opcode) = none := by
  induction h generalizing σ s with
  | nil => exact absurd trivial hdef
  | @cons i ir code irs hi _ ih =>
    rw [List.flatMap_cons, execAll_append]
    by_cases hfirst : Defined s i
    · obtain ⟨σ', hexec, hm', -⟩ := runsTo_step symbols funcNames hi hm hfirst
      rw [hexec, Option.bind_some]
      exact ih hm' fun hrest => hdef ⟨hfirst, hrest⟩
    · obtain ⟨st, hst, hexec⟩ := exec_undefined symbols funcNames hi hm hfirst
      rw [hst, execAll, hexec]
      rfl

def emittedCondition (f : IRFunction) (id : BlockId) (reader : DisassembledInsn)
    (σ : Clang.State) : Option Bool := do
  let b ← f.blocks[id]?
  let stmts ← parse (blockText symbols funcNames b)
  let σ ← execAll σ stmts.dropLast
  let e ← stmts.getLast?.bind (conditionOf (parseOperands reader.opStr))
  truthOf σ e

/-- The instructions whose flags are looked at: all but `imul`, `not` and the stores. -/
def InFragment : Insn → Prop
  | .alu .imul _ _ | .imul _ _ _ | .unary .not _ | .store _ _ => False
  | _ => True

lemma liftBlock_conditional {bb : BasicBlock} {ds : List DisassembledInsn} {d : DisassembledInsn}
    {k : Conditional} (hbb : bb.instructions = ds ++ [d]) (hds : List.Forall₂ Prints ds code)
    (hd : PrintsConditional d k) (id : BlockId) :
    ∃ (irs : List IRInstruction) (ir : IRInstruction),
      liftBlock id bb = some ⟨id, bb.startAddr, irs ++ [ir]⟩ ∧
        List.Forall₂ (fun i (ir : IRInstruction) => Embeds i ir.opcode) code irs ∧
        ReadsCondition (condition k.cond) (parseOperands d.opStr) ir.opcode := by
  obtain ⟨irs, versions, hirs, hembeds⟩ := liftInsns_printed hds Versions.initial
  obtain ⟨op, versions', hop, hreads⟩ := liftInsn_conditional hd versions
  refine ⟨irs, ⟨d.address, op⟩, ?_, hembeds, hreads⟩
  rw [liftBlock, hbb, liftInsns_concat hirs hop]
  rfl

/-- A block of a lifted function: straight-line code, and then an instruction that reads a
condition. -/
structure ConditionalBlock where
  cfg : ControlFlowGraph
  function : IRFunction
  id : BlockId
  block : BasicBlock
  insns : List DisassembledInsn
  reader : DisassembledInsn
  code : List Insn
  last : Conditional
  lifted : liftFunction cfg = some function
  block_mem : cfg.blocks[id]? = some block
  instructions_eq : block.instructions = insns ++ [reader]
  prints : List.Forall₂ Prints insns code
  prints_last : PrintsConditional reader last
  inFragment : ∀ i ∈ code, InFragment i

namespace ConditionalBlock

variable (B : ConditionalBlock)

lemma function_block : ∃ (irs : List IRInstruction) (ir : IRInstruction),
    B.function.blocks[B.id]? = some ⟨B.id, B.block.startAddr, irs ++ [ir]⟩ ∧
      List.Forall₂ (fun i (ir : IRInstruction) => Embeds i ir.opcode) B.code irs ∧
      ReadsCondition (condition B.last.cond) (parseOperands B.reader.opStr) ir.opcode := by
  obtain ⟨irs, ir, hlift, hembeds, hreads⟩ :=
    liftBlock_conditional B.instructions_eq B.prints B.prints_last B.id
  exact ⟨irs, ir, (liftFunction_getElem? B.lifted B.block_mem).trans hlift, hembeds, hreads⟩

lemma emittedCondition_eq (σ : Clang.State) : ∃ irs : List IRInstruction,
    List.Forall₂ (fun i (ir : IRInstruction) => Embeds i ir.opcode) B.code irs ∧
      emittedCondition symbols funcNames B.function B.id B.reader σ =
        (execAll σ (irs.flatMap fun ir => opcodeStmts symbols funcNames ir.opcode)).bind
          fun σ' => some (condValue (flagWord σ') B.last.cond) := by
  obtain ⟨irs, ir, hblock, hembeds, hreads⟩ := B.function_block
  obtain ⟨st, e, hst, he, hcode⟩ :=
    stmts_of_reader symbols funcNames (c := .cond B.last.cond) hreads
  have htruth : ∀ σ, truthOf σ e = some (condValue (flagWord σ) B.last.cond) := hcode
  have hall : ∀ x ∈ irs ++ [ir], Backend.Reads symbols funcNames x.opcode := by
    intro x hx
    rcases List.mem_append.mp hx with hx | hx
    · obtain ⟨k, hk, rfl⟩ := List.mem_iff_getElem.mp hx
      have hlen := hembeds.length_eq
      exact reads_of_embeds symbols funcNames (hembeds.get (by omega) hk)
    · rw [List.mem_singleton.mp hx]
      exact reads_of_condition symbols funcNames hreads
  refine ⟨irs, hembeds, ?_⟩
  have hparse : parse (blockText symbols funcNames ⟨B.id, B.block.startAddr, irs ++ [ir]⟩) =
      some ((irs.flatMap fun ir => opcodeStmts symbols funcNames ir.opcode) ++ [st]) := by
    rw [blockText, parse_emitInstructionLines hall]
    simp [hst]
  simp only [emittedCondition, hblock, hparse, Option.bind_eq_bind, Option.bind_some,
    List.dropLast_concat, List.getLast?_concat, he, htruth]

lemma emittedCondition_of_defined (hm : Matches σ s) (hdef : DefinedRun s B.code) :
    emittedCondition symbols funcNames B.function B.id B.reader σ =
      some (condValue (wordRun s (flagWord σ) B.code) B.last.cond) := by
  obtain ⟨irs, hembeds, heq⟩ := B.emittedCondition_eq symbols funcNames σ
  obtain ⟨σ', hexec, -, hword⟩ := runsTo_run symbols funcNames hembeds hm hdef
  rw [heq, hexec, Option.bind_some, hword]

lemma emittedCondition_of_undefined (hm : Matches σ s) (hdef : ¬ DefinedRun s B.code) :
    emittedCondition symbols funcNames B.function B.id B.reader σ = none := by
  obtain ⟨irs, hembeds, heq⟩ := B.emittedCondition_eq symbols funcNames σ
  rw [heq, execAll_undefined symbols funcNames hembeds hm hdef]
  rfl

end ConditionalBlock

/-- The private word carries the condition from the writer to its readers. -/
def Carries : Writer → Cond → Prop
  | .compare .cmp, c => c ≠ .s ∧ c ≠ .ns
  | .compare .test, c => c ∈ [Cond.e, .ne, .b, .ae, .be, .a]
  | _, _ => False

instance (w : Writer) (c : Cond) : Decidable (Carries w c) := by
  simp only [Carries]
  split <;> infer_instance

lemma condValue_cmpWord {c : Cond} (hc : Carries (.compare .cmp) c) (a b : U64) :
    condValue (cmpWord a b) c = c.holds (subFlags a b) := by
  have hzero := subFlags_zero a b
  have hcarry : subFlags a b .carry = a.ult b := rfl
  have hless := subFlags_less a b
  have hge := subFlags_ge a b
  simp only [cmpWord, Cond.holds, hzero, hcarry, hless, hge]
  generalize (a == b) = p
  generalize a.ult b = q
  generalize a.slt b = r
  cases c with
  | s => exact absurd rfl hc.1
  | ns => exact absurd rfl hc.2
  | _ => cases p <;> cases q <;> cases r <;> rfl

lemma condValue_testWord {c : Cond} (hc : Carries (.compare .test) c) (a b : U64) :
    condValue (testWord a b) c = c.holds (resultFlags false false (a &&& b)) := by
  have hzero : resultFlags false false (a &&& b) .zero = (a &&& b == 0) := rfl
  have hcarry : resultFlags false false (a &&& b) .carry = false := rfl
  simp only [testWord, Cond.holds, hzero, hcarry]
  generalize (a &&& b == 0) = p
  cases c with
  | e | ne | b | ae | be | a => cases p <;> rfl
  | _ => simp [Carries] at hc

lemma wordAfter_of_writesTested {c : Cond} {i : Insn} (h : i.writesTested c = false)
    (s : X86.State) (w : U64) : wordAfter s w i = w := by
  cases i with
  | compare op r src =>
    rw [writesTested_compare] at h
    cases h
  | _ => rfl

lemma wordRun_concat (s : X86.State) (w : U64) (code : List Insn) (i : Insn) :
    wordRun s w (code ++ [i]) = wordAfter (X86.run s code) (wordRun s w code) i := by
  induction code generalizing s w with
  | nil => rfl
  | cons j code ih => exact ih (X86.step s j) (wordAfter s w j)

theorem condValue_wordRun {c : Cond} {w : Writer} (hw : Carries w c)
    (hlast : lastWriter c code = some w) (s : X86.State) (f : Flags) (word : U64) :
    condValue (wordRun s word code) c = c.holds (runFlags s f code) := by
  induction code using List.reverseRecOn with
  | nil => cases hlast
  | append_singleton code i ih =>
    rw [lastWriter_concat] at hlast
    rw [wordRun_concat, runFlags_concat]
    by_cases hi : i.writesTested c = true
    · rw [if_pos hi] at hlast
      cases i with
      | compare op r src =>
        cases hlast
        rw [stepFlags_compare]
        cases op with
        | cmp => exact condValue_cmpWord hw _ _
        | test => exact condValue_testWord hw _ _
      | alu op r src =>
        cases hlast
        exact hw.elim
      | unary op r =>
        cases hlast
        exact hw.elim
      | _ => cases hlast
    · rw [if_neg hi] at hlast
      have hi := Bool.eq_false_iff.mpr hi
      rw [wordAfter_of_writesTested hi, holds_stepFlags hi]
      exact ih hlast

def staleInsn : Writer → Insn
  | .alu op => .alu op .rcx (.reg .rdx)
  | .unary op => .unary op .rcx
  | .compare op => .compare op .rcx (.reg .rdx)

def staleCode (w : Writer) : List Insn := [.compare .cmp .rax (.reg .rbx), staleInsn w]

def sample (a b c d : U64) : X86.State where
  regs
    | .rax => a
    | .rbx => b
    | .rcx => c
    | .rdx => d
    | _ => 0
  mem := fun _ => 0

def samples : List X86.State :=
  [sample 0 1 1 0, sample 0 0 1 (-1), sample 0 0 (-1) (-1), sample 1 0 0 0]

def Disagrees (w : Writer) (c : Cond) (s : X86.State) : Prop :=
  ∀ f : Flags, condValue (wordRun s 0 (staleCode w)) c ≠ c.holds (runFlags s f (staleCode w))

instance : DecidablePred InFragment := fun i => by
  simp only [InFragment]
  split <;> infer_instance

lemma exists_disagrees {w : Writer} {c : Cond} (hfrag : InFragment (staleInsn w))
    (hwrites : (staleInsn w).writesTested c = true) (hw : ¬ Carries w c) :
    ∃ s ∈ samples, Disagrees w c s := by
  -- after the `cmp` the flags no longer depend on the ones before it
  have hall : InFragment (staleInsn w) → (staleInsn w).writesTested c = true → ¬ Carries w c →
      ∃ s ∈ samples, condValue (wordRun s 0 (staleCode w)) c ≠
        c.holds (runFlags s (fun _ => false) (staleCode w)) := by
    cases w with
    | alu op => cases op <;> cases c <;> decide
    | unary op => cases op <;> cases c <;> decide
    | compare op => cases op <;> cases c <;> decide
  obtain ⟨s, hs, hne⟩ := hall hfrag hwrites hw
  refine ⟨s, hs, fun f => ?_⟩
  have hflags : runFlags s f (staleCode w) = runFlags s (fun _ => false) (staleCode w) := by
    simp only [staleCode, runFlags, stepFlags_compare]
  rwa [hflags]

lemma definedRun_stale {s : X86.State} (hs : s ∈ samples) (w : Writer) :
    DefinedRun s (staleCode w) := by
  have hmin : ∀ s ∈ samples, s.regs .rcx ≠ BitVec.intMin 64 := by decide
  have hcmp : Defined s (.compare .cmp .rax (.reg .rbx)) := by
    intro r h
    cases h
  refine ⟨hcmp, fun r h => ?_, trivial⟩
  cases w with
  | unary op =>
    cases h
    exact hmin s hs
  | _ => cases h

lemma lastWriter_stale {w : Writer} {c : Cond} (h : (staleInsn w).writesTested c = true) :
    lastWriter c (staleCode w) = some w := by
  have hconcat := lastWriter_concat c [.compare .cmp .rax (.reg .rbx)] (staleInsn w)
  rw [if_pos h] at hconcat
  refine hconcat.trans ?_
  cases w <;> rfl

lemma stale_of_lastWriter {c : Cond} {w : Writer} (hfrag : ∀ i ∈ code, InFragment i)
    (h : lastWriter c code = some w) :
    InFragment (staleInsn w) ∧ (staleInsn w).writesTested c = true := by
  obtain ⟨i, hi, hw⟩ := Option.bind_eq_some_iff.mp h
  have hmem := hfrag i (List.mem_reverse.mp (List.mem_of_find?_eq_some hi))
  have hwrites := List.find?_some hi
  cases i with
  | alu op dst src =>
    cases hw
    cases op <;> exact ⟨hmem, hwrites⟩
  | unary op dst =>
    cases hw
    cases op <;> exact ⟨hmem, hwrites⟩
  | compare op dst src =>
    cases hw
    exact ⟨hmem, hwrites⟩
  | _ => cases hw

def allRegs : List Reg :=
  [.rax, .rbx, .rcx, .rdx, .rsi, .rdi, .rsp, .rbp, .r8, .r9, .r10, .r11, .r12, .r13, .r14, .r15]

def fieldsOf (s : X86.State) : Clang.State where
  vars p := ((allRegs.find? fun r => place r.base = p).map s.regs).getD 0
  mem := s.mem

lemma matches_fieldsOf (s : X86.State) : Matches (fieldsOf s) s := by
  refine ⟨fun r => ?_, rfl⟩
  have hfind : (allRegs.find? fun r' => place r'.base = place r.base) = some r := by
    cases r <;> decide
  show ((allRegs.find? fun r' => place r'.base = place r.base).map s.regs).getD 0 = s.regs r
  rw [hfind]
  rfl

lemma flagWord_fieldsOf (s : X86.State) : flagWord (fieldsOf s) = 0 := by
  have hfind : (allRegs.find? fun r => place r.base = place .rflags) = none := by decide
  show ((allRegs.find? fun r => place r.base = place .rflags).map s.regs).getD 0 = 0
  rw [hfind]
  rfl

lemma exists_conditionalBlock {cfg : ControlFlowGraph} {ds : List DisassembledInsn}
    {d : DisassembledInsn} {k : Conditional} (hds : List.Forall₂ Prints ds code)
    (hd : PrintsConditional d k) (hfrag : ∀ i ∈ code, InFragment i)
    (hblocks : ∀ (id : BlockId) (b : BasicBlock), cfg.blocks[id]? = some b →
      b.instructions = ds ++ [d])
    {id : BlockId} {b : BasicBlock} (hb : cfg.blocks[id]? = some b) :
    ∃ B : ConditionalBlock, B.cfg = cfg ∧ B.id = id ∧ B.code = code ∧ B.last = k := by
  obtain ⟨f, hf, -⟩ := liftFunction_of_blocks fun id b hb => by
    obtain ⟨irs, ir, hlift, -⟩ := liftBlock_conditional (hblocks id b hb) hds hd id
    exact Option.isSome_iff_exists.mpr ⟨_, hlift⟩
  exact ⟨⟨cfg, f, id, b, ds, d, code, k, hf, hb, hblocks id b hb, hds, hd, hfrag⟩, rfl, rfl, rfl,
    rfl⟩

def printed (addr : U64) (i : Insn) : DisassembledInsn :=
  ⟨addr, 3, i.mnemonics.headD [], operandsText (i.operands.headD []), []⟩

lemma prints_printed (addr : U64) (i : Insn) : Prints (printed addr i) i := by
  cases i <;> exact ⟨List.mem_cons_self, _, List.mem_cons_self, rfl⟩

def printedJump (addr : U64) (c : Cond) : DisassembledInsn :=
  ⟨addr, 2, "j" ++ c.suffix, operandsText [magnitudeText 0x1000], []⟩

def staleInsns (w : Writer) : List DisassembledInsn :=
  [printed 0x1000 (.compare .cmp .rax (.reg .rbx)), printed 0x1003 (staleInsn w)]

def staleGraph (w : Writer) (c : Cond) : ControlFlowGraph where
  funcName := "stale"
  funcAddr := 0x1000
  blocks := (∅ : TreeMap BlockId BasicBlock).insert 0
    ⟨0, 0x1000, 0x1008, staleInsns w ++ [printedJump 0x1006 c], .jump 0⟩
  entryBlock := 0
  edges := [(0, 0)]
  addrToBlock := (∅ : TreeMap U64 BlockId).insert 0x1000 0

lemma exists_staleBlock {w : Writer} (hw : InFragment (staleInsn w)) (c : Cond) :
    ∃ B : ConditionalBlock, B.code = staleCode w ∧ B.last = .jump c 0x1000 := by
  have hblocks : ∀ (id : BlockId) (b : BasicBlock), (staleGraph w c).blocks[id]? = some b →
      b.instructions = staleInsns w ++ [printedJump 0x1006 c] := by
    intro id b hb
    rw [staleGraph, TreeMap.getElem?_insert] at hb
    split at hb
    · cases hb
      rfl
    · simp at hb
  obtain ⟨B, -, -, hcode, hlast⟩ := exists_conditionalBlock (k := .jump c 0x1000)
    (.cons (prints_printed _ _) (.cons (prints_printed _ _) .nil)) ⟨rfl, rfl⟩
    (by simpa [staleCode, InFragment] using hw) hblocks TreeMap.getElem?_insert_self
  exact ⟨B, hcode, hlast⟩

/-- The emitted condition is the condition of the flags, exactly for the writers that carry it;
a negation of the least number leaves it undefined. -/
theorem condition_agrees_iff {c : Cond} {w : Writer}
    (hw : ∃ code, (∀ i ∈ code, InFragment i) ∧ lastWriter c code = some w) :
    (∀ B : ConditionalBlock, B.last.cond = c → lastWriter c B.code = some w →
      ∀ (σ : Clang.State) (s : X86.State), Matches σ s → ∀ f : Flags,
        (emittedCondition symbols funcNames B.function B.id B.reader σ =
            some (c.holds (runFlags s f B.code)) ↔
          DefinedRun s B.code)) ↔ Carries w c := by
  constructor
  · intro h
    obtain ⟨code, hfrag, hlast⟩ := hw
    obtain ⟨hstale, hwrites⟩ := stale_of_lastWriter hfrag hlast
    by_contra hcarries
    obtain ⟨s, hs, hne⟩ := exists_disagrees hstale hwrites hcarries
    obtain ⟨B, hcode, hB⟩ := exists_staleBlock hstale c
    have hdef : DefinedRun s B.code := hcode ▸ definedRun_stale hs w
    have hm := matches_fieldsOf s
    have hagree := (h B (by rw [hB]; rfl) (hcode ▸ lastWriter_stale hwrites) _ s hm
      (fun _ => false)).mpr hdef
    rw [B.emittedCondition_of_defined symbols funcNames hm hdef, flagWord_fieldsOf, hcode, hB]
      at hagree
    exact hne _ (Option.some.inj hagree)
  · rintro hcarries B rfl hlast σ s hm f
    constructor
    · intro h
      by_contra hdef
      rw [B.emittedCondition_of_undefined symbols funcNames hm hdef] at h
      cases h
    · intro hdef
      rw [B.emittedCondition_of_defined symbols funcNames hm hdef,
        condValue_wordRun hcarries hlast s f]

theorem compared_agrees_iff :
    (∀ B : ConditionalBlock, B.last.cond = .l → lastWriter .l B.code = some (.compare .cmp) →
      ∀ (σ : Clang.State) (s : X86.State), Matches σ s → ∀ f : Flags,
        (emittedCondition ∅ ∅ B.function B.id B.reader σ =
            some (Cond.l.holds (runFlags s f B.code)) ↔
          DefinedRun s B.code)) ↔ Carries (.compare .cmp) .l :=
  condition_agrees_iff ∅ ∅ ⟨[.compare .cmp .rax (.reg .rbx)], by decide, rfl⟩

def equalJump : DisassembledFunction where
  name := "equal_jump"
  startAddr := 0x1000
  endAddr := 0x1005
  instructions := [⟨0x1000, 3, "sub", "rax, rbx", []⟩, ⟨0x1003, 2, "je", "0x1000", []⟩]

theorem equalJump_disagrees :
    ∃ B : ConditionalBlock, B.cfg = buildCfg equalJump ∧
      lastWriter B.last.cond B.code = some (.alu .sub) ∧
      ∃ (σ : Clang.State) (s : X86.State), Matches σ s ∧
        emittedCondition ∅ ∅ B.function B.id B.reader σ = some false ∧
        ∀ f, B.last.cond.holds (runFlags s f B.code) = true := by
  have hall : ∀ p ∈ (buildCfg equalJump).blocks.toList,
      p.2.instructions =
        [⟨0x1000, 3, "sub", "rax, rbx", []⟩] ++ [⟨0x1003, 2, "je", "0x1000", []⟩] := by decide
  have hentry : ((buildCfg equalJump).blocks[0]?).isSome := by decide
  obtain ⟨b, hb⟩ := Option.isSome_iff_exists.mp hentry
  obtain ⟨B, hcfg, -, hcode, hlast⟩ : ∃ B : ConditionalBlock, B.cfg = buildCfg equalJump ∧
      B.id = 0 ∧ B.code = [.alu .sub .rax (.reg .rbx)] ∧ B.last = .jump .e 0x1000 :=
    exists_conditionalBlock (.cons ⟨List.mem_cons_self, _, List.mem_cons_self, rfl⟩ .nil)
      ⟨rfl, by decide⟩ (by decide)
      (fun id b hb => hall (id, b) (TreeMap.mem_toList_iff_getElem?_eq_some.mpr hb)) hb
  have hm := matches_fieldsOf (sample 0 0 0 0)
  refine ⟨B, hcfg, by rw [hcode, hlast]; rfl, _, _, hm, ?_, ?_⟩
  · rw [B.emittedCondition_of_defined ∅ ∅ hm, flagWord_fieldsOf, hcode, hlast]
    · decide
    · rw [hcode]
      exact definedRun_of_forall (by simp) _
  · intro f
    rw [hcode, hlast]
    rfl

end Dexe.Straight
