import Dexe.Ir.PrintedTexts
import Dexe.Straight.Conditions
import Dexe.X86.Widening

/-! What the C that is emitted for given instructions does, wherever they stand in a block. -/

namespace Dexe.Straight

open Std Ir X86 Clang Backend

structure ReadAs (t : Text) (a : Source) : Prop where
  piece : Piece t
  parse : ∀ versions, ∃ op, parseSingleOperand t versions = some op ∧ Means op a ∧
    ((∀ n, a ≠ .imm n) → Wide op)

/-- As a destination the text stands for the register; RAX stands in for what is none. -/
def Defines (t : Text) (r : Reg) : Prop := (dstRegister t).getD .rax = r.base

lemma readAs_source (a : Source) : ReadAs a.text a := ⟨piece_source a, parseSingleOperand_text a⟩

lemma defines_name (r : Reg) : Defines r.name r := base_name r

lemma defines_mem (m : MemRef) : Defines m.text .rax := by
  rw [Defines, dstRegister_mem (.inl rfl)]
  rfl

lemma readAs_part (r : SubReg) : ReadAs r.name (.reg r.parent) :=
  ⟨piece_part r, fun versions => ⟨_, parseSingleOperand_part r versions, fun _ _ => rfl,
    fun _ => wide_var _⟩⟩

lemma defines_part (r : SubReg) : Defines r.name r.parent := by
  rw [Defines, (part_text r).2.2, Option.getD_some]

lemma plain_target (t : X86.Target) : ∀ c ∈ t.name, Plain c := by
  cases t with
  | whole r => exact plain_name r
  | part r => exact plain_part r

lemma piece_target (t : X86.Target) : Piece t.name := by
  cases t with
  | whole r => exact piece_name r
  | part r => exact piece_part r

lemma defines_target (t : X86.Target) : Defines t.name t.parent := by
  cases t with
  | whole r => exact defines_name r
  | part r => exact defines_part r

lemma readAs_operand (m : MemOperand) (size : Size) : ReadAs (m.text size) (.mem m.ref) := by
  refine ⟨(addressText_operand m size).piece, fun versions => ?_⟩
  obtain ⟨a, hparse, ha⟩ := parseMemoryOperand_operand m size versions
  rw [parseSingleOperand_operand, hparse]
  exact ⟨_, rfl, means_mem ha, fun _ _ h => by cases h⟩

def nextOf (d : DisassembledInsn) : U64 := d.address + d.size.setWidth 64

structure IsMove (m : Text) : Prop where
  lock : lockedMnemonic m = (false, m)
  arm : armOf false m = .mov

variable (symbols : SymbolTable) (funcNames : TreeMap U64 Text)

def emittedStmts (insns : List DisassembledInsn) (versions : Versions) : Option (List Stmt) :=
  (liftInsns insns versions).bind fun p =>
    parse (p.1.map (emitInstructionLine symbols funcNames)).flatten

def emittedRun (insns : List DisassembledInsn) (versions : Versions) (σ : Clang.State) :
    Option Clang.State :=
  (emittedStmts symbols funcNames insns versions).bind (execAll σ)

def EmittedEnds (insns : List DisassembledInsn) (versions : Versions) (σ : Clang.State)
    (s : X86.State) : Prop :=
  ∃ σ', emittedRun symbols funcNames insns versions σ = some σ' ∧ Matches σ' s

variable {symbols funcNames} {d : DisassembledInsn} {versions versions' : Versions} {op : Opcode}
  {σ : Clang.State} {s s' : X86.State}

lemma reads_aluOpcode (op : AluOp) (dst : VarId) (lhs rhs : Operand) :
    Backend.Reads symbols funcNames (aluOpcode op dst lhs rhs) := by
  cases op <;> exact ⟨trivial, by simp [CommentEnds, aluOpcode, comment]⟩

lemma reads_unknown {m : Text} (hm : '*' ∉ m) (addr : U64) :
    Backend.Reads symbols funcNames (.unknown m addr) := by
  refine ⟨trivial, ?_⟩
  rintro _ ⟨⟩ hmem
  have hhex : '*' ∉ Text.hex addr.toNat :=
    not_mem_star fun c hc => Text.alphanum_of_isHexDigit (Text.hex_chars hc)
  have htext : '*' ∉ ("UNKNOWN: " : Text) ∧ '*' ∉ (" at 0x" : Text) := by decide
  simp only [List.mem_append] at hmem
  rcases hmem with ((hmem | hmem) | hmem) | hmem
  · exact htext.1 hmem
  · exact hm hmem
  · exact htext.2 hmem
  · exact hhex hmem

lemma emittedStmts_of_lift {insns : List DisassembledInsn} {irs : List IRInstruction}
    (h : liftInsns insns versions = some (irs, versions'))
    (hr : ∀ ir ∈ irs, Backend.Reads symbols funcNames ir.opcode) :
    emittedStmts symbols funcNames insns versions =
      some (irs.flatMap fun ir => opcodeStmts symbols funcNames ir.opcode) := by
  rw [emittedStmts, h, Option.bind_some, parse_emitInstructionLines hr]

lemma emittedStmts_single (h : liftInsn d versions = some ([⟨d.address, op⟩], versions'))
    (hr : Backend.Reads symbols funcNames op) :
    emittedStmts symbols funcNames [d] versions = some (opcodeStmts symbols funcNames op) := by
  have hnil : liftInsns [] versions = some ([], versions) := rfl
  have hinsns : liftInsns [d] versions = some ([⟨d.address, op⟩], versions') :=
    liftInsns_concat hnil h
  have hall : ∀ ir ∈ [(⟨d.address, op⟩ : IRInstruction)],
      Backend.Reads symbols funcNames ir.opcode := by
    intro ir hir
    rwa [List.mem_singleton.mp hir]
  rw [emittedStmts_of_lift hinsns hall]
  simp

lemma emittedRun_of_lift (h : liftInsn d versions = some ([⟨d.address, op⟩], versions'))
    (hr : Backend.Reads symbols funcNames op) (σ : Clang.State) :
    emittedRun symbols funcNames [d] versions σ = execAll σ (opcodeStmts symbols funcNames op) := by
  rw [emittedRun, emittedStmts_single h hr, Option.bind_some]

lemma Matches.unique (h : Matches σ s) (h' : Matches σ s') : s = s' := by
  obtain ⟨regs, mem⟩ := s
  obtain ⟨regs', mem'⟩ := s'
  have hregs : regs = regs' := funext fun r => (h.regs r).symm.trans (h'.regs r)
  have hmem : mem = mem' := h.mem.symm.trans h'.mem
  rw [hregs, hmem]

lemma emittedEnds_iff (h : liftInsn d versions = some ([⟨d.address, op⟩], versions'))
    (hr : Backend.Reads symbols funcNames op) {w : U64}
    (hrun : RunsTo σ (opcodeStmts symbols funcNames op) s w) :
    EmittedEnds symbols funcNames [d] versions σ s' ↔ s = s' := by
  obtain ⟨σ', hexec, hm, -⟩ := hrun
  rw [EmittedEnds, emittedRun_of_lift h hr, hexec]
  constructor
  · rintro ⟨_, ⟨⟩, hm'⟩
    exact hm.unique hm'
  · rintro rfl
    exact ⟨σ', rfl, hm⟩

lemma not_emittedEnds (h : liftInsn d versions = some ([⟨d.address, op⟩], versions'))
    (hr : Backend.Reads symbols funcNames op)
    (hrun : execAll σ (opcodeStmts symbols funcNames op) = none) :
    ¬ EmittedEnds symbols funcNames [d] versions σ s' := by
  rintro ⟨σ', hexec, -⟩
  rw [emittedRun_of_lift h hr, hrun] at hexec
  cases hexec

lemma emittedEnds_comment {m : Text} {addr : U64}
    (h : liftInsn d versions = some ([⟨d.address, .unknown m addr⟩], versions')) (hstar : '*' ∉ m)
    (hm : Matches σ s) : EmittedEnds symbols funcNames [d] versions σ s' ↔ s = s' := by
  have hrun : RunsTo σ (opcodeStmts symbols funcNames (.unknown m addr)) s (flagWord σ) :=
    ⟨σ, rfl, hm, rfl⟩
  exact emittedEnds_iff h (reads_unknown hstar addr) hrun

variable {t u : Text} {a b : Source} {r : Reg}

variable (symbols funcNames versions)

lemma emittedEnds_alu {op : AluOp} (ht : ReadAs t a) (hwide : ∀ n, a ≠ .imm n) (hr : Defines t r)
    (hu : ReadAs u b) (h : PrintsAs d op.mnemonic [t, u]) (hm : Matches σ s) (s' : X86.State) :
    EmittedEnds symbols funcNames [d] versions σ s' ↔
      s.set r (op.result (s.read a) (s.read b)) = s' := by
  obtain ⟨lhs, hlhs, hmeans, hlhsWide⟩ := ht.parse versions
  obtain ⟨rhs, hrhs, hmeans', -⟩ := hu.parse versions
  have hlift := liftBinaryAlu_aluOp versions d.address op hr hlhs hrhs
  obtain ⟨hlock, harm⟩ := arm_of_aluOp op
  have hinsn := liftInsn_printsAs h hlock harm (by decide) (piece_pair ht.piece hu.piece) hlift
  have hrun : RunsTo σ (opcodeStmts symbols funcNames
      (aluOpcode op (versions.newVersion r.base).1 lhs rhs)) _ _ :=
    runsTo_alu symbols funcNames hm rfl (hlhsWide hwide) hmeans hmeans'
  exact emittedEnds_iff hinsn (reads_aluOpcode _ _ _ _) hrun

section Moves

variable {m : Text} {mem : MemOperand} {size : Size}

lemma emittedEnds_mov (hmove : IsMove m) (htp : Piece t) (ht : ¬ isMemoryOperand t)
    (hr : Defines t r) (hu : ReadAs u b) (hub : ¬ isMemoryOperand u) (h : PrintsAs d m [t, u])
    (hm : Matches σ s) (s' : X86.State) :
    EmittedEnds symbols funcNames [d] versions σ s' ↔ s.set r (s.read b) = s' := by
  obtain ⟨op, hop, hmeans, -⟩ := hu.parse (versions.newVersion r.base).2
  have hlift := liftMov_register versions m d.address hr ht hub hop
  have hinsn := liftInsn_printsAs h hmove.lock hmove.arm (by decide) (piece_pair htp hu.piece) hlift
  have hembeds : Embeds (.mov r b) (.mov (versions.newVersion r.base).1 op) := .mov rfl hmeans
  exact emittedEnds_iff hinsn (reads_of_embeds symbols funcNames hembeds)
    (runsTo_step symbols funcNames hembeds hm (by intro r h; cases h))

lemma emittedEnds_load (hmove : IsMove m) (htp : Piece t) (ht : ¬ isMemoryOperand t)
    (hr : Defines t r) (h : PrintsAs d m [t, mem.text size]) (hm : Matches σ s) (s' : X86.State) :
    EmittedEnds symbols funcNames [d] versions σ s' ↔
      s.set r (s.mem.load64 (mem.ref.address s.regs)) = s' := by
  have haddress := addressText_operand mem size
  obtain ⟨a, hop, ha⟩ := parseMemoryOperand_operand mem size (versions.newVersion r.base).2
  have hlift := liftMov_memory versions m d.address hr ht haddress.isMemoryOperand hop
  have hinsn := liftInsn_printsAs h hmove.lock hmove.arm (by decide)
    (piece_pair htp haddress.piece) hlift
  have hembeds : Embeds (.mov r (.mem mem.ref)) (.load (versions.newVersion r.base).1 _) :=
    .load rfl (addresses_mem ha)
  exact emittedEnds_iff hinsn (reads_of_embeds symbols funcNames hembeds)
    (runsTo_step symbols funcNames hembeds hm (by intro r h; cases h))

lemma emittedEnds_store {src : Stored} (hmove : IsMove m) (hu : ReadAs u src.source)
    (hub : ¬ isMemoryOperand u) (h : PrintsAs d m [mem.text size, u]) (hm : Matches σ s)
    (s' : X86.State) :
    EmittedEnds symbols funcNames [d] versions σ s' ↔
      { s with mem := s.mem.store64 (mem.ref.address s.regs) (s.read src.source) } = s' := by
  have haddress := addressText_operand mem size
  obtain ⟨a, hlhs, ha⟩ := parseMemoryOperand_operand mem size versions
  obtain ⟨op, hop, hmeans, -⟩ := hu.parse versions
  have hlift := liftMov_store versions m d.address haddress.isMemoryOperand hub hlhs hop
  have hinsn := liftInsn_printsAs h hmove.lock hmove.arm (by decide)
    (piece_pair haddress.piece hu.piece) hlift
  have hembeds : Embeds (.store mem.ref src) (.store _ op) := .store (addresses_mem ha) hmeans
  exact emittedEnds_iff hinsn (reads_of_embeds symbols funcNames hembeds)
    (runsTo_step symbols funcNames hembeds hm (by intro r h; cases h))

end Moves

section Choice

variable (symbols : SymbolTable) (funcNames : TreeMap U64 Text)

def emittedChoice (insns : List DisassembledInsn) (versions : Versions) (σ : Clang.State) :
    Option Bool := do
  let reader ← insns.getLast?
  let stmts ← emittedStmts symbols funcNames insns versions
  let σ ← execAll σ stmts.dropLast
  let e ← stmts.getLast?.bind (conditionOf (parseOperands reader.opStr))
  truthOf σ e

theorem emittedChoice_eq {insns : List DisassembledInsn} {irs : List IRInstruction}
    {versions versions' : Versions} (hlift : liftInsns insns versions = some (irs, versions'))
    (hreads : ∀ ir ∈ irs, Backend.Reads symbols funcNames ir.opcode) {d : DisassembledInsn}
    {k : Reader} {c : Code} (hd : PrintsReader d k c) (σ : Clang.State) :
    emittedChoice symbols funcNames (insns ++ [d]) versions σ =
      (execAll σ (irs.flatMap fun ir => opcodeStmts symbols funcNames ir.opcode)).map
        fun σ' => codeValue (flagWord σ') c := by
  obtain ⟨op, v, hop, hcondition⟩ := liftInsn_reader hd versions'
  obtain ⟨st, e, hst, he, htruth⟩ := stmts_of_reader symbols funcNames hcondition
  have hboth : liftInsns (insns ++ [d]) versions = some (irs ++ [⟨d.address, op⟩], v) :=
    liftInsns_concat hlift hop
  have hall : ∀ ir ∈ irs ++ [⟨d.address, op⟩], Backend.Reads symbols funcNames ir.opcode := by
    intro ir hir
    rcases List.mem_append.mp hir with hir | hir
    · exact hreads ir hir
    · rw [List.mem_singleton.mp hir]
      exact reads_of_condition symbols funcNames hcondition
  have hstmts : emittedStmts symbols funcNames (insns ++ [d]) versions =
      some ((irs.flatMap fun ir => opcodeStmts symbols funcNames ir.opcode) ++ [st]) := by
    rw [emittedStmts_of_lift hboth hall]
    simp [hst]
  simp only [emittedChoice, hstmts, Option.bind_eq_bind, Option.bind_some, List.dropLast_concat,
    List.getLast?_concat, he, htruth, Option.map_eq_bind, Function.comp_def]

end Choice

end Dexe.Straight
