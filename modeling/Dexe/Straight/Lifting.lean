import Dexe.Ir.PrintedOperands
import Dexe.Ir.Transfers

/-! Lifting a printed instruction gives one opcode, with operands that mean what was printed. -/

namespace Dexe.Straight

open Ir X86 Versions

def aluOpcode (op : AluOp) (dst : VarId) (lhs rhs : Operand) : Opcode :=
  match op with
  | .add => .add dst lhs rhs
  | .sub => .sub dst lhs rhs
  | .and => .and dst lhs rhs
  | .or => .or dst lhs rhs
  | .xor => .xor dst lhs rhs
  | .imul => .mul dst lhs rhs

def compareOpcode (op : CompareOp) (lhs rhs : Operand) : Opcode :=
  match op with
  | .cmp => .cmp lhs rhs
  | .test => .test lhs rhs

def unaryOpcode (op : UnaryOp) (dst : VarId) (src : Operand) : Opcode :=
  match op with
  | .not => .not dst src
  | .neg => .neg dst src
  | .inc => .add dst src (.imm 1)
  | .dec => .sub dst src (.imm 1)

def Addresses (op : Operand) (m : MemRef) : Prop :=
  ∀ (regs : VarBase → U64) (mem : Memory),
    addressValue regs mem op = m.address fun r => regs r.base

inductive Embeds : Insn → Opcode → Prop
  | mov {r src dst op} (hdst : dst.base = Reg.base r) (hop : Means op src) :
      Embeds (.mov r src) (.mov dst op)
  | load {r m dst op} (hdst : dst.base = Reg.base r) (hop : Addresses op m) :
      Embeds (.mov r (.mem m)) (.load dst op)
  | store {m src addr op} (haddr : Addresses addr m) (hop : Means op src.source) :
      Embeds (.store m src) (.store addr op)
  | lea {r m dst op} (hdst : dst.base = Reg.base r) (hop : Addresses op m) :
      Embeds (.lea r m) (.lea dst op)
  | alu {op r src dst lhs rhs} (hdst : dst.base = Reg.base r) (hwide : Wide lhs)
      (hlhs : Means lhs (.reg r)) (hrhs : Means rhs src) :
      Embeds (.alu op r src) (aluOpcode op dst lhs rhs)
  | imul {r a n dst lhs rhs} (hdst : dst.base = Reg.base r) (hwide : Wide lhs)
      (hlhs : Means lhs a.source) (hrhs : Means rhs (.imm n)) :
      Embeds (.imul r a n) (.mul dst lhs rhs)
  | unary {op r dst src} (hdst : dst.base = Reg.base r) (hwide : Wide src)
      (hsrc : Means src (.reg r)) : Embeds (.unary op r) (unaryOpcode op dst src)
  | compare {op r src lhs rhs} (hwide : Wide lhs) (hlhs : Means lhs (.reg r))
      (hrhs : Means rhs src) : Embeds (.compare op r src) (compareOpcode op lhs rhs)

lemma liftInsn_of {d : DisassembledInsn} {versions versions' : Versions} {op : Opcode}
    (harm : armOfInsn d ≠ .leave)
    (h : liftArm (armOfInsn d) (lockedMnemonic d.mnemonic).2 (parseOperands d.opStr) d versions =
      some (op, versions')) :
    liftInsn d versions = some ([⟨d.address, op⟩], versions') := by
  have hbefore := liftBefore_of_ne harm versions
  rw [liftInsn]
  rw [armOfInsn] at hbefore h
  simp only [hbefore, h, Option.bind_eq_bind, Option.bind_some, List.nil_append, List.map_singleton]
  rfl

variable {d : DisassembledInsn} (versions : Versions)

lemma reads {arm : Arm} {m : Text} {ts : List Text} (hm : d.mnemonic = m)
    (hlock : lockedMnemonic m = (false, m)) (harm : armOf false m = arm) (hts : ∀ t ∈ ts, Piece t)
    (hops : d.opStr = operandsText ts) :
    armOfInsn d = arm ∧ (lockedMnemonic d.mnemonic).2 = m ∧ parseOperands d.opStr = ts := by
  rw [armOfInsn]
  rw [hm, hlock, hops, parseOperands_operandsText hts]
  exact ⟨harm, rfl, rfl⟩

lemma piece_name (r : Reg) : Piece r.name := .of_plain (termText_name r).ne_nil (plain_name r)

lemma piece_number (n : Numeral) : Piece n.text := by
  refine .of_plain ?_ (plain_text n)
  rw [Numeral.text]
  split
  · simp
  · exact magnitude_ne_nil _

lemma piece_source (src : Source) : Piece src.text := by
  cases src with
  | reg r => exact piece_name r
  | imm n => exact piece_number n
  | mem m => exact .of_mem (.inl rfl)

lemma piece_single {t : Text} (ht : Piece t) : ∀ u ∈ [t], Piece u := by
  intro u hu
  rwa [List.mem_singleton.mp hu]

lemma piece_pair {t u : Text} (ht : Piece t) (hu : Piece u) : ∀ v ∈ [t, u], Piece v := by
  intro v hv
  simp only [List.mem_cons, List.not_mem_nil, or_false] at hv
  rcases hv with rfl | rfl
  · exact ht
  · exact hu

lemma base_name (r : Reg) : (dstRegister r.name).getD .rax = r.base := by
  rw [dstRegister_name, Option.getD_some]

lemma means_name (r : Reg) (versions : Versions) :
    Means (.var (versions.currentVar r.base)) (.reg r) := fun _ _ => rfl

lemma wide_var (v : VarId) : Wide (.var v) := fun _ h => by cases h

lemma addresses_mem {m : MemRef} {a : AddressState}
    (h : ∀ regs, a.value regs = m.address fun r => regs r.base) :
    Addresses (.mem a.baseReg a.indexReg a.scale a.disp) m := fun regs _ => h regs

lemma parseMemoryOperand_addresses {m : MemRef} {t : Text} (h : IsMemText m t)
    (versions : Versions) : ∃ op, parseMemoryOperand t versions = some op ∧ Addresses op m := by
  obtain ⟨a, hparse, ha⟩ := parseMemoryOperand_text h versions
  exact ⟨_, hparse, addresses_mem ha⟩

section Arms

variable (m : Text) (addr : U64) {dst src : Text} {op rhs lhs : Operand}

lemma liftMov_store (hdst : isMemoryOperand dst) (hsrc : ¬ isMemoryOperand src)
    (hlhs : parseMemoryOperand dst versions = some lhs)
    (hop : parseSingleOperand src versions = some op) :
    liftMov [dst, src] m addr versions = some (.store lhs op, versions) := by
  rw [liftMov, if_pos ⟨hdst, hsrc⟩, hlhs, hop]
  rfl

variable {b : VarBase}

lemma liftMov_register (hb : (dstRegister dst).getD .rax = b) (hdst : ¬ isMemoryOperand dst)
    (hsrc : ¬ isMemoryOperand src)
    (hop : parseSingleOperand src (versions.newVersion b).2 = some op) :
    liftMov [dst, src] m addr versions =
      some (.mov (versions.newVersion b).1 op, (versions.newVersion b).2) := by
  subst hb
  rw [liftMov, if_neg (fun h => hdst h.1), if_neg (fun h => hsrc h.2)]
  exact (congrArg (Option.bind · _) hop).trans rfl

lemma liftMov_memory (hb : (dstRegister dst).getD .rax = b) (hdst : ¬ isMemoryOperand dst)
    (hsrc : isMemoryOperand src)
    (hop : parseMemoryOperand src (versions.newVersion b).2 = some op) :
    liftMov [dst, src] m addr versions =
      some (.load (versions.newVersion b).1 op, (versions.newVersion b).2) := by
  subst hb
  rw [liftMov, if_neg (fun h => hdst h.1), if_pos ⟨hdst, hsrc⟩]
  exact (congrArg (Option.bind · _) hop).trans rfl

lemma liftBinaryAlu_aluOp (alu : AluOp) (hb : (dstRegister dst).getD .rax = b)
    (hlhs : parseSingleOperand dst versions = some lhs)
    (hrhs : parseSingleOperand src versions = some rhs) :
    liftBinaryAlu alu.mnemonic [dst, src] addr versions =
      some (aluOpcode alu (versions.newVersion b).1 lhs rhs, (versions.newVersion b).2) := by
  subst hb
  simp only [liftBinaryAlu, List.getLast_singleton, if_true, hrhs, hlhs]
  cases alu <;> rfl

variable (r : Reg)

lemma liftBinaryAlu_imul (hlhs : parseSingleOperand dst versions = some lhs)
    (hrhs : parseSingleOperand src versions = some rhs) :
    liftBinaryAlu "imul" [r.name, dst, src] addr versions =
      some (.mul (versions.newVersion r.base).1 lhs rhs, (versions.newVersion r.base).2) := by
  have hlast : [dst, src].getLast (by simp) = src := rfl
  have hmore : ([src] : List Text) ≠ [] := by simp
  simp only [liftBinaryAlu, hlast, if_neg hmore, hlhs, hrhs, dstRegister_name, Option.getD_some]
  rfl

lemma liftUnaryReg_name (kind : Text) :
    liftUnaryReg kind [r.name] addr versions =
      let dst := (versions.newVersion r.base).1
      let src := Operand.var (versions.currentVar r.base)
      if kind = "not" then some (.not dst src, (versions.newVersion r.base).2)
      else if kind = "neg" then some (.neg dst src, (versions.newVersion r.base).2)
      else Ir.unknown kind addr (versions.newVersion r.base).2 := by
  rw [liftUnaryReg, if_neg (not_memory_of_plain (plain_name r)), dstRegister_name]
  rfl

end Arms

def armOfPrinted : Insn → Arm
  | .mov _ _ | .store _ _ => .mov
  | .lea _ _ => .lea
  | .alu _ _ _ | .imul _ _ _ => .alu
  | .unary .not _ => .not
  | .unary .neg _ => .neg
  | .unary .inc _ => .inc
  | .unary .dec _ => .dec
  | .compare .cmp _ _ => .cmp
  | .compare .test _ _ => .test

lemma arm_of_aluOp (op : AluOp) :
    lockedMnemonic op.mnemonic = (false, op.mnemonic) ∧ armOf false op.mnemonic = .alu := by
  cases op <;> decide

lemma arm_of_mnemonic {i : Insn} {m : Text} (hm : m ∈ i.mnemonics) :
    lockedMnemonic m = (false, m) ∧ armOf false m = armOfPrinted i := by
  cases i with
  | mov | store =>
    have h : ∀ m ∈ ([("mov" : Text), "movabs"] : List Text),
        lockedMnemonic m = (false, m) ∧ armOf false m = .mov := by decide
    exact h m hm
  | lea =>
    rw [List.mem_singleton.mp hm]
    exact (by decide : lockedMnemonic "lea" = (false, ("lea" : Text)) ∧ armOf false "lea" = .lea)
  | imul =>
    rw [List.mem_singleton.mp hm]
    exact (by decide : lockedMnemonic "imul" = (false, ("imul" : Text)) ∧
      armOf false "imul" = .alu)
  | alu op =>
    rw [List.mem_singleton.mp hm]
    exact arm_of_aluOp op
  | unary op r =>
    have h : ∀ op, lockedMnemonic (UnaryOp.mnemonic op) = (false, op.mnemonic) ∧
        armOf false op.mnemonic = armOfPrinted (.unary op .rax) := by
      intro op
      cases op <;> decide
    rw [List.mem_singleton.mp hm]
    have := h op
    cases op <;> exact this
  | compare op r src =>
    have h : ∀ op, lockedMnemonic (CompareOp.mnemonic op) = (false, op.mnemonic) ∧
        armOf false op.mnemonic = armOfPrinted (.compare op .rax (.reg .rax)) := by
      intro op
      cases op <;> decide
    rw [List.mem_singleton.mp hm]
    have := h op
    cases op <;> exact this

lemma piece_operands {i : Insn} {ts : List Text} (hts : ts ∈ i.operands) : ∀ t ∈ ts, Piece t := by
  cases i with
  | mov r src =>
    rw [List.mem_singleton.mp hts]
    exact piece_pair (piece_name r) (piece_source src)
  | store m src =>
    rw [List.mem_singleton.mp hts]
    exact piece_pair (.of_mem (.inl rfl)) (piece_source src.source)
  | lea r m =>
    simp only [Insn.operands, List.mem_cons, List.not_mem_nil, or_false] at hts
    rcases hts with rfl | rfl
    · exact piece_pair (piece_name r) (.of_mem (.inr rfl))
    · exact piece_pair (piece_name r) (.of_mem (.inl rfl))
  | alu op r src =>
    rw [List.mem_singleton.mp hts]
    exact piece_pair (piece_name r) (piece_source src)
  | imul r a n =>
    rw [List.mem_singleton.mp hts]
    intro t ht
    rcases List.mem_cons.mp ht with rfl | ht
    · exact piece_name r
    · exact piece_pair (piece_source a.source) (piece_number n) t ht
  | unary op r =>
    rw [List.mem_singleton.mp hts]
    exact piece_single (piece_name r)
  | compare op r src =>
    rw [List.mem_singleton.mp hts]
    exact piece_pair (piece_name r) (piece_source src)

lemma not_memory_stored (src : Stored) : ¬ isMemoryOperand src.source.text := by
  cases src with
  | reg r => exact not_memory_of_plain (plain_name r)
  | imm n => exact not_memory_of_plain (plain_text n)

lemma liftArm_printed {i : Insn} {m : Text} {ts : List Text} (hm : m ∈ i.mnemonics)
    (hts : ts ∈ i.operands) :
    ∃ op versions', liftArm (armOfPrinted i) m ts d versions = some (op, versions') ∧
      Embeds i op := by
  have hreg : ∀ r : Reg, Wide (.var (versions.currentVar r.base)) := fun r => wide_var _
  cases i with
  | mov r src =>
    rw [List.mem_singleton.mp hts]
    have hdst := not_memory_of_plain (plain_name r)
    have hmov : ∀ src : Source, ¬ isMemoryOperand src.text → ∃ op versions',
        liftMov [r.name, src.text] m d.address versions = some (op, versions') ∧
          Embeds (.mov r src) op := by
      intro src hsrc
      obtain ⟨op, hop, hmeans, -⟩ := parseSingleOperand_text src (versions.newVersion r.base).2
      exact ⟨_, _, liftMov_register versions m d.address (base_name r) hdst hsrc hop,
        .mov (newVersion_base versions r.base) hmeans⟩
    cases src with
    | reg s => exact hmov (.reg s) (not_memory_of_plain (plain_name s))
    | imm n => exact hmov (.imm n) (not_memory_of_plain (plain_text n))
    | mem mr =>
      obtain ⟨op, hop, haddr⟩ :=
        parseMemoryOperand_addresses (.inl rfl) (versions.newVersion r.base).2 (m := mr)
      have hmem : isMemoryOperand mr.text := IsMemText.isMemoryOperand (.inl rfl)
      exact ⟨_, _, liftMov_memory versions m d.address (base_name r) hdst hmem hop,
        .load (newVersion_base versions r.base) haddr⟩
  | store mr src =>
    rw [List.mem_singleton.mp hts]
    obtain ⟨addr, haddr, hmr⟩ := parseMemoryOperand_addresses (.inl rfl) versions (m := mr)
    obtain ⟨op, hop, hmeans, -⟩ := parseSingleOperand_text src.source versions
    refine ⟨_, versions, ?_, .store hmr hmeans⟩
    have hmem : isMemoryOperand mr.text := IsMemText.isMemoryOperand (.inl rfl)
    exact liftMov_store versions m d.address hmem (not_memory_stored src) haddr hop
  | lea r mr =>
    have htext : ∀ t, IsMemText mr t → ∃ op versions',
        liftArm .lea m [r.name, t] d versions = some (op, versions') ∧ Embeds (.lea r mr) op := by
      intro t ht
      obtain ⟨op, hop, haddr⟩ := parseMemoryOperand_addresses ht (versions.newVersion r.base).2
      refine ⟨_, (versions.newVersion r.base).2, ?_, .lea (newVersion_base versions r.base) haddr⟩
      simp only [liftArm, dstRegister_name, Option.getD_some]
      exact (congrArg (Option.bind · _) hop).trans rfl
    simp only [Insn.operands, List.mem_cons, List.not_mem_nil, or_false] at hts
    rcases hts with rfl | rfl
    · exact htext _ (.inr rfl)
    · exact htext _ (.inl rfl)
  | alu op r src =>
    rw [List.mem_singleton.mp hts, List.mem_singleton.mp hm]
    obtain ⟨rhs, hrhs, hmeans, -⟩ := parseSingleOperand_text src versions
    refine ⟨_, (versions.newVersion r.base).2, ?_,
      .alu (newVersion_base versions r.base) (hreg r) (means_name r versions) hmeans⟩
    exact liftBinaryAlu_aluOp versions d.address op (base_name r)
      (parseSingleOperand_name r versions) hrhs
  | imul r a n =>
    rw [List.mem_singleton.mp hts, List.mem_singleton.mp hm]
    obtain ⟨lhs, hlhs, hmeans, hwide⟩ := parseSingleOperand_text a.source versions
    have hsource : ∀ n, a.source ≠ .imm n := by cases a <;> simp [Factor.source]
    have hrhs : Means (.imm n.value) (.imm n) := fun _ _ => rfl
    refine ⟨_, (versions.newVersion r.base).2, ?_,
      .imul (newVersion_base versions r.base) (hwide hsource) hmeans hrhs⟩
    exact liftBinaryAlu_imul versions d.address r hlhs (parseSingleOperand_number n versions)
  | unary op r =>
    rw [List.mem_singleton.mp hts]
    refine ⟨unaryOpcode op (versions.newVersion r.base).1 (.var (versions.currentVar r.base)),
      (versions.newVersion r.base).2, ?_,
      .unary (newVersion_base versions r.base) (hreg r) (means_name r versions)⟩
    cases op with
    | not | neg => exact liftUnaryReg_name versions d.address r _
    | inc | dec =>
      simp only [armOfPrinted, liftArm, dstRegister_name, Option.getD_some]
      rfl
  | compare op r src =>
    rw [List.mem_singleton.mp hts]
    obtain ⟨rhs, hrhs, hmeans, -⟩ := parseSingleOperand_text src versions
    refine ⟨compareOpcode op (.var (versions.currentVar r.base)) rhs, versions, ?_,
      .compare (hreg r) (means_name r versions) hmeans⟩
    cases op <;>
      simp only [armOfPrinted, liftArm, parseSingleOperand_name, hrhs, Option.bind_eq_bind,
        Option.bind_some] <;> rfl

theorem liftInsn_printed {i : Insn} (h : Prints d i) :
    ∃ op versions', liftInsn d versions = some ([⟨d.address, op⟩], versions') ∧ Embeds i op := by
  obtain ⟨hmnemonic, ts, hts, hops⟩ := h
  obtain ⟨hlock, harm⟩ := arm_of_mnemonic hmnemonic
  obtain ⟨harm, hm, hparse⟩ := reads rfl hlock harm (piece_operands hts) hops
  obtain ⟨op, versions', hlift, hembeds⟩ := liftArm_printed versions hmnemonic hts (d := d)
  refine ⟨op, versions', liftInsn_of ?_ ?_, hembeds⟩
  · rw [harm]
    cases i with
    | unary op => cases op <;> simp [armOfPrinted]
    | compare op => cases op <;> simp [armOfPrinted]
    | _ => simp [armOfPrinted]
  · rw [harm, hm, hparse, hlift]

structure PrintsAs (d : DisassembledInsn) (m : Text) (ts : List Text) : Prop where
  mnemonic : d.mnemonic = m
  operands : d.opStr = operandsText ts

lemma liftInsn_armed {d : DisassembledInsn} {m m' : Text} {lock : Bool} {ts : List Text} {arm : Arm}
    {versions versions' : Versions} {op : Opcode} (h : PrintsAs d m ts)
    (hlock : lockedMnemonic m = (lock, m')) (harm : armOf lock m' = arm) (hleave : arm ≠ .leave)
    (hts : ∀ t ∈ ts, Piece t) (hlift : liftArm arm m' ts d versions = some (op, versions')) :
    liftInsn d versions = some ([⟨d.address, op⟩], versions') := by
  have hlocked : lockedMnemonic d.mnemonic = (lock, m') := by rw [h.mnemonic, hlock]
  have harm' : armOfInsn d = arm := by rw [armOfInsn, hlocked, harm]
  have hops : parseOperands d.opStr = ts := by rw [h.operands, parseOperands_operandsText hts]
  apply liftInsn_of
  · rwa [harm']
  · rw [harm', hlocked, hops, hlift]

lemma liftInsn_printsAs {d : DisassembledInsn} {m : Text} {ts : List Text} {arm : Arm}
    {versions versions' : Versions} {op : Opcode} (h : PrintsAs d m ts)
    (hlock : lockedMnemonic m = (false, m)) (harm : armOf false m = arm) (hleave : arm ≠ .leave)
    (hts : ∀ t ∈ ts, Piece t) (hlift : liftArm arm m ts d versions = some (op, versions')) :
    liftInsn d versions = some ([⟨d.address, op⟩], versions') :=
  liftInsn_armed h hlock harm hleave hts hlift

end Dexe.Straight
