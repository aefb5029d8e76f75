import Dexe.Control.Machine
import Dexe.Straight.Agreement
import Dexe.Straight.Stack
import Dexe.X86.Programs

/-! The opcodes that the printed instructions of a function are lifted to. -/

namespace Dexe.Programs

open Std Ir X86 Clang Backend Straight Cfg Versions

/-- The operand of a return that releases so many bytes of arguments; without one, it releases
none. -/
def Releases (opStr : Text) (args : BitVec 16) : Prop :=
  (opStr = [] ∧ args = 0) ∨ opStr = magnitudeText args.toNat

def nopMnemonics : List Text := ["nop", "endbr64", "endbr32", "fnop", "pause"]

inductive Shows (d : DisassembledInsn) : Instr → Prop
  | plain {i : Insn} (h : Prints d i) : Shows d (.plain i)
  | push {src : Source} (h : PrintsAs d "push" [src.text]) : Shows d (.push src)
  | pop {r : Reg} (h : PrintsAs d "pop" [r.name]) : Shows d (.pop r)
  | leave (h : PrintsAs d "leave" []) : Shows d .leave
  | move {c : Cond} {t : Text} {dst : Reg} {src : Factor} (ht : t ∈ c.suffixes)
      (h : PrintsAs d ("cmov" ++ t) [dst.name, src.source.text]) : Shows d (.move c dst src)
  | nop (h : d.mnemonic ∈ nopMnemonics) : Shows d .nop
  | jump {a : U64} (hm : d.mnemonic = "jmp") (h : hexOperand d.opStr = some a.toNat) :
      Shows d (.jump a)
  | branch {c : Cond} {t : Text} {a : U64} (ht : t ∈ c.suffixes) (hm : d.mnemonic = "j" ++ t)
      (hjump : d.mnemonic ∈ condJumps) (h : hexOperand d.opStr = some a.toNat) :
      Shows d (.branch c a)
  | ret {args : BitVec 16} (h : IsRet d.mnemonic) (hargs : Releases d.opStr args) :
      Shows d (.ret args)

inductive Compiles : Instr → List Opcode → Prop
  | plain {i : Insn} {op : Opcode} (h : Embeds i op) : Compiles (.plain i) [op]
  | push {src : Source} {op : Operand} (h : Means op src) : Compiles (.push src) [.push op]
  | pop {r : Reg} {dst : VarId} (h : dst.base = r.base) : Compiles (.pop r) [.pop dst]
  | leave {dst dst' : VarId} {op : Operand} (hdst : dst.base = .rsp) (hop : Means op (.reg .rbp))
      (hdst' : dst'.base = .rbp) : Compiles .leave [.mov dst op, .pop dst']
  | move {c : Cond} {r : Reg} {src : Factor} {dst : VarId} {op : Operand} (hdst : dst.base = r.base)
      (hop : Means op src.source) (hwide : Wide op) :
      Compiles (.move c r src) [.cmovcc (condition c) dst op]
  | nop : Compiles .nop [.nop]
  | jump (a : U64) : Compiles (.jump a) [.jmp a]
  | branch (c : Cond) (a fallthrough : U64) :
      Compiles (.branch c a) [.jcc (condition c) a fallthrough]
  | ret (args : BitVec 16) : Compiles (.ret args) [.ret]

def codeOf (addr : U64) (ops : List Opcode) : List IRInstruction := ops.map (⟨addr, ·⟩)

variable {d : DisassembledInsn} {i : Instr} (versions : Versions)

lemma liftInsn_arm {arm : Arm} {op : Opcode} {versions versions' : Versions}
    (harm : armOfInsn d = arm) (hleave : arm ≠ .leave)
    (h : liftArm arm (lockedMnemonic d.mnemonic).2 (parseOperands d.opStr) d versions =
      some (op, versions')) :
    liftInsn d versions = some (codeOf d.address [op], versions') :=
  liftInsn_of (harm ▸ hleave) (harm ▸ h)

lemma liftInsn_leave (h : PrintsAs d "leave" []) :
    ∃ dst op dst' versions', liftInsn d versions =
        some (codeOf d.address [.mov dst op, .pop dst'], versions') ∧
      dst.base = .rsp ∧ Means op (.reg .rbp) ∧ dst'.base = .rbp := by
  have harm : armOf (lockedMnemonic d.mnemonic).1 (lockedMnemonic d.mnemonic).2 = .leave := by
    rw [h.mnemonic]
    decide
  let sp := versions.newVersion .rsp
  refine ⟨sp.1, .var (versions.currentVar .rbp), (sp.2.newVersion .rbp).1,
    (sp.2.newVersion .rbp).2, ?_,
    newVersion_base versions .rsp, means_name .rbp versions, newVersion_base sp.2 .rbp⟩
  rw [liftInsn]
  simp only [harm]
  rfl

lemma liftInsn_move {c : Cond} {t : Text} {r : Reg} {src : Factor} (ht : t ∈ c.suffixes)
    (h : PrintsAs d ("cmov" ++ t) [r.name, src.source.text]) :
    ∃ dst op versions', liftInsn d versions =
        some (codeOf d.address [.cmovcc (condition c) dst op], versions') ∧
      dst.base = r.base ∧ Means op src.source ∧ Wide op := by
  have hcode : t ∈ (Code.cond c).suffixes := ht
  obtain ⟨op, hop, hmeans, hwide⟩ := parseSingleOperand_text src.source versions
  have hnum : ∀ n, src.source ≠ .imm n := by cases src <;> simp [Factor.source]
  have harm : lockedMnemonic ("cmov" ++ t) = (false, "cmov" ++ t) ∧
      armOf false ("cmov" ++ t) = .cmov := arm_of_reader (.move r.name src.source.text) hcode
  have hcondition : parseConditionSuffix (List.drop 4 ("cmov" ++ t)) = condition c :=
    (suffix_condition hcode).2
  have hlift : liftArm .cmov ("cmov" ++ t) [r.name, src.source.text] d versions =
      some (.cmovcc (condition c) (versions.newVersion r.base).1 op,
        (versions.newVersion r.base).2) := by
    rw [← hcondition, ← base_name r]
    exact (congrArg (Option.bind · _) hop).trans rfl
  refine ⟨_, op, (versions.newVersion r.base).2, ?_, newVersion_base versions r.base, hmeans,
    hwide hnum⟩
  exact liftInsn_printsAs h harm.1 harm.2 (by decide)
    (piece_pair (piece_name r) (piece_source src.source)) hlift

lemma liftInsn_push {src : Source} (h : PrintsAs d "push" [src.text]) :
    ∃ op, liftInsn d versions = some (codeOf d.address [.push op], versions) ∧ Means op src := by
  obtain ⟨op, hop, hmeans, -⟩ := parseSingleOperand_text src versions
  have hlift : liftArm .push "push" [src.text] d versions = some (.push op, versions) := by
    simp only [liftArm, hop]
    rfl
  exact ⟨op, liftInsn_printsAs h (by decide) (by decide) (by decide)
    (piece_single (piece_source src)) hlift, hmeans⟩

lemma liftInsn_pop {r : Reg} (h : PrintsAs d "pop" [r.name]) :
    liftInsn d versions =
      some (codeOf d.address [.pop (versions.newVersion r.base).1],
        (versions.newVersion r.base).2) := by
  have hlift : liftArm .pop "pop" [r.name] d versions =
      some (.pop (versions.newVersion r.base).1, (versions.newVersion r.base).2) := by
    simp only [liftArm, base_name r]
  exact liftInsn_printsAs h (by decide) (by decide) (by decide) (piece_single (piece_name r)) hlift

lemma liftInsn_nop (h : d.mnemonic ∈ nopMnemonics) :
    liftInsn d versions = some (codeOf d.address [.nop], versions) := by
  have hall : ∀ m ∈ nopMnemonics, armOf (lockedMnemonic m).1 (lockedMnemonic m).2 = .nop := by
    decide
  exact liftInsn_arm (hall _ h) (by decide) rfl

lemma liftInsn_ret (h : IsRet d.mnemonic) :
    liftInsn d versions = some (codeOf d.address [.ret], versions) := by
  have hall : ∀ m ∈ ([("ret" : Text), "retn"] : List Text),
      armOf (lockedMnemonic m).1 (lockedMnemonic m).2 = .ret := by decide
  have hmem : d.mnemonic ∈ ([("ret" : Text), "retn"] : List Text) := by
    rcases h with h | h <;> simp [h]
  exact liftInsn_arm (hall _ hmem) (by decide) rfl

lemma liftInsn_jump {a : U64} (hm : d.mnemonic = "jmp")
    (h : hexOperand d.opStr = some a.toNat) :
    liftInsn d versions = some (codeOf d.address [.jmp a], versions) := by
  apply liftInsn_arm (armOfInsn_jmp hm) (by decide)
  simp only [parseOperands_hexOperand h, liftArm, liftJmp, Control.parseImmediate_target h,
    Option.map_some]

lemma liftInsn_branch {c : Cond} {t : Text} {a : U64} (ht : t ∈ c.suffixes)
    (hm : d.mnemonic = "j" ++ t) (hjump : d.mnemonic ∈ condJumps)
    (h : hexOperand d.opStr = some a.toNat) :
    liftInsn d versions =
      some (codeOf d.address [.jcc (condition c) a (nextAddress d)], versions) := by
  have hcode : t ∈ (Code.cond c).suffixes := ht
  have hlock := (arm_of_reader (.jump d.opStr) hcode).1
  have hcondition : parseConditionSuffix (lockedMnemonic d.mnemonic).2 = condition c := by
    rw [hm]
    exact (congrArg (fun p => parseConditionSuffix p.2) hlock).trans (suffix_condition hcode).1
  apply liftInsn_arm (armOfInsn_condJump hjump) (by decide)
  simp only [parseOperands_hexOperand h, liftArm, hcondition, jccTarget,
    Control.parseImmediate_target h, Option.getD_some]

theorem liftInsn_shows (h : Shows d i) :
    ∃ ops versions', liftInsn d versions = some (codeOf d.address ops, versions') ∧
      Compiles i ops := by
  cases h with
  | plain h =>
    obtain ⟨op, versions', hlift, hembeds⟩ := liftInsn_printed versions h
    exact ⟨[op], versions', hlift, .plain hembeds⟩
  | push h =>
    obtain ⟨op, hlift, hmeans⟩ := liftInsn_push versions h
    exact ⟨_, _, hlift, .push hmeans⟩
  | pop h => exact ⟨_, _, liftInsn_pop versions h, .pop (newVersion_base versions _)⟩
  | leave h =>
    obtain ⟨dst, op, dst', versions', hlift, hdst, hop, hdst'⟩ := liftInsn_leave versions h
    exact ⟨_, _, hlift, .leave hdst hop hdst'⟩
  | move ht h =>
    obtain ⟨dst, op, versions', hlift, hdst, hop, hwide⟩ := liftInsn_move versions ht h
    exact ⟨_, _, hlift, .move hdst hop hwide⟩
  | nop h => exact ⟨_, _, liftInsn_nop versions h, .nop⟩
  | jump hm h => exact ⟨_, _, liftInsn_jump versions hm h, .jump _⟩
  | branch ht hm hjump h => exact ⟨_, _, liftInsn_branch versions ht hm hjump h, .branch _ _ _⟩
  | ret h _ => exact ⟨_, _, liftInsn_ret versions h, .ret _⟩

end Dexe.Programs
