import Dexe.Straight.Agreement
import Dexe.Straight.Emitted
import Dexe.X86.Locations

/-! The address that the emitted C computes for a `lea`, a load or a store. -/

namespace Dexe

namespace X86.Location

variable (l : Location) (next : U64) (regs : Reg → U64)

lemma offset_operand : (l.operand next).offset regs =
    if l.half then (l.ripValue next + l.ref.address regs) &&& Bits.ones 64 32
    else l.ripValue next + l.ref.address regs := by
  rw [MemOperand.offset, operand, ripValue]
  cases l.ripBase <;> rfl

lemma address_operand :
    (l.operand next).address regs = l.segmentBase + (l.operand next).offset regs := rfl

lemma kept_iff (base : U64) :
    l.ref.address regs = base + (l.operand next).offset regs ↔ l.Kept next base regs := by
  rw [l.offset_operand, Kept]
  cases l.half with
  | false =>
    rw [if_neg Bool.false_ne_true, if_neg Bool.false_ne_true, ← add_assoc]
    exact right_eq_add
  | true =>
    have hsum : l.ripValue next + l.ref.address regs =
        base + l.ripValue next + (l.ref.address regs - base) := by ring
    rw [if_pos rfl, if_pos rfl, ← Bits.eq_and_ones_iff (by decide), ← hsum]
    exact sub_eq_iff_eq_add'.symm

end X86.Location

namespace Straight

open Std Ir X86 Clang Backend

def addressTree : Stmt → Option Expr
  | .expr (.bin .assign (.un .deref (.cast .uint64Ptr e)) _) => some e
  | .expr (.bin .assign _ (.un .deref (.cast .uint64Ptr e))) => some e
  | .expr (.bin .assign _ (.cast .uint64 e)) => some e
  | _ => none

variable (symbols : SymbolTable) (funcNames : TreeMap U64 Text)

def emittedAddress (insns : List DisassembledInsn) (versions : Versions) (σ : Clang.State) :
    Option U64 := do
  let stmts ← emittedStmts symbols funcNames insns versions
  let e ← stmts.head?.bind addressTree
  evalInt σ e

variable {symbols funcNames} {d : DisassembledInsn} {versions versions' : Versions} {op : Opcode}
  {σ : Clang.State} {s : X86.State} {addr : Operand} {m : MemRef}

/-- The opcodes that lea, loads and stores are lifted to. -/
inductive UsesAddress (addr : Operand) : Opcode → Prop
  | lea (dst : VarId) : UsesAddress addr (.lea dst addr)
  | load (dst : VarId) : UsesAddress addr (.load dst addr)
  | store (src : Operand) : UsesAddress addr (.store addr src)

lemma emittedAddress_eq (h : liftInsn d versions = some ([⟨d.address, op⟩], versions'))
    (hop : UsesAddress addr op) (haddr : Addresses addr m) (hm : Matches σ s) :
    emittedAddress symbols funcNames [d] versions σ = some (m.address s.regs) := by
  have hreads : Backend.Reads symbols funcNames op := by
    cases hop <;> exact ⟨trivial, by simp [CommentEnds, comment]⟩
  have htree : (opcodeStmts symbols funcNames op).head?.bind addressTree =
      some (.paren (memAddrTree addr)) := by
    cases hop with
    | lea dst | load dst =>
      obtain ⟨base, version⟩ := dst
      cases base <;> rfl
    | store src => rfl
  have hvalue := (hasInt_memAddrTree (σ := σ) addr).paren.evalInt
  rw [hm.addressValue haddr] at hvalue
  rw [emittedAddress, emittedStmts_single h hreads]
  simp only [Option.bind_eq_bind, Option.bind_some, htree, hvalue]

lemma plain_registerName (r : RegisterName) : ∀ c ∈ r.text, Plain c :=
  fun c hc => (inTerm_of_alphanum (r.alphanum c hc)).toPlain

lemma piece_registerName (r : RegisterName) : Piece r.text :=
  .of_plain r.ne_nil (plain_registerName r)

lemma plain_moved (src : Moved) : ∀ c ∈ src.text, Plain c := by
  cases src with
  | reg r => exact plain_registerName r
  | imm n => exact plain_text n

lemma piece_moved (src : Moved) : Piece src.text := by
  cases src with
  | reg r => exact piece_registerName r
  | imm n => exact piece_number n

lemma isMove_mnemonic (m : MoveName) : IsMove m.mnemonic := by
  cases m <;> exact ⟨by decide, by decide⟩

lemma parseSingleOperand_plain {t : Text} (h : ∀ c ∈ t, Plain c) (versions : Versions) :
    ∃ op, parseSingleOperand t versions = some op := by
  simp only [parseSingleOperand, (trimmed_of_plain h).trim_eq, if_neg (not_memory_of_plain h)]
  split <;> exact ⟨_, rfl⟩

variable {l : Location} {size : Text} {next : U64} {u : X86.Use}

lemma liftInsn_use (hsize : size ∈ [] :: sizePrefixes)
    (h : PrintsAs d u.mnemonic (u.operands ((l.operand next).sizedText size)))
    (versions : Versions) :
    ∃ op versions' addr, liftInsn d versions = some ([⟨d.address, op⟩], versions') ∧
      UsesAddress addr op ∧ Addresses addr l.ref := by
  have haddress : AddressText ((l.operand next).sizedText size) :=
    addressText_sized (l.operand next) hsize
  have hparse : ∀ versions, ∃ op,
      parseMemoryOperand ((l.operand next).sizedText size) versions = some op ∧
        Addresses op l.ref := by
    intro versions
    obtain ⟨a, hop, ha⟩ := parseMemoryOperand_sized (l.operand next) hsize versions
    exact ⟨_, hop, addresses_mem ha⟩
  cases u with
  | lea dst =>
    obtain ⟨addr, haddr, hmeans⟩ :=
      hparse (versions.newVersion ((dstRegister dst.text).getD .rax)).2
    have hlift : liftArm .lea "lea" [dst.text, (l.operand next).sizedText size] d versions =
        some (.lea (versions.newVersion ((dstRegister dst.text).getD .rax)).1 addr, _) :=
      (congrArg (Option.bind · _) haddr).trans rfl
    have hlock : lockedMnemonic "lea" = (false, ("lea" : Text)) := by decide
    have harm : armOf false "lea" = .lea := by decide
    exact ⟨_, _, addr, liftInsn_printsAs h hlock harm (by decide)
      (piece_pair (piece_registerName dst) haddress.piece) hlift, .lea _, hmeans⟩
  | load m dst =>
    obtain ⟨addr, haddr, hmeans⟩ :=
      hparse (versions.newVersion ((dstRegister dst.text).getD .rax)).2
    have hlift := liftMov_memory versions m.mnemonic d.address rfl
      (not_memory_of_plain (plain_registerName dst)) haddress.isMemoryOperand haddr
    have hmove := isMove_mnemonic m
    exact ⟨_, _, addr, liftInsn_printsAs h hmove.lock hmove.arm (by decide)
      (piece_pair (piece_registerName dst) haddress.piece) hlift, .load _, hmeans⟩
  | store m src =>
    obtain ⟨addr, haddr, hmeans⟩ := hparse versions
    obtain ⟨op, hop⟩ := parseSingleOperand_plain (plain_moved src) versions
    have hlift := liftMov_store versions m.mnemonic d.address haddress.isMemoryOperand
      (not_memory_of_plain (plain_moved src)) haddr hop
    have hmove := isMove_mnemonic m
    exact ⟨_, _, addr, liftInsn_printsAs h hmove.lock hmove.arm (by decide)
      (piece_pair haddress.piece (piece_moved src)) hlift, .store _, hmeans⟩

/-- The emitted address is the one in the segment exactly where the parts that the lifter drops
cancel out, and the offset alone, which is what `lea` computes, where they do without the
segment. -/
theorem emittedAddress_iff (hsize : size ∈ [] :: sizePrefixes)
    (h : PrintsAs d u.mnemonic (u.operands ((l.operand (nextOf d)).sizedText size)))
    (hm : Matches σ s) :
    (emittedAddress symbols funcNames [d] versions σ =
        some ((l.operand (nextOf d)).address s.regs) ↔
      l.Kept (nextOf d) l.segmentBase s.regs) ∧
    (emittedAddress symbols funcNames [d] versions σ = some ((l.operand (nextOf d)).offset s.regs) ↔
      l.Kept (nextOf d) 0 s.regs) := by
  obtain ⟨op, versions', addr, hlift, hop, haddr⟩ := liftInsn_use hsize h versions
  rw [emittedAddress_eq hlift hop haddr hm, Option.some_inj, Option.some_inj, l.address_operand,
    ← l.kept_iff, ← l.kept_iff, zero_add]
  exact ⟨Iff.rfl, Iff.rfl⟩

def ripLoad : DisassembledInsn := ⟨0x1000, 7, "mov", "rax, qword ptr [rip + 0x2000]", []⟩

def ripData : Location := ⟨⟨none, none, some ⟨false, 0x2000, by decide⟩⟩, false, true, none⟩

def loadRax : X86.Use := .load .mov ⟨"rax", by decide, by decide⟩

lemma printsAs_ripLoad :
    PrintsAs ripLoad loadRax.mnemonic
      (loadRax.operands ((ripData.operand (nextOf ripLoad)).sizedText "qword ptr ")) :=
  ⟨rfl, by decide⟩

theorem ripLoad_drops_rip :
    emittedAddress ∅ ∅ [ripLoad] Versions.initial (fieldsOf (sample 0 0 0 0)) ≠
      some ((ripData.operand (nextOf ripLoad)).address (sample 0 0 0 0).regs) := by
  obtain ⟨op, versions', addr, hlift, hop, haddr⟩ :=
    liftInsn_use (show ("qword ptr " : Text) ∈ [] :: sizePrefixes by decide) printsAs_ripLoad
      Versions.initial
  rw [emittedAddress_eq hlift hop haddr (matches_fieldsOf _)]
  decide

theorem ripLoad_iff :
    (emittedAddress ∅ ∅ [ripLoad] Versions.initial (fieldsOf (sample 0 0 0 0)) =
        some ((ripData.operand (nextOf ripLoad)).address (sample 0 0 0 0).regs) ↔
      ripData.Kept (nextOf ripLoad) ripData.segmentBase (sample 0 0 0 0).regs) ∧
    (emittedAddress ∅ ∅ [ripLoad] Versions.initial (fieldsOf (sample 0 0 0 0)) =
        some ((ripData.operand (nextOf ripLoad)).offset (sample 0 0 0 0).regs) ↔
      ripData.Kept (nextOf ripLoad) 0 (sample 0 0 0 0).regs) :=
  emittedAddress_iff (l := ripData) (by decide) printsAs_ripLoad (matches_fieldsOf _)

end Straight

end Dexe
