import Dexe.Straight.Widening
import Dexe.X86.Access

/-! Moves from and to memory of a size: the emitted C loads and stores eight bytes. -/

namespace Dexe.X86

/-- What is stored: the whole register, or the number. A segment register is not known and read
as 0. -/
def Given.whole : Given → Stored
  | reg t => .reg t.parent
  | segment _ => .imm ⟨false, 0, by decide⟩
  | imm n => .imm n

def Loaded.parent : Loaded → Reg
  | reg t => t.parent
  | segment _ => .rax

/-- The eight bytes at the address of the brackets are all of the operand that a store is to write,
and those outside of it are there already; a load is one of these eight bytes. -/
def Access.Fits (s : State) : Access → Prop
  | .store m size src =>
    let a := m.address s.regs
    let b := m.ref.address s.regs
    (∀ i < 8, size.bytes ≤ (b + BitVec.ofNat 64 i - a).toNat →
      s.mem (b + BitVec.ofNat 64 i) = Memory.byteOf (s.read src.whole.source).toNat i) ∧
    ∀ i < size.bytes, (a + BitVec.ofNat 64 i - b).toNat < 8
  | .load _ m size => size = .qword ∧ m.Direct s.regs

lemma MemOperand.contains_iff (m : MemOperand) (size : Size) (regs : Reg → U64) :
    (∀ i < 8, (m.ref.address regs + BitVec.ofNat 64 i - m.address regs).toNat < size.bytes) ↔
      size = .qword ∧ m.Direct regs := by
  constructor
  · intro h
    have hle := size.bytes_le
    have hfirst : (m.ref.address regs - m.address regs).toNat < size.bytes := by
      simpa using h 0 (by omega)
    have hlast := h 7 (by omega)
    rw [add_sub_right_comm, BitVec.toNat_add, BitVec.toNat_ofNat] at hlast
    have hsize := size.eq_qword (by omega)
    have hzero : m.ref.address regs - m.address regs = 0 := by
      apply BitVec.eq_of_toNat_eq
      show _ = 0
      omega
    exact ⟨hsize, (sub_eq_zero.mp hzero).symm⟩
  · rintro ⟨rfl, hdirect⟩ i hi
    rw [hdirect, Memory.sub_offset _ (by omega)]
    exact hi

end Dexe.X86

namespace Dexe.Straight

open Std Ir X86 Clang Backend

variable (symbols : SymbolTable) (funcNames : TreeMap U64 Text) {σ : Clang.State} {s : X86.State}
  {d : DisassembledInsn} {m : MemOperand} {size : Size} (versions : Versions)

lemma segment_text (r : Segment) :
    (r.name ≠ [] ∧ ∀ c ∈ r.name, c.isAlphanum = true) ∧
      parseRegister r.name = none ∧ parseImmediate r.name = none ∧ dstRegister r.name = none := by
  cases r <;> decide

lemma plain_segment (r : Segment) : ∀ c ∈ r.name, Plain c :=
  fun c hc => (inTerm_of_alphanum ((segment_text r).1.2 c hc)).toPlain

lemma piece_segment (r : Segment) : Piece r.name := .of_plain (segment_text r).1.1 (plain_segment r)

lemma plain_given (src : Given) : ∀ c ∈ src.text, Plain c := by
  cases src with
  | reg t => exact plain_target t
  | segment r => exact plain_segment r
  | imm n => exact plain_text n

lemma readAs_given (src : Given) : ReadAs src.text src.whole.source := by
  cases src with
  | reg t =>
    cases t with
    | whole r => exact readAs_source (.reg r)
    | part r => exact readAs_part r
  | segment r =>
    obtain ⟨-, hregister, hnumber, -⟩ := segment_text r
    have hplain := plain_segment r
    have hwide : (∀ n, (Given.segment r).whole.source ≠ .imm n) → Wide (.imm 0) :=
      fun h => absurd rfl (h _)
    refine ⟨piece_segment r, fun versions => ⟨.imm 0, ?_, fun _ _ => rfl, hwide⟩⟩
    show parseSingleOperand r.name versions = some (.imm 0)
    simp only [parseSingleOperand, (trimmed_of_plain hplain).trim_eq,
      if_neg (not_memory_of_plain hplain), hregister, hnumber, Option.getD_none]
  | imm n => exact readAs_source (.imm n)

lemma plain_loaded (dst : Loaded) : ∀ c ∈ dst.text, Plain c := by
  cases dst with
  | reg t => exact plain_target t
  | segment r => exact plain_segment r

lemma piece_loaded (dst : Loaded) : Piece dst.text := by
  cases dst with
  | reg t => exact piece_target t
  | segment r => exact piece_segment r

lemma defines_loaded (dst : Loaded) : Defines dst.text dst.parent := by
  cases dst with
  | reg t => exact defines_target t
  | segment r =>
    show (dstRegister r.name).getD .rax = Reg.rax.base
    rw [(segment_text r).2.2.2]
    rfl

lemma emittedEnds_access_store {src : Given} (h : PrintsAs d "mov" [m.text size, src.text])
    (hm : Matches σ s) (s' : X86.State) :
    EmittedEnds symbols funcNames [d] versions σ s' ↔
      { s with mem := s.mem.store64 (m.ref.address s.regs) (s.read src.whole.source) } = s' :=
  emittedEnds_store symbols funcNames versions isMove_mov (readAs_given src)
    (not_memory_of_plain (plain_given src)) h hm s'

lemma emittedEnds_access_load {dst : Loaded} (h : PrintsAs d "mov" [dst.text, m.text size])
    (hm : Matches σ s) (s' : X86.State) :
    EmittedEnds symbols funcNames [d] versions σ s' ↔
      s.set dst.parent (s.mem.load64 (m.ref.address s.regs)) = s' :=
  emittedEnds_load symbols funcNames versions isMove_mov (piece_loaded dst)
    (not_memory_of_plain (plain_loaded dst)) (defines_loaded dst) h hm s'

def AgreesAt (m : MemOperand) (size : Size) (regs : Reg → U64) (mem mem' : Memory) : Prop :=
  ∀ i < size.bytes,
    mem (m.address regs + BitVec.ofNat 64 i) = mem' (m.address regs + BitVec.ofNat 64 i)

def KeepsWidth (d : DisassembledInsn) (versions : Versions) (σ : Clang.State) (s : X86.State) :
    Access → Prop
  | .store m size _ =>
    (∃ s', EmittedEnds symbols funcNames [d] versions σ s' ∧
      ∀ b, size.bytes ≤ (b - m.address s.regs).toNat → s'.mem b = s.mem b) ∧
    ∀ mem, ∃ s' t', EmittedEnds symbols funcNames [d] versions σ s' ∧
      EmittedEnds symbols funcNames [d] versions { σ with mem := mem } t' ∧
      AgreesAt m size s.regs s'.mem t'.mem
  | .load _ m size =>
    ∀ mem, AgreesAt m size s.regs s.mem mem →
      ∃ s' t', EmittedEnds symbols funcNames [d] versions σ s' ∧
        EmittedEnds symbols funcNames [d] versions { σ with mem := mem } t' ∧ s'.regs = t'.regs

lemma Matches.withMem (hm : Matches σ s) (mem : Memory) :
    Matches { σ with mem := mem } { s with mem := mem } := ⟨hm.regs, rfl⟩

lemma read_whole (src : Given) (mem : Memory) :
    X86.State.read { s with mem := mem } src.whole.source = s.read src.whole.source := by
  cases src <;> rfl

lemma keepsWidth_store_iff {src : Given} (h : PrintsAs d "mov" [m.text size, src.text])
    (hm : Matches σ s) :
    KeepsWidth symbols funcNames d versions σ s (.store m size src) ↔
      (Access.store m size src).Fits s := by
  simp only [KeepsWidth, emittedEnds_access_store symbols funcNames versions h hm,
    fun mem => emittedEnds_access_store symbols funcNames versions h (hm.withMem mem),
    read_whole, exists_eq_left', exists_and_left, Access.Fits, AgreesAt]
  refine and_congr (Memory.store64_frame_iff _ _) ?_
  rw [forall_comm]
  refine forall_congr' fun i => ?_
  rw [forall_comm]
  exact forall_congr' fun _ => Memory.store64_overwrites_iff _

lemma keepsWidth_load_iff {dst : Loaded} (h : PrintsAs d "mov" [dst.text, m.text size])
    (hm : Matches σ s) :
    KeepsWidth symbols funcNames d versions σ s (.load dst m size) ↔
      (Access.load dst m size).Fits s := by
  have hload : KeepsWidth symbols funcNames d versions σ s (.load dst m size) ↔
      ∀ mem, AgreesAt m size s.regs s.mem mem →
        s.mem.load64 (m.ref.address s.regs) = mem.load64 (m.ref.address s.regs) := by
    refine forall₂_congr fun mem _ => ?_
    simp only [emittedEnds_access_load symbols funcNames versions h hm,
      emittedEnds_access_load symbols funcNames versions h (hm.withMem mem), exists_eq_left',
      exists_and_left]
    constructor
    · intro heq
      have hparent := congrFun heq dst.parent
      rwa [State.set_regs_self, State.set_regs_self] at hparent
    · intro heq
      rw [heq]
      rfl
  rw [hload, Access.Fits, ← m.contains_iff size s.regs]
  constructor
  · intro hagree i hi
    by_contra hout
    -- the byte that is loaded is outside the operand, and another one there
    let b := m.ref.address s.regs + BitVec.ofNat 64 i
    have hother : AgreesAt m size s.regs s.mem (Function.update s.mem b (s.mem b + 1)) := by
      intro j hj
      rw [Function.update_of_ne]
      intro heq
      have hj' := Memory.sub_offset (m.address s.regs) (i := j) (hj.trans_le (by omega))
      rw [heq] at hj'
      exact hout (hj' ▸ hj)
    have hbyte := Memory.load64_eq_iff.mp (hagree _ hother) i hi
    rw [Function.update_self] at hbyte
    exact absurd hbyte (by simp [b])
  · intro hin mem hagree
    refine Memory.load64_eq_iff.mpr fun i hi => ?_
    have hbyte := hagree _ (hin i hi)
    rwa [Memory.offset_sub] at hbyte

/-- A move keeps to the width of its memory operand exactly where that is eight bytes, or where the
bytes that are stored too much are there already. -/
theorem keepsWidth_iff {i : Access} (h : PrintsAs d "mov" i.operands) (hm : Matches σ s) :
    KeepsWidth symbols funcNames d versions σ s i ↔ i.Fits s := by
  cases i with
  | store m size src => exact keepsWidth_store_iff symbols funcNames versions h hm
  | load dst m size => exact keepsWidth_load_iff symbols funcNames versions h hm

def storedByte : DisassembledInsn := ⟨0x1000, 2, "mov", "byte ptr [rbx], al", []⟩

def storeByte : Access :=
  .store ⟨⟨some .rbx, none, none⟩, false, none, none⟩ .byte (.reg (.part .al))

lemma printsAs_storedByte : PrintsAs storedByte "mov" storeByte.operands := ⟨rfl, by decide⟩

theorem storedByte_widens :
    ¬ KeepsWidth ∅ ∅ storedByte Versions.initial (fieldsOf (sample 0x1234 0x2000 0 0))
      (sample 0x1234 0x2000 0 0) storeByte := by
  have hiff := keepsWidth_store_iff ∅ ∅ Versions.initial printsAs_storedByte
    (matches_fieldsOf (sample 0x1234 0x2000 0 0))
  intro hkeeps
  have hbyte := (hiff.mp hkeeps).1 1 (by decide) (by decide)
  exact absurd hbyte (by decide)

theorem storedByte_iff :
    KeepsWidth ∅ ∅ storedByte Versions.initial (fieldsOf (sample 0x1234 0x2000 0 0))
        (sample 0x1234 0x2000 0 0) storeByte ↔ storeByte.Fits (sample 0x1234 0x2000 0 0) :=
  keepsWidth_iff ∅ ∅ _ printsAs_storedByte (matches_fieldsOf _)

end Dexe.Straight
