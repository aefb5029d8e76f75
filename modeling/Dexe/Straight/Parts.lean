import Dexe.Straight.Agreement
import Dexe.Straight.Emitted

/-! Operations on parts of registers: the emitted C works on the whole registers. -/

namespace Dexe.X86

namespace SubReg

variable (r : SubReg) (old v : U64)

def rest : U64 := old &&& ~~~ Bits.mask 64 r.part.offset r.part.width

def kept : U64 :=
  match r.part with
  | .dword => 0
  | _ => r.rest old

def lost : U64 :=
  match r.part with
  | .dword => r.rest old
  | _ => 0

lemma kept_add_lost : r.kept old + r.lost old = r.rest old := by
  rw [kept, lost]
  cases r.part <;> simp

lemma width_lt : r.part.width < 64 := by cases r.part <;> decide

lemma merge_eq_add :
    r.merge old v = r.kept old + ((v &&& Bits.ones 64 r.part.width) <<< r.part.offset) := by
  obtain ⟨parent, part, named⟩ := r
  cases part with
  | dword => simp [merge, kept, Part.width, Part.offset]
  | _ => exact Bits.insert_eq_add old v

lemma value_and_ones (s : State) :
    r.value s &&& Bits.ones 64 r.part.width = r.value s := by
  rw [value, Bits.field, BitVec.and_assoc, BitVec.and_self]

lemma parent_eq_add (s : State) :
    s.regs r.parent =
      r.kept (s.regs r.parent) + r.lost (s.regs r.parent) + r.value s <<< r.part.offset := by
  have hinsert := Bits.insert_eq_add (o := r.part.offset) (w := r.part.width) (s.regs r.parent)
    (r.value s)
  rw [value_and_ones, value, Bits.insert_field] at hinsert
  rw [kept_add_lost]
  exact hinsert

lemma value_lt (s : State) : (r.value s).toNat < 2 ^ r.part.width :=
  Bits.toNat_field_lt r.width_lt.le _

end SubReg

/-- Where the operation on the whole registers leaves what the one on the parts does. -/
def PartInsn.Fits (s : State) (i : PartInsn) : Prop :=
  let o := i.dst.part.offset
  let w := i.dst.part.width
  let old := s.regs i.dst.parent
  let src := s.regs i.src.parent
  let a := i.dst.value s
  let b := i.src.value s
  match i.op with
  | .mov => src = i.dst.kept old + b <<< o
  | .alu .add _ => src + i.dst.lost old + Bits.carry 64 w a b <<< o = b <<< o
  | .alu .sub _ => src + Bits.borrow 64 w a b <<< o = b <<< o + i.dst.lost old
  | .alu .and _ => old &&& (src ^^^ b <<< o) = i.dst.kept old
  | .alu .or _ => i.dst.lost old = 0 ∧ (src ^^^ b <<< o) &&& ~~~ old = 0
  | .alu .xor _ => src ^^^ b <<< o = i.dst.lost old
  | .alu .imul h => (AluOp.not_imul h).elim

section Fits

variable (s : State) (i : PartInsn)

lemma PartInsn.source_and_ones :
    i.src.value s &&& Bits.ones 64 i.dst.part.width = i.src.value s := by
  rw [← i.width_eq, SubReg.value_and_ones]

lemma PartInsn.source_lt : (i.src.value s).toNat < 2 ^ i.dst.part.width := by
  rw [← i.width_eq]
  exact i.src.value_lt s

lemma PartInsn.add_iff :
    s.regs i.dst.parent + s.regs i.src.parent =
        i.dst.merge (s.regs i.dst.parent) (i.dst.value s + i.src.value s) ↔
      s.regs i.src.parent + i.dst.lost (s.regs i.dst.parent) +
          Bits.carry 64 i.dst.part.width (i.dst.value s) (i.src.value s) <<< i.dst.part.offset =
        i.src.value s <<< i.dst.part.offset := by
  have hsum := Bits.and_ones_add i.dst.width_lt (i.dst.value_lt s) (i.source_lt s)
  have hshift := congrArg (fun x : U64 => x <<< i.dst.part.offset) hsum
  simp only [BitVec.shiftLeft_add_distrib] at hshift
  have hparent := i.dst.parent_eq_add s
  rw [SubReg.merge_eq_add]
  constructor
  · intro h
    linear_combination h - hparent + hshift
  · intro h
    linear_combination h + hparent - hshift

lemma PartInsn.sub_iff :
    s.regs i.dst.parent - s.regs i.src.parent =
        i.dst.merge (s.regs i.dst.parent) (i.dst.value s - i.src.value s) ↔
      s.regs i.src.parent +
          Bits.borrow 64 i.dst.part.width (i.dst.value s) (i.src.value s) <<< i.dst.part.offset =
        i.src.value s <<< i.dst.part.offset + i.dst.lost (s.regs i.dst.parent) := by
  have hdiff : (i.dst.value s - i.src.value s &&& Bits.ones 64 i.dst.part.width) + i.src.value s =
      i.dst.value s + Bits.borrow 64 i.dst.part.width (i.dst.value s) (i.src.value s) := by
    rw [Bits.and_ones_sub i.dst.width_lt (i.dst.value_lt s) (i.source_lt s)]
    ring
  have hshift := congrArg (fun x : U64 => x <<< i.dst.part.offset) hdiff
  simp only [BitVec.shiftLeft_add_distrib] at hshift
  have hparent := i.dst.parent_eq_add s
  rw [SubReg.merge_eq_add]
  constructor
  · intro h
    linear_combination hparent - h - hshift
  · intro h
    linear_combination hparent - h - hshift

def SubReg.inside (r : SubReg) (j : ℕ) : Bool :=
  decide (r.part.offset ≤ j ∧ j < r.part.offset + r.part.width)

variable {s i} {r : SubReg} {old v : U64} {j : ℕ}

lemma SubReg.getLsbD_rest (hj : j < 64) :
    (r.rest old).getLsbD j = (old.getLsbD j && !r.inside j) := by
  rw [rest, BitVec.getLsbD_and, BitVec.getLsbD_not, Bits.getLsbD_mask hj, decide_eq_true hj,
    Bool.true_and, inside]

lemma SubReg.getLsbD_kept (hj : j < 64) :
    (r.kept old).getLsbD j = (old.getLsbD j && !r.inside j && !decide (r.part = .dword)) := by
  have hrest : (r.rest old).getLsbD j = _ := r.getLsbD_rest hj
  rw [kept]
  cases hr : r.part <;> simp [hrest]

lemma SubReg.getLsbD_lost (hj : j < 64) :
    (r.lost old).getLsbD j = (old.getLsbD j && !r.inside j && decide (r.part = .dword)) := by
  have hrest : (r.rest old).getLsbD j = _ := r.getLsbD_rest hj
  rw [lost]
  cases hr : r.part <;> simp [hrest]

lemma SubReg.getLsbD_placed (hj : j < 64) :
    ((v &&& Bits.ones 64 r.part.width) <<< r.part.offset).getLsbD j =
      (r.inside j && v.getLsbD (j - r.part.offset)) := by
  rw [BitVec.getLsbD_shiftLeft, BitVec.getLsbD_and, Bits.getLsbD_ones (by omega), inside]
  by_cases ho : r.part.offset ≤ j
  · have hin : j < r.part.offset + r.part.width ↔ j - r.part.offset < r.part.width := by omega
    simp only [hj, ho, Nat.not_lt.mpr ho, hin, true_and, decide_true, decide_false, Bool.not_false,
      Bool.true_and]
    exact Bool.and_comm _ _
  · simp [ho, Nat.not_le.mp ho]

lemma SubReg.getLsbD_value (hj : j < 64) (hin : r.inside j = true) :
    (r.value s).getLsbD (j - r.part.offset) = (s.regs r.parent).getLsbD j := by
  obtain ⟨ho, hw⟩ := of_decide_eq_true hin
  have hlt : j - r.part.offset < r.part.width := by omega
  rw [value, Bits.getLsbD_field _ (by omega), Nat.add_sub_cancel' ho, decide_eq_true hlt,
    Bool.and_true]

lemma SubReg.getLsbD_merge (hj : j < 64) :
    (r.merge old v).getLsbD j =
      ((r.kept old).getLsbD j || r.inside j && v.getLsbD (j - r.part.offset)) := by
  have hor : r.merge old v =
      r.kept old ||| ((v &&& Bits.ones 64 r.part.width) <<< r.part.offset) := by
    obtain ⟨parent, part, named⟩ := r
    cases part with
    | dword => simp [merge, kept, Part.width, Part.offset]
    | _ => rfl
  rw [hor, BitVec.getLsbD_or, getLsbD_placed hj]

lemma eq_iff_getLsbD {x y : U64} : x = y ↔ ∀ j < 64, x.getLsbD j = y.getLsbD j :=
  ⟨fun h _ _ => by rw [h], BitVec.eq_of_getLsbD_eq⟩

lemma PartInsn.getLsbD_placed (hj : j < 64) :
    (i.src.value s <<< i.dst.part.offset).getLsbD j =
      (i.dst.inside j && (i.src.value s).getLsbD (j - i.dst.part.offset)) := by
  have hplaced := SubReg.getLsbD_placed (r := i.dst) (v := i.src.value s) hj
  rwa [i.source_and_ones s] at hplaced

variable (s i)

lemma PartInsn.and_iff :
    s.regs i.dst.parent &&& s.regs i.src.parent =
        i.dst.merge (s.regs i.dst.parent) (i.dst.value s &&& i.src.value s) ↔
      s.regs i.dst.parent &&& (s.regs i.src.parent ^^^ i.src.value s <<< i.dst.part.offset) =
        i.dst.kept (s.regs i.dst.parent) := by
  rw [eq_iff_getLsbD, eq_iff_getLsbD]
  refine forall_congr' fun j => forall_congr' fun hj => ?_
  simp only [SubReg.getLsbD_merge hj, SubReg.getLsbD_kept hj, BitVec.getLsbD_and,
    BitVec.getLsbD_xor, i.getLsbD_placed hj]
  by_cases hin : i.dst.inside j = true
  · rw [hin, SubReg.getLsbD_value hj hin]
    cases (s.regs i.dst.parent).getLsbD j <;> cases (s.regs i.src.parent).getLsbD j <;> simp
  · simp [hin]

lemma PartInsn.or_iff :
    s.regs i.dst.parent ||| s.regs i.src.parent =
        i.dst.merge (s.regs i.dst.parent) (i.dst.value s ||| i.src.value s) ↔
      i.dst.lost (s.regs i.dst.parent) = 0 ∧
        (s.regs i.src.parent ^^^ i.src.value s <<< i.dst.part.offset) &&&
          ~~~ s.regs i.dst.parent = 0 := by
  rw [eq_iff_getLsbD, eq_iff_getLsbD, eq_iff_getLsbD, ← forall₂_and]
  refine forall_congr' fun j => forall_congr' fun hj => ?_
  simp only [SubReg.getLsbD_merge hj, SubReg.getLsbD_kept hj, SubReg.getLsbD_lost hj,
    BitVec.getLsbD_and, BitVec.getLsbD_or, BitVec.getLsbD_not, BitVec.getLsbD_xor,
    i.getLsbD_placed hj, decide_eq_true hj]
  by_cases hin : i.dst.inside j = true
  · rw [hin, SubReg.getLsbD_value hj hin]
    cases (s.regs i.dst.parent).getLsbD j <;> cases (s.regs i.src.parent).getLsbD j <;> simp
  · cases (s.regs i.dst.parent).getLsbD j <;> cases (s.regs i.src.parent).getLsbD j <;> simp [hin]

lemma PartInsn.xor_iff :
    s.regs i.dst.parent ^^^ s.regs i.src.parent =
        i.dst.merge (s.regs i.dst.parent) (i.dst.value s ^^^ i.src.value s) ↔
      s.regs i.src.parent ^^^ i.src.value s <<< i.dst.part.offset =
        i.dst.lost (s.regs i.dst.parent) := by
  rw [eq_iff_getLsbD, eq_iff_getLsbD]
  refine forall_congr' fun j => forall_congr' fun hj => ?_
  simp only [SubReg.getLsbD_merge hj, SubReg.getLsbD_kept hj, SubReg.getLsbD_lost hj,
    BitVec.getLsbD_xor, i.getLsbD_placed hj]
  by_cases hin : i.dst.inside j = true
  · rw [hin, SubReg.getLsbD_value hj hin]
    cases (s.regs i.dst.parent).getLsbD j <;> cases (s.regs i.src.parent).getLsbD j <;> simp
  · cases (s.regs i.dst.parent).getLsbD j <;> cases (s.regs i.src.parent).getLsbD j <;> simp [hin]

end Fits

end Dexe.X86

namespace Dexe.Straight

open Std Ir X86 Clang Backend

variable (symbols : SymbolTable) (funcNames : TreeMap U64 Text) {σ : Clang.State} {s : X86.State}
  {d : DisassembledInsn} (versions : Versions)

lemma isMove_mov : IsMove "mov" := ⟨by decide, by decide⟩

lemma emittedEnds_part {i : PartInsn} (h : PrintsAs d i.op.mnemonic [i.dst.name, i.src.name])
    (hm : Matches σ s) (s' : X86.State) :
    EmittedEnds symbols funcNames [d] versions σ s' ↔
      s.set i.dst.parent (i.op.result (s.regs i.dst.parent) (s.regs i.src.parent)) = s' := by
  obtain ⟨op, dst, src, hw⟩ := i
  cases op with
  | mov =>
    exact emittedEnds_mov symbols funcNames versions isMove_mov (piece_part dst)
      (not_memory_of_plain (plain_part dst)) (defines_part dst) (readAs_part src)
      (not_memory_of_plain (plain_part src)) h hm s'
  | alu op hop =>
    exact emittedEnds_alu symbols funcNames versions (readAs_part dst) (by simp) (defines_part dst)
      (readAs_part src) h hm s'

/-- An operation on parts changes the parent of its destination as the processor does exactly
where the bits around the parts do not matter. -/
theorem part_iff {i : PartInsn} (h : PrintsAs d i.op.mnemonic [i.dst.name, i.src.name])
    (hm : Matches σ s) :
    EmittedEnds symbols funcNames [d] versions σ (s.stepPart i) ↔ i.Fits s := by
  rw [emittedEnds_part symbols funcNames versions h hm, State.stepPart, State.setPart,
    State.set_eq_set_iff]
  have hmov : s.regs i.src.parent = i.dst.merge (s.regs i.dst.parent) (i.src.value s) ↔
      s.regs i.src.parent =
        i.dst.kept (s.regs i.dst.parent) + i.src.value s <<< i.dst.part.offset := by
    rw [SubReg.merge_eq_add, i.source_and_ones]
  have hadd := i.add_iff s
  have hsub := i.sub_iff s
  have hand := i.and_iff s
  have hor := i.or_iff s
  have hxor := i.xor_iff s
  obtain ⟨op, dst, src, hw⟩ := i
  cases op with
  | mov => exact hmov
  | alu op hop =>
    cases op with
    | add => exact hadd
    | sub => exact hsub
    | and => exact hand
    | or => exact hor
    | xor => exact hxor
    | imul => exact absurd rfl hop

def movedByte : DisassembledInsn := ⟨0x1000, 2, "mov", "al, bl", []⟩

def moveByte : PartInsn := ⟨.mov, .al, .bl, rfl⟩

lemma printsAs_movedByte :
    PrintsAs movedByte moveByte.op.mnemonic [moveByte.dst.name, moveByte.src.name] :=
  ⟨rfl, by decide⟩

theorem movedByte_differs :
    ¬ EmittedEnds ∅ ∅ [movedByte] Versions.initial (fieldsOf (sample 0x1234 0x56 0 0))
      ((sample 0x1234 0x56 0 0).stepPart moveByte) := by
  rw [emittedEnds_part ∅ ∅ _ printsAs_movedByte (matches_fieldsOf _), State.stepPart,
    State.setPart]
  rw [show moveByte.dst.parent = .rax from rfl, State.set_eq_set_iff]
  decide

theorem movedByte_iff :
    EmittedEnds ∅ ∅ [movedByte] Versions.initial (fieldsOf (sample 0x1234 0x56 0 0))
        ((sample 0x1234 0x56 0 0).stepPart moveByte) ↔ moveByte.Fits (sample 0x1234 0x56 0 0) :=
  part_iff ∅ ∅ _ printsAs_movedByte (matches_fieldsOf _)

end Dexe.Straight
