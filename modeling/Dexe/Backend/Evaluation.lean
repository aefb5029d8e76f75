import Dexe.Backend.Statements
import Dexe.Clang.Evaluation
import Dexe.Ir.Values

/-! What emitted operands and addresses evaluate to. -/

namespace Dexe.Backend

open Clang Ir

/-- The object that holds a register; the versions of one register share it. -/
def place : VarBase → Place
  | .temp _ => .var "tmp"
  | base => .field "cpu" (fieldName base)

variable {σ : State}

lemma eval_varTree (v : VarId) : eval σ (varTree v) = some ⟨.u64, σ.vars (place v.base)⟩ := by
  rcases v with ⟨base, version⟩
  cases base <;> rfl

lemma target_varTree (v : VarId) : target σ (varTree v) = some (.place (place v.base)) := by
  rcases v with ⟨base, version⟩
  cases base <;> rfl

lemma hasInt_varTree (v : VarId) : HasInt σ (varTree v) (σ.vars (place v.base)) :=
  .of_u64 (eval_varTree v)

lemma hasInt_hexNum (n : I64) (suffix : Suffix) : HasInt σ (hexNum n.toNat suffix) n := by
  simpa [hexNum] using hasInt_hex n.isLt suffix σ

lemma unsignedAbs_eq {n : I64} (hn : n.toInt < 0) : (unsignedAbs n : ℤ) = -n.toInt := by
  rw [unsignedAbs]
  omega

def negTy (n : I64) : Ty := if n = BitVec.intMin 64 then .u64 else .i64

lemma negTy_isInt (n : I64) : (negTy n).isInt = true := by
  rw [negTy]
  split <;> rfl

lemma ty_unsignedAbs {n : I64} (hn : n.toInt < 0) :
    Literal.ty ⟨true, unsignedAbs n, .ll⟩ = some (negTy n) := by
  have hlow : -(2 : ℤ) ^ 63 ≤ n.toInt := by simpa using BitVec.le_toInt n
  have habs := unsignedAbs_eq hn
  have hmin : n = BitVec.intMin 64 ↔ n.toInt = -(2 : ℤ) ^ 63 := by
    rw [← BitVec.toInt_inj]
    exact Iff.rfl
  by_cases hbound : unsignedAbs n < 2 ^ 63
  · have hne : n ≠ BitVec.intMin 64 := by
      rw [Ne, hmin]
      omega
    have hlong : unsignedAbs n < Ty.bound .i64 := hbound
    simp [Literal.ty, Literal.types, hlong, negTy, hne]
  · have heq : n = BitVec.intMin 64 := by
      rw [hmin]
      omega
    have hlong : ¬ unsignedAbs n < Ty.bound .i64 := hbound
    have hword : unsignedAbs n < Ty.bound .u64 := by
      have : Ty.bound .u64 = 2 ^ 64 := rfl
      omega
    rw [negTy, if_pos heq]
    simp [Literal.ty, Literal.types, hlong, hword]

lemma eval_negNum {n : I64} (hn : n.toInt < 0) :
    (negNum n).valueTy = some (negTy n) ∧ eval σ (negNum n) = some ⟨negTy n, n⟩ := by
  have hty := ty_unsignedAbs hn
  have hnum : BitVec.ofNat 64 (unsignedAbs n) = -n := by
    rw [← BitVec.ofInt_natCast, unsignedAbs_eq hn, BitVec.ofInt_neg, BitVec.ofInt_toInt]
  have hlit : eval σ (hexNum (unsignedAbs n) .ll) = some ⟨negTy n, -n⟩ := by
    rw [hexNum, eval, hty, Option.map_some, Val.ofInt, BitVec.ofInt_natCast, hnum]
  have hval : (negNum n).valueTy = if (negTy n).isInt then some (negTy n) else none :=
    (congrArg (Option.bind · _) hty).trans rfl
  refine ⟨by rw [hval, if_pos (negTy_isInt n)], ?_⟩
  rw [negNum, eval, eval, hlit]
  show Val.neg ⟨negTy n, -n⟩ = _
  by_cases hmin : n = BitVec.intMin 64
  · rw [negTy, if_pos hmin, Val.neg_u64, BitVec.neg_neg]
  · have hne : -n ≠ BitVec.intMin 64 := by
      intro h
      rw [← BitVec.neg_neg (x := n), h] at hmin
      exact hmin (by decide)
    rw [negTy, if_neg hmin, Val.neg_i64 hne, BitVec.neg_neg]

lemma hasInt_negNum {n : I64} (hn : n.toInt < 0) : HasInt σ (negNum n) n :=
  ⟨negTy n, negTy_isInt n, (eval_negNum hn).2⟩

lemma hasInt_dispTree {disp : I64} (hdisp : disp.toInt ≠ 0) : HasInt σ (dispTree disp) disp := by
  rw [dispTree]
  split
  · exact hasInt_hexNum disp .none
  · exact hasInt_negNum (by omega)

lemma eval_baseTree (b : VarId) : eval σ (baseTree b) = some ⟨.u64, σ.vars (place b.base)⟩ :=
  (hasInt_varTree b).cast .uintptr (by decide)

lemma eval_indexTree (idx : VarId) (scale : BitVec 8) :
    eval σ (indexTree idx scale) = some ⟨.u64, σ.vars (place idx.base) *
      if scale.toNat > 1 then scale.setWidth 64 else 1⟩ := by
  have hscale : HasInt σ (decNum scale.toNat) (scale.setWidth 64) := by
    have hlt : scale.toNat < 2 ^ 63 := by
      have := scale.isLt
      omega
    simpa [decNum, BitVec.ofNat_toNat] using hasInt_dec hlt σ
  rw [indexTree]
  split
  · exact (HasInt.mul (eval_baseTree idx) hscale)
  · simp [eval_baseTree]

lemma hasInt_addrTree (base index : Option VarId) (scale : BitVec 8) (disp : I64) :
    HasInt σ (addrTree base index scale disp)
      (addrValue (fun b => σ.vars (place b)) base index scale disp) := by
  rw [addrTree, addrTerms, addrValue]
  by_cases hdisp : disp.toInt = 0
  · have hzero : disp = 0 := BitVec.eq_of_toInt_eq (by simpa using hdisp)
    rw [if_pos hdisp, hzero]
    rcases base with _ | b <;> rcases index with _ | i
    · exact hasInt_dec (n := 0) (by norm_num) σ
    · simpa [sumTree] using HasInt.of_u64 (eval_indexTree i scale)
    · simpa [sumTree] using HasInt.of_u64 (eval_baseTree b)
    · have hsum := HasInt.add (eval_baseTree (σ := σ) b) (.of_u64 (eval_indexTree i scale))
      simpa [sumTree] using HasInt.of_u64 hsum
  · rw [if_neg hdisp]
    have hd : HasInt σ (dispTree disp) disp := hasInt_dispTree hdisp
    rcases base with _ | b <;> rcases index with _ | i
    · simpa [sumTree] using hd
    · simpa [sumTree] using HasInt.of_u64 (HasInt.add (eval_indexTree i scale) hd)
    · simpa [sumTree] using HasInt.of_u64 (HasInt.add (eval_baseTree b) hd)
    · have hsum := HasInt.add (σ := σ) (eval_baseTree b) (.of_u64 (eval_indexTree i scale))
      simpa [sumTree] using HasInt.of_u64 (HasInt.add hsum hd)

def registersOf (σ : State) (b : VarBase) : BitVec 64 := σ.vars (place b)

lemma hasInt_operandTree (op : Operand) :
    HasInt σ (operandTree op) (operandValue (registersOf σ) σ.mem op) := by
  cases op with
  | var v => exact hasInt_varTree v
  | imm n =>
    rw [operandTree_imm]
    split
    · exact hasInt_hexNum n .ull
    · exact hasInt_negNum (by omega)
  | mem base index scale disp =>
    exact .of_u64 (hasInt_addrTree base index scale disp).paren.deref

lemma eval_operandTree {op : Operand} (hop : ∀ n, op ≠ .imm n) :
    eval σ (operandTree op) = some ⟨.u64, operandValue (registersOf σ) σ.mem op⟩ := by
  cases op with
  | var v => exact eval_varTree v
  | imm n => exact absurd rfl (hop n)
  | mem base index scale disp => exact (hasInt_addrTree base index scale disp).paren.deref

def operandTy : Operand → Ty
  | .imm n => if n.toInt ≥ 0 then .u64 else negTy n
  | _ => .u64

lemma eval_operandTy (op : Operand) :
    (operandTree op).valueTy = some (operandTy op) ∧
      eval σ (operandTree op) = some ⟨operandTy op, operandValue (registersOf σ) σ.mem op⟩ := by
  cases op with
  | var v =>
    refine ⟨?_, eval_varTree v⟩
    rcases v with ⟨base, version⟩
    cases base <;> rfl
  | imm n =>
    rw [operandTree_imm, operandTy]
    split
    · have hty : Literal.ty ⟨true, n.toNat, .ull⟩ = some .u64 := by
        have : n.toNat < Ty.bound .u64 := n.isLt
        simp [Literal.ty, Literal.types, this]
      refine ⟨hty, ?_⟩
      rw [hexNum, eval, hty, Option.map_some, Val.ofInt, BitVec.ofInt_natCast, BitVec.ofNat_toNat,
        BitVec.setWidth_eq]
      rfl
    · exact eval_negNum (by omega)
  | mem base index scale disp => exact ⟨rfl, eval_operandTree fun _ h => by cases h⟩

lemma typed_operandTree (op : Operand) :
    ∃ ty, (ty = .i64 ∨ ty = .u64) ∧ (operandTree op).valueTy = some ty ∧
      eval σ (operandTree op) = some ⟨ty, operandValue (registersOf σ) σ.mem op⟩ := by
  refine ⟨operandTy op, ?_, eval_operandTy op⟩
  cases op with
  | imm n =>
    rw [operandTy, negTy]
    split
    · exact .inr rfl
    · split
      · exact .inr rfl
      · exact .inl rfl
  | _ => exact .inr rfl

lemma hasInt_memAddrTree (op : Operand) :
    HasInt σ (memAddrTree op) (addressValue (registersOf σ) σ.mem op) := by
  cases op with
  | var v => exact .of_u64 ((hasInt_operandTree (.var v)).paren.cast .uintptr (by decide))
  | imm n => exact .of_u64 ((hasInt_operandTree (.imm n)).paren.cast .uintptr (by decide))
  | mem base index scale disp => exact hasInt_addrTree base index scale disp

lemma isCall_of_hasInt {e : Expr} {v : BitVec 64} (h : HasInt σ e v) : isCall e = false := by
  obtain ⟨ty, -, he⟩ := h
  cases e with
  | call0 | call => cases he
  | _ => rfl

lemma exec_assign {a e : Expr} {t : Target} {v : BitVec 64} (ht : target σ a = some t)
    (h : HasInt σ e v) : exec σ (.expr (.bin .assign a e)) = some (.next (σ.put t v)) := by
  rw [exec, execExpr, ht, Option.bind_some, isCall_of_hasInt h, if_neg Bool.false_ne_true,
    h.evalInt]
  rfl

lemma exec_setTo {e : Expr} {v : BitVec 64} (h : HasInt σ e v) (dst : VarId) :
    exec σ (setTo dst e) = some (.next (σ.set (place dst.base) v)) :=
  exec_assign (target_varTree dst) h

lemma eval_stackPointer (σ : State) : eval σ stackPointer = some ⟨.u64, σ.vars (place .rsp)⟩ := rfl

lemma target_stackSlot (σ : State) :
    target σ stackSlot = some (.mem (σ.vars (place .rsp))) := by
  have hpointer := (HasInt.of_u64 (eval_stackPointer σ)).paren
  exact (HasInt.of_u64 (hpointer.cast .uintptr (by decide))).target_deref

lemma exec_subStack (σ : State) :
    exec σ (.expr (.bin .subAssign stackPointer (decNum 8))) =
      some (.next (σ.set (place .rsp) (σ.vars (place .rsp) - 8))) := by
  rfl

lemma exec_stackSlot {e : Expr} {v : BitVec 64} (h : HasInt σ e v) :
    exec σ (.expr (.bin .assign stackSlot e)) = some (.next (σ.poke (σ.vars (place .rsp)) v)) :=
  exec_assign (target_stackSlot σ) h

lemma execAll_pushStmts {e : Expr} {v : BitVec 64}
    (h : HasInt (σ.set (place .rsp) (σ.vars (place .rsp) - 8)) e v) :
    execAll σ (pushStmts e) =
      some ((σ.set (place .rsp) (σ.vars (place .rsp) - 8)).poke (σ.vars (place .rsp) - 8) v) := by
  rw [pushStmts, execAll, exec_subStack]
  simp only [execAll]
  have hslot := exec_stackSlot h
  rw [State.set_vars_self] at hslot
  rw [hslot]

lemma exec_addStack (σ : State) :
    exec σ (.expr (.bin .addAssign stackPointer (decNum 8))) =
      some (.next (σ.set (place .rsp) (σ.vars (place .rsp) + 8))) := by
  rfl

lemma hasInt_stackSlot (σ : State) :
    HasInt σ stackSlot (σ.mem.load64 (σ.vars (place .rsp))) := by
  have hpointer := (HasInt.of_u64 (eval_stackPointer σ)).paren
  exact .of_u64 (HasInt.of_u64 (hpointer.cast .uintptr (by decide))).deref

lemma execAll_popStmts (σ : State) (dst : VarId) :
    execAll σ [setTo dst stackSlot, .expr (.bin .addAssign stackPointer (decNum 8))] =
      let σ₁ := σ.set (place dst.base) (σ.mem.load64 (σ.vars (place .rsp)))
      some (σ₁.set (place .rsp) (σ₁.vars (place .rsp) + 8)) := by
  simp only [execAll, exec_setTo (hasInt_stackSlot σ) dst, exec_addStack]

end Dexe.Backend
