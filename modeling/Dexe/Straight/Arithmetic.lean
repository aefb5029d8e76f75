import Dexe.Backend.Reading
import Dexe.Straight.Agreement

/-! Where emitted arithmetic is defined in C. Registers and memory are read as `uint64_t`, so that
only literals, casts and shift counts can go wrong. -/

namespace Dexe.Clang

namespace Val

def Long (ty : Ty) : Prop := ty = .i64 ∨ ty = .u64

variable {s t : Ty} {x y : BitVec 64}

lemma isSome_arith (hs : Long s) (ht : Long t) (op : BitVec 64 → BitVec 64 → BitVec 64)
    (exact : ℤ → ℤ → ℤ) :
    (∃ v : Val, v.ty.isInt = true ∧ arith op exact ⟨s, x⟩ ⟨t, y⟩ = some v) ↔
      (s = .i64 → t = .i64 → -2 ^ 63 ≤ exact x.toInt y.toInt ∧ exact x.toInt y.toInt < 2 ^ 63) := by
  have hbound : (Ty.bound .i64 : ℤ) = 2 ^ 63 := rfl
  rcases hs with rfl | rfl <;> rcases ht with rfl | rfl
  · simp only [arith, Ty.common_self (t := .i64) rfl, Option.bind_some, hbound, forall_const]
    rw [if_pos (by decide)]
    split
    · rename_i hrange
      exact iff_of_true ⟨_, rfl, rfl⟩ hrange
    · rename_i hrange
      exact iff_of_false (by simp) hrange
  · exact iff_of_true ⟨_, rfl, rfl⟩ (by simp)
  · exact iff_of_true ⟨_, rfl, rfl⟩ (by simp)
  · exact iff_of_true ⟨_, rfl, rfl⟩ (by simp)

lemma isSome_bitwise (hs : Long s) (ht : Long t) (op : BitVec 64 → BitVec 64 → BitVec 64) :
    ∃ v : Val, v.ty.isInt = true ∧ bitwise op ⟨s, x⟩ ⟨t, y⟩ = some v := by
  rcases hs with rfl | rfl <;> rcases ht with rfl | rfl <;> exact ⟨_, rfl, rfl⟩

lemma shiftCount_long (hs : Long s) (ht : Long t) :
    shiftCount ⟨s, x⟩ ⟨t, y⟩ = if y.toNat < 64 then some y.toNat else none := by
  have hwidth : Ty.width .i64 = 64 ∧ Ty.width .u64 = 64 := ⟨rfl, rfl⟩
  rcases hs with rfl | rfl <;> rcases ht with rfl | rfl <;>
    simp [shiftCount, Ty.isInt, hwidth]

lemma isSome_shiftRight (hs : Long s) (ht : Long t) :
    (∃ v : Val, v.ty.isInt = true ∧ shiftRight ⟨s, x⟩ ⟨t, y⟩ = some v) ↔ y.toNat < 64 := by
  have hint : s.isInt = true := by rcases hs with rfl | rfl <;> rfl
  rw [shiftRight, shiftCount_long hs ht]
  by_cases hlt : y.toNat < 64
  · rw [if_pos hlt]
    exact iff_of_true ⟨_, hint, rfl⟩ hlt
  · rw [if_neg hlt]
    exact iff_of_false (by simp) hlt

lemma isSome_shiftLeft (hs : Long s) (ht : Long t) (hx : s = .i64 → x.toInt < 0) :
    (∃ v : Val, v.ty.isInt = true ∧ shiftLeft ⟨s, x⟩ ⟨t, y⟩ = some v) ↔
      s ≠ .i64 ∧ y.toNat < 64 := by
  rw [shiftLeft, shiftCount_long hs ht]
  rcases hs with rfl | rfl
  · have hneg := hx rfl
    refine iff_of_false ?_ (by simp)
    rintro ⟨v, -, hv⟩
    by_cases hlt : y.toNat < 64
    · rw [if_pos hlt, Option.bind_some] at hv
      simp [Ty.isSigned, not_le.mpr hneg] at hv
    · rw [if_neg hlt] at hv
      cases hv
  · rw [and_iff_right (by decide)]
    by_cases hlt : y.toNat < 64
    · rw [if_pos hlt]
      exact iff_of_true ⟨_, rfl, rfl⟩ hlt
    · rw [if_neg hlt]
      exact iff_of_false (by simp) hlt

end Val

lemma exists_hasInt_iff {σ : State} {e : Expr} {o : Option Val} (h : eval σ e = o) :
    (∃ v, HasInt σ e v) ↔ ∃ v : Val, v.ty.isInt = true ∧ o = some v := by
  constructor
  · rintro ⟨v, ty, hty, he⟩
    exact ⟨⟨ty, v⟩, hty, h.symm.trans he⟩
  · rintro ⟨⟨ty, v⟩, hty, he⟩
    exact ⟨v, ty, hty, h.trans he⟩

end Dexe.Clang

namespace Dexe.Straight

open Clang Ir Backend

variable {σ : Clang.State}

def longLiteral : Operand → Option ℤ
  | .imm n => if n.toInt < 0 ∧ n ≠ BitVec.intMin 64 then some n.toInt else none
  | _ => none

lemma operandTy_cases (op : Operand) :
    (∃ n : I64, op = .imm n ∧ operandTy op = .i64 ∧ longLiteral op = some n.toInt ∧
      n.toInt < 0 ∧ n ≠ BitVec.intMin 64) ∨ operandTy op = .u64 ∧ longLiteral op = none := by
  cases op with
  | imm n =>
    rw [longLiteral, operandTy, negTy]
    by_cases hneg : n.toInt < 0
    · rw [if_neg (by omega)]
      by_cases hmin : n = BitVec.intMin 64
      · exact .inr ⟨if_pos hmin, if_neg fun h => h.2 hmin⟩
      · exact .inl ⟨n, rfl, if_neg hmin, if_pos ⟨hneg, hmin⟩, hneg, hmin⟩
    · exact .inr ⟨if_pos (by omega), if_neg fun h => hneg h.1⟩
  | _ => exact .inr ⟨rfl, rfl⟩

lemma long_operandTy (op : Operand) : Val.Long (operandTy op) := by
  rcases operandTy_cases op with ⟨-, -, h, -⟩ | ⟨h, -⟩
  · exact .inl h
  · exact .inr h

def Arithmetic : Opcode → Prop
  | .add _ _ _ | .sub _ _ _ | .mul _ _ _ | .and _ _ _ | .or _ _ _ | .xor _ _ _ | .shl _ _ _
  | .shr _ _ _ | .not _ _ | .neg _ _ | .lea _ _ | .cmp _ _ | .test _ _ => True
  | _ => False

/-- No sum or product of literals is out of range, no negative literal is shifted to the left, no
count is too large, and the number that is negated has an opposite. -/
def InRange (σ : Clang.State) : Opcode → Prop
  | .add _ lhs rhs => ∀ a ∈ longLiteral lhs, ∀ b ∈ longLiteral rhs, -2 ^ 63 ≤ a + b
  | .mul _ lhs rhs => ∀ a ∈ longLiteral lhs, ∀ b ∈ longLiteral rhs, a * b < 2 ^ 63
  | .shl _ lhs rhs =>
    longLiteral lhs = none ∧ (operandValue (registersOf σ) σ.mem rhs).toNat < 64
  | .shr _ _ rhs => (operandValue (registersOf σ) σ.mem rhs).toNat < 64
  | .neg _ src => operandValue (registersOf σ) σ.mem src ≠ BitVec.intMin 64
  | _ => True

lemma isSome_setTo {dst : VarId} {e : Expr} (he : isCall e = false) :
    (exec σ (setTo dst e)).isSome ↔ ∃ v, HasInt σ e v := by
  constructor
  · intro h
    rw [setTo, exec, execExpr, target_varTree, Option.bind_some, he, if_neg Bool.false_ne_true,
      Option.isSome_map, evalInt] at h
    cases hv : eval σ e with
    | none => simp [hv] at h
    | some v =>
      rw [hv, Option.bind_some] at h
      split at h
      · rename_i hty
        exact ⟨v.bits, v.ty, hty, hv⟩
      · cases h
  · rintro ⟨v, hv⟩
    rw [exec_setTo hv dst]
    rfl

lemma isSome_binaryStmt {op : BinOp} (hop : op ≠ .land ∧ op ≠ .lor) (dst : VarId)
    (lhs rhs : Operand) :
    (exec σ (binaryStmt op dst lhs rhs)).isSome ↔ ∃ v : Val, v.ty.isInt = true ∧
      binary op ⟨operandTy lhs, operandValue (registersOf σ) σ.mem lhs⟩
        ⟨operandTy rhs, operandValue (registersOf σ) σ.mem rhs⟩ = some v := by
  rw [binaryStmt, isSome_setTo rfl]
  exact exists_hasInt_iff (eval_binary hop (eval_operandTy lhs).2 (eval_operandTy rhs).2)

lemma range_iff {exact : ℤ → ℤ → ℤ} {P : ℤ → ℤ → Prop} (lhs rhs : Operand)
    (h : ∀ a b : ℤ, -2 ^ 63 < a → a < 0 → -2 ^ 63 < b → b < 0 →
      (-2 ^ 63 ≤ exact a b ∧ exact a b < 2 ^ 63 ↔ P a b)) :
    (operandTy lhs = .i64 → operandTy rhs = .i64 →
        -2 ^ 63 ≤ exact (operandValue (registersOf σ) σ.mem lhs).toInt
            (operandValue (registersOf σ) σ.mem rhs).toInt ∧
          exact (operandValue (registersOf σ) σ.mem lhs).toInt
            (operandValue (registersOf σ) σ.mem rhs).toInt < 2 ^ 63) ↔
      ∀ a ∈ longLiteral lhs, ∀ b ∈ longLiteral rhs, P a b := by
  have hlow : ∀ n : I64, n ≠ BitVec.intMin 64 → -2 ^ 63 < n.toInt := by
    intro n hn
    have hle : -2 ^ 63 ≤ n.toInt := by simpa using BitVec.le_toInt n
    exact lt_of_le_of_ne hle fun heq => hn (BitVec.eq_of_toInt_eq heq.symm)
  rcases operandTy_cases lhs with ⟨m, rfl, hty, hlit, hneg, hmin⟩ | ⟨hty, hlit⟩
  · rcases operandTy_cases rhs with ⟨n, rfl, hty', hlit', hneg', hmin'⟩ | ⟨hty', hlit'⟩
    · simp only [hty, hlit, hty', hlit', forall_const, Option.mem_some_iff, forall_eq']
      exact h _ _ (hlow m hmin) hneg (hlow n hmin') hneg'
    · simp [hty', hlit']
  · simp [hty, hlit]

variable (symbols : SymbolTable) (funcNames : Std.TreeMap U64 Text)

lemma exists_stmt {op : Opcode} (h : Arithmetic op) :
    ∃ stmt, opcodeStmts symbols funcNames op = [stmt] ∧
      ∀ σ : Clang.State, (exec σ stmt).isSome ↔ InRange σ op := by
  have hlong := long_operandTy
  cases op with
  | add dst lhs rhs =>
    refine ⟨_, rfl, fun σ => (isSome_binaryStmt (by decide) dst lhs rhs).trans ?_⟩
    refine (Val.isSome_arith (hlong lhs) (hlong rhs) _ _).trans (range_iff lhs rhs ?_)
    intro a b ha ha' hb hb'
    omega
  | sub dst lhs rhs =>
    refine ⟨_, rfl, fun σ => (isSome_binaryStmt (by decide) dst lhs rhs).trans ?_⟩
    refine (Val.isSome_arith (hlong lhs) (hlong rhs) _ _).trans ?_
    refine (range_iff (P := fun _ _ => True) lhs rhs ?_).trans (iff_of_true (by simp) trivial)
    intro a b ha ha' hb hb'
    exact iff_of_true (by omega) trivial
  | mul dst lhs rhs =>
    refine ⟨_, rfl, fun σ => (isSome_binaryStmt (by decide) dst lhs rhs).trans ?_⟩
    refine (Val.isSome_arith (hlong lhs) (hlong rhs) _ _).trans (range_iff lhs rhs ?_)
    intro a b ha ha' hb hb'
    have hpos : 0 < a * b := mul_pos_of_neg_of_neg ha' hb'
    exact and_iff_right (by omega)
  | and dst lhs rhs | or dst lhs rhs | xor dst lhs rhs =>
    refine ⟨_, rfl, fun σ => (isSome_binaryStmt (by decide) dst lhs rhs).trans ?_⟩
    exact iff_of_true (Val.isSome_bitwise (hlong lhs) (hlong rhs) _) trivial
  | shl dst lhs rhs =>
    refine ⟨_, rfl, fun σ => (isSome_binaryStmt (by decide) dst lhs rhs).trans ?_⟩
    rcases operandTy_cases lhs with ⟨m, rfl, hty, hlit, hneg, -⟩ | ⟨hty, hlit⟩
    · refine (Val.isSome_shiftLeft (hlong _) (hlong rhs) fun _ => hneg).trans ?_
      rw [hty, InRange, hlit]
      simp
    · refine (Val.isSome_shiftLeft (hlong lhs) (hlong rhs) ?_).trans ?_
      · rw [hty]
        exact fun h => by cases h
      · rw [hty, InRange, hlit]
        simp
  | shr dst lhs rhs =>
    refine ⟨_, rfl, fun σ => (isSome_binaryStmt (by decide) dst lhs rhs).trans ?_⟩
    exact Val.isSome_shiftRight (hlong lhs) (hlong rhs)
  | not dst src =>
    refine ⟨_, rfl, fun σ => (isSome_setTo rfl).trans (iff_of_true ?_ trivial)⟩
    have hvalue := (eval_operandTy (σ := σ) src).2
    rcases hlong src with hty | hty <;> rw [hty] at hvalue
    · exact ⟨_, .i64, rfl, by rw [eval, hvalue]; rfl⟩
    · exact ⟨_, .u64, rfl, by rw [eval, hvalue]; rfl⟩
  | neg dst src =>
    refine ⟨_, rfl, fun σ => (isSome_setTo rfl).trans ?_⟩
    have hvalue := hasInt_operandTree (σ := σ) src
    have hcast := hvalue.cast .int64 (by decide)
    by_cases hmin : operandValue (registersOf σ) σ.mem src = BitVec.intMin 64
    · refine iff_of_false ?_ (not_not_intro hmin)
      rintro ⟨v, ty, -, hv⟩
      rw [eval, eval, eval, hcast, hmin] at hv
      exact absurd hv (by simp [unary, TypeName.ty, Val.neg_i64_intMin])
    · exact iff_of_true ⟨_, .of_u64 ((hvalue.neg_cast hmin).paren.cast .uint64 (by decide))⟩ hmin
  | lea dst addr =>
    refine ⟨_, rfl, fun σ => (isSome_setTo rfl).trans (iff_of_true ?_ trivial)⟩
    exact ⟨_, .of_u64 ((hasInt_memAddrTree addr).paren.cast .uint64 (by decide))⟩
  | cmp lhs rhs =>
    refine ⟨setTo ⟨.rflags, 0⟩ (cmpTree lhs rhs), rfl, fun σ => (isSome_setTo rfl).trans ?_⟩
    have hword := hasInt_cmpTree (σ := σ) (hasInt_operandTree lhs) (hasInt_operandTree rhs)
    exact iff_of_true ⟨_, hword⟩ trivial
  | test lhs rhs =>
    refine ⟨setTo ⟨.rflags, 0⟩ (testTree lhs rhs), rfl, fun σ => (isSome_setTo rfl).trans ?_⟩
    have hword := hasInt_testTree (σ := σ) (hlong lhs) (hlong rhs) (eval_operandTy lhs).2
      (eval_operandTy rhs).2
    exact iff_of_true ⟨_, hword⟩ trivial
  | _ => exact h.elim

/-- The C that is emitted for an arithmetic instruction is one statement, which is defined for the
values of registers and memory that keep its operations in range. -/
theorem defined_iff {instr : IRInstruction} (h : Arithmetic instr.opcode) :
    ∃ stmt, parse (emitInstruction instr symbols funcNames) = some [stmt] ∧
      ∀ σ : Clang.State, (exec σ stmt).isSome ↔ InRange σ instr.opcode := by
  obtain ⟨stmt, hstmts, hdefined⟩ := exists_stmt symbols funcNames h
  have hreads : Backend.Reads symbols funcNames instr.opcode := by
    rcases instr with ⟨addr, op⟩
    cases op <;> first | exact h.elim | exact ⟨trivial, by simp [CommentEnds, comment]⟩
  exact ⟨stmt, (parse_emitInstruction hreads).trans (congrArg some hstmts), hdefined⟩

def shiftedByCl : DisassembledFunction :=
  ⟨"main", 0x1000, 0x1003, [⟨0x1000, 3, "shl", "rax, cl", []⟩]⟩

def shiftByCl : IRInstruction :=
  ⟨0x1000, .shl ⟨.rax, 1⟩ (.var ⟨.rax, 0⟩) (.var ⟨.rcx, 0⟩)⟩

lemma lift_shiftedByCl : (liftFunction (buildCfg shiftedByCl)).map (fun f =>
    f.blocks[0]?.map (·.instructions)) = some (some [shiftByCl]) := by
  decide

theorem shiftByCl_undefined :
    (∃ f ∈ liftFunction (buildCfg shiftedByCl), ∃ b ∈ f.blocks[0]?, shiftByCl ∈ b.instructions) ∧
      ∃ σ stmt, parse (emitInstruction shiftByCl ∅ ∅) = some [stmt] ∧ exec σ stmt = none := by
  constructor
  · obtain ⟨f, hf, hblock⟩ := Option.map_eq_some_iff.mp lift_shiftedByCl
    obtain ⟨b, hb, hins⟩ := Option.map_eq_some_iff.mp hblock
    exact ⟨f, hf, b, hb, hins ▸ List.mem_singleton_self _⟩
  · refine ⟨fieldsOf (sample 1 0 64 0), _,
      parse_emitInstruction ⟨trivial, by simp [CommentEnds, comment, shiftByCl]⟩, ?_⟩
    decide

theorem shiftByCl_defined_iff :
    ∃ stmt, parse (emitInstruction shiftByCl ∅ ∅) = some [stmt] ∧
      ∀ σ : Clang.State, (exec σ stmt).isSome ↔ InRange σ shiftByCl.opcode :=
  defined_iff ∅ ∅ trivial

end Dexe.Straight
