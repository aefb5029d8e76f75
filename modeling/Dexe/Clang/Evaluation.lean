import Dexe.Clang.Semantics

/-! Evaluation over `uint64_t`: arithmetic modulo `2 ^ 64`, whatever integer type the second
operand has. -/

namespace Dexe.Clang

namespace Ty

lemma common_u64_left {t : Ty} (ht : t.isInt = true) : common .u64 t = some .u64 := by
  cases t <;> first | rfl | cases ht

lemma common_self {t : Ty} (ht : t.isInt = true) : common t t = some t := by
  cases t <;> first | rfl | cases ht

end Ty

namespace Val

@[simp] lemma convert_u64 (v : Val) : v.convert .u64 = v.bits := rfl

lemma arith_u64 (op : BitVec 64 → BitVec 64 → BitVec 64) (exact : ℤ → ℤ → ℤ) (x : BitVec 64)
    {v : Val}
    (hv : v.ty.isInt = true) : arith op exact ⟨.u64, x⟩ v = some ⟨.u64, op x v.bits⟩ := by
  simp only [arith, Ty.common_u64_left hv, Option.bind_some]
  rfl

lemma bitwise_u64 (op : BitVec 64 → BitVec 64 → BitVec 64) (x : BitVec 64) {v : Val}
    (hv : v.ty.isInt = true) : bitwise op ⟨.u64, x⟩ v = some ⟨.u64, op x v.bits⟩ := by
  simp only [bitwise, Ty.common_u64_left hv]
  rfl

lemma shiftCount_u64 (x : BitVec 64) {v : Val} (hv : v.ty.isInt = true) :
    shiftCount ⟨.u64, x⟩ v = if v.bits.toNat < 64 then some v.bits.toNat else none := by
  have hwidth : Ty.width .u64 = 64 := rfl
  simp only [shiftCount, hv, hwidth, Bool.and_true, Bool.true_and, decide_eq_true_eq,
    show Ty.isInt .u64 = true from rfl]

lemma shiftLeft_u64 (x : BitVec 64) {v : Val} (hv : v.ty.isInt = true) :
    shiftLeft ⟨.u64, x⟩ v =
      if v.bits.toNat < 64 then some ⟨.u64, x <<< v.bits.toNat⟩ else none := by
  rw [shiftLeft, shiftCount_u64 x hv]
  split <;> rfl

lemma shiftRight_u64 (x : BitVec 64) {v : Val} (hv : v.ty.isInt = true) :
    shiftRight ⟨.u64, x⟩ v =
      if v.bits.toNat < 64 then some ⟨.u64, x >>> v.bits.toNat⟩ else none := by
  have hunsigned : ¬ (Ty.isSigned .u64 = true) := by decide
  simp only [shiftRight, shiftCount_u64 x hv, if_neg hunsigned]
  split <;> rfl

lemma neg_u64 (x : BitVec 64) : neg ⟨.u64, x⟩ = some ⟨.u64, -x⟩ := arith_u64 _ _ x rfl

lemma neg_i64 {x : BitVec 64} (hx : x ≠ BitVec.intMin 64) : neg ⟨.i64, x⟩ = some ⟨.i64, -x⟩ := by
  have hbound : (Ty.bound .i64 : ℤ) = 2 ^ 63 := rfl
  have hlow : -(2 : ℤ) ^ 63 < x.toInt := by
    have hle : -(2 : ℤ) ^ 63 ≤ x.toInt := by simpa using BitVec.le_toInt x
    refine lt_of_le_of_ne hle fun h => hx (BitVec.eq_of_toInt_eq ?_)
    rw [← h]
    decide
  have hhigh : x.toInt < 2 ^ 63 := by simpa using BitVec.toInt_lt (x := x)
  have hneg : (BitVec.ofInt 64 (-x.toInt)) = -x := by
    rw [BitVec.ofInt_neg, BitVec.ofInt_toInt]
  simp only [neg, arith, Ty.common_self (t := .i64) rfl, Option.bind_some, hbound]
  rw [if_pos (by decide), if_pos (by omega), ofInt, hneg]

lemma neg_i64_intMin : neg ⟨.i64, BitVec.intMin 64⟩ = none := by decide

end Val

lemma eval_binary {σ : State} {op : BinOp} (hop : op ≠ .land ∧ op ≠ .lor) {a b : Expr} {v w : Val}
    (ha : eval σ a = some v) (hb : eval σ b = some w) : eval σ (.bin op a b) = binary op v w := by
  rw [eval, if_neg hop.1, if_neg hop.2, ha, hb]
  rfl

lemma eval_cond {σ : State} {c a b : Expr} {t : Bool} {ty : Ty}
    (hc : (eval σ c).bind Val.truth = some t) (hty : (Expr.cond c a b).valueTy = some ty) :
    eval σ (.cond c a b) =
      (if t then eval σ a else eval σ b).map fun v => ⟨ty, v.convert ty⟩ := by
  rw [eval, hc, Option.bind_some, hty, Option.bind_some]

def HasInt (σ : State) (e : Expr) (v : BitVec 64) : Prop :=
  ∃ ty : Ty, ty.isInt = true ∧ eval σ e = some ⟨ty, v⟩

namespace HasInt

variable {σ : State} {a b e : Expr} {x y v : BitVec 64}

lemma of_u64 (h : eval σ e = some ⟨.u64, v⟩) : HasInt σ e v := ⟨.u64, rfl, h⟩

lemma paren (h : HasInt σ e v) : HasInt σ (.paren e) v := h

lemma evalInt (h : HasInt σ e v) : evalInt σ e = some v := by
  obtain ⟨ty, hty, he⟩ := h
  simp [Clang.evalInt, he, hty]

lemma cast (h : HasInt σ e v) (ty : TypeName) (hty : ty ≠ .void) :
    eval σ (.cast ty e) = some ⟨ty.ty, v⟩ := by
  obtain ⟨t, ht, he⟩ := h
  have hvoid : t ≠ .void := by
    rintro rfl
    cases ht
  have hty' : ty.ty ≠ .void := by cases ty <;> first | exact absurd rfl hty | decide
  simp [eval, he, Val.cast, hvoid, hty']

lemma deref (h : HasInt σ e v) :
    eval σ (.un .deref (.cast .uint64Ptr e)) = some ⟨.u64, σ.mem.load64 v⟩ := by
  rw [eval, h.cast .uint64Ptr (by decide)]
  rfl

lemma target_deref (h : HasInt σ e v) :
    target σ (.un .deref (.cast .uint64Ptr e)) = some (.mem v) := by
  rw [target, h.cast .uint64Ptr (by decide)]
  rfl

lemma add (ha : eval σ a = some ⟨.u64, x⟩) (hb : HasInt σ b y) :
    eval σ (.bin .add a b) = some ⟨.u64, x + y⟩ := by
  obtain ⟨ty, hty, hb⟩ := hb
  exact (eval_binary (by decide) ha hb).trans (Val.arith_u64 _ _ x hty)

lemma sub (ha : eval σ a = some ⟨.u64, x⟩) (hb : HasInt σ b y) :
    eval σ (.bin .sub a b) = some ⟨.u64, x - y⟩ := by
  obtain ⟨ty, hty, hb⟩ := hb
  exact (eval_binary (by decide) ha hb).trans (Val.arith_u64 _ _ x hty)

lemma mul (ha : eval σ a = some ⟨.u64, x⟩) (hb : HasInt σ b y) :
    eval σ (.bin .mul a b) = some ⟨.u64, x * y⟩ := by
  obtain ⟨ty, hty, hb⟩ := hb
  exact (eval_binary (by decide) ha hb).trans (Val.arith_u64 _ _ x hty)

lemma band (ha : eval σ a = some ⟨.u64, x⟩) (hb : HasInt σ b y) :
    eval σ (.bin .band a b) = some ⟨.u64, x &&& y⟩ := by
  obtain ⟨ty, hty, hb⟩ := hb
  exact (eval_binary (by decide) ha hb).trans (Val.bitwise_u64 _ x hty)

lemma bor (ha : eval σ a = some ⟨.u64, x⟩) (hb : HasInt σ b y) :
    eval σ (.bin .bor a b) = some ⟨.u64, x ||| y⟩ := by
  obtain ⟨ty, hty, hb⟩ := hb
  exact (eval_binary (by decide) ha hb).trans (Val.bitwise_u64 _ x hty)

lemma bxor (ha : eval σ a = some ⟨.u64, x⟩) (hb : HasInt σ b y) :
    eval σ (.bin .bxor a b) = some ⟨.u64, x ^^^ y⟩ := by
  obtain ⟨ty, hty, hb⟩ := hb
  exact (eval_binary (by decide) ha hb).trans (Val.bitwise_u64 _ x hty)

lemma shl (ha : eval σ a = some ⟨.u64, x⟩) (hb : HasInt σ b y) :
    eval σ (.bin .shl a b) = if y.toNat < 64 then some ⟨.u64, x <<< y.toNat⟩ else none := by
  obtain ⟨ty, hty, hb⟩ := hb
  exact (eval_binary (by decide) ha hb).trans (Val.shiftLeft_u64 x hty)

lemma shr (ha : eval σ a = some ⟨.u64, x⟩) (hb : HasInt σ b y) :
    eval σ (.bin .shr a b) = if y.toNat < 64 then some ⟨.u64, x >>> y.toNat⟩ else none := by
  obtain ⟨ty, hty, hb⟩ := hb
  exact (eval_binary (by decide) ha hb).trans (Val.shiftRight_u64 x hty)

lemma bitNot (ha : eval σ a = some ⟨.u64, x⟩) : eval σ (.un .bitNot a) = some ⟨.u64, ~~~ x⟩ := by
  rw [eval, ha]
  rfl

lemma neg_cast (h : HasInt σ e v) (hv : v ≠ BitVec.intMin 64) :
    HasInt σ (.un .neg (.cast .int64 e)) (-v) := by
  refine ⟨.i64, rfl, ?_⟩
  rw [eval, h.cast .int64 (by decide)]
  exact Val.neg_i64 hv

end HasInt

lemma hasInt_num {l : Literal} {t : Ty} (ht : t ∈ l.types) (hl : l.value < t.bound) (σ : State) :
    HasInt σ (.num l) (BitVec.ofNat 64 l.value) := by
  have hint : ∀ t ∈ l.types, t.isInt = true := by
    rw [Literal.types]
    cases l.suffix <;> cases l.hex <;> decide
  obtain ⟨t', ht'⟩ := Option.isSome_iff_exists.mp
    (List.find?_isSome (p := fun t => decide (l.value < t.bound)) |>.mpr ⟨t, ht, by simpa using hl⟩)
  refine ⟨t', hint t' (List.mem_of_find?_eq_some ht'), ?_⟩
  rw [eval, Literal.ty, ht', Option.map_some, Val.ofInt, BitVec.ofInt_natCast]

lemma hasInt_hex {n : ℕ} (hn : n < 2 ^ 64) (suffix : Suffix) (σ : State) :
    HasInt σ (.num ⟨true, n, suffix⟩) (BitVec.ofNat 64 n) :=
  hasInt_num (l := ⟨true, n, suffix⟩) (t := .u64) (by cases suffix <;> simp [Literal.types]) hn σ

lemma hasInt_dec {n : ℕ} (hn : n < 2 ^ 63) (σ : State) :
    HasInt σ (.num ⟨false, n, .none⟩) (BitVec.ofNat 64 n) :=
  hasInt_num (l := ⟨false, n, .none⟩) (t := .i64) (by simp [Literal.types]) hn σ

end Dexe.Clang
