import Dexe.Backend.Evaluation
import Dexe.Straight.Lifting

/-! The statements of a lifted instruction do to the fields of `cpu` what the instruction does to
the registers. -/

namespace Dexe.Straight

open Std Ir X86 Clang Backend

/-- The fields of `cpu` hold the registers, and memory is shared. -/
structure Matches (σ : Clang.State) (s : X86.State) : Prop where
  regs : ∀ r : Reg, σ.vars (place r.base) = s.regs r
  mem : σ.mem = s.mem

lemma place_base (r : Reg) : place r.base = .field "cpu" r.name := by cases r <;> rfl

lemma place_injective {r s : Reg} (h : place r.base = place s.base) : r = s := by
  have hname : r.name = s.name := by
    rw [place_base, place_base] at h
    exact (Place.field.inj h).2
  have hbase : some r.base = some s.base := by
    rw [← parseRegister_name r, ← parseRegister_name s, hname]
  exact Reg.base_injective (Option.some.inj hbase)

lemma place_ne_rflags (r : Reg) : place r.base ≠ place .rflags := by cases r <;> decide

def flagWord (σ : Clang.State) : U64 := σ.vars (place .rflags)

namespace Matches

variable {σ : Clang.State} {s : X86.State}

lemma operandValue (h : Matches σ s) {op : Operand} {src : Source} (hop : Means op src) :
    operandValue (registersOf σ) σ.mem op = s.read src := by
  have hregs : (fun r : Reg => registersOf σ r.base) = s.regs := funext h.regs
  rw [hop, hregs, h.mem]

lemma addressValue (h : Matches σ s) {op : Operand} {m : MemRef} (hop : Addresses op m) :
    addressValue (registersOf σ) σ.mem op = m.address s.regs := by
  have hregs : (fun r : Reg => registersOf σ r.base) = s.regs := funext h.regs
  rw [hop, hregs]

lemma set (h : Matches σ s) (r : Reg) (v : U64) : Matches (σ.set (place r.base) v) (s.set r v) := by
  refine ⟨fun r' => ?_, h.mem⟩
  by_cases hr : r' = r
  · subst hr
    simp [X86.State.set]
  · rw [State.set_vars_of_ne σ (fun hp => hr (place_injective hp)), h.regs, X86.State.set]
    simp [hr]

lemma setFlags (h : Matches σ s) (v : U64) : Matches (σ.set (place .rflags) v) s :=
  ⟨fun r => (State.set_vars_of_ne σ (place_ne_rflags r) v).trans (h.regs r), h.mem⟩

lemma store (h : Matches σ s) (a v : U64) :
    Matches (σ.poke a v) { s with mem := s.mem.store64 a v } :=
  ⟨h.regs, by rw [State.poke_mem, h.mem]⟩

end Matches

lemma flagWord_set (σ : Clang.State) (r : Reg) (v : U64) :
    flagWord (σ.set (place r.base) v) = flagWord σ :=
  State.set_vars_of_ne σ (place_ne_rflags r).symm v

/-- The word that an emitted `cmp` leaves: equal, below, less. -/
def cmpWord (a b : U64) : U64 :=
  (if a == b then 1 else 0) ||| (if a.ult b then 2 else 0) ||| (if a.slt b then 4 else 0)

def testWord (a b : U64) : U64 := if a &&& b == 0 then 1 else 0

def wordAfter (s : X86.State) (w : U64) : Insn → U64
  | .compare .cmp r src => cmpWord (s.regs r) (s.read src)
  | .compare .test r src => testWord (s.regs r) (s.read src)
  | _ => w

/-- The negation of the least number is undefined in C. -/
def Defined (s : X86.State) (i : Insn) : Prop :=
  ∀ r, i = .unary .neg r → s.regs r ≠ BitVec.intMin 64

section Compare

variable {σ : Clang.State} {lhs rhs : Operand} {a b : U64}

lemma eval_castTree {op : Operand} (h : HasInt σ (operandTree op) a) (ty : TypeName)
    (hty : ty ≠ .void) : eval σ (.cast ty (.paren (operandTree op))) = some ⟨ty.ty, a⟩ :=
  h.paren.cast ty hty

lemma eval_equal (ha : HasInt σ (operandTree lhs) a) (hb : HasInt σ (operandTree rhs) b) :
    eval σ (compareTree .eq .uint64 lhs rhs) = some (.ofBool (a == b)) :=
  eval_binary (by decide) (eval_castTree ha .uint64 (by decide))
    (eval_castTree hb .uint64 (by decide))

lemma eval_below (ha : HasInt σ (operandTree lhs) a) (hb : HasInt σ (operandTree rhs) b) :
    eval σ (compareTree .lt .uint64 lhs rhs) = some (.ofBool (a.ult b)) :=
  eval_binary (by decide) (eval_castTree ha .uint64 (by decide))
    (eval_castTree hb .uint64 (by decide))

lemma eval_less (ha : HasInt σ (operandTree lhs) a) (hb : HasInt σ (operandTree rhs) b) :
    eval σ (compareTree .lt .int64 lhs rhs) = some (.ofBool (a.slt b)) :=
  eval_binary (by decide) (eval_castTree ha .int64 (by decide))
    (eval_castTree hb .int64 (by decide))

lemma eval_decNum {n : ℕ} (hn : n < 2 ^ 31) : eval σ (decNum n) = some (.ofInt .i32 n) := by
  have hty : Literal.ty ⟨false, n, .none⟩ = some .i32 := by
    have : n < Ty.bound .i32 := hn
    simp [Literal.ty, Literal.types, this]
  rw [decNum, eval, hty, Option.map_some]

lemma eval_shifted {e : Expr} {t : Bool} (h : eval σ e = some (.ofBool t)) {n : ℕ}
    (hn : n < 2 ^ 31) :
    eval σ (shiftedTree e n) = Val.shiftLeft (.ofBool t) (.ofInt .i32 n) :=
  eval_binary (by decide) h (eval_decNum hn)

lemma hasInt_cmpTree (ha : HasInt σ (operandTree lhs) a) (hb : HasInt σ (operandTree rhs) b) :
    HasInt σ (cmpTree lhs rhs) (cmpWord a b) := by
  have hone : ∀ t, Val.shiftLeft (.ofBool t) (.ofInt .i32 1) =
      some ⟨.i32, if t then 2 else 0⟩ := by decide
  have htwo : ∀ t, Val.shiftLeft (.ofBool t) (.ofInt .i32 2) =
      some ⟨.i32, if t then 4 else 0⟩ := by decide
  have hor : BinOp.bor ≠ .land ∧ BinOp.bor ≠ .lor := by decide
  have hbelow := (eval_shifted (eval_below ha hb) (by norm_num)).trans (hone _)
  have hless := (eval_shifted (eval_less ha hb) (by norm_num)).trans (htwo _)
  have hword := eval_binary hor (eval_binary hor (eval_equal ha hb) hbelow) hless
  exact ⟨.i32, rfl, hword⟩

lemma hasInt_testTree {s t : Ty} (hs : s = .i64 ∨ s = .u64) (ht : t = .i64 ∨ t = .u64)
    (ha : eval σ (operandTree lhs) = some ⟨s, a⟩) (hb : eval σ (operandTree rhs) = some ⟨t, b⟩) :
    HasInt σ (testTree lhs rhs) (testWord a b) := by
  have hzero : eval σ (decNum 0) = some (.ofInt .i32 0) := eval_decNum (by norm_num)
  have hone : eval σ (decNum 1) = some (.ofInt .i32 1) := eval_decNum (by norm_num)
  have hband : eval σ (.bin .band (operandTree lhs) (operandTree rhs)) = _ :=
    eval_binary (by decide) ha hb
  have heq :
    eval σ (.bin .eq (.paren (.bin .band (operandTree lhs) (operandTree rhs))) (decNum 0)) =
      some (.ofBool (a &&& b == 0)) := by
    rcases hs with rfl | rfl <;> rcases ht with rfl | rfl <;>
      exact eval_binary (by decide) hband hzero
  have htruth : ∀ t, (Val.ofBool t).truth = some t := by decide
  refine ⟨.i32, rfl, ?_⟩
  rw [testTree, eval_cond (t := a &&& b == 0) (by rw [eval, heq, Option.bind_some, htruth]) rfl,
    hone, hzero, testWord]
  split <;> rfl

end Compare

variable (symbols : SymbolTable) (funcNames : TreeMap U64 Text) {σ : Clang.State} {s : X86.State}

def RunsTo (σ : Clang.State) (l : List Stmt) (s : X86.State) (w : U64) : Prop :=
  ∃ σ', execAll σ l = some σ' ∧ Matches σ' s ∧ flagWord σ' = w

lemma runsTo_of_exec {σ' : Clang.State} {st : Stmt} {w : U64} (h : exec σ st = some (.next σ'))
    (hm : Matches σ' s) (hw : flagWord σ' = w) : RunsTo σ [st] s w := by
  refine ⟨σ', ?_, hm, hw⟩
  simp only [execAll, h]

lemma runsTo_setTo (hm : Matches σ s) {dst : VarId} {r : Reg} (hdst : dst.base = r.base) {e : Expr}
    {v : U64} (he : HasInt σ e v) : RunsTo σ [setTo dst e] (s.set r v) (flagWord σ) := by
  have hset := exec_setTo he dst
  rw [hdst] at hset
  exact runsTo_of_exec hset (hm.set r v) (flagWord_set σ r v)

lemma runsTo_setFlags (hm : Matches σ s) {e : Expr} {v : U64} (he : HasInt σ e v) :
    RunsTo σ [.expr (.bin .assign rflags e)] s v :=
  runsTo_of_exec (exec_setTo he ⟨.rflags, 0⟩) (hm.setFlags v) (State.set_vars_self σ _ v)

lemma hasInt_of_means (hm : Matches σ s) {op : Operand} {src : Source} (hop : Means op src) :
    HasInt σ (operandTree op) (s.read src) := by
  rw [← hm.operandValue hop]
  exact hasInt_operandTree op

lemma eval_of_means (hm : Matches σ s) {op : Operand} {src : Source} (hop : Means op src)
    (hwide : Wide op) : eval σ (operandTree op) = some ⟨.u64, s.read src⟩ := by
  rw [← hm.operandValue hop]
  exact eval_operandTree hwide

lemma typed_of_means (hm : Matches σ s) {op : Operand} {src : Source} (hop : Means op src) :
    ∃ ty, (ty = .i64 ∨ ty = .u64) ∧ (operandTree op).valueTy = some ty ∧
      eval σ (operandTree op) = some ⟨ty, s.read src⟩ := by
  rw [← hm.operandValue hop]
  exact typed_operandTree op

lemma hasInt_of_addresses (hm : Matches σ s) {op : Operand} {m : MemRef} (hop : Addresses op m) :
    HasInt σ (memAddrTree op) (m.address s.regs) := by
  rw [← hm.addressValue hop]
  exact hasInt_memAddrTree op

lemma runsTo_alu (hm : Matches σ s) {op : AluOp} {r : Reg} {dst : VarId} {lhs rhs : Operand}
    {a b : Source} (hdst : dst.base = r.base) (hwide : Wide lhs) (hlhs : Means lhs a)
    (hrhs : Means rhs b) :
    RunsTo σ (opcodeStmts symbols funcNames (aluOpcode op dst lhs rhs))
      (s.set r (op.result (s.read a) (s.read b))) (flagWord σ) := by
  have ha := eval_of_means hm hlhs hwide
  have hb := hasInt_of_means hm hrhs
  cases op with
  | add => exact runsTo_setTo hm hdst (.of_u64 (HasInt.add ha hb))
  | sub => exact runsTo_setTo hm hdst (.of_u64 (HasInt.sub ha hb))
  | and => exact runsTo_setTo hm hdst (.of_u64 (HasInt.band ha hb))
  | or => exact runsTo_setTo hm hdst (.of_u64 (HasInt.bor ha hb))
  | xor => exact runsTo_setTo hm hdst (.of_u64 (HasInt.bxor ha hb))
  | imul => exact runsTo_setTo hm hdst (.of_u64 (HasInt.mul ha hb))

lemma runsTo_unary (hm : Matches σ s) {op : UnaryOp} {r : Reg} {dst : VarId} {src : Operand}
    (hdef : Defined s (.unary op r)) (hdst : dst.base = r.base) (hwide : Wide src)
    (hsrc : Means src (.reg r)) :
    RunsTo σ (opcodeStmts symbols funcNames (unaryOpcode op dst src))
      (s.set r (op.result (s.regs r))) (flagWord σ) := by
  have ha := eval_of_means hm hsrc hwide
  have hone : HasInt σ (operandTree (.imm 1)) 1 := hasInt_operandTree (.imm 1)
  cases op with
  | not => exact runsTo_setTo hm hdst (.of_u64 (HasInt.bitNot ha))
  | neg =>
    have hneg := HasInt.neg_cast (.of_u64 ha) (hdef r rfl)
    exact runsTo_setTo hm hdst (.of_u64 (hneg.paren.cast .uint64 (by decide)))
  | inc => exact runsTo_setTo hm hdst (.of_u64 (HasInt.add ha hone))
  | dec => exact runsTo_setTo hm hdst (.of_u64 (HasInt.sub ha hone))

def compareWord (op : CompareOp) (a b : U64) : U64 :=
  match op with
  | .cmp => cmpWord a b
  | .test => testWord a b

lemma runsTo_compare (hm : Matches σ s) {op : CompareOp} {lhs rhs : Operand} {a b : Source}
    (hlhs : Means lhs a) (hrhs : Means rhs b) :
    RunsTo σ (opcodeStmts symbols funcNames (compareOpcode op lhs rhs)) s
      (compareWord op (s.read a) (s.read b)) := by
  cases op with
  | cmp =>
    exact runsTo_setFlags hm (hasInt_cmpTree (hasInt_of_means hm hlhs) (hasInt_of_means hm hrhs))
  | test =>
    obtain ⟨s, hs, -, ha⟩ := typed_of_means hm hlhs
    obtain ⟨t, ht, -, hb⟩ := typed_of_means hm hrhs
    exact runsTo_setFlags hm (hasInt_testTree hs ht ha hb)

theorem runsTo_step {i : Insn} {op : Opcode} (h : Embeds i op) (hm : Matches σ s)
    (hdef : Defined s i) :
    RunsTo σ (opcodeStmts symbols funcNames op) (X86.step s i) (wordAfter s (flagWord σ) i) := by
  cases h with
  | mov hdst hop => exact runsTo_setTo hm hdst (hasInt_of_means hm hop)
  | load hdst hop =>
    have hload := (hasInt_of_addresses hm hop).paren.deref
    rw [hm.mem] at hload
    exact runsTo_setTo hm hdst (.of_u64 hload)
  | store haddr hop =>
    have htarget := (hasInt_of_addresses hm haddr).paren.target_deref
    have hexec := exec_assign htarget (hasInt_of_means hm hop)
    exact runsTo_of_exec hexec (hm.store _ _) rfl
  | lea hdst hop =>
    have hcast := (hasInt_of_addresses hm hop).paren.cast .uint64 (by decide)
    exact runsTo_setTo hm hdst (.of_u64 hcast)
  | alu hdst hwide hlhs hrhs => exact runsTo_alu symbols funcNames hm hdst hwide hlhs hrhs
  | imul hdst hwide hlhs hrhs =>
    have h : RunsTo σ (opcodeStmts symbols funcNames (aluOpcode .imul _ _ _)) _ _ :=
      runsTo_alu symbols funcNames hm hdst hwide hlhs hrhs
    exact h
  | unary hdst hwide hsrc => exact runsTo_unary symbols funcNames hm hdef hdst hwide hsrc
  | @compare kind r src lhs rhs hwide hlhs hrhs =>
    have hcompare : RunsTo σ (opcodeStmts symbols funcNames (compareOpcode kind lhs rhs)) s _ :=
      runsTo_compare symbols funcNames hm hlhs hrhs
    cases kind with
    | cmp => exact hcompare
    | test => exact hcompare

end Dexe.Straight
