import Dexe.Backend
import Dexe.Clang.Syntax
import Dexe.Ir.Erasure

/-! The trees that the emitted operands, addresses and conditions are prints of. -/

namespace Dexe.Backend

open Text Clang

def cpuField (f : Text) : Expr := .member "cpu" f

def fieldName : VarBase → Text
  | .rax => "rax"
  | .rbx => "rbx"
  | .rcx => "rcx"
  | .rdx => "rdx"
  | .rsi => "rsi"
  | .rdi => "rdi"
  | .rsp => "rsp"
  | .rbp => "rbp"
  | .r8 => "r8"
  | .r9 => "r9"
  | .r10 => "r10"
  | .r11 => "r11"
  | .r12 => "r12"
  | .r13 => "r13"
  | .r14 => "r14"
  | .r15 => "r15"
  | .rflags => "rflags"
  | .temp _ => "tmp"

def varTree (v : VarId) : Expr :=
  match v.base with
  | .temp _ => .var "tmp"
  | base => cpuField (fieldName base)

def hexNum (n : ℕ) (suffix : Suffix) : Expr := .num ⟨true, n, suffix⟩

def decNum (n : ℕ) : Expr := .num ⟨false, n, .none⟩

def negNum (n : I64) : Expr := .paren (.un .neg (hexNum (unsignedAbs n) .ll))

def dispTree (disp : I64) : Expr := if disp.toInt > 0 then hexNum disp.toNat .none else negNum disp

def baseTree (b : VarId) : Expr := .cast .uintptr (varTree b)

def indexTree (idx : VarId) (scale : BitVec 8) : Expr :=
  if scale.toNat > 1 then .bin .mul (baseTree idx) (decNum scale.toNat) else baseTree idx

def addrTerms (base index : Option VarId) (scale : BitVec 8) (disp : I64) : List Expr :=
  base.toList.map baseTree ++ index.toList.map (indexTree · scale) ++
    if disp.toInt = 0 then [] else [dispTree disp]

def sumTree : List Expr → Expr
  | [] => decNum 0
  | e :: es => es.foldl (.bin .add) e

def addrTree (base index : Option VarId) (scale : BitVec 8) (disp : I64) : Expr :=
  sumTree (addrTerms base index scale disp)

def derefTree (e : Expr) : Expr := .un .deref (.cast .uint64Ptr (.paren e))

def operandTree : Operand → Expr
  | .var v => varTree v
  | .imm n => if n.toInt ≥ 0 then hexNum n.toNat .ull else negNum n
  | .mem base index scale disp => derefTree (addrTree base index scale disp)

def memAddrTree : Operand → Expr
  | .mem base index scale disp => addrTree base index scale disp
  | op => .cast .uintptr (.paren (operandTree op))

@[simp] lemma varTree_erase (v : VarId) : varTree v.erase = varTree v := rfl

lemma addrTree_erase (base index : Option VarId) (scale : BitVec 8) (disp : I64) :
    addrTree (base.map VarId.erase) (index.map VarId.erase) scale disp =
      addrTree base index scale disp := by
  cases base <;> cases index <;> rfl

@[simp] lemma operandTree_erase (op : Operand) : operandTree op.erase = operandTree op := by
  cases op with
  | mem base index scale disp => exact congrArg derefTree (addrTree_erase base index scale disp)
  | _ => rfl

@[simp] lemma memAddrTree_erase (op : Operand) : memAddrTree op.erase = memAddrTree op := by
  cases op with
  | mem base index scale disp => exact addrTree_erase base index scale disp
  | _ => rfl

def rflags : Expr := cpuField "rflags"

def flagBit (n : ℕ) : Expr := .paren (.bin .band rflags (decNum n))

def noFlagBit (n : ℕ) : Expr := .un .lnot (flagBit n)

def condTree : Condition → Expr
  | .equal => .bin .band rflags (decNum 1)
  | .notEqual => noFlagBit 1
  | .less => .bin .band rflags (decNum 4)
  | .greaterEqual => noFlagBit 4
  | .below => .bin .band rflags (decNum 2)
  | .aboveEqual => noFlagBit 2
  | .greater => .bin .land (noFlagBit 1) (noFlagBit 4)
  | .lessEqual => .bin .lor (flagBit 1) (flagBit 4)
  | .above => .bin .land (noFlagBit 1) (noFlagBit 2)
  | .belowEqual => .bin .lor (flagBit 1) (flagBit 2)
  | .sign | .overflow | .parity => rflags
  | .notSign | .notOverflow | .notParity => .un .lnot rflags

lemma varTree_text (v : VarId) : (varTree v).text = varName v := by
  rcases v with ⟨base, version⟩
  cases base <;> rfl

lemma hexNum_text (n : ℕ) (suffix : Suffix) :
    (hexNum n suffix).text = "0x" ++ hex n ++ suffix.text := rfl

lemma decNum_text (n : ℕ) : (decNum n).text = dec n := List.append_nil _

lemma negNum_text (n : I64) : (negNum n).text = "(-0x" ++ hex (unsignedAbs n) ++ "LL)" := by
  simp [negNum, hexNum, Expr.text, Literal.text, UnOp.sym, Sym.text, Suffix.text]

lemma uintptr_text (e : Expr) : (Expr.cast .uintptr e).text = "(uintptr_t)" ++ e.text := by
  have h : (("(" : Text) ++ TypeName.text .uintptr ++ ")") = "(uintptr_t)" := by decide
  rw [Expr.text, h]

lemma uint64Ptr_text (e : Expr) : (Expr.cast .uint64Ptr e).text = "(uint64_t*)" ++ e.text := by
  have h : (("(" : Text) ++ TypeName.text .uint64Ptr ++ ")") = "(uint64_t*)" := by decide
  rw [Expr.text, h]

lemma baseTree_text (b : VarId) : (baseTree b).text = "(uintptr_t)" ++ varName b := by
  rw [baseTree, uintptr_text, varTree_text]

lemma indexTree_text (idx : VarId) (scale : BitVec 8) :
    (indexTree idx scale).text =
      if scale.toNat > 1 then "(uintptr_t)" ++ varName idx ++ " * " ++ dec scale.toNat
      else "(uintptr_t)" ++ varName idx := by
  rw [indexTree]
  split
  · simp [Expr.text, baseTree_text, decNum_text, BinOp.spaced, BinOp.sym, Sym.text]
  · exact baseTree_text idx

lemma addrTerms_text (base index : Option VarId) (scale : BitVec 8) (disp : I64) :
    (addrTerms base index scale disp).map Expr.text = memAddrParts base index scale disp := by
  have hbase : (base.toList.map baseTree).map Expr.text =
      base.elim [] fun b => ["(uintptr_t)" ++ varName b] := by
    cases base <;> simp [baseTree_text]
  have hindex : (index.toList.map (indexTree · scale)).map Expr.text =
      index.elim [] fun idx =>
        if scale.toNat > 1 then ["(uintptr_t)" ++ varName idx ++ " * " ++ dec scale.toNat]
        else ["(uintptr_t)" ++ varName idx] := by
    cases index with
    | none => rfl
    | some idx =>
      simp only [Option.toList_some, List.map_cons, List.map_nil, indexTree_text]
      split <;> rfl
  have hdisp : (if disp.toInt = 0 then [] else [dispTree disp]).map Expr.text =
      if disp.toInt > 0 then ["0x" ++ hex disp.toNat]
      else if disp.toInt < 0 then ["(-0x" ++ hex (unsignedAbs disp) ++ "LL)"]
      else [] := by
    rw [dispTree]
    rcases lt_trichotomy disp.toInt 0 with h | h | h
    · rw [if_neg (by omega), if_neg (by omega), if_neg (by omega), if_pos h, List.map_singleton,
        negNum_text]
    · rw [if_pos h, if_neg (by omega), if_neg (by omega), List.map_nil]
    · rw [if_neg (by omega), if_pos h, if_pos h, List.map_singleton, hexNum_text]
      simp [Suffix.text]
  rw [addrTerms, List.map_append, List.map_append, hbase, hindex, hdisp]
  cases base <;> cases index <;> rfl

lemma sum_text (e : Expr) (es : List Expr) :
    (es.foldl (Expr.bin .add) e).text = join " + " ((e :: es).map Expr.text) := by
  induction es generalizing e with
  | nil => rfl
  | cons e' es ih =>
    rw [List.foldl_cons, ih]
    cases es <;>
      simp [join, Expr.text, BinOp.spaced, BinOp.sym, Sym.text]

lemma addrTree_text (base index : Option VarId) (scale : BitVec 8) (disp : I64) :
    (addrTree base index scale disp).text = buildMemAddrExpr base index scale disp := by
  rw [addrTree, buildMemAddrExpr]
  simp only [← addrTerms_text]
  cases addrTerms base index scale disp with
  | nil => rfl
  | cons e es =>
    rw [if_neg (by simp)]
    exact sum_text e es

lemma derefTree_text (e : Expr) : (derefTree e).text = "*(uint64_t*)(" ++ e.text ++ ")" := by
  rw [derefTree, Expr.text, uint64Ptr_text]
  simp [Expr.text, UnOp.sym, Sym.text]

lemma operandTree_imm (n : I64) :
    operandTree (.imm n) = if n.toInt ≥ 0 then hexNum n.toNat .ull else negNum n := rfl

lemma operandTree_mem (base index : Option VarId) (scale : BitVec 8) (disp : I64) :
    operandTree (.mem base index scale disp) = derefTree (addrTree base index scale disp) := rfl

lemma emitOperand_imm (n : I64) :
    emitOperand (.imm n) =
      if n.toInt ≥ 0 then "0x" ++ hex n.toNat ++ "ULL"
      else "(-0x" ++ hex (unsignedAbs n) ++ "LL)" := rfl

lemma operandTree_text (op : Operand) : (operandTree op).text = emitOperand op := by
  cases op with
  | var v => exact varTree_text v
  | imm n =>
    rw [operandTree_imm, emitOperand_imm]
    split
    · rfl
    · exact negNum_text n
  | mem base index scale disp =>
    rw [operandTree_mem, derefTree_text, addrTree_text]
    rfl

lemma memAddrTree_text (op : Operand) : (memAddrTree op).text = emitMemAddr op := by
  have hcast : ∀ op, (Expr.cast .uintptr (.paren (operandTree op))).text =
      "(uintptr_t)(" ++ emitOperand op ++ ")" := by
    intro op
    rw [uintptr_text, Expr.text, operandTree_text]
    simp
  cases op with
  | mem base index scale disp => exact addrTree_text base index scale disp
  | var v => exact hcast (.var v)
  | imm n => exact hcast (.imm n)

lemma condTree_text (c : Condition) : "(" ++ (condTree c).text ++ ")" = getCondExpr c := by
  cases c <;> decide

lemma isIdent_cpu : IsIdent "cpu" := by decide

lemma isIdent_fieldName (base : VarBase) : IsIdent (fieldName base) := by
  cases base with
  | temp n => exact (by decide : IsIdent "tmp")
  | _ => decide

lemma fits_varTree (k : ℕ) (v : VarId) : (varTree v).Fits k := by
  rcases v with ⟨base, version⟩
  cases base with
  | temp n => exact isIdent_fieldName (.temp n)
  | _ => exact ⟨isIdent_cpu, isIdent_fieldName _⟩

lemma fits_rflags (k : ℕ) : rflags.Fits k := fits_varTree k ⟨.rflags, 0⟩

lemma separate_of_head {op : UnOp} {t : Text} {c : Char} (h : extend op.sym c = none) :
    Separate op (c :: t) := by
  rintro _ ⟨⟩
  exact h

lemma fits_negNum (k : ℕ) (n : I64) : (negNum n).Fits k :=
  ⟨by decide, separate_of_head rfl, trivial⟩

lemma fits_baseTree {k : ℕ} (hk : k ≤ unaryLevel + 1) (b : VarId) : (baseTree b).Fits k :=
  ⟨hk, fits_varTree _ b⟩

lemma fits_indexTree {k : ℕ} (hk : k ≤ BinOp.mul.level) (idx : VarId) (scale : BitVec 8) :
    (indexTree idx scale).Fits k := by
  have hmul : BinOp.mul.level < unaryLevel + 1 := by decide
  rw [indexTree]
  split
  · exact ⟨hk, fits_baseTree (by decide) idx, trivial⟩
  · exact fits_baseTree (by omega) idx

lemma fits_dispTree (k : ℕ) (disp : I64) : (dispTree disp).Fits k := by
  rw [dispTree]
  split
  · trivial
  · exact fits_negNum k disp

lemma fits_addrTerms {k : ℕ} (hk : k ≤ BinOp.mul.level) {base index : Option VarId}
    {scale : BitVec 8} {disp : I64} {e : Expr} (he : e ∈ addrTerms base index scale disp) :
    e.Fits k := by
  have hmul : BinOp.mul.level < unaryLevel + 1 := by decide
  rcases List.mem_append.mp he with he | he
  · rcases List.mem_append.mp he with he | he
    · obtain ⟨b, -, rfl⟩ := List.mem_map.mp he
      exact fits_baseTree (by omega) b
    · obtain ⟨idx, -, rfl⟩ := List.mem_map.mp he
      exact fits_indexTree hk idx scale
  · split at he
    · cases he
    · rw [List.mem_singleton.mp he]
      exact fits_dispTree k disp

lemma fits_sum {e : Expr} {es : List Expr} (he : e.Fits BinOp.add.level)
    (hes : ∀ e ∈ es, e.Fits (BinOp.add.level + 1)) :
    (es.foldl (Expr.bin .add) e).Fits BinOp.add.level := by
  induction es generalizing e with
  | nil => exact he
  | cons e' es ih =>
    have he' : (Expr.bin .add e e').Fits BinOp.add.level :=
      ⟨le_rfl, he, hes e' List.mem_cons_self⟩
    exact ih he' fun e he => hes e (List.mem_cons_of_mem _ he)

lemma fits_mono {k k' : ℕ} (hk : k' ≤ k) {e : Expr} (h : e.Fits k) : e.Fits k' := by
  cases e with
  | un op e => exact ⟨hk.trans h.1, h.2⟩
  | cast ty e => exact ⟨hk.trans h.1, h.2⟩
  | bin op a b => exact ⟨hk.trans h.1, h.2⟩
  | cond c a b => exact ⟨hk.trans h.1, h.2⟩
  | _ => exact h

lemma fits_addrTree {k : ℕ} (hk : k ≤ BinOp.add.level) (base index : Option VarId)
    (scale : BitVec 8) (disp : I64) : (addrTree base index scale disp).Fits k := by
  have hterms : ∀ e ∈ addrTerms base index scale disp, e.Fits BinOp.mul.level :=
    fun e he => fits_addrTerms le_rfl he
  refine fits_mono hk ?_
  rw [addrTree]
  cases h : addrTerms base index scale disp with
  | nil => trivial
  | cons e es =>
    rw [h] at hterms
    exact fits_sum (fits_mono (by decide) (hterms e List.mem_cons_self))
      fun e' he' => hterms e' (List.mem_cons_of_mem _ he')

lemma fits_derefTree {k : ℕ} (hk : k ≤ unaryLevel + 1) {e : Expr} (he : e.Fits 1) :
    (derefTree e).Fits k :=
  ⟨hk, separate_of_head rfl, by decide, he⟩

lemma fits_operandTree {k : ℕ} (hk : k ≤ unaryLevel + 1) (op : Operand) :
    (operandTree op).Fits k := by
  cases op with
  | var v => exact fits_varTree k v
  | imm n =>
    rw [operandTree_imm]
    split
    · trivial
    · exact fits_negNum k n
  | mem base index scale disp => exact fits_derefTree hk (fits_addrTree (by decide) ..)

lemma fits_memAddrTree (op : Operand) : (memAddrTree op).Fits 1 := by
  cases op with
  | mem base index scale disp => exact fits_addrTree (by decide) ..
  | _ => exact ⟨by decide, fits_operandTree (by decide) _⟩

lemma fits_flagBit (k n : ℕ) : (flagBit n).Fits k := ⟨by decide, fits_rflags _, trivial⟩

lemma fits_noFlagBit {k : ℕ} (hk : k ≤ unaryLevel + 1) (n : ℕ) : (noFlagBit n).Fits k :=
  ⟨hk, separate_of_head rfl, fits_flagBit _ n⟩

lemma fits_condTree (c : Condition) : (condTree c).Fits 1 := by
  have hbit : ∀ n, (Expr.bin .band rflags (decNum n)).Fits 1 :=
    fun n => ⟨by decide, fits_rflags _, trivial⟩
  have hor : ∀ m n, (Expr.bin .lor (flagBit m) (flagBit n)).Fits 1 :=
    fun m n => ⟨by decide, fits_flagBit _ m, fits_flagBit _ n⟩
  have hand : ∀ m n, (Expr.bin .land (noFlagBit m) (noFlagBit n)).Fits 1 :=
    fun m n => ⟨by decide, fits_noFlagBit (by decide) m, fits_noFlagBit (by decide) n⟩
  have hnot : (Expr.un .lnot rflags).Fits 1 :=
    ⟨by decide, separate_of_head rfl, fits_rflags _⟩
  cases c with
  | equal | less | below => exact hbit _
  | notEqual | greaterEqual | aboveEqual => exact fits_noFlagBit (by decide) _
  | greater | above => exact hand _ _
  | lessEqual | belowEqual => exact hor _ _
  | sign | overflow | parity => exact fits_rflags _
  | notSign | notOverflow | notParity => exact hnot

end Dexe.Backend
