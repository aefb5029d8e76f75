import Dexe.Bytes
import Dexe.Clang.Values

/-! What the fragment does to the objects of a program and to memory. An expression without a
value, or a statement without an outcome, is undefined or outside of the fragment. -/

namespace Dexe.Clang

inductive Place
  | var (x : Text)
  | field (x f : Text)
  deriving DecidableEq, Repr

/-- The objects lie outside of the memory that pointers reach. -/
structure State where
  vars : Place → BitVec 64
  mem : Memory

namespace State

variable (σ : State)

def set (p : Place) (v : BitVec 64) : State := { σ with vars := Function.update σ.vars p v }

def poke (a v : BitVec 64) : State := { σ with mem := σ.mem.store64 a v }

@[simp] lemma set_vars_self (p : Place) (v : BitVec 64) : (σ.set p v).vars p = v := by simp [set]

lemma set_vars_of_ne {p q : Place} (h : q ≠ p) (v : BitVec 64) :
    (σ.set p v).vars q = σ.vars q := by simp [set, h]

@[simp] lemma set_mem (p : Place) (v : BitVec 64) : (σ.set p v).mem = σ.mem := rfl
@[simp] lemma poke_vars (a v : BitVec 64) : (σ.poke a v).vars = σ.vars := rfl
@[simp] lemma poke_mem (a v : BitVec 64) : (σ.poke a v).mem = σ.mem.store64 a v := rfl

end State

namespace Expr

def valueTy : Expr → Option Ty
  | var _ | member _ _ => some .u64
  | num l => l.ty
  | paren e => e.valueTy
  | un op e =>
    e.valueTy.bind fun t =>
      match op with
      | .neg | .bitNot => if t.isInt then some t else none
      | .lnot => some .i32
      | .deref => if t = .ptr then some .u64 else none
  | cast ty _ => some ty.ty
  | bin op a b =>
    a.valueTy.bind fun s => b.valueTy.bind fun t =>
      match op with
      | .mul | .add | .sub | .band | .bxor | .bor => s.common t
      | .shl | .shr => some s
      | .lt | .eq | .land | .lor => some .i32
      | .assign | .addAssign | .subAssign => some s
      | .comma => some t
  | cond _ a b => a.valueTy.bind fun s => b.valueTy.bind fun t => s.common t
  | call0 _ | call _ _ => some .u64

end Expr

def unary (σ : State) (op : UnOp) (v : Val) : Option Val :=
  match op with
  | .neg => v.neg
  | .bitNot => v.bitNot
  | .lnot => v.truth.map fun t => .ofBool !t
  | .deref => if v.ty = .ptr then some ⟨.u64, σ.mem.load64 v.bits⟩ else none

def binary (op : BinOp) (a b : Val) : Option Val :=
  match op with
  | .mul => a.arith (· * ·) (· * ·) b
  | .add => a.arith (· + ·) (· + ·) b
  | .sub => a.arith (· - ·) (· - ·) b
  | .shl => a.shiftLeft b
  | .shr => a.shiftRight b
  | .lt => a.less b
  | .eq => a.equal b
  | .band => a.bitwise (· &&& ·) b
  | .bxor => a.bitwise (· ^^^ ·) b
  | .bor => a.bitwise (· ||| ·) b
  | .comma => some b
  | _ => none

def shortCircuit (stop : Bool) (a b : Option Val) : Option Val :=
  (a.bind Val.truth).bind fun t =>
    if t = stop then some (.ofBool stop) else (b.bind Val.truth).map Val.ofBool

def eval (σ : State) : Expr → Option Val
  | .var x => some ⟨.u64, σ.vars (.var x)⟩
  | .member x f => some ⟨.u64, σ.vars (.field x f)⟩
  | .num l => l.ty.map fun ty => .ofInt ty l.value
  | .paren e => eval σ e
  | .un op e => (eval σ e).bind (unary σ op)
  | .cast ty e => (eval σ e).bind (Val.cast ty.ty)
  | .bin op a b =>
    if op = .land then shortCircuit false (eval σ a) (eval σ b)
    else if op = .lor then shortCircuit true (eval σ a) (eval σ b)
    else (eval σ a).bind fun v => (eval σ b).bind fun w => binary op v w
  | .cond c a b =>
    ((eval σ c).bind Val.truth).bind fun t =>
      (Expr.cond c a b).valueTy.bind fun ty =>
        (if t then eval σ a else eval σ b).map fun v => ⟨ty, v.convert ty⟩
  | .call0 _ | .call _ _ => none

inductive Target
  | place (p : Place)
  | mem (a : BitVec 64)
  deriving DecidableEq, Repr

def target (σ : State) : Expr → Option Target
  | .var x => some (.place (.var x))
  | .member x f => some (.place (.field x f))
  | .paren e => target σ e
  | .un .deref e => (eval σ e).bind fun v => if v.ty = .ptr then some (.mem v.bits) else none
  | _ => none

namespace State

def get (σ : State) : Target → BitVec 64
  | .place p => σ.vars p
  | .mem a => σ.mem.load64 a

def put (σ : State) : Target → BitVec 64 → State
  | .place p, v => σ.set p v
  | .mem a, v => σ.poke a v

end State

inductive Callee
  | name (f : Text)
  | pointer (v : BitVec 64)
  deriving DecidableEq, Repr

inductive Outcome
  | next (σ : State)
  | goto (label : Text)
  | ret (v : BitVec 64)
  | call (callee : Callee) (args : List (BitVec 64)) (dst : Option Target)

def evalInt (σ : State) (e : Expr) : Option (BitVec 64) :=
  (eval σ e).bind fun v => if v.ty.isInt then some v.bits else none

def callee (σ : State) : Expr → Option Callee
  | .var f => some (.name f)
  | .paren e => callee σ e
  | e => (eval σ e).bind fun v => if v.ty = .function then some (.pointer v.bits) else none

def arguments : Expr → List Expr
  | .bin .comma a b => arguments a ++ [b]
  | e => [e]

def execCall (σ : State) (dst : Option Target) : Expr → Option Outcome
  | .call0 f => (callee σ f).map fun f => .call f [] dst
  | .call f args =>
    (callee σ f).bind fun f =>
      ((arguments args).mapM fun e => (eval σ e).map Val.bits).map fun vs => .call f vs dst
  | _ => none

def isCall : Expr → Bool
  | .call0 _ | .call _ _ => true
  | _ => false

def update (σ : State) (op : BinOp) (a b : Expr) : Option Outcome :=
  (target σ a).bind fun t => (eval σ b).bind fun w =>
    (binary op ⟨.u64, σ.get t⟩ w).map fun v => .next (σ.put t v.bits)

def execExpr (σ : State) : Expr → Option Outcome
  | .bin .assign a b =>
    (target σ a).bind fun t =>
      if isCall b then execCall σ (some t) b
      else (evalInt σ b).map fun v => .next (σ.put t v)
  | .bin .addAssign a b => update σ .add a b
  | .bin .subAssign a b => update σ .sub a b
  | e => if isCall e then execCall σ none e else (eval σ e).map fun _ => .next σ

def exec (σ : State) : Stmt → Option Outcome
  | .expr e => execExpr σ e
  | .goto label => some (.goto label)
  | .ifGoto c label =>
    ((eval σ c).bind Val.truth).map fun t => if t then .goto label else .next σ
  | .ret e => (evalInt σ e).map .ret

def execAll (σ : State) : List Stmt → Option State
  | [] => some σ
  | s :: l =>
    match exec σ s with
    | some (.next σ') => execAll σ' l
    | _ => none

lemma execAll_append (σ : State) (l l' : List Stmt) :
    execAll σ (l ++ l') = (execAll σ l).bind fun σ' => execAll σ' l' := by
  induction l generalizing σ with
  | nil => rfl
  | cons s l ih =>
    rw [List.cons_append, execAll, execAll]
    cases exec σ s with
    | none => rfl
    | some o => cases o <;> simp [ih]

end Dexe.Clang
