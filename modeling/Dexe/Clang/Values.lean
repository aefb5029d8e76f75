import Dexe.Clang.Syntax
import Mathlib.Tactic

/-! Values and operators, for 32-bit `int`, 64-bit `long` and 64-bit pointers. An operation that
C leaves undefined, or that is outside of the fragment, has no value. -/

namespace Dexe.Clang

inductive Ty
  | i32 | u32 | i64 | u64 | ptr | function | void
  deriving DecidableEq, Repr

namespace Ty

def isInt : Ty → Bool
  | i32 | u32 | i64 | u64 => true
  | _ => false

def width : Ty → ℕ
  | i32 | u32 => 32
  | _ => 64

def isSigned : Ty → Bool
  | i32 | i64 => true
  | _ => false

def bound (ty : Ty) : ℕ := if ty.isSigned then 2 ^ (ty.width - 1) else 2 ^ ty.width

def common (s t : Ty) : Option Ty :=
  if s.isInt && t.isInt then
    if s = u64 ∨ t = u64 then some u64
    else if s = i64 ∨ t = i64 then some i64
    else if s = u32 ∨ t = u32 then some u32
    else some i32
  else none

end Ty

def TypeName.ty : TypeName → Ty
  | void => .void
  | uint64 => .u64
  | int64 => .i64
  | uintptr => .u64
  | uint64Ptr => .ptr
  | function => .function

namespace Literal

def types (l : Literal) : List Ty :=
  match l.suffix with
  | .none => if l.hex then [.i32, .u32, .i64, .u64] else [.i32, .i64]
  | .ll => if l.hex then [.i64, .u64] else [.i64]
  | .ull => [.u64]

def ty (l : Literal) : Option Ty := l.types.find? fun t => l.value < t.bound

end Literal

/-- A value; one of a 32-bit type is held extended to 64 bits, as its type says. -/
structure Val where
  ty : Ty
  bits : BitVec 64
  deriving DecidableEq, Repr

namespace Val

def ofInt (ty : Ty) (n : ℤ) : Val := ⟨ty, BitVec.ofInt 64 n⟩

def ofBool (b : Bool) : Val := ⟨.i32, if b then 1 else 0⟩

def wrap (ty : Ty) (b : BitVec 64) : Val :=
  ⟨ty, if ty = .u32 then (b.setWidth 32).setWidth 64 else b⟩

def convert (ty : Ty) (v : Val) : BitVec 64 := (wrap ty v.bits).bits

def cast (ty : Ty) (v : Val) : Option Val :=
  if ty = .void then some ⟨.void, 0⟩
  else if v.ty = .void then none
  else some ⟨ty, v.bits⟩

/-- An arithmetic operation: modulo on unsigned types, and undefined where a signed type does
not hold the result. -/
def arith (op : BitVec 64 → BitVec 64 → BitVec 64) (exact : ℤ → ℤ → ℤ) (a b : Val) : Option Val :=
  (a.ty.common b.ty).bind fun ty =>
    if ty.isSigned then
      let n := exact a.bits.toInt b.bits.toInt
      if -(ty.bound : ℤ) ≤ n ∧ n < ty.bound then some (ofInt ty n) else none
    else some (wrap ty (op (a.convert ty) (b.convert ty)))

def bitwise (op : BitVec 64 → BitVec 64 → BitVec 64) (a b : Val) : Option Val :=
  (a.ty.common b.ty).map fun ty => ⟨ty, op (a.convert ty) (b.convert ty)⟩

def less (a b : Val) : Option Val :=
  (a.ty.common b.ty).map fun ty =>
    ofBool (if ty.isSigned then a.bits.slt b.bits else (a.convert ty).ult (b.convert ty))

def equal (a b : Val) : Option Val :=
  (a.ty.common b.ty).map fun ty => ofBool (a.convert ty == b.convert ty)

def shiftCount (a b : Val) : Option ℕ :=
  if a.ty.isInt && b.ty.isInt && decide (b.bits.toNat < a.ty.width) then some b.bits.toNat else none

def shiftLeft (a b : Val) : Option Val :=
  (shiftCount a b).bind fun n =>
    if a.ty.isSigned then
      let m := a.bits.toInt * 2 ^ n
      if 0 ≤ a.bits.toInt ∧ m < a.ty.bound then some (ofInt a.ty m) else none
    else some (wrap a.ty (a.bits <<< n))

/-- A negative value is shifted arithmetically, as compilers do. -/
def shiftRight (a b : Val) : Option Val :=
  (shiftCount a b).map fun n => ⟨a.ty, if a.ty.isSigned then a.bits.sshiftRight n else a.bits >>> n⟩

def neg (v : Val) : Option Val := arith (fun _ b => -b) (fun _ n => -n) v v

def bitNot (v : Val) : Option Val := if v.ty.isInt then some (wrap v.ty (~~~ v.bits)) else none

def truth (v : Val) : Option Bool := if v.ty = .void then none else some (v.bits != 0)

end Val

end Dexe.Clang
