import Dexe.X86.Semantics
import Mathlib.Data.BitVec

/-! The status flags, and the conditions that are read from them. -/

namespace Dexe.X86

inductive Flag
  | zero | carry | sign | overflow
  deriving DecidableEq, Repr

abbrev Flags := Flag → Bool

def resultFlags (carry overflow : Bool) (v : U64) : Flags
  | .zero => v == 0
  | .sign => v.msb
  | .carry => carry
  | .overflow => overflow

def subFlags (a b : U64) : Flags := resultFlags (a.ult b) (a.ssubOverflow b) (a - b)

/-- The flags that an instruction writes. The multiplication leaves two of them undefined and is
not among the instructions whose flags are looked at. -/
def Insn.writes : Insn → List Flag
  | .mov _ _ | .store _ _ | .lea _ _ | .unary .not _ | .alu .imul _ _ | .imul _ _ _ => []
  | .unary .inc _ | .unary .dec _ => [.zero, .sign, .overflow]
  | .alu _ _ _ | .unary .neg _ | .compare _ _ _ => [.zero, .carry, .sign, .overflow]

def newFlags (s : State) : Insn → Flags
  | .alu op dst src =>
    let a := s.regs dst
    let b := s.read src
    match op with
    | .add => resultFlags (a.uaddOverflow b) (a.saddOverflow b) (a + b)
    | .sub => subFlags a b
    | op => resultFlags false false (op.result a b)
  | .unary op dst =>
    let a := s.regs dst
    match op with
    | .inc => resultFlags false (a == BitVec.intMax 64) (a + 1)
    | .dec => resultFlags false (a == BitVec.intMin 64) (a - 1)
    | op => resultFlags (a != 0) (a == BitVec.intMin 64) (op.result a)
  | .compare .cmp lhs rhs => subFlags (s.regs lhs) (s.read rhs)
  | .compare .test lhs rhs => resultFlags false false (s.regs lhs &&& s.read rhs)
  | _ => fun _ => false

def stepFlags (s : State) (f : Flags) (i : Insn) : Flags :=
  fun x => if x ∈ i.writes then newFlags s i x else f x

def runFlags (s : State) (f : Flags) : List Insn → Flags
  | [] => f
  | i :: code => runFlags (step s i) (stepFlags s f i) code

inductive Cond
  | e | ne | l | le | g | ge | b | be | a | ae | s | ns
  deriving DecidableEq, Repr

namespace Cond

def suffix : Cond → Text
  | e => "e"
  | ne => "ne"
  | l => "l"
  | le => "le"
  | g => "g"
  | ge => "ge"
  | b => "b"
  | be => "be"
  | a => "a"
  | ae => "ae"
  | s => "s"
  | ns => "ns"

def holds (f : Flags) : Cond → Bool
  | e => f .zero
  | ne => !f .zero
  | l => f .sign != f .overflow
  | le => f .zero || f .sign != f .overflow
  | g => !f .zero && f .sign == f .overflow
  | ge => f .sign == f .overflow
  | b => f .carry
  | be => f .carry || f .zero
  | a => !f .carry && !f .zero
  | ae => !f .carry
  | s => f .sign
  | ns => !f .sign

def tests : Cond → List Flag
  | e | ne => [.zero]
  | l | ge => [.sign, .overflow]
  | le | g => [.zero, .sign, .overflow]
  | b | ae => [.carry]
  | be | a => [.carry, .zero]
  | s | ns => [.sign]

lemma holds_congr {f f' : Flags} {c : Cond} (h : ∀ x ∈ c.tests, f x = f' x) :
    c.holds f = c.holds f' := by
  cases c <;> simp_all [tests, holds]

end Cond

def byteNames : List Text :=
  ["al", "ah", "bl", "bh", "cl", "ch", "dl", "dh", "sil", "dil", "spl", "bpl", "r8b", "r9b",
    "r10b", "r11b", "r12b", "r13b", "r14b", "r15b"]

inductive Conditional
  | jump (cond : Cond) (target : U64)
  | move (cond : Cond) (dst : Reg) (src : Factor)
  | set (cond : Cond) (dst : Text) (byte : dst ∈ byteNames)

namespace Conditional

def cond : Conditional → Cond
  | jump c _ | move c _ _ | set c _ _ => c

def mnemonic : Conditional → Text
  | jump c _ => "j" ++ c.suffix
  | move c _ _ => "cmov" ++ c.suffix
  | set c _ _ => "set" ++ c.suffix

def operands : Conditional → List Text
  | jump _ target => [magnitudeText target.toNat]
  | move _ dst src => [dst.name, src.source.text]
  | set _ dst _ => [dst]

end Conditional

inductive Writer
  | alu (op : AluOp)
  | unary (op : UnaryOp)
  | compare (op : CompareOp)
  deriving DecidableEq, Repr

def Insn.writer : Insn → Option Writer
  | .alu op _ _ => some (.alu op)
  | .unary op _ => some (.unary op)
  | .compare op _ _ => some (.compare op)
  | _ => none

def Insn.writesTested (c : Cond) (i : Insn) : Bool := i.writes.any (· ∈ c.tests)

def lastWriter (c : Cond) (code : List Insn) : Option Writer :=
  (code.reverse.find? (·.writesTested c)).bind Insn.writer

lemma lastWriter_concat (c : Cond) (code : List Insn) (i : Insn) :
    lastWriter c (code ++ [i]) = if i.writesTested c then i.writer else lastWriter c code := by
  rw [lastWriter, List.reverse_concat, List.find?_cons]
  cases i.writesTested c <;> rfl

lemma runFlags_concat (s : State) (f : Flags) (code : List Insn) (i : Insn) :
    runFlags s f (code ++ [i]) = stepFlags (run s code) (runFlags s f code) i := by
  induction code generalizing s f with
  | nil => rfl
  | cons j code ih => exact ih (step s j) (stepFlags s f j)

lemma holds_stepFlags {c : Cond} {i : Insn} (h : i.writesTested c = false) (s : State) (f : Flags) :
    c.holds (stepFlags s f i) = c.holds f := by
  refine Cond.holds_congr fun x hx => ?_
  have hout : x ∉ i.writes := by
    intro hmem
    have := List.any_eq_false.mp h x hmem
    simp [hx] at this
  rw [stepFlags, if_neg hout]

lemma stepFlags_compare (s : State) (f : Flags) (op : CompareOp) (r : Reg) (src : Source) :
    stepFlags s f (.compare op r src) = newFlags s (.compare op r src) := by
  funext x
  cases x <;> rfl

lemma writesTested_compare (c : Cond) (op : CompareOp) (r : Reg) (src : Source) :
    (Insn.compare op r src).writesTested c = true := by cases c <;> rfl

lemma subFlags_zero (a b : U64) : subFlags a b .zero = (a == b) := by
  show (a - b == 0) = (a == b)
  rw [Bool.eq_iff_iff, beq_iff_eq, beq_iff_eq]
  exact sub_eq_zero (a := a) (b := b)

lemma subFlags_less (a b : U64) :
    (subFlags a b .sign != subFlags a b .overflow) = a.slt b := by
  have hmsb : (a - b).msb = decide ((a.toInt - b.toInt).bmod (2 ^ 64) < 0) := by
    rw [BitVec.msb_eq_toInt, BitVec.toInt_sub]
  have hoverflow : a.ssubOverflow b =
      decide (2 ^ 63 ≤ a.toInt - b.toInt ∨ a.toInt - b.toInt < -2 ^ 63) := by
    simp [BitVec.ssubOverflow]
  have hless : a.slt b = decide (a.toInt < b.toInt) := BitVec.slt_eq_decide
  have ha := BitVec.two_mul_toInt_lt (x := a)
  have ha' := BitVec.le_two_mul_toInt (x := a)
  have hb := BitVec.two_mul_toInt_lt (x := b)
  have hb' := BitVec.le_two_mul_toInt (x := b)
  show ((a - b).msb != a.ssubOverflow b) = a.slt b
  rw [hmsb, hoverflow, hless, Bool.eq_iff_iff, bne_iff_ne, ne_eq, decide_eq_decide,
    decide_eq_true_iff]
  generalize a.toInt = x at *
  generalize b.toInt = y at *
  have hsign : (x - y).bmod (2 ^ 64) < 0 ↔ 2 ^ 63 ≤ (x - y) % 2 ^ 64 := by
    have hdef := Int.bmod_def (x - y) (2 ^ 64)
    split at hdef <;> omega
  rw [hsign]
  omega

lemma subFlags_ge (a b : U64) :
    (subFlags a b .sign == subFlags a b .overflow) = !a.slt b := by
  rw [← subFlags_less]
  cases subFlags a b .sign <;> cases subFlags a b .overflow <;> rfl

end Dexe.X86
