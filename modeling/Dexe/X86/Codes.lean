import Dexe.X86.Flags

/-! The condition codes with their other names, and the relations of compared numbers. -/

namespace Dexe.X86

inductive Code
  | cond (c : Cond)
  | o | no | p | np
  deriving DecidableEq, Repr

def Cond.suffixes : Cond → List Text
  | e => ["e", "z"]
  | ne => ["ne", "nz"]
  | l => ["l", "nge"]
  | le => ["le", "ng"]
  | g => ["g", "nle"]
  | ge => ["ge", "nl"]
  | b => ["b", "nae", "c"]
  | be => ["be", "na"]
  | a => ["a", "nbe"]
  | ae => ["ae", "nb", "nc"]
  | s => ["s"]
  | ns => ["ns"]

def evenParity (v : U64) : Bool := (List.range 8).countP v.getLsbD % 2 == 0

namespace Code

def suffixes : Code → List Text
  | cond c => c.suffixes
  | o => ["o"]
  | no => ["no"]
  | p => ["p", "pe"]
  | np => ["np", "po"]

def holds (f : Flags) (parity : Bool) : Code → Bool
  | cond c => c.holds f
  | o => f .overflow
  | no => !f .overflow
  | p => parity
  | np => !parity

end Code

def codes : List Code :=
  [.cond .e, .cond .ne, .cond .l, .cond .le, .cond .g, .cond .ge, .cond .b, .cond .be, .cond .a,
    .cond .ae, .cond .s, .cond .ns, .o, .no, .p, .np]

lemma mem_codes (c : Code) : c ∈ codes := by
  rcases c with c | _ | _ | _ | _
  · cases c <;> decide
  all_goals decide

inductive Reader
  | jump (target : Text)
  | move (dst src : Text)
  | set (dst : Text)

namespace Reader

def stem : Reader → Text
  | jump _ => "j"
  | move _ _ => "cmov"
  | set _ => "set"

def operands : Reader → List Text
  | jump target => [target]
  | move dst src => [dst, src]
  | set dst => [dst]

end Reader

def Conditional.reader : Conditional → Reader
  | jump _ target => .jump (magnitudeText target.toNat)
  | move _ dst src => .move dst.name src.source.text
  | set _ dst _ => .set dst

inductive Relation
  | e | ne | l | le | g | ge | b | be | a | ae
  deriving DecidableEq, Repr

namespace Relation

def cond : Relation → Cond
  | e => .e
  | ne => .ne
  | l => .l
  | le => .le
  | g => .g
  | ge => .ge
  | b => .b
  | be => .be
  | a => .a
  | ae => .ae

def Relates (x y : U64) : Relation → Prop
  | e => x = y
  | ne => x ≠ y
  | l => x.toInt < y.toInt
  | le => x.toInt ≤ y.toInt
  | g => x.toInt > y.toInt
  | ge => x.toInt ≥ y.toInt
  | b => x.toNat < y.toNat
  | be => x.toNat ≤ y.toNat
  | a => x.toNat > y.toNat
  | ae => x.toNat ≥ y.toNat

instance (x y : U64) (r : Relation) : Decidable (r.Relates x y) :=
  match r with
  | e => inferInstanceAs (Decidable (x = y))
  | ne => inferInstanceAs (Decidable (x ≠ y))
  | l => inferInstanceAs (Decidable (x.toInt < y.toInt))
  | le => inferInstanceAs (Decidable (x.toInt ≤ y.toInt))
  | g => inferInstanceAs (Decidable (x.toInt > y.toInt))
  | ge => inferInstanceAs (Decidable (x.toInt ≥ y.toInt))
  | b => inferInstanceAs (Decidable (x.toNat < y.toNat))
  | be => inferInstanceAs (Decidable (x.toNat ≤ y.toNat))
  | a => inferInstanceAs (Decidable (x.toNat > y.toNat))
  | ae => inferInstanceAs (Decidable (x.toNat ≥ y.toNat))

end Relation

theorem holds_subFlags (x y : U64) (r : Relation) :
    r.cond.holds (subFlags x y) = decide (r.Relates x y) := by
  have hcarry : subFlags x y .carry = decide (x.toNat < y.toNat) := BitVec.ult_eq_decide
  have hless : x.slt y = decide (x.toInt < y.toInt) := BitVec.slt_eq_decide
  have hzero : (x == y) = decide (x = y) := beq_eq_decide x y
  have hnat : x = y ↔ x.toNat = y.toNat := BitVec.toNat_inj.symm
  have hint : x = y ↔ x.toInt = y.toInt := BitVec.toInt_inj.symm
  rw [Bool.eq_iff_iff, decide_eq_true_iff]
  cases r with
  | e | ne => simp [Relation.cond, Cond.holds, Relation.Relates, subFlags_zero]
  | l | ge =>
    simp [Relation.cond, Cond.holds, Relation.Relates, subFlags_less, subFlags_ge, hless]
  | le | g =>
    simp only [Relation.cond, Cond.holds, Relation.Relates, subFlags_zero, subFlags_less,
      subFlags_ge, hless, hzero]
    simp only [hint, Bool.or_eq_true, Bool.and_eq_true, Bool.not_eq_true', decide_eq_true_iff,
      decide_eq_false_iff_not]
    omega
  | b | ae => simp [Relation.cond, Cond.holds, Relation.Relates, hcarry]
  | be | a =>
    simp only [Relation.cond, Cond.holds, Relation.Relates, subFlags_zero, hcarry, hzero]
    simp only [hnat, Bool.or_eq_true, Bool.and_eq_true, Bool.not_eq_true', decide_eq_true_iff,
      decide_eq_false_iff_not]
    omega

end Dexe.X86
