import Dexe.Text.Basic
import Mathlib.Tactic.IntervalCases

/-! Numerals: `from_str_radix` and the digits that `{:x}` prints. -/

namespace Dexe

/-- `u64`; an `i64` is the same 64 bits, read with `BitVec.toInt`. -/
abbrev U64 := BitVec 64
abbrev I64 := BitVec 64

namespace Text

def toDigit (radix : ℕ) (c : Char) : Option ℕ :=
  let d :=
    if '0' ≤ c ∧ c ≤ '9' then some (c.toNat - '0'.toNat)
    else if 'a' ≤ c ∧ c ≤ 'z' then some (c.toNat - 'a'.toNat + 10)
    else if 'A' ≤ c ∧ c ≤ 'Z' then some (c.toNat - 'A'.toNat + 10)
    else none
  d.filter (· < radix)

def digitsFrom (radix : ℕ) : ℕ → Text → Option ℕ
  | n, [] => some n
  | n, c :: s => (toDigit radix c).bind fun d => digitsFrom radix (n * radix + d) s

def digits (radix : ℕ) (s : Text) : Option ℕ :=
  if s = [] then none else digitsFrom radix 0 s

def u64FromStrRadix (s : Text) (radix : ℕ) : Option U64 :=
  let ds := if s.head? = some '+' then s.tail else s
  (digits radix ds).bind fun n => if n < 2 ^ 64 then some (BitVec.ofNat 64 n) else none

def i64FromStrRadix (s : Text) (radix : ℕ) : Option I64 :=
  if s.head? = some '-' then
    (digits radix s.tail).bind fun n => if n ≤ 2 ^ 63 then some (-BitVec.ofNat 64 n) else none
  else
    let ds := if s.head? = some '+' then s.tail else s
    (digits radix ds).bind fun n => if n < 2 ^ 63 then some (BitVec.ofNat 64 n) else none

def hex (n : ℕ) : Text := Nat.toDigits 16 n

def dec (n : ℕ) : Text := Nat.toDigits 10 n

lemma toDigit_digitChar {radix d : ℕ} (hr : radix ≤ 16) (hd : d < radix) :
    toDigit radix d.digitChar = some d := by
  have hd' : d < 16 := by omega
  interval_cases d <;> simp [toDigit, Nat.digitChar, Option.filter, hd]

lemma digitsFrom_append (radix n : ℕ) (s t : Text) :
    digitsFrom radix n (s ++ t) = (digitsFrom radix n s).bind fun m => digitsFrom radix m t := by
  induction s generalizing n with
  | nil => rfl
  | cons c s ih => cases h : toDigit radix c <;> simp [digitsFrom, h, ih]

lemma digitsFrom_toDigits {radix : ℕ} (h2 : 2 ≤ radix) (hr : radix ≤ 16) (n : ℕ) :
    digitsFrom radix 0 (Nat.toDigits radix n) = some n := by
  induction n using Nat.strong_induction_on with
  | _ n ih =>
    rw [Nat.toDigits_eq_if (by omega)]
    split
    · rename_i h
      simp [digitsFrom, toDigit_digitChar hr h]
    · rename_i h
      have hlt : n / radix < n := Nat.div_lt_self (by omega) (by omega)
      have hmod : n % radix < radix := Nat.mod_lt _ (by omega)
      rw [digitsFrom_append, ih _ hlt]
      simp [digitsFrom, toDigit_digitChar hr hmod, Nat.div_add_mod']

lemma digits_toDigits {radix : ℕ} (h2 : 2 ≤ radix) (hr : radix ≤ 16) (n : ℕ) :
    digits radix (Nat.toDigits radix n) = some n := by
  rw [digits, if_neg Nat.toDigits_ne_nil, digitsFrom_toDigits h2 hr]

def isHexDigit (c : Char) : Bool := c.isDigit || ('a' ≤ c && c ≤ 'f')

lemma alphanum_of_isHexDigit {c : Char} (h : isHexDigit c = true) : c.isAlphanum = true := by
  simp only [isHexDigit, Bool.or_eq_true, Bool.and_eq_true, decide_eq_true_iff] at h
  rw [isAlphanum_iff]
  rcases h with h | ⟨ha, hf⟩
  · exact .inr h
  · exact .inl (.inr ⟨ha, Char.le_trans hf (by decide)⟩)

lemma isHexDigit_digitChar {d : ℕ} (hd : d < 16) : isHexDigit d.digitChar = true := by
  interval_cases d <;> decide

lemma isHexDigit_of_mem_toDigits {radix : ℕ} (h2 : 2 ≤ radix) (hr : radix ≤ 16) (n : ℕ) {c : Char}
    (hc : c ∈ Nat.toDigits radix n) : isHexDigit c = true := by
  induction n using Nat.strong_induction_on with
  | _ n ih =>
    rw [Nat.toDigits_eq_if (by omega)] at hc
    split at hc
    · rename_i h
      rw [List.mem_singleton.mp hc]
      exact isHexDigit_digitChar (by omega)
    · rename_i h
      rcases List.mem_append.mp hc with hc | hc
      · exact ih _ (Nat.div_lt_self (by omega) (by omega)) hc
      · rw [List.mem_singleton.mp hc]
        exact isHexDigit_digitChar ((Nat.mod_lt _ (by omega)).trans_le hr)

lemma hex_chars {n : ℕ} {c : Char} (hc : c ∈ hex n) : isHexDigit c = true :=
  isHexDigit_of_mem_toDigits (by norm_num) (by norm_num) n hc

lemma dec_chars {n : ℕ} {c : Char} (hc : c ∈ dec n) : isHexDigit c = true :=
  isHexDigit_of_mem_toDigits (by norm_num) (by norm_num) n hc

@[simp] lemma hex_ne_nil (n : ℕ) : hex n ≠ [] := Nat.toDigits_ne_nil

@[simp] lemma dec_ne_nil (n : ℕ) : dec n ≠ [] := Nat.toDigits_ne_nil

@[simp] lemma digits_hex (n : ℕ) : digits 16 (hex n) = some n :=
  digits_toDigits (by norm_num) (by norm_num) n

@[simp] lemma digits_dec (n : ℕ) : digits 10 (dec n) = some n :=
  digits_toDigits (by norm_num) (by norm_num) n

lemma hex_injective : Function.Injective hex := by
  intro a b h
  have := congrArg (digits 16) h
  simpa using this

end Text

end Dexe
