import Mathlib.Data.List.DropRight

/-! Text as a list of characters, with the operations of Rust's `str` that a
text-processing program uses. -/

namespace Dexe

-- a bounded statement is decided along the list, also where the type is finite
instance (priority := 2000) decidableForallMem {α : Type*} (p : α → Prop) [DecidablePred p]
    (l : List α) : Decidable (∀ a ∈ l, p a) := List.decidableBAll p l

instance (priority := 2000) decidableForallMemOption {α : Type*} (p : α → Prop) [DecidablePred p]
    (o : Option α) : Decidable (∀ a ∈ o, p a) := Option.decidableForallMem o

abbrev Text := List Char

instance : Coe String Text := ⟨String.toList⟩

-- by name, so that all decisions of `t ∈ l` are the same term
instance : LawfulBEq Text := inferInstanceAs (LawfulBEq (List Char))

namespace Text

def isWhitespace (c : Char) : Bool :=
  (9 ≤ c.toNat && c.toNat ≤ 13) || c.toNat == 0x20 || c.toNat == 0x85 || c.toNat == 0xa0 ||
    c.toNat == 0x1680 || (0x2000 ≤ c.toNat && c.toNat ≤ 0x200a) || c.toNat == 0x2028 ||
    c.toNat == 0x2029 || c.toNat == 0x202f || c.toNat == 0x205f || c.toNat == 0x3000

def trim (s : Text) : Text := (s.dropWhile isWhitespace).rdropWhile isWhitespace

/-- `char::to_lowercase`. Outside ASCII only the Kelvin sign and the dotted capital I have a
lower case form with an ASCII letter in it; other letters are kept, which only the comment of an
unknown mnemonic shows: mnemonics are meant to be ASCII. -/
def lowerChar (c : Char) : Text :=
  if c.toNat = 0x212a then ['k']
  else if c.toNat = 0x130 then ['i', Char.ofNat 0x307]
  else [c.toLower]

def toLowercase (s : Text) : Text := s.flatMap lowerChar

lemma isUpper_iff {c : Char} : c.isUpper = true ↔ 'A' ≤ c ∧ c ≤ 'Z' := by
  have hdef : c.isUpper = decide ('A' ≤ c ∧ c ≤ 'Z') := rfl
  rw [hdef, decide_eq_true_iff]

lemma isLower_iff {c : Char} : c.isLower = true ↔ 'a' ≤ c ∧ c ≤ 'z' := by
  have hdef : c.isLower = (decide ('a' ≤ c) && decide (c ≤ 'z')) := rfl
  rw [hdef, Bool.and_eq_true, decide_eq_true_iff, decide_eq_true_iff]

lemma isAlphanum_iff {c : Char} : c.isAlphanum = true ↔
    (('A' ≤ c ∧ c ≤ 'Z') ∨ ('a' ≤ c ∧ c ≤ 'z')) ∨ c.isDigit = true := by
  have hdef : c.isAlphanum = ((c.isUpper || c.isLower) || c.isDigit) := rfl
  rw [hdef, Bool.or_eq_true, Bool.or_eq_true, isUpper_iff, isLower_iff]

def startsWith (s pat : Text) : Bool := pat.isPrefixOf s

def stripPrefix (s pat : Text) : Option Text :=
  if s.startsWith pat then some (s.drop pat.length) else none

def trimStartMatchesAux (pat : Text) : ℕ → Text → Text
  | 0, s => s
  | n + 1, s => if s.startsWith pat then trimStartMatchesAux pat n (s.drop pat.length) else s

def trimStartMatches (s pat : Text) : Text := trimStartMatchesAux pat s.length s

def find (s : Text) (c : Char) : Option ℕ := s.findIdx? (· = c)

def rfind (s : Text) (c : Char) : Option ℕ :=
  (s.reverse.findIdx? (· = c)).map fun i => s.length - 1 - i

def contains (s pat : Text) : Bool := s.tails.any fun t => startsWith t pat

/-- `&s[a..b]`, which panics unless `a ≤ b ≤ s.len()`. -/
def slice (s : Text) (a b : ℕ) : Option Text :=
  if a ≤ b ∧ b ≤ s.length then some ((s.take b).drop a) else none

def replaceAux (pat rep : Text) : ℕ → Text → Text
  | _, [] => []
  | k + 1, _ :: s => replaceAux pat rep k s
  | 0, c :: s =>
    if pat.isPrefixOf (c :: s) then rep ++ replaceAux pat rep (pat.length - 1) s
    else c :: replaceAux pat rep 0 s

def replace (s pat rep : Text) : Text := replaceAux pat rep 0 s

end Text

end Dexe
