import Dexe.Clang.Syntax

/-! The lexer: one pass over the characters, always extending a token as far as it goes. A text
with a character or an operator outside of the fragment is rejected. -/

namespace Dexe.Clang

inductive LexMode
  | start
  | word (w : Text)
  | sym (s : Sym)
  | slash
  | comment
  | star
  deriving DecidableEq, Repr

def isSpace (c : Char) : Bool := c == ' ' || c == '\n' || c == '\t'

def singles : List (Char × Sym) :=
  [('(', .lpar), (')', .rpar), (';', .semi), (',', .comma), ('?', .quest), (':', .colon),
    ('.', .dot), ('~', .tilde), ('=', .assign), ('!', .bang), ('<', .lt), ('>', .gt), ('&', .amp),
    ('|', .bar), ('^', .caret), ('+', .plus), ('-', .minus), ('*', .star)]

def beginToken (c : Char) : Option LexMode :=
  if isSpace c then some .start
  else if isWordChar c then some (.word [c])
  else if c = '/' then some .slash
  else (singles.lookup c).map .sym

def lexStep : LexMode → Char → Option (List Token × LexMode)
  | .start, c => (beginToken c).map ([], ·)
  | .word w, c =>
    if isWordChar c then some ([], .word (w ++ [c]))
    else if c = '.' ∧ w.head?.any Char.isDigit then none
    else (beginToken c).map ([.word w], ·)
  | .sym s, c =>
    match extend s c with
    | some joined => joined.map ([], .sym ·)
    | none => (beginToken c).map ([.sym s], ·)
  | .slash, c => if c = '*' then some ([], .comment) else none
  | .comment, c => some ([], if c = '*' then .star else .comment)
  | .star, c => some ([], if c = '/' then .start else if c = '*' then .star else .comment)

def lexEnd : LexMode → Option (List Token)
  | .start => some []
  | .word w => some [.word w]
  | .sym s => some [.sym s]
  | _ => none

def lexFrom : LexMode → Text → Option (List Token)
  | m, [] => lexEnd m
  | m, c :: t => (lexStep m c).bind fun p => (lexFrom p.2 t).map (p.1 ++ ·)

def lex (t : Text) : Option (List Token) := lexFrom .start t

lemma lexFrom_word {w : Text} (hw : ∀ c ∈ w, isWordChar c = true) (v t : Text) :
    lexFrom (.word v) (w ++ t) = lexFrom (.word (v ++ w)) t := by
  induction w generalizing v with
  | nil => simp
  | cons c w ih =>
    have hc : isWordChar c = true := hw c List.mem_cons_self
    rw [List.cons_append, lexFrom, lexStep, if_pos hc, Option.bind_some,
      ih (fun c hc => hw c (List.mem_cons_of_mem _ hc))]
    simp

lemma not_space_of_word {c : Char} (h : isWordChar c = true) : isSpace c = false := by
  rw [isSpace]
  by_contra hs
  simp only [Bool.not_eq_false, Bool.or_eq_true, beq_iff_eq] at hs
  rcases hs with (rfl | rfl) | rfl <;> exact absurd h (by decide)

lemma lexFrom_start_word {w : Text} (hne : w ≠ []) (hw : ∀ c ∈ w, isWordChar c = true) (t : Text) :
    lexFrom .start (w ++ t) = lexFrom (.word w) t := by
  obtain ⟨c, w, rfl⟩ := List.exists_cons_of_ne_nil hne
  have hc : isWordChar c = true := hw c List.mem_cons_self
  have hbegin : beginToken c = some (.word [c]) := by
    simp [beginToken, not_space_of_word hc, hc]
  have hrest := lexFrom_word (fun c hc => hw c (List.mem_cons_of_mem _ hc)) [c] t
  rw [List.cons_append, lexFrom, lexStep, hbegin, Option.map_some, Option.bind_some, hrest]
  simp

lemma lexFrom_start_space (t : Text) : lexFrom .start (' ' :: t) = lexFrom .start t := by
  have hbegin : beginToken ' ' = some .start := by decide
  rw [lexFrom, lexStep, hbegin]
  simp

def Delim (c : Char) : Prop := isWordChar c = false ∧ c ≠ '.'

instance (c : Char) : Decidable (Delim c) := inferInstanceAs (Decidable (_ ∧ _))

lemma lexFrom_word_delim {c : Char} (hc : Delim c) (w t : Text) :
    lexFrom (.word w) (c :: t) = (lexFrom .start (c :: t)).map (.word w :: ·) := by
  obtain ⟨hw, hdot⟩ := hc
  simp only [lexFrom, lexStep, hw, hdot, false_and, Bool.false_eq_true, if_false]
  cases beginToken c with
  | none => rfl
  | some m => cases lexFrom m t <;> simp [*]

lemma lexFrom_sym {s : Sym} {t : Text} (h : ∀ c ∈ t.head?, extend s c = none) :
    lexFrom (.sym s) t = (lexFrom .start t).map (.sym s :: ·) := by
  cases t with
  | nil => rfl
  | cons c t =>
    have hc : extend s c = none := h c rfl
    simp only [lexFrom, lexStep, hc]
    cases beginToken c with
    | none => rfl
    | some m => cases lexFrom m t <;> simp [*]

lemma lexFrom_sym_text (s : Sym) (t : Text) :
    lexFrom .start (s.text ++ t) = lexFrom (.sym s) t := by
  cases s <;> simp [Sym.text, lexFrom, lexStep, beginToken, isSpace, isWordChar, singles,
    List.lookup_cons, extend, Function.comp_def]

lemma lexFrom_sym_append {s : Sym} {t : Text} (h : ∀ c ∈ t.head?, extend s c = none) :
    lexFrom .start (s.text ++ t) = (lexFrom .start t).map (.sym s :: ·) :=
  (lexFrom_sym_text s t).trans (lexFrom_sym h)

end Dexe.Clang
