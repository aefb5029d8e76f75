import Dexe.Clang.Lex

/-! Lexing a printed tree gives back its tokens. -/

namespace Dexe.Clang

open Text

def Lexes (t : Text) (ts : List Token) : Prop :=
  ∀ c u, Delim c → lexFrom .start (t ++ c :: u) = (lexFrom .start (c :: u)).map (ts ++ ·)

def Closed (t : Text) (ts : List Token) : Prop :=
  ∀ u, lexFrom .start (t ++ u) = (lexFrom .start u).map (ts ++ ·)

namespace Closed

variable {t u : Text} {ts us : List Token}

lemma sym {s : Sym} (hs : ∀ c, extend s c = none) : Closed s.text [.sym s] :=
  fun _ => lexFrom_sym_append fun c _ => hs c

lemma append (ht : Closed t ts) (hu : Closed u us) : Closed (t ++ u) (ts ++ us) := by
  intro v
  rw [List.append_assoc, ht, hu, Option.map_map]
  congr 1
  funext l
  exact (List.append_assoc ts us l).symm

lemma append_lexes (ht : Closed t ts) (hu : Lexes u us) : Lexes (t ++ u) (ts ++ us) := by
  intro c v hc
  rw [List.append_assoc, ht, hu c v hc, Option.map_map]
  congr 1
  funext l
  exact (List.append_assoc ts us l).symm

end Closed

namespace Lexes

variable {t u : Text} {ts us : List Token}

lemma word {w : Text} (hne : w ≠ []) (hw : ∀ c ∈ w, isWordChar c = true) : Lexes w [.word w] := by
  intro c u hc
  rw [lexFrom_start_word hne hw, lexFrom_word_delim hc]
  rfl

lemma space (h : Lexes t ts) : Lexes (' ' :: t) ts := by
  intro c u hc
  rw [List.cons_append, lexFrom_start_space, h c u hc]

lemma sym {s : Sym} (ht : ∀ c ∈ t.head?, extend s c = none) (hne : t ≠ []) (h : Lexes t ts) :
    Lexes (s.text ++ t) (.sym s :: ts) := by
  intro c u hc
  obtain ⟨a, t, rfl⟩ := List.exists_cons_of_ne_nil hne
  rw [List.append_assoc, lexFrom_sym_append (by simpa using ht), h c u hc, Option.map_map]
  rfl

lemma append {d : Char} (hd : Delim d) (ht : Lexes t ts) (hu : Lexes (d :: u) us) :
    Lexes (t ++ d :: u) (ts ++ us) := by
  intro c v hc
  rw [List.append_assoc, List.cons_append, ht d _ hd, ← List.cons_append, hu c v hc,
    Option.map_map]
  congr 1
  funext l
  exact (List.append_assoc ts us l).symm

lemma append_closed {d : Char} (hd : Delim d) (ht : Lexes t ts) (hu : Closed (d :: u) us) :
    Closed (t ++ d :: u) (ts ++ us) := by
  intro v
  rw [List.append_assoc, List.cons_append, ht d _ hd, ← List.cons_append, hu v, Option.map_map]
  congr 1
  funext l
  exact (List.append_assoc ts us l).symm

end Lexes

lemma isWordChar_of_isHexDigit {c : Char} (h : isHexDigit c = true) : isWordChar c = true := by
  simp [isWordChar, alphanum_of_isHexDigit h]

lemma isWord_append_hex {w : Text} (hw : IsWord w) (n : ℕ) : IsWord (w ++ hex n) := by
  obtain ⟨hne, hchars, hdigit⟩ := hw
  refine ⟨by simp [hne], ?_, by rwa [List.head?_append_of_ne_nil _ hne]⟩
  intro c hc
  rcases List.mem_append.mp hc with hc | hc
  · exact hchars c hc
  · exact isWordChar_of_isHexDigit (hex_chars hc)

lemma literal_chars (l : Literal) : ∀ c ∈ l.text, isWordChar c = true := by
  have hsuffix : ∀ c ∈ l.suffix.text, isWordChar c = true := by
    cases l.suffix <;> decide
  intro c hc
  rw [Literal.text] at hc
  rcases List.mem_append.mp hc with hc | hc
  · split at hc
    · rcases List.mem_append.mp hc with hc | hc
      · have hx : ∀ c ∈ ("0x" : Text), isWordChar c = true := by decide
        exact hx c hc
      · exact isWordChar_of_isHexDigit (hex_chars hc)
    · exact isWordChar_of_isHexDigit (dec_chars hc)
  · exact hsuffix c hc

lemma literal_ne_nil (l : Literal) : l.text ≠ [] := by
  rw [Literal.text]
  split <;> simp

lemma lexes_literal (l : Literal) : Lexes l.text [.word l.text] :=
  .word (literal_ne_nil l) (literal_chars l)

lemma IsIdent.lexes {x : Text} (h : IsIdent x) : Lexes x [.word x] := .word h.1.1 h.1.2.1

lemma lexes_member {x f : Text} (hx : IsIdent x) (hf : IsIdent f) :
    Lexes (x ++ "." ++ f) [.word x, .sym .dot, .word f] := by
  intro c u hc
  obtain ⟨a, f', rfl⟩ := List.exists_cons_of_ne_nil hf.1.1
  have hdigit : a.isDigit = false := by simpa using hf.1.2.2
  have hword : isWordChar a = true := hf.1.2.1 a List.mem_cons_self
  have hdot : a ≠ '.' := by
    rintro rfl
    exact absurd hword (by decide)
  have hext : ∀ b ∈ (a :: f' ++ c :: u).head?, extend .dot b = none := by
    rintro b ⟨⟩
    simp [extend, hdigit, hdot]
  have hbreak : ∀ v, lexFrom (.word x) ('.' :: v) =
      (lexFrom .start ('.' :: v)).map (.word x :: ·) := by
    intro v
    have hnum : x.head?.any Char.isDigit = false := by simpa using hx.1.2.2
    have hw : isWordChar '.' = false := by decide
    simp only [lexFrom, lexStep, hw, hnum, and_false, Bool.false_eq_true, if_false]
    cases beginToken '.' with
    | none => rfl
    | some m => cases lexFrom m v <;> simp [*]
  have hmember : lexFrom .start ('.' :: (a :: f' ++ c :: u)) =
      (lexFrom .start (a :: f' ++ c :: u)).map (.sym .dot :: ·) := lexFrom_sym_append hext
  have htext : x ++ "." ++ (a :: f') ++ c :: u = x ++ '.' :: (a :: f' ++ c :: u) := by simp
  rw [htext, lexFrom_start_word hx.1.1 hx.1.2.1, hbreak, hmember, hf.lexes c u hc]
  cases lexFrom .start (c :: u) <;> rfl

lemma extend_space (s : Sym) : extend s ' ' = none := by cases s <;> rfl

lemma closed_lpar : Closed "(" [.sym .lpar] := .sym (s := .lpar) fun _ => rfl
lemma closed_rpar : Closed ")" [.sym .rpar] := .sym (s := .rpar) fun _ => rfl
lemma closed_semi : Closed ";" [.sym .semi] := .sym (s := .semi) fun _ => rfl

lemma Lexes.close {t : Text} {ts : List Token} (h : Lexes t ts) :
    Closed (t ++ ")") (ts ++ [.sym .rpar]) := h.append_closed (d := ')') (by decide) closed_rpar

lemma Lexes.semi {t : Text} {ts : List Token} (h : Lexes t ts) :
    Closed (t ++ ";") (ts ++ [.sym .semi]) := h.append_closed (d := ';') (by decide) closed_semi

lemma closed_typeName (ty : TypeName) : Closed (ty.text ++ ")") (ty.tokens ++ [.sym .rpar]) := by
  have hword : ∀ w ∈ typeWords, Lexes w [.word w] := by
    intro w hw
    exact .word (by revert w; decide) (by revert w; decide)
  have hstar : Closed "*)" [.sym .star, .sym .rpar] := by
    intro u
    have hext : ∀ c ∈ (")" ++ u).head?, extend .star c = none := by
      rintro c ⟨⟩
      rfl
    exact (lexFrom_sym_append hext).trans (by rw [closed_rpar u, Option.map_map]; rfl)
  cases ty with
  | void => exact (hword _ (by decide)).close
  | uint64 => exact (hword _ (by decide)).close
  | int64 => exact (hword _ (by decide)).close
  | uintptr => exact (hword _ (by decide)).close
  | uint64Ptr => exact (hword "uint64_t" (by decide)).append_closed (d := '*') (by decide) hstar
  | function =>
    have hargs := closed_lpar.append ((hword "void" (by decide)).close.append closed_rpar)
    have hptr := (closed_lpar.append hstar).append hargs
    exact (hword "uint64_t" (by decide)).append_closed (d := '(') (by decide) hptr

lemma lexes_spaced {s : Sym} {t : Text} {ts : List Token} (h : Lexes t ts) :
    Lexes (' ' :: (s.text ++ ' ' :: t)) (.sym s :: ts) :=
  .space (.sym (by simp [extend_space]) (by simp) h.space)

lemma Closed.lexes {t : Text} {ts : List Token} (h : Closed t ts) : Lexes t ts :=
  fun c u _ => h (c :: u)

lemma text_ne_nil {k : ℕ} {e : Expr} (h : e.Fits k) : e.text ≠ [] := by
  cases e with
  | var x => exact h.1.1
  | num l => exact literal_ne_nil l
  | un op e => cases op <;> simp [Expr.text, UnOp.sym, Sym.text]
  | bin op a b =>
    have hspaced : op.spaced ≠ [] := by cases op <;> decide
    simp [Expr.text, hspaced]
  | _ => simp [Expr.text]

lemma lexes_bin {op : BinOp} {t u : Text} {ts us : List Token} (ht : Lexes t ts)
    (hu : Lexes u us) : Lexes (t ++ op.spaced ++ u) (ts ++ [.sym op.sym] ++ us) := by
  rw [List.append_assoc, List.append_assoc]
  by_cases hop : op = .comma
  · subst hop
    have hcomma : Closed "," [.sym .comma] := .sym (s := .comma) fun _ => rfl
    exact ht.append (d := ',') (by decide) (hcomma.append_lexes hu.space)
  · rw [BinOp.spaced, if_neg hop]
    simpa using ht.append (d := ' ') (by decide) (lexes_spaced (s := op.sym) hu)

theorem lexes_expr {k : ℕ} {e : Expr} (h : e.Fits k) : Lexes e.text e.tokens := by
  induction e generalizing k with
  | var x => exact IsIdent.lexes h
  | member x f => exact lexes_member h.1 h.2
  | num l => exact lexes_literal l
  | paren e ih =>
    have hclosed := closed_lpar.append (ih h).close
    rw [Expr.text, Expr.tokens, List.append_assoc, List.append_assoc]
    exact hclosed.lexes
  | un op e ih => exact .sym h.2.1 (text_ne_nil h.2.2) (ih h.2.2)
  | cast ty e ih =>
    have htype := closed_lpar.append (closed_typeName ty)
    have hcast := htype.append_lexes (ih h.2)
    simpa only [Expr.text, Expr.tokens, List.append_assoc] using hcast
  | bin op a b iha ihb => exact lexes_bin (iha h.2.1) (ihb h.2.2)
  | cond c a b ihc iha ihb =>
    have hb := lexes_spaced (s := .colon) (ihb h.2.2.2)
    have ha := (iha h.2.2.1).append (by decide) hb
    have hc := (ihc h.2.1).append (by decide) (lexes_spaced (s := .quest) ha)
    simpa [Expr.text, Expr.tokens, Sym.text] using hc
  | call0 f ih =>
    have hclosed := (ih h).append_closed (d := '(') (by decide) (closed_lpar.append closed_rpar)
    exact hclosed.lexes
  | call f args ihf iha =>
    have hargs := closed_lpar.append (iha h.2).close
    have hclosed := (ihf h.1).append_closed (d := '(') (by decide) hargs
    rw [Expr.text, Expr.tokens, List.append_assoc, List.append_assoc, List.append_assoc,
      List.append_assoc]
    exact hclosed.lexes

theorem closed_stmt {s : Stmt} (h : s.Fits) : Closed s.text s.tokens := by
  have hkeyword : ∀ w ∈ ([("goto" : Text), "if", "return"] : List Text), Lexes w [.word w] := by
    intro w hw
    exact .word (by revert w; decide) (by revert w; decide)
  cases s with
  | expr e =>
    have he : Lexes e.text e.tokens := lexes_expr (k := 1) h
    rw [Stmt.text_expr]
    exact he.semi
  | goto label =>
    have hlabel : Lexes label [.word label] := .word h.1 h.2.1
    have hgoto := (hkeyword "goto" (by decide)).append (d := ' ') (by decide) hlabel.space
    simpa [Stmt.text_goto, Stmt.tokens] using hgoto.semi
  | ret e =>
    have he : Lexes e.text e.tokens := lexes_expr (k := 1) h
    have hret := (hkeyword "return" (by decide)).append (d := ' ') (by decide) he.space
    simpa [Stmt.text_ret, Stmt.tokens] using hret.semi
  | ifGoto c label =>
    have hc : Lexes c.text c.tokens := lexes_expr (k := 1) h.1
    have hlabel : Lexes label [.word label] := .word h.2.1 h.2.2.1
    have hgoto := (hkeyword "goto" (by decide)).append (d := ' ') (by decide) hlabel.space
    have hparen := (closed_lpar.append hc.close).append_lexes hgoto.space
    have hif := (hkeyword "if" (by decide)).append (d := ' ') (by decide) hparen.space
    simpa [Stmt.text_ifGoto, Stmt.tokens] using hif.semi

def stmtsText : List Stmt → Text
  | [] => []
  | [s] => s.text
  | s :: rest => s.text ++ " " ++ stmtsText rest

lemma closed_space {t : Text} {ts : List Token} (h : Closed t ts) : Closed (' ' :: t) ts := by
  intro u
  rw [List.cons_append, lexFrom_start_space, h u]

theorem closed_stmts {l : List Stmt} (h : ∀ s ∈ l, s.Fits) :
    Closed (stmtsText l) (l.flatMap Stmt.tokens) := by
  induction l with
  | nil =>
    intro u
    simp [stmtsText]
  | cons s l ih =>
    have hs := closed_stmt (h s List.mem_cons_self)
    cases l with
    | nil => simpa [stmtsText] using hs
    | cons s' l =>
      have hl := ih fun s hs => h s (List.mem_cons_of_mem _ hs)
      simpa [stmtsText] using hs.append (closed_space hl)

end Dexe.Clang
