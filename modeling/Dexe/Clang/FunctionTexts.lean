import Dexe.Clang.Functions
import Dexe.Clang.RoundTrip

/-! What function definitions are read from: the marks of a text that consists of tokens, and the
items of a text that consists of statements. -/

namespace Dexe.Clang

def lexRun : LexMode → Text → Option (List Token × LexMode)
  | m, [] => some ([], m)
  | m, c :: t => (lexStep m c).bind fun p => (lexRun p.2 t).map fun q => (p.1 ++ q.1, q.2)

lemma lexFrom_append (m : LexMode) (t u : Text) :
    lexFrom m (t ++ u) = (lexRun m t).bind fun p => (lexFrom p.2 u).map (p.1 ++ ·) := by
  induction t generalizing m with
  | nil => simp [lexRun]
  | cons c t ih =>
    rw [List.cons_append, lexFrom, lexRun]
    cases lexStep m c with
    | none => rfl
    | some p =>
      rw [Option.bind_some, Option.bind_some, ih]
      cases lexRun p.2 t with
      | none => rfl
      | some q => simp [Function.comp_def]

lemma marksFrom_append {m : LexMode} {t : Text} {p : List Token × LexMode}
    (h : lexRun m t = some p) (u : Text) :
    marksFrom m (t ++ u) = (marksFrom p.2 u).map (p.1.map .tok ++ ·) := by
  induction t generalizing m p with
  | nil =>
    cases h
    simp
  | cons c t ih =>
    obtain ⟨q, hq, h⟩ := Option.bind_eq_some_iff.mp h
    obtain ⟨r, hr, rfl⟩ := Option.map_eq_some_iff.mp h
    rw [List.cons_append, marksFrom, markStep, hq, Option.bind_some, ih hr]
    simp [Function.comp_def]

structure Ended (m : LexMode) (ts : List Token) : Prop where
  tokens : lexEnd m = some ts
  restart : ∀ u, lexFrom m u = (lexFrom .start u).map (ts ++ ·)

lemma Closed.lexRun {t : Text} {ts : List Token} (h : Closed t ts) :
    ∃ before m after,
      lexRun .start t = some (before, m) ∧ Ended m after ∧ ts = before ++ after := by
  have hrun : ∀ u, _ := fun u => (lexFrom_append .start t u).symm.trans (h u)
  cases hp : Clang.lexRun .start t with
  | none =>
    have := hrun []
    simp [hp, lexFrom, lexEnd] at this
  | some p =>
    simp only [hp, Option.bind_some] at hrun
    have hnil := hrun []
    simp only [lexFrom, lexEnd, Option.map_some, List.append_nil] at hnil
    obtain ⟨after, hafter, rfl⟩ := Option.map_eq_some_iff.mp hnil
    refine ⟨p.1, p.2, after, rfl, ⟨hafter, fun u => ?_⟩, rfl⟩
    have hu := hrun u
    cases hm : lexFrom p.2 u <;> cases hs : lexFrom .start u <;> simp_all

lemma beginToken_runs {c : Char} {m : LexMode} (h : beginToken c = some m) :
    ∃ u ts, lexFrom m u = some ts := by
  unfold beginToken at h
  split at h
  · cases h
    exact ⟨[], _, rfl⟩
  · split at h
    · cases h
      exact ⟨[], _, rfl⟩
    · split at h
      · cases h
        exact ⟨"**/", [], by decide⟩
      · obtain ⟨s, -, rfl⟩ := Option.map_eq_some_iff.mp h
        exact ⟨[], _, rfl⟩

lemma extend_ne {s s' : Sym} {c : Char} (h : extend s c = some (some s')) : s ≠ s' := by
  unfold extend at h
  split at h <;> simp_all
  all_goals
    subst h
    decide

namespace Ended

variable {m : LexMode} {ts : List Token}

lemma cases (h : Ended m ts) :
    m = .start ∧ ts = [] ∨
      ∃ s, m = .sym s ∧ ts = [.sym s] ∧
        ∀ c, extend s c = none ∨ extend s c = some none ∧ beginToken c = none := by
  obtain ⟨htokens, hrestart⟩ := h
  cases m with
  | start =>
    cases htokens
    exact .inl ⟨rfl, rfl⟩
  | word w =>
    cases htokens
    -- a letter would go on with the word
    have hletter : lexFrom .start ['a'] = some [.word ['a']] := rfl
    have hlonger : lexFrom (.word w) ['a'] = some [.word (w ++ ['a'])] := rfl
    have hsame := hrestart ['a']
    rw [hletter, hlonger] at hsame
    simp at hsame
  | sym s =>
    cases htokens
    refine .inr ⟨s, rfl, rfl, fun c => ?_⟩
    cases hext : extend s c with
    | none => exact .inl rfl
    | some joined =>
      cases joined with
      | none =>
        refine .inr ⟨rfl, ?_⟩
        cases hbegin : beginToken c with
        | none => rfl
        | some m' =>
          -- the operator would be rejected, and yet the character starts a token
          obtain ⟨u, us, hu⟩ := beginToken_runs hbegin
          have hsame := hrestart (c :: u)
          simp [lexFrom, lexStep, hext, hbegin, hu] at hsame
      | some s' =>
        have hsame := hrestart [c]
        simp only [lexFrom, lexStep, hext, Option.map_some, Option.bind_some, lexEnd] at hsame
        obtain ⟨us, -, hus⟩ := Option.map_eq_some_iff.mp hsame.symm
        cases hus
        exact absurd rfl (extend_ne hext)
  | slash => cases htokens
  | comment => cases htokens
  | star => cases htokens

lemma marksFrom (h : Ended m ts) (u : Text) :
    marksFrom m u = (marksFrom .start u).map (ts.map .tok ++ ·) := by
  rcases h.cases with ⟨rfl, rfl⟩ | ⟨s, rfl, rfl, hext⟩
  · simp
  cases u with
  | nil => rfl
  | cons c u =>
    have hsym : lexStep (.sym s) c = (beginToken c).map ([.sym s], ·) := by
      rcases hext c with hnone | ⟨hsome, hbegin⟩
      · simp only [lexStep, hnone]
      · simp only [lexStep, hsome, hbegin, Option.map_none]
    rw [Clang.marksFrom, Clang.marksFrom, markStep, markStep, hsym, lexStep]
    cases beginToken c with
    | some m' => simp
    | none => cases brace c <;> simp [lexEnd, Function.comp_def]

end Ended

theorem Closed.marksFrom {t : Text} {ts : List Token} (h : Closed t ts) (u : Text) :
    marksFrom .start (t ++ u) = (marksFrom .start u).map (ts.map .tok ++ ·) := by
  obtain ⟨before, m, after, hrun, hended, rfl⟩ := h.lexRun
  rw [marksFrom_append hrun, hended.marksFrom, Option.map_map]
  simp [Function.comp_def]

def parseRun : ParseMode → List Token → Option (List Stmt × ParseMode)
  | m, [] => some ([], m)
  | m, t :: ts => (parseStep m t).bind fun p => (parseRun p.2 ts).map fun q => (p.1 ++ q.1, q.2)

lemma parseRun_of_parseFrom {m : ParseMode} {ts : List Token} {l : List Stmt}
    (h : parseFrom m ts = some l) : parseRun m ts = some (l, .start) := by
  induction ts generalizing m l with
  | nil =>
    rw [parseFrom] at h
    split at h
    · cases h
      subst m
      rfl
    · cases h
  | cons t ts ih =>
    obtain ⟨p, hp, h⟩ := Option.bind_eq_some_iff.mp h
    obtain ⟨l, hl, rfl⟩ := Option.map_eq_some_iff.mp h
    rw [parseRun, hp, Option.bind_some, ih hl, Option.map_some]

lemma itemStep_of_parseStep {m : ParseMode} {t : Token} {p : List Stmt × ParseMode}
    (h : parseStep m t = some p) : itemStep m (.tok t) = some (p.1.map .stmt, p.2) := by
  cases m <;> simp [itemStep, h]

lemma parseItems_append {m : ParseMode} {ts : List Token} {p : List Stmt × ParseMode}
    (h : parseRun m ts = some p) (rest : List Mark) :
    parseItems m (ts.map .tok ++ rest) = (parseItems p.2 rest).map (p.1.map .stmt ++ ·) := by
  induction ts generalizing m p with
  | nil =>
    cases h
    simp
  | cons t ts ih =>
    obtain ⟨q, hq, h⟩ := Option.bind_eq_some_iff.mp h
    obtain ⟨r, hr, rfl⟩ := Option.map_eq_some_iff.mp h
    rw [List.map_cons, List.cons_append, parseItems, itemStep_of_parseStep hq, Option.bind_some,
      ih hr]
    simp [Function.comp_def]

structure Spelled (t : Text) (ms : List Mark) (items : List Item) : Prop where
  marks : ∀ u, marksFrom .start (t ++ u) = (marksFrom .start u).map (ms ++ ·)
  parsed : ∀ rest, parseItems .start (ms ++ rest) = (parseItems .start rest).map (items ++ ·)
  level : ∀ depth cur rest,
    cutDefinitions (depth + 1) cur (ms ++ rest) = cutDefinitions (depth + 1) (cur ++ ms) rest

def Spells (t : Text) (items : List Item) : Prop := ∃ ms, Spelled t ms items

lemma cutDefinitions_tokens (ts : List Token) (depth : ℕ) (cur rest : List Mark) :
    cutDefinitions depth cur (ts.map .tok ++ rest) =
      cutDefinitions depth (cur ++ ts.map .tok) rest := by
  induction ts generalizing cur with
  | nil => simp
  | cons t ts ih =>
    rw [List.map_cons, List.cons_append, cutDefinitions, ih]
    simp

namespace Spells

variable {t u : Text} {items items' : List Item}

lemma append (h : Spells t items) (h' : Spells u items') : Spells (t ++ u) (items ++ items') := by
  obtain ⟨ms, h⟩ := h
  obtain ⟨ns, h'⟩ := h'
  refine ⟨ms ++ ns, fun v => ?_, fun rest => ?_, fun depth cur rest => ?_⟩
  · rw [List.append_assoc, h.marks, h'.marks]
    simp [Function.comp_def]
  · rw [List.append_assoc, h.parsed, h'.parsed]
    simp [Function.comp_def]
  · rw [List.append_assoc, h.level, h'.level, List.append_assoc]

lemma nil : Spells [] [] := by
  refine ⟨[], fun u => ?_, fun rest => ?_, fun depth cur rest => ?_⟩ <;> simp

lemma flatMap {α : Type*} {f : α → Text} {k : α → List Item} {l : List α}
    (h : ∀ a ∈ l, Spells (f a) (k a)) : Spells (l.flatMap f) (l.flatMap k) := by
  induction l with
  | nil => exact .nil
  | cons a l ih =>
    exact (h a List.mem_cons_self).append (ih fun a ha => h a (List.mem_cons_of_mem _ ha))

lemma stmts {l : List Stmt} (ht : Closed t (l.flatMap Stmt.tokens)) (h : ∀ s ∈ l, s.Fits) :
    Spells t (l.map .stmt) :=
  ⟨_, ht.marksFrom, parseItems_append (parseRun_of_parseFrom (parseFrom_stmts h)),
    fun depth cur rest => cutDefinitions_tokens _ (depth + 1) cur rest⟩

lemma space (h : Closed t []) : Spells t [] := stmts (l := []) h (by simp)

lemma label {l : Text} (h : IsIdent l) :
    Spells (l ++ ":\n") [.label l] := by
  have hcolon : Closed ":\n" [.sym .colon] := by
    intro u
    have hspace : lexFrom .start ('\n' :: u) = lexFrom .start u := by
      have hbegin : beginToken '\n' = some .start := by decide
      rw [lexFrom, lexStep, hbegin]
      simp
    have hext : ∀ c ∈ ('\n' :: u).head?, extend .colon c = none := by
      rintro c ⟨⟩
      rfl
    exact (lexFrom_sym_append hext).trans (by rw [hspace]; rfl)
  have hclosed : Closed (l ++ ":\n") [.word l, .sym .colon] :=
    h.lexes.append_closed (d := ':') (by decide) hcolon
  have hword : itemStep .start (.tok (.word l)) = some ([], .got [] (.var l)) := by
    refine itemStep_of_parseStep (p := ([], .got [] (.var l))) ?_
    have hkeyword : l ∉ keywords := h.2.1
    have hne : ∀ w ∈ statementWords, Token.word l ≠ .word w := by
      rintro w hw ⟨⟩
      have hmem : ∀ w ∈ statementWords, w ∈ keywords := by decide
      exact hkeyword (hmem l hw)
    rw [parseStep, if_neg (hne "if" (by decide)), if_neg (hne "goto" (by decide)),
      if_neg (hne "return" (by decide)), wantStep_ident h]
    rfl
  have hlabel : itemStep (.got [] (.var l)) (.tok (.sym .colon)) = some ([.label l], .start) := rfl
  refine ⟨_, hclosed.marksFrom, fun rest => ?_, fun depth cur rest =>
    cutDefinitions_tokens [.word l, .sym .colon] (depth + 1) cur rest⟩
  simp [parseItems, hword, hlabel, Function.comp_def]

lemma marksFrom_lbrace (u : Text) :
    marksFrom .start ('\x7b' :: u) = (marksFrom .start u).map (.lbrace :: ·) := by
  have hstep : markStep .start '\x7b' = some ([.lbrace], .start) := by decide
  rw [marksFrom, hstep]
  rfl

lemma marksFrom_rbrace (u : Text) :
    marksFrom .start ('\x7d' :: u) = (marksFrom .start u).map (.rbrace :: ·) := by
  have hstep : markStep .start '\x7d' = some ([.rbrace], .start) := by decide
  rw [marksFrom, hstep]
  rfl

lemma block (h : Spells t items) :
    Spells ('\x7b' :: (t ++ ['\x7d'])) (.opened :: (items ++ [.closed])) := by
  obtain ⟨ms, h⟩ := h
  have hopened : ∀ rest, parseItems .start (.lbrace :: rest) =
      (parseItems .start rest).map (.opened :: ·) := fun _ => rfl
  have hclosed : ∀ rest, parseItems .start (.rbrace :: rest) =
      (parseItems .start rest).map (.closed :: ·) := fun _ => rfl
  refine ⟨.lbrace :: (ms ++ [.rbrace]), fun u => ?_, fun rest => ?_, fun depth cur rest => ?_⟩
  · rw [List.cons_append, marksFrom_lbrace, List.append_assoc, h.marks, List.singleton_append,
      marksFrom_rbrace]
    simp [Function.comp_def]
  · rw [List.cons_append, hopened, List.append_assoc, h.parsed, List.singleton_append, hclosed]
    simp [Function.comp_def]
  · rw [List.cons_append, cutDefinitions, List.append_assoc, h.level, List.singleton_append,
      cutDefinitions]
    simp

end Spells

structure Defines (t : Text) (F : FunctionDef) : Prop where
  exists_marks : ∃ ms, (∀ u, marksFrom .start (t ++ u) = (marksFrom .start u).map (ms ++ ·)) ∧
    (∀ rest, cutDefinitions 0 [] (ms ++ rest) = (cutDefinitions 0 [] rest).map (ms :: ·)) ∧
    parseDefinition ms = some F

def declarationText (x : Text) (l : Literal) : Text :=
  "uint64_t" ++ ' ' :: (x ++ ' ' :: (Sym.assign.text ++ ' ' :: l.text)) ++ ";"

def headText (f : Text) : Text := "uint64_t" ++ ' ' :: (f ++ '(' :: ("void" ++ ") "))

def definitionText (f gap x : Text) (l : Literal) (body : Text) : Text :=
  headText f ++ '\x7b' :: (gap ++ declarationText x l ++ body ++ ['\x7d'])

lemma lexes_uint64 : Lexes "uint64_t" [.word "uint64_t"] := .word (by decide) (by decide)

lemma closed_gap : Closed " " [] := closed_space (t := []) (by intro u; simp)

def headTokens (f : Text) : List Token :=
  [.word "uint64_t", .word f, .sym .lpar, .word "void", .sym .rpar]

def declarationTokens (x n : Text) : List Token :=
  [.word "uint64_t", .word x, .sym .assign, .word n, .sym .semi]

lemma headMarks_eq (f x n : Text) :
    headMarks f x n = (headTokens f).map .tok ++ .lbrace :: (declarationTokens x n).map .tok := rfl

lemma closed_declarationText {x : Text} (hx : IsIdent x) (l : Literal) :
    Closed (declarationText x l) (declarationTokens x l.text) := by
  have hvalue : Lexes (' ' :: (Sym.assign.text ++ ' ' :: l.text)) [.sym .assign, .word l.text] :=
    lexes_spaced (s := .assign) (lexes_literal l)
  have hname := hx.lexes.append (d := ' ') (by decide) hvalue
  exact (lexes_uint64.append (d := ' ') (by decide) hname.space).semi

lemma closed_headText {f : Text} (hf : IsIdent f) : Closed (headText f) (headTokens f) := by
  have hvoid : Lexes "void" [.word "void"] := .word (by decide) (by decide)
  have hclose : Closed ") " [.sym .rpar] := closed_rpar.append closed_gap
  have hargs := closed_lpar.append (hvoid.append_closed (d := ')') (by decide) hclose)
  have hname := hf.lexes.append_closed (d := '(') (by decide) hargs
  exact lexes_uint64.append_closed (d := ' ') (by decide) (closed_space hname)

lemma parseDefinition_marks {f x : Text} (hf : IsIdent f) (hx : IsIdent x) (l : Literal)
    {ms : List Mark} {items : List Item}
    (h : ∀ rest, parseItems .start (ms ++ rest) = (parseItems .start rest).map (items ++ ·)) :
    parseDefinition (headMarks f x l.text ++ (ms ++ [.rbrace])) = some ⟨f, x, l, items⟩ := by
  have hitems : parseItems .start (ms ++ [.rbrace]) = some (items ++ [.closed]) := by
    rw [h]
    rfl
  have hlength : (headMarks f x l.text).length = 11 := rfl
  have hget : ∀ {k : ℕ} {m : Mark}, (headMarks f x l.text)[k]? = some m →
      (headMarks f x l.text ++ (ms ++ [.rbrace]))[k]?.bind Mark.word = m.word := by
    intro k m hk
    obtain ⟨hlt, -⟩ := List.getElem?_eq_some_iff.mp hk
    rw [List.getElem?_append_left hlt, hk, Option.bind_some]
  have hname := hget (k := 1) (m := .tok (.word f)) rfl
  have hlocal := hget (k := 7) (m := .tok (.word x)) rfl
  have hvalue := hget (k := 9) (m := .tok (.word l.text)) rfl
  have htake : (headMarks f x l.text ++ (ms ++ [Mark.rbrace])).take 11 = headMarks f x l.text :=
    List.take_left' hlength
  have hdrop : (headMarks f x l.text ++ (ms ++ [Mark.rbrace])).drop 11 = ms ++ [.rbrace] :=
    List.drop_left' hlength
  simp only [parseDefinition, hname, hlocal, hvalue, htake, hdrop, Mark.word, hitems,
    parseLiteral_text, Option.bind_eq_bind, Option.bind_some, List.getLast?_concat,
    List.dropLast_concat]
  rw [if_pos ⟨trivial, hf, hx, trivial⟩]

theorem defines_definitionText {f gap x body : Text} (hf : IsIdent f) (hgap : Closed gap [])
    (hx : IsIdent x) (l : Literal) {items : List Item} (h : Spells body items) :
    Defines (definitionText f gap x l body) ⟨f, x, l, items⟩ := by
  obtain ⟨ms, h⟩ := h
  refine ⟨headMarks f x l.text ++ (ms ++ [.rbrace]), fun u => ?_, fun rest => ?_,
    parseDefinition_marks hf hx l h.parsed⟩
  · have hdecl := hgap.append (closed_declarationText hx l)
    rw [definitionText, List.append_assoc, (closed_headText hf).marksFrom, List.cons_append,
      Spells.marksFrom_lbrace, List.append_assoc, List.append_assoc, hdecl.marksFrom, h.marks,
      List.singleton_append, Spells.marksFrom_rbrace]
    simp [headMarks_eq, Function.comp_def]
  · have hcut : ∀ rest, cutDefinitions 0 [] (headMarks f x l.text ++ rest) =
        cutDefinitions 1 (headMarks f x l.text) rest := by
      intro rest
      rw [headMarks_eq, List.append_assoc, cutDefinitions_tokens, List.cons_append, cutDefinitions,
        cutDefinitions_tokens]
      simp
    rw [List.append_assoc, List.append_assoc, hcut, h.level, List.singleton_append, cutDefinitions,
      List.append_assoc]

namespace Defines

lemma append {t u : Text} {F : FunctionDef} (h : Defines t F) (hu : Closed u []) :
    Defines (t ++ u) F := by
  obtain ⟨ms, hmarks, hcut, hparse⟩ := h
  refine ⟨ms, fun v => ?_, hcut, hparse⟩
  rw [List.append_assoc, hmarks, hu.marksFrom]
  simp

theorem parseDefinitions {ts : List Text} {Fs : List FunctionDef} (h : List.Forall₂ Defines ts Fs) :
    parseDefinitions ts.flatten = some Fs := by
  obtain ⟨pieces, hmarks, hcut, hparse⟩ : ∃ pieces : List (List Mark),
      marksFrom .start ts.flatten = some pieces.flatten ∧
        cutDefinitions 0 [] pieces.flatten = some pieces ∧
        pieces.mapM parseDefinition = some Fs := by
    induction h with
    | nil => exact ⟨[], rfl, rfl, rfl⟩
    | cons ht _ ih =>
      obtain ⟨pieces, hmarks, hcut, hparse⟩ := ih
      obtain ⟨ms, hms, hcut', hF⟩ := ht
      refine ⟨ms :: pieces, ?_, ?_, ?_⟩
      · rw [List.flatten_cons, hms, hmarks]
        rfl
      · rw [List.flatten_cons, hcut', hcut]
        rfl
      · simp [List.mapM_cons, hF, hparse]
  rw [Clang.parseDefinitions, marks, hmarks, Option.bind_some, hcut, Option.bind_some, hparse]

end Defines

end Dexe.Clang
