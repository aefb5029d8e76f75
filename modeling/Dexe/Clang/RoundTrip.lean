import Dexe.Clang.Parse
import Dexe.Clang.Print

/-! Parsing a printed statement gives back the tree. -/

namespace Dexe.Clang

open Text

lemma dec_head {n : ℕ} (h : (dec n).head? = some '0') : dec n = "0" := by
  induction n using Nat.strong_induction_on with
  | _ n ih =>
    simp only [dec] at h ih ⊢
    rw [Nat.toDigits_eq_if (by norm_num)] at h ⊢
    split at h
    · rename_i hn
      rw [if_pos hn]
      interval_cases n <;> simp_all [Nat.digitChar]
    · rename_i hn
      have hlt : n / 10 < n := Nat.div_lt_self (by omega) (by norm_num)
      rw [List.head?_append_of_ne_nil _ Nat.toDigits_ne_nil] at h
      have hzero : digits 10 (dec (n / 10)) = digits 10 "0" := congrArg _ (ih _ hlt h)
      rw [digits_dec] at hzero
      have : n / 10 = 0 := Option.some.inj hzero
      omega

lemma find_suffix (s : Suffix) : suffixes.find? (fun s' => s'.text = s.text) = some s := by
  cases s <;> decide

lemma suffix_takeWhile (s : Suffix) : s.text.takeWhile isHexDigit = [] := by cases s <;> decide

lemma suffix_dropWhile (s : Suffix) : s.text.dropWhile isHexDigit = s.text := by cases s <;> decide

lemma takeWhile_digits {ds : Text} (h : ∀ c ∈ ds, isHexDigit c = true) (s : Suffix) :
    (ds ++ s.text).takeWhile isHexDigit = ds := by
  rw [List.takeWhile_append_of_pos h, suffix_takeWhile, List.append_nil]

lemma dropWhile_digits {ds : Text} (h : ∀ c ∈ ds, isHexDigit c = true) (s : Suffix) :
    (ds ++ s.text).dropWhile isHexDigit = s.text := by
  rw [List.dropWhile_append_of_pos h, suffix_dropWhile]

lemma not_hexPrefix_dec (n : ℕ) (s : Suffix) : startsWith (dec n ++ s.text) "0x" = false := by
  by_contra h
  rw [Bool.not_eq_false, startsWith, List.isPrefixOf_iff_prefix] at h
  have hx : 'x' ∈ dec n ++ s.text := h.subset (by decide)
  rcases List.mem_append.mp hx with hx | hx
  · exact absurd (dec_chars hx) (by decide)
  · revert hx
    cases s <;> decide

theorem parseLiteral_text (l : Literal) : parseLiteral l.text = some l := by
  rcases l with ⟨hex, n, s⟩
  cases hex with
  | true =>
    have hstart : startsWith ("0x" ++ Text.hex n ++ s.text) "0x" = true := by simp [startsWith]
    have hbody : ("0x" ++ Text.hex n ++ s.text).drop 2 = Text.hex n ++ s.text := by simp
    simp only [parseLiteral, Literal.text, if_true, hstart, hbody,
      takeWhile_digits (fun _ => hex_chars), dropWhile_digits (fun _ => hex_chars), digits_hex,
      find_suffix, Bool.not_true, Bool.false_and, Bool.false_eq_true, if_false, Option.map_some]
  | false =>
    have hoctal : decide ((dec n).head? = some '0' ∧ dec n ≠ "0") = false :=
      decide_eq_false fun h => h.2 (dec_head h.1)
    simp only [parseLiteral, Literal.text, Bool.false_eq_true, if_false, not_hexPrefix_dec,
      takeWhile_digits (fun _ => dec_chars), dropWhile_digits (fun _ => dec_chars), digits_dec,
      find_suffix, hoctal, Bool.not_false, Bool.true_and, Option.map_some]

lemma literal_head (l : Literal) : l.text.head?.any Char.isDigit = true := by
  rw [Literal.text]
  split
  · simp
  · obtain ⟨c, ds, hds⟩ := List.exists_cons_of_ne_nil (dec_ne_nil l.value)
    have hc : c.isDigit = true :=
      Nat.isDigit_of_mem_toDigits (by norm_num) (by norm_num) (hds ▸ List.mem_cons_self)
    simp [hds, hc]

def Feeds (m : ParseMode) (ts : List Token) (m' : ParseMode) : Prop :=
  ∀ rest, parseFrom m (ts ++ rest) = parseFrom m' rest

namespace Feeds

variable {m m' m'' : ParseMode} {t : Token} {ts us : List Token}

lemma one (h : parseStep m t = some ([], m')) : Feeds m [t] m' := by
  intro rest
  rw [List.singleton_append, parseFrom, h]
  simp

lemma append (h : Feeds m ts m') (h' : Feeds m' us m'') : Feeds m (ts ++ us) m'' := by
  intro rest
  rw [List.append_assoc, h, h']

lemma cons (h : parseStep m t = some ([], m')) (h' : Feeds m' ts m'') : Feeds m (t :: ts) m'' :=
  (one h).append h'

end Feeds

def Open (k : ℕ) (fs : List Frame) : Prop := ∀ f ∈ fs.head?, f.level < k

lemma reduce_open {k : ℕ} {fs : List Frame} (h : Open k fs) (e : Expr) :
    reduce k fs e = (fs, e) := by
  cases fs with
  | nil => rfl
  | cons f fs =>
    have hf : f.level < k := h f rfl
    rw [reduce, if_neg (by omega)]

lemma Open.mono {k k' : ℕ} {fs : List Frame} (h : Open k fs) (hk : k ≤ k') : Open k' fs :=
  fun f hf => (h f hf).trans_le hk

lemma open_cons {k : ℕ} {f : Frame} {fs : List Frame} (h : f.level < k) : Open k (f :: fs) := by
  rintro _ ⟨⟩
  exact h

lemma reduce_cons {k : ℕ} {f : Frame} (hf : k ≤ f.level) (fs : List Frame) (e : Expr) :
    reduce k (f :: fs) e = reduce k fs (f.build e) := by rw [reduce, if_pos hf]

/-- What parsing a tree at level `k` leaves on the stack: the tree, up to operators that are
still to be closed. -/
structure Leaves (k : ℕ) (fs fs' : List Frame) (e e' : Expr) : Prop where
  exact : k = postfixLevel → fs' = fs ∧ e' = e
  close : ∀ j, j ≤ k → j ≤ unaryLevel → reduce j fs' e' = reduce j fs e

lemma Leaves.refl (k : ℕ) (fs : List Frame) (e : Expr) : Leaves k fs fs e e :=
  ⟨fun _ => ⟨rfl, rfl⟩, fun _ _ _ => rfl⟩

lemma wantStep_ident {x : Text} (h : IsIdent x) (fs : List Frame) :
    wantStep fs (.word x) = some (.got fs (.var x)) := by
  obtain ⟨⟨_, _, hdigit⟩, hkey, htype⟩ := h
  simp [wantStep, hkey, htype, hdigit]

lemma wantStep_literal (l : Literal) (fs : List Frame) :
    wantStep fs (.word l.text) = some (.got fs (.num l)) := by
  have htype : ∀ w ∈ typeWords, w.head?.any Char.isDigit = false := by decide
  have hnot : l.text ∉ typeWords := by
    intro hmem
    have := htype _ hmem
    rw [literal_head] at this
    cases this
  simp only [wantStep, if_neg hnot, literal_head, if_true, parseLiteral_text, Option.map_some]

lemma wantStep_prefix (op : UnOp) (fs : List Frame) :
    wantStep fs (.sym op.sym) = some (.want (.un op :: fs)) := by cases op <;> rfl

lemma gotStep_bin (op : BinOp) (fs : List Frame) (e : Expr) :
    gotStep fs e (.sym op.sym) =
      some ([], .want (.bin op (reduce op.closes fs e).2 :: (reduce op.closes fs e).1)) := by
  cases op <;> rfl

lemma feeds_typeName (ty : TypeName) (fs : List Frame) :
    Feeds (.want (.paren :: fs)) (ty.tokens ++ [.sym .rpar]) (.want (.cast ty :: fs)) := by
  cases ty with
  | void | uint64 | int64 | uintptr => exact .cons rfl (.one rfl)
  | uint64Ptr => exact .cons rfl (.cons rfl (.one rfl))
  | function =>
    exact .cons rfl <| .cons rfl <| .cons rfl <| .cons rfl <| .cons rfl <| .cons rfl <|
      .cons rfl <| .one rfl

section Cases

variable {k : ℕ} {fs : List Frame} {a b c e : Expr}

def Parses (k : ℕ) (e : Expr) : Prop :=
  ∀ fs, Open k fs → ∃ fs' e', Feeds (.want fs) e.tokens (.got fs' e') ∧ Leaves k fs fs' e e'

lemma parses_of_feeds (h : ∀ fs, Feeds (.want fs) e.tokens (.got fs e)) : Parses k e :=
  fun fs _ => ⟨fs, e, h fs, .refl k fs e⟩

lemma Leaves.of_close {fs' : List Frame} {e' : Expr} (hk : k < postfixLevel)
    (h : ∀ j, j ≤ k → j ≤ unaryLevel → reduce j fs' e' = reduce j fs e) : Leaves k fs fs' e e' :=
  ⟨fun he => absurd he (by omega), h⟩

lemma level_le (op : BinOp) : op.level ≤ op.closes ∧ op.closes + 1 ≤ unaryLevel ∧ 1 ≤ op.level := by
  cases op <;> decide

lemma parses_paren (h : Parses 1 e) : Parses k (.paren e) := by
  refine parses_of_feeds fun fs => ?_
  obtain ⟨fs', e', hfeeds, hleaves⟩ := h (.paren :: fs) (open_cons (by decide))
  have hclose : reduce 1 fs' e' = (.paren :: fs, e) := by
    rw [hleaves.close 1 le_rfl (by decide), reduce_open (open_cons (by decide))]
  refine .append (.append (.one rfl) hfeeds) (.one ?_)
  simp only [parseStep, gotStep, hclose]

lemma parses_unary {f : Frame} {pre : List Token} (hf : f.level = unaryLevel)
    (hpre : ∀ fs, Feeds (.want fs) pre (.want (f :: fs))) (htokens : a.tokens = pre ++ e.tokens)
    (hbuild : f.build e = a) (hk : k ≤ unaryLevel + 1) (h : Parses (unaryLevel + 1) e) :
    Parses k a := by
  intro fs _
  obtain ⟨fs', e', hfeeds, hleaves⟩ := h (f :: fs) (open_cons (by omega))
  have hlevel : unaryLevel + 1 < postfixLevel := by decide
  refine ⟨fs', e', htokens ▸ (hpre fs).append hfeeds, .of_close (by omega) ?_⟩
  intro j _ hj
  rw [hleaves.close j (by omega) hj, reduce_cons (by omega), hbuild]

lemma parses_bin {op : BinOp} (hk : k ≤ op.level)
    (ha : Parses (if op.isAssign then unaryLevel + 1 else op.level) a)
    (hb : Parses (op.level + 1) b) : Parses k (.bin op a b) := by
  intro fs hopen
  obtain ⟨hcloses, hunary, hpos⟩ := level_le op
  have hleft : op.closes ≤ if op.isAssign then unaryLevel + 1 else op.level := by
    rw [BinOp.closes] at *
    split
    · simp_all
      omega
    · simp_all
  obtain ⟨fs₁, a', hfa, hla⟩ := ha fs (hopen.mono (by omega))
  have hred : reduce op.closes fs₁ a' = (fs, a) := by
    rw [hla.close _ hleft (by omega), reduce_open (hopen.mono (by omega))]
  obtain ⟨fs₂, b', hfb, hlb⟩ := hb (.bin op a :: fs) (open_cons (Nat.lt_succ_self _))
  have hlevel : unaryLevel + 1 < postfixLevel := by decide
  refine ⟨fs₂, b', .append (.append hfa (.one ?_)) hfb, .of_close (by omega) ?_⟩
  · rw [parseStep, gotStep_bin, hred]
  · intro j hj _
    rw [hlb.close j (by omega) (by omega), reduce_cons (by simpa [Frame.level] using hj.trans hk)]
    rfl

lemma parses_cond (hk : k ≤ condLevel) (hc : Parses (condLevel + 1) c)
    (ha : Parses (condLevel + 1) a) (hb : Parses (condLevel + 1) b) : Parses k (.cond c a b) := by
  intro fs hopen
  have hlevel : condLevel + 1 ≤ unaryLevel := by decide
  obtain ⟨fs₁, c', hfc, hlc⟩ := hc fs (hopen.mono (by omega))
  have hredc : reduce (condLevel + 1) fs₁ c' = (fs, c) := by
    rw [hlc.close _ le_rfl hlevel, reduce_open (hopen.mono (by omega))]
  obtain ⟨fs₂, a', hfa, hla⟩ := ha (.condThen c :: fs) (open_cons (Nat.succ_pos _))
  have hreda : reduce 1 fs₂ a' = (.condThen c :: fs, a) := by
    rw [hla.close 1 (by decide) (by decide), reduce_open (open_cons Nat.one_pos)]
  obtain ⟨fs₃, b', hfb, hlb⟩ := hb (.condElse c a :: fs) (open_cons (Nat.lt_succ_self _))
  refine ⟨fs₃, b', .append (.append (.append (.append hfc (.one ?_)) hfa) (.one ?_)) hfb,
    .of_close (by unfold postfixLevel condLevel at *; omega) ?_⟩
  · simp only [parseStep, gotStep, hredc]
  · simp only [parseStep, gotStep, hreda]
  · intro j hj _
    rw [hlb.close j (by omega) (by omega), reduce_cons (by simpa [Frame.level] using hj.trans hk)]
    rfl

lemma feeds_trailing {f : Expr} (h : Parses postfixLevel f) (hopen : Open postfixLevel fs) :
    Feeds (.want fs) f.tokens (.got fs f) := by
  obtain ⟨fs', f', hfeeds, hleaves⟩ := h fs hopen
  obtain ⟨rfl, rfl⟩ := hleaves.exact rfl
  exact hfeeds

end Cases

lemma level_lt_postfix (f : Frame) : f.level < postfixLevel := by
  cases f with
  | bin op lhs =>
    have := level_le op
    simp only [Frame.level, postfixLevel, unaryLevel] at *
    omega
  | _ => simp [Frame.level, postfixLevel, unaryLevel, condLevel]

lemma open_trailing (fs : List Frame) : Open postfixLevel fs := fun f _ => level_lt_postfix f

theorem parses_of_fits {k : ℕ} {e : Expr} (h : e.Fits k) : Parses k e := by
  induction e generalizing k with
  | var x =>
    refine parses_of_feeds fun fs => .one ?_
    rw [parseStep, wantStep_ident h]
    rfl
  | member x f =>
    refine parses_of_feeds fun fs => ?_
    have hx : parseStep (.want fs) (.word x) = some ([], .got fs (.var x)) := by
      rw [parseStep, wantStep_ident h.1]
      rfl
    exact .cons hx (.cons rfl (.one rfl))
  | num l =>
    refine parses_of_feeds fun fs => .one ?_
    rw [parseStep, wantStep_literal]
    rfl
  | paren e ih => exact parses_paren (ih h)
  | un op e ih =>
    refine parses_unary (f := .un op) rfl (fun fs => .one ?_) rfl rfl h.1 (ih h.2.2)
    rw [parseStep, wantStep_prefix]
    rfl
  | cast ty e ih =>
    have hcast : ∀ fs, Feeds (.want fs) ([.sym .lpar] ++ (ty.tokens ++ [.sym .rpar]))
        (.want (.cast ty :: fs)) := fun fs => .append (.one rfl) (feeds_typeName ty fs)
    have htokens : (Expr.cast ty e).tokens =
        [.sym .lpar] ++ (ty.tokens ++ [.sym .rpar]) ++ e.tokens := by
      simp [Expr.tokens]
    exact parses_unary (f := .cast ty) rfl hcast htokens rfl h.1 (ih h.2)
  | bin op a b iha ihb => exact parses_bin h.1 (iha h.2.1) (ihb h.2.2)
  | cond c a b ihc iha ihb => exact parses_cond h.1 (ihc h.2.1) (iha h.2.2.1) (ihb h.2.2.2)
  | call0 f ih =>
    refine parses_of_feeds fun fs => .append (feeds_trailing (ih h) (open_trailing fs)) ?_
    exact .cons rfl (.one rfl)
  | call f args ihf iha =>
    refine parses_of_feeds fun fs => ?_
    obtain ⟨fs', args', hfeeds, hleaves⟩ := iha h.2 (.call f :: fs) (open_cons Nat.one_pos)
    have hclose : reduce 1 fs' args' = (.call f :: fs, args) := by
      rw [hleaves.close 1 le_rfl (by decide), reduce_open (open_cons Nat.one_pos)]
    have hcallee := feeds_trailing (ihf h.1) (open_trailing fs)
    refine .append (.append (.append hcallee (.one rfl)) hfeeds)
      (.one ?_)
    simp only [parseStep, gotStep, hclose]

lemma feeds_open {fs : List Frame} {e : Expr} (h : e.Fits 1) (hopen : Open 1 fs) :
    ∃ fs' e', Feeds (.want fs) e.tokens (.got fs' e') ∧ reduce 1 fs' e' = (fs, e) := by
  obtain ⟨fs', e', hfeeds, hleaves⟩ := parses_of_fits h fs hopen
  refine ⟨fs', e', hfeeds, ?_⟩
  rw [hleaves.close 1 le_rfl (by decide), reduce_open hopen]

def statementWords : List Text := ["if", "goto", "return"]

lemma tokens_head {k : ℕ} {e : Expr} (h : e.Fits k) :
    ∃ t ts, e.tokens = t :: ts ∧ ∀ w ∈ statementWords, t ≠ .word w := by
  have hident : ∀ {x : Text}, IsIdent x → ∀ w ∈ statementWords, Token.word x ≠ .word w := by
    rintro x hx w hw ⟨⟩
    have hkey : ∀ w ∈ statementWords, w ∈ keywords := by decide
    exact hx.2.1 (hkey x hw)
  induction e generalizing k with
  | var x => exact ⟨_, _, rfl, hident h⟩
  | member x f => exact ⟨_, _, rfl, hident h.1⟩
  | num l =>
    refine ⟨_, _, rfl, ?_⟩
    rintro w hw ⟨⟩
    have hdigit : ∀ w ∈ statementWords, w.head?.any Char.isDigit = false := by decide
    have := hdigit _ hw
    rw [literal_head] at this
    cases this
  | paren e _ => exact ⟨_, _, rfl, by simp⟩
  | un op e _ => exact ⟨_, _, rfl, by simp⟩
  | cast ty e _ => exact ⟨_, _, rfl, by simp⟩
  | bin op a b iha _ =>
    obtain ⟨t, ts, hts, ht⟩ := iha h.2.1
    exact ⟨t, _, by rw [Expr.tokens, hts]; rfl, ht⟩
  | cond c a b ihc _ _ =>
    obtain ⟨t, ts, hts, ht⟩ := ihc h.2.1
    exact ⟨t, _, by rw [Expr.tokens, hts]; rfl, ht⟩
  | call0 f ih =>
    obtain ⟨t, ts, hts, ht⟩ := ih h
    exact ⟨t, _, by rw [Expr.tokens, hts]; rfl, ht⟩
  | call f args ihf _ =>
    obtain ⟨t, ts, hts, ht⟩ := ihf h.1
    exact ⟨t, _, by rw [Expr.tokens, hts]; rfl, ht⟩

lemma parseFrom_start {k : ℕ} {e : Expr} (h : e.Fits k) (rest : List Token) :
    parseFrom .start (e.tokens ++ rest) = parseFrom (.want []) (e.tokens ++ rest) := by
  obtain ⟨t, ts, hts, ht⟩ := tokens_head h
  have hif := ht "if" (by decide)
  have hgoto := ht "goto" (by decide)
  have hreturn := ht "return" (by decide)
  rw [hts, List.cons_append, parseFrom, parseFrom, parseStep, if_neg hif, if_neg hgoto,
    if_neg hreturn, parseStep]

theorem parseFrom_stmt {s : Stmt} (h : s.Fits) (rest : List Token) :
    parseFrom .start (s.tokens ++ rest) = (parseFrom .start rest).map (s :: ·) := by
  have hopen : ∀ {f : Frame}, f.level = 0 → Open 1 [f] := fun hf => open_cons (by omega)
  cases s with
  | expr e =>
    have he : e.Fits 1 := h
    have hnil : Open 1 [] := by simp [Open]
    obtain ⟨fs, e', hfeeds, hclose⟩ := feeds_open he hnil
    rw [Stmt.tokens, List.append_assoc, parseFrom_start he, hfeeds, List.singleton_append,
      parseFrom,
      parseStep, gotStep, hclose]
    rfl
  | goto label =>
    have hfeeds : Feeds .start [.word "goto", .word label] (.gotoEnd none label) :=
      .cons rfl (.one rfl)
    exact (hfeeds (.sym .semi :: rest)).trans rfl
  | ret e =>
    have he : e.Fits 1 := h
    obtain ⟨fs, e', hfeeds, hclose⟩ := feeds_open he (hopen (f := .ret) rfl)
    have hret : Feeds .start [.word "return"] (.want [.ret]) := .one rfl
    rw [Stmt.tokens, List.append_assoc, List.append_assoc, hret, hfeeds, List.singleton_append,
      parseFrom, parseStep, gotStep, hclose]
    rfl
  | ifGoto c label =>
    obtain ⟨fs, c', hfeeds, hclose⟩ := feeds_open h.1 (hopen (f := .ifParen) rfl)
    have hif : Feeds .start [.word "if", .sym .lpar] (.want [.ifParen]) := .cons rfl (.one rfl)
    have hparen : Feeds (.got fs c') [.sym .rpar] (.ifClose c) := by
      refine .one ?_
      simp only [parseStep, gotStep, hclose]
    have hgoto : Feeds (.ifClose c) [.word "goto", .word label] (.gotoEnd (some c) label) :=
      .cons rfl (.one rfl)
    have hall := ((hif.append hfeeds).append hparen).append hgoto
    have htokens : (Stmt.ifGoto c label).tokens = [.word "if", .sym .lpar] ++ c.tokens ++
        [.sym .rpar] ++ [.word "goto", .word label] ++ [.sym .semi] := by
      simp [Stmt.tokens]
    rw [htokens, List.append_assoc, hall]
    rfl

lemma parseFrom_stmts {l : List Stmt} (h : ∀ s ∈ l, s.Fits) :
    parseFrom .start (l.flatMap Stmt.tokens) = some l := by
  induction l with
  | nil => rfl
  | cons s l ih =>
    have hs := h s List.mem_cons_self
    have hl := ih fun s hs => h s (List.mem_cons_of_mem _ hs)
    rw [List.flatMap_cons, parseFrom_stmt hs, hl]
    rfl

theorem parse_of_closed {t : Text} {l : List Stmt} (ht : Closed t (l.flatMap Stmt.tokens))
    (h : ∀ s ∈ l, s.Fits) : parse t = some l := by
  have hlex : lex t = some (l.flatMap Stmt.tokens) := by
    have := ht []
    simpa [lex, lexFrom, lexEnd] using this
  rw [parse, hlex, Option.bind_some, parseFrom_stmts h]

theorem parse_stmtsText {l : List Stmt} (h : ∀ s ∈ l, s.Fits) : parse (stmtsText l) = some l :=
  parse_of_closed (closed_stmts h) h

end Dexe.Clang
