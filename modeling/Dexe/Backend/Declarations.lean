import Dexe.Backend.Names
import Dexe.Backend.Statements

/-! The declarations before the function bodies, and the calls that they are for. -/

namespace Dexe.Backend

open Std Text Clang Collections

variable {functions : List IRFunction} {symbols : SymbolTable} {a : U64} {name : Text}

def declarationText (functions : List IRFunction) (symbols : SymbolTable) : Text :=
  externDeclarations functions symbols ++ forwardDeclarations functions

def declarations (functions : List IRFunction) (symbols : SymbolTable) : List Text :=
  (declarationText functions symbols).splitOn '\n'

def bodies (functions : List IRFunction) (symbols : SymbolTable) : Text :=
  (functions.map fun f => emitFunction symbols (funcNameMap functions) f ++ line "").flatten

lemma emitC_eq (functions : List IRFunction) (symbols : SymbolTable) :
    emitC functions symbols =
      fileHeader ++ declarationText functions symbols ++ bodies functions symbols := by
  rw [emitC, declarationText, ← List.append_assoc]
  rfl

def stubDecl (ident : Text) : Text := "extern uint64_t " ++ ident ++ "(void);"

def nameDecl (name : Text) : Text :=
  match libcProto name with
  | some proto => "extern " ++ proto ++ ";"
  | none => stubDecl (sanitiseCIdent name)

def targetDecl (symbols : SymbolTable) (a : U64) : Text :=
  match symbols[a]? with
  | some name => nameDecl name
  | none => stubDecl ("stub_0x" ++ hex a.toNat)

def forwardDecl (f : IRFunction) : Text := "uint64_t " ++ sanitiseCIdent f.name ++ "(void);"

structure Emits (d : Declared) (ls : List Text) : Prop where
  text : d.1 = (ls.map line).flatten
  declared : ∀ name ∈ d.2, nameDecl name ∈ ls

lemma Emits.snoc {d : Declared} {ls : List Text} (h : Emits d ls) (l : Text) :
    Emits (d.1 ++ line l, d.2) (ls ++ [l]) := by
  refine ⟨by simp [h.text], ?_⟩
  intro name hname
  exact List.mem_append_left _ (h.declared name hname)

lemma Emits.insert {d : Declared} {ls : List Text} (h : Emits d ls) (hname : nameDecl name ∈ ls) :
    Emits (d.1, d.2.insert name) ls := by
  refine ⟨h.text, ?_⟩
  intro n hn
  rw [TreeSet.mem_insert, LawfulEqCmp.compare_eq_iff_eq] at hn
  rcases hn with rfl | hn
  · exact hname
  · exact h.declared n hn

lemma mem_snoc {ls : List Text} {l t : Text} : t ∈ ls ++ [l] ↔ t ∈ ls ∨ t = l := by
  rw [List.mem_append, List.mem_singleton]

lemma foldl_emits {β : Type*} {inv : Declared → List Text → Prop} {adds : β → Text → Prop}
    {f : Declared → β → Declared} {l : List β}
    (hstep : ∀ d ls, ∀ x ∈ l, inv d ls → ∃ ls', inv (f d x) ls' ∧
      ∀ t, t ∈ ls' ↔ t ∈ ls ∨ adds x t)
    {d : Declared} {ls : List Text} (h : inv d ls) :
    ∃ ls', inv (l.foldl f d) ls' ∧ ∀ t, t ∈ ls' ↔ t ∈ ls ∨ ∃ x ∈ l, adds x t := by
  induction l generalizing d ls with
  | nil => exact ⟨ls, h, by simp⟩
  | cons x l ih =>
    obtain ⟨ls₁, h₁, hmem₁⟩ := hstep d ls x List.mem_cons_self h
    obtain ⟨ls₂, h₂, hmem₂⟩ := ih (fun d ls y hy => hstep d ls y (List.mem_cons_of_mem _ hy)) h₁
    refine ⟨ls₂, h₂, ?_⟩
    intro t
    rw [hmem₂, hmem₁, or_assoc, List.exists_mem_cons_iff]

lemma emits_libc {d : Declared} {ls : List Text} (h : Emits d ls) (name : Text) :
    ∃ ls', Emits (declareLibc d name) ls' ∧
      ∀ t, t ∈ ls' ↔ t ∈ ls ∨ (libcProto name).isSome ∧ t = nameDecl name := by
  cases hp : libcProto name with
  | none =>
    have hskip : declareLibc d name = d := by rw [declareLibc, hp]
    rw [hskip]
    exact ⟨ls, h, by simp⟩
  | some proto =>
    have hadd : declareLibc d name = (d.1 ++ line (nameDecl name), d.2.insert name) := by
      rw [declareLibc, nameDecl, hp]
    rw [hadd]
    refine ⟨ls ++ [nameDecl name], (h.snoc _).insert (List.mem_append_right _ (by simp)), ?_⟩
    intro t
    rw [mem_snoc]
    simp

structure EmitsLibc (names : List Text) (d : Declared) (ls : List Text) : Prop
    extends Emits d ls where
  libc : ∀ name ∈ names, (libcProto name).isSome → name ∈ d.2

lemma emits_unknown {names : List Text} {d : Declared} {ls : List Text}
    (h : EmitsLibc names d ls) (hname : name ∈ names) :
    ∃ ls', EmitsLibc names (declareUnknown d name) ls' ∧
      ∀ t, t ∈ ls' ↔ t ∈ ls ∨ t = nameDecl name := by
  rw [declareUnknown]
  split
  · rename_i hmem
    have hdecl := h.declared name (TreeSet.contains_iff_mem.mp hmem)
    refine ⟨ls, h, ?_⟩
    intro t
    refine ⟨.inl, ?_⟩
    rintro (ht | rfl)
    · exact ht
    · exact hdecl
  · rename_i hmem
    have hnone : libcProto name = none := by
      rw [← Option.not_isSome_iff_eq_none]
      intro hsome
      exact hmem (TreeSet.contains_iff_mem.mpr (h.libc name hname hsome))
    have hdecl : nameDecl name = stubDecl (sanitiseCIdent name) := by rw [nameDecl, hnone]
    rw [hdecl]
    exact ⟨ls ++ [stubDecl (sanitiseCIdent name)], ⟨h.toEmits.snoc _, h.libc⟩, fun t => mem_snoc⟩

lemma declareTarget_some {d : Declared} (h : symbols[a]? = some name) :
    declareTarget symbols d a =
      if d.2.contains name then d else (d.1 ++ line (nameDecl name), d.2.insert name) := by
  simp only [declareTarget, h, nameDecl]
  cases libcProto name <;> rfl

lemma declareTarget_none {d : Declared} (h : symbols[a]? = none) :
    declareTarget symbols d a = (d.1 ++ line (stubDecl ("stub_0x" ++ hex a.toNat)), d.2) := by
  rw [declareTarget, h]
  rfl

lemma emits_target {d : Declared} {ls : List Text} (h : Emits d ls) (a : U64) :
    ∃ ls', Emits (declareTarget symbols d a) ls' ∧
      ∀ t, t ∈ ls' ↔ t ∈ ls ∨ t = targetDecl symbols a := by
  cases hs : symbols[a]? with
  | none =>
    have hdecl : targetDecl symbols a = stubDecl ("stub_0x" ++ hex a.toNat) := by
      rw [targetDecl, hs]
    rw [declareTarget_none hs, hdecl]
    exact ⟨ls ++ [_], h.snoc _, fun t => mem_snoc⟩
  | some name =>
    have hdecl : targetDecl symbols a = nameDecl name := by rw [targetDecl, hs]
    rw [declareTarget_some hs, hdecl]
    split
    · rename_i hmem
      have hdeclared := h.declared name (TreeSet.contains_iff_mem.mp hmem)
      refine ⟨ls, h, ?_⟩
      intro t
      refine ⟨.inl, ?_⟩
      rintro (ht | rfl)
      · exact ht
      · exact hdeclared
    · exact ⟨ls ++ [nameDecl name], (h.snoc _).insert (List.mem_append_right _ (by simp)),
        fun t => mem_snoc⟩

lemma mem_declareLibc {names : List Text} {d : Declared} :
    name ∈ (names.foldl declareLibc d).2 ↔
      name ∈ d.2 ∨ ∃ n ∈ names, (libcProto n).isSome ∧ n = name := by
  apply foldl_iff fun d : Declared => name ∈ d.2
  intro d n
  rw [declareLibc]
  cases libcProto n with
  | none => simp
  | some proto =>
    rw [TreeSet.mem_insert, LawfulEqCmp.compare_eq_iff_eq, or_comm]
    simp

lemma names_lines (names : List Text) :
    ∃ ls, Emits (names.foldl declareUnknown (names.foldl declareLibc ([], ∅))) ls ∧
      ∀ t, t ∈ ls ↔ ∃ name ∈ names, t = nameDecl name := by
  have hempty : Emits ([], ∅) [] := ⟨rfl, by simp⟩
  have hlibc : ∀ d ls, ∀ name ∈ names, Emits d ls → ∃ ls', Emits (declareLibc d name) ls' ∧
      ∀ t, t ∈ ls' ↔ t ∈ ls ∨ (libcProto name).isSome ∧ t = nameDecl name :=
    fun d ls name _ h => emits_libc h name
  have hunknown : ∀ d ls, ∀ name ∈ names, EmitsLibc names d ls →
      ∃ ls', EmitsLibc names (declareUnknown d name) ls' ∧
        ∀ t, t ∈ ls' ↔ t ∈ ls ∨ t = nameDecl name := fun d ls name hname h => emits_unknown h hname
  obtain ⟨ls₁, h₁, hmem₁⟩ := foldl_emits hlibc hempty
  have hfirst : EmitsLibc names (names.foldl declareLibc ([], ∅)) ls₁ :=
    ⟨h₁, fun name hname hsome => mem_declareLibc.mpr (.inr ⟨name, hname, hsome, rfl⟩)⟩
  obtain ⟨ls₂, h₂, hmem₂⟩ := foldl_emits hunknown hfirst
  refine ⟨ls₂, h₂.toEmits, ?_⟩
  intro t
  rw [hmem₂, hmem₁]
  simp only [List.not_mem_nil, false_or]
  constructor
  · rintro (⟨name, hname, -, ht⟩ | h)
    · exact ⟨name, hname, ht⟩
    · exact h
  · exact .inr

lemma externDeclarations_lines (functions : List IRFunction) (symbols : SymbolTable) :
    ∃ ls : List Text, externDeclarations functions symbols = (ls.map line).flatten ∧
      ∀ t, t ≠ [] → (t ∈ ls ↔ (∃ name, Calls functions (.external name) ∧ t = nameDecl name) ∨
        ∃ a, (Calls functions (.direct a) ∧ ¬ Emitted functions a) ∧ t = targetDecl symbols a) := by
  let names := (externNames functions).toList
  let targets := (externTargets (emittedAddrs functions) functions).toList
  have htarget : ∀ d ls, ∀ a ∈ targets, Emits d ls →
      ∃ ls', Emits (declareTarget symbols d a) ls' ∧
        ∀ t, t ∈ ls' ↔ t ∈ ls ∨ t = targetDecl symbols a := fun d ls a _ h => emits_target h a
  obtain ⟨ls₁, h₁, hnames⟩ := names_lines names
  obtain ⟨ls, h, htargets⟩ := foldl_emits htarget h₁
  have hname : ∀ name, name ∈ names ↔ Calls functions (.external name) := fun name =>
    TreeSet.mem_toList.trans mem_externNames
  have haddr : ∀ a, a ∈ targets ↔ Calls functions (.direct a) ∧ ¬ Emitted functions a := fun a =>
    TreeSet.mem_toList.trans mem_externTargets
  simp only [hnames, hname, haddr] at htargets
  have htext : externDeclarations functions symbols = (ls.map line).flatten ++
      if (externTargets (emittedAddrs functions) functions).isEmpty ∧
        (externNames functions).isEmpty then [] else line "" := by
    rw [← h.text]
    rfl
  by_cases hnone : (externTargets (emittedAddrs functions) functions).isEmpty ∧
      (externNames functions).isEmpty
  · rw [if_pos hnone, List.append_nil] at htext
    exact ⟨ls, htext, fun t _ => htargets t⟩
  · rw [if_neg hnone] at htext
    refine ⟨ls ++ [[]], by simp [htext], ?_⟩
    intro t ht
    rw [mem_snoc, htargets]
    simp [ht]

lemma isIdentChar_sanitise (name : Text) : ∀ c ∈ sanitiseCIdent name, isIdentChar c = true :=
  (isWord_sanitiseCIdent name).2.1

lemma isIdentChar_stub (n : ℕ) : ∀ c ∈ "stub_0x" ++ hex n, isIdentChar c = true :=
  (isWord_stub n).2.1

lemma libc_of_proto {proto : Text} (h : libcProto name = some proto) :
    ∃ p ∈ knownLibc, p.1.toList = name ∧ p.2.toList = proto := by
  obtain ⟨p, hp, rfl⟩ := Option.map_eq_some_iff.mp h
  exact ⟨p, List.mem_of_find?_eq_some hp, by simpa using List.find?_some hp, rfl⟩

lemma not_mem_declOf {pre ident : Text} {x : Char} (hx : isIdentChar x = false) (hpre : x ∉ pre)
    (hident : ∀ c ∈ ident, isIdentChar c = true) (hrest : x ∉ ("(void);" : Text)) :
    x ∉ pre ++ ident ++ "(void);" := by
  intro h
  rcases List.mem_append.mp h with h | h
  · rcases List.mem_append.mp h with h | h
    · exact hpre h
    · rw [hident x h] at hx
      cases hx
  · exact hrest h

def declaredName (d : Text) : Option Text :=
  if '(' ∈ d then some ((d.takeWhile (· ≠ '(')).rtakeWhile isIdentChar) else none

lemma libc_decl : ∀ p ∈ knownLibc, '\n' ∉ ("extern " ++ p.2.toList ++ ";" : Text) ∧
    declaredName ("extern " ++ p.2.toList ++ ";") = some p.1.toList := by
  decide +kernel

lemma newline_not_mem_nameDecl (name : Text) : '\n' ∉ nameDecl name := by
  rw [nameDecl]
  cases hp : libcProto name with
  | none =>
    exact not_mem_declOf (by decide) (by decide) (isIdentChar_sanitise name) (by decide)
  | some proto =>
    obtain ⟨p, hmem, -, rfl⟩ := libc_of_proto hp
    exact (libc_decl p hmem).1

lemma newline_not_mem_targetDecl (symbols : SymbolTable) (a : U64) :
    '\n' ∉ targetDecl symbols a := by
  rw [targetDecl]
  cases symbols[a]? with
  | none => exact not_mem_declOf (by decide) (by decide) (isIdentChar_stub _) (by decide)
  | some name => exact newline_not_mem_nameDecl name

lemma newline_not_mem_forwardDecl (f : IRFunction) : '\n' ∉ forwardDecl f :=
  not_mem_declOf (by decide) (by decide) (isIdentChar_sanitise f.name) (by decide)

lemma splitOn_lines {ls : List Text} (h : ∀ l ∈ ls, '\n' ∉ l) :
    (ls.map line).flatten.splitOn '\n' = ls ++ [[]] := by
  induction ls with
  | nil => rfl
  | cons l ls ih =>
    rw [List.forall_mem_cons] at h
    have htext : ((l :: ls).map line).flatten = l ++ '\n' :: (ls.map line).flatten := by
      simp [line]
    rw [htext, List.splitOn_append_cons_self_of_not_mem h.1, ih h.2]
    rfl

def forwardComment : Text := "/* Forward declarations */"

lemma mem_declarations {t : Text} (ht : t ≠ []) (hcomment : t ≠ forwardComment) :
    t ∈ declarations functions symbols ↔
      (∃ name, Calls functions (.external name) ∧ t = nameDecl name) ∨
      (∃ a, (Calls functions (.direct a) ∧ ¬ Emitted functions a) ∧ t = targetDecl symbols a) ∨
      ∃ f ∈ functions, t = forwardDecl f := by
  obtain ⟨ls, htext, hls⟩ := externDeclarations_lines functions symbols
  have hforward : forwardDeclarations functions =
      (([forwardComment] ++ functions.map forwardDecl ++ [[]]).map line).flatten := by
    have htext : forwardDeclarations functions = line forwardComment ++
        (functions.map fun f => line (forwardDecl f)).flatten ++ line [] := rfl
    rw [htext]
    simp [Function.comp_def]
  have hnewline : ∀ l ∈ ls ++ ([forwardComment] ++ functions.map forwardDecl ++ [[]]),
      '\n' ∉ l := by
    intro l hl
    by_cases hnil : l = []
    · rw [hnil]
      exact List.not_mem_nil
    rcases List.mem_append.mp hl with hl | hl
    · rcases (hls l hnil).mp hl with ⟨name, -, rfl⟩ | ⟨a, -, rfl⟩
      · exact newline_not_mem_nameDecl name
      · exact newline_not_mem_targetDecl symbols a
    · simp only [List.cons_append, List.nil_append, List.mem_cons, List.mem_append, List.mem_map,
        List.not_mem_nil, or_false] at hl
      rcases hl with rfl | ⟨f, -, rfl⟩ | rfl
      · decide
      · exact newline_not_mem_forwardDecl f
      · exact absurd rfl hnil
  rw [declarations, declarationText, htext, hforward, ← List.flatten_append, ← List.map_append,
    splitOn_lines hnewline]
  simp only [List.mem_append, List.mem_singleton, List.mem_map, hls t ht, ht, hcomment, or_false,
    false_or, or_assoc]
  simp only [eq_comm]

lemma takeWhile_declOf {pre ident post : Text} (hpre : '(' ∉ pre)
    (hident : ∀ c ∈ ident, isIdentChar c = true) :
    (pre ++ ident ++ '(' :: post).takeWhile (· ≠ '(') = pre ++ ident := by
  have hall : ∀ c ∈ pre ++ ident, decide (c ≠ '(') = true := by
    intro c hc
    rw [decide_eq_true_eq]
    rintro rfl
    rcases List.mem_append.mp hc with hc | hc
    · exact hpre hc
    · exact absurd (hident '(' hc) (by decide)
  rw [List.takeWhile_append_of_pos hall]
  simp

lemma declaredName_declOf {pre ident post : Text} (hpre : '(' ∉ pre)
    (hlast : pre.getLast?.any isIdentChar = false) (hident : ∀ c ∈ ident, isIdentChar c = true) :
    declaredName (pre ++ ident ++ '(' :: post) = some ident := by
  have hlast' : pre.reverse.takeWhile isIdentChar = [] := by
    rw [← List.head?_reverse] at hlast
    cases h : pre.reverse with
    | nil => rfl
    | cons c l =>
      rw [h] at hlast
      exact List.takeWhile_cons_of_neg (by simpa using hlast)
  rw [declaredName, if_pos (by simp), takeWhile_declOf hpre hident, List.rtakeWhile,
    List.reverse_append, List.takeWhile_append_of_pos (by simpa using hident), hlast',
    List.append_nil, List.reverse_reverse]

lemma declaredName_stubDecl {ident : Text} (h : ∀ c ∈ ident, isIdentChar c = true) :
    declaredName (stubDecl ident) = some ident :=
  declaredName_declOf (by decide) (by decide) h

lemma declaredName_forwardDecl (f : IRFunction) :
    declaredName (forwardDecl f) = some (sanitiseCIdent f.name) :=
  declaredName_declOf (by decide) (by decide) (isIdentChar_sanitise f.name)

lemma libc_word : ∀ p ∈ knownLibc, IsWord p.1.toList := by decide

lemma declaredName_nameDecl (name : Text) :
    declaredName (nameDecl name) = some (sanitiseCIdent name) := by
  rw [nameDecl]
  cases hp : libcProto name with
  | none => exact declaredName_stubDecl (isIdentChar_sanitise name)
  | some proto =>
    obtain ⟨p, hmem, rfl, rfl⟩ := libc_of_proto hp
    rw [sanitise_word (libc_word p hmem)]
    exact (libc_decl p hmem).2

def callee (symbols : SymbolTable) (funcNames : TreeMap U64 Text) : CallTarget → Option Text
  | .direct addr => some (resolveCallName addr symbols funcNames)
  | .external name => some (sanitiseCIdent name)
  | .indirect _ => none

def callArguments : CallTarget → List Text
  | .external _ => ["cpu.rdi", "cpu.rsi", "cpu.rdx", "cpu.rcx", "cpu.r8", "cpu.r9"]
  | _ => []

def namedCall (target : CallTarget) (fallthrough : U64) (ident : Text) : Text :=
  "cpu.rsp -= 8; *(uint64_t*)(uintptr_t)(cpu.rsp) = 0x" ++ hex fallthrough.toNat ++ "; " ++
    ("cpu.rax = " ++ ident ++ "(" ++ join ", " (callArguments target) ++ ");")

lemma emitInstruction_call {target : CallTarget} {funcNames : TreeMap U64 Text} {ident : Text}
    (h : callee symbols funcNames target = some ident) (addr fallthrough : U64) :
    emitInstruction ⟨addr, .call target fallthrough⟩ symbols funcNames =
      namedCall target fallthrough ident := by
  unfold namedCall
  cases target with
  | direct a =>
    cases h
    simp [emitInstruction, callArguments, join]
  | external name =>
    cases h
    have hargs : join ", " (callArguments (.external name)) =
        "cpu.rdi, cpu.rsi, cpu.rdx, cpu.rcx, cpu.r8, cpu.r9" := by
      rw [callArguments]
      decide
    rw [hargs]
    simp [emitInstruction]
  | indirect op => cases h

lemma resolveCallName_cases (functions : List IRFunction) (symbols : SymbolTable) (a : U64) :
    (∃ f ∈ functions,
      resolveCallName a symbols (funcNameMap functions) = sanitiseCIdent f.name) ∧
        Emitted functions a ∨
    ¬ Emitted functions a ∧
      declaredName (targetDecl symbols a) =
        some (resolveCallName a symbols (funcNameMap functions)) := by
  rw [resolveCallName]
  cases hmap : (funcNameMap functions)[a]? with
  | some n =>
    left
    obtain ⟨f, hf, ha, rfl⟩ := funcNameMap_some hmap
    exact ⟨⟨f, hf, rfl⟩, f, hf, ha⟩
  | none =>
    right
    refine ⟨funcNameMap_none.mp hmap, ?_⟩
    rw [targetDecl]
    cases symbols[a]? with
    | none => exact declaredName_stubDecl (isIdentChar_stub _)
    | some name => exact declaredName_nameDecl name

lemma mem_declarations_of_name {d ident : Text} (hd : declaredName d = some ident) :
    d ∈ declarations functions symbols ↔
      (∃ name, Calls functions (.external name) ∧ d = nameDecl name) ∨
      (∃ a, (Calls functions (.direct a) ∧ ¬ Emitted functions a) ∧ d = targetDecl symbols a) ∨
      ∃ f ∈ functions, d = forwardDecl f := by
  apply mem_declarations
  · rintro rfl
    cases hd
  · rintro rfl
    have hnone : declaredName forwardComment = none := by decide
    rw [hnone] at hd
    cases hd

/-- Every identifier that a call names is declared before the first body. -/
theorem callee_declared {target : CallTarget} {ident : Text} (h : Calls functions target)
    (hident : callee symbols (funcNameMap functions) target = some ident) :
    emitC functions symbols =
        fileHeader ++ declarationText functions symbols ++ bodies functions symbols ∧
      (∀ addr fallthrough,
        emitInstruction ⟨addr, .call target fallthrough⟩ symbols (funcNameMap functions) =
          namedCall target fallthrough ident) ∧
      ∃ d ∈ declarations functions symbols, declaredName d = some ident := by
  refine ⟨emitC_eq functions symbols, emitInstruction_call hident, ?_⟩
  cases target with
  | indirect op => cases hident
  | external name =>
    cases hident
    have hd := declaredName_nameDecl name
    exact ⟨nameDecl name, (mem_declarations_of_name hd).mpr (.inl ⟨name, h, rfl⟩), hd⟩
  | direct a =>
    cases hident
    rcases resolveCallName_cases functions symbols a with ⟨⟨f, hf, hname⟩, -⟩ | ⟨hnot, hd⟩
    · have hd := declaredName_forwardDecl f
      rw [hname]
      exact ⟨forwardDecl f, (mem_declarations_of_name hd).mpr (.inr (.inr ⟨f, hf, rfl⟩)), hd⟩
    · exact ⟨targetDecl symbols a,
        (mem_declarations_of_name hd).mpr (.inr (.inl ⟨a, ⟨h, hnot⟩, rfl⟩)), hd⟩

def caller : IRFunction where
  name := "main"
  addr := 0x1000
  blocks := (∅ : TreeMap BlockId IRBlock).insert 0 ⟨0, 0x1000,
    [⟨0x1000, .call (.external "printf") 0x1005⟩, ⟨0x1005, .call (.direct 0x2000) 0x100a⟩,
      ⟨0x100a, .ret⟩]⟩
  entryBlock := 0
  blockAddrs := (∅ : TreeMap BlockId U64).insert 0 0x1000

lemma caller_calls : Calls [caller] (.external "printf") := ⟨0x1005, by decide⟩

theorem caller_printf_declared :
    emitC [caller] ∅ = fileHeader ++ declarationText [caller] ∅ ++ bodies [caller] ∅ ∧
      (∀ addr fallthrough,
        emitInstruction ⟨addr, .call (.external "printf") fallthrough⟩ ∅ (funcNameMap [caller]) =
          namedCall (.external "printf") fallthrough "printf") ∧
      ∃ d ∈ declarations [caller] ∅, declaredName d = some "printf" := by
  have hident : callee ∅ (funcNameMap [caller]) (.external "printf") = some "printf" := by decide
  exact callee_declared caller_calls hident

end Dexe.Backend
