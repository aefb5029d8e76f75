import Dexe.Backend.Declarations

/-! The arguments of a call and its result, against the declarations of the name that it calls. -/

namespace Dexe.Backend

open Std Text Clang Collections

variable {functions : List IRFunction} {symbols : SymbolTable} {a : U64} {name ident : Text}

def returnType (d : Text) : Text :=
  let beforeName := trim ((d.takeWhile (· ≠ '(')).rdropWhile isIdentChar)
  trim ((beforeName.stripPrefix "extern").getD beforeName)

def parameterList (d : Text) : List Text :=
  ((((d.dropWhile (· ≠ '(')).drop 1).takeWhile (· ≠ ')')).splitOn ',').map trim

def parameterType (p : Text) : Text := trim (p.rdropWhile isIdentChar)

def integerWords : List Text := ["char", "int", "long", "unsigned", "size_t", "uint64_t"]

/-- A value of the type can be assigned to a `uint64_t`, and a `uint64_t` to an object of it: it is
no pointer and not `void`. -/
def IsInteger (type : Text) : Prop := ∀ word ∈ type.splitOn ' ', word ∈ integerWords

instance : DecidablePred IsInteger := fun type =>
  inferInstanceAs (Decidable (∀ word ∈ type.splitOn ' ', word ∈ integerWords))

def Accepts (d : Text) (n : ℕ) : Prop :=
  let ps := parameterList d
  if ps = [("void" : Text)] then n = 0
  else if ps.getLast? = some ("..." : Text) then
    ps.length ≤ n + 1 ∧ ∀ p ∈ ps.dropLast, IsInteger (parameterType p)
  else n = ps.length ∧ ∀ p ∈ ps, IsInteger (parameterType p)

instance (d : Text) (n : ℕ) : Decidable (Accepts d n) := by
  rw [Accepts]
  infer_instance

def MatchesCall (d : Text) (n : ℕ) : Prop := Accepts d n ∧ IsInteger (returnType d)

instance (d : Text) (n : ℕ) : Decidable (MatchesCall d n) := inferInstanceAs (Decidable (_ ∧ _))

def CallsMatch (functions : List IRFunction) (symbols : SymbolTable) : Prop :=
  ∀ target ident, Calls functions target →
    callee symbols (funcNameMap functions) target = some ident →
    ∀ d ∈ declarations functions symbols, declaredName d = some ident →
      MatchesCall d (callArguments target).length

lemma dropWhile_declOf {pre ident post : Text} (hpre : '(' ∉ pre)
    (hident : ∀ c ∈ ident, isIdentChar c = true) :
    (pre ++ ident ++ '(' :: post).dropWhile (· ≠ '(') = '(' :: post := by
  have happend : (pre ++ ident ++ '(' :: post).takeWhile (· ≠ '(') ++
      (pre ++ ident ++ '(' :: post).dropWhile (· ≠ '(') = pre ++ ident ++ '(' :: post :=
    List.takeWhile_append_dropWhile
  rw [takeWhile_declOf hpre hident] at happend
  exact List.append_cancel_left happend

lemma parameterList_declOf {pre ident post : Text} (hpre : '(' ∉ pre)
    (hident : ∀ c ∈ ident, isIdentChar c = true) :
    parameterList (pre ++ ident ++ '(' :: post) =
      ((post.takeWhile (· ≠ ')')).splitOn ',').map trim := by
  rw [parameterList, dropWhile_declOf hpre hident]
  rfl

lemma rdropWhile_append_ident {pre ident : Text} (hident : ∀ c ∈ ident, isIdentChar c = true) :
    (pre ++ ident).rdropWhile isIdentChar = pre.rdropWhile isIdentChar := by
  rw [List.rdropWhile, List.reverse_append, List.dropWhile_append_of_pos (by simpa using hident)]
  rfl

lemma returnType_declOf {pre ident post : Text} (hpre : '(' ∉ pre)
    (hident : ∀ c ∈ ident, isIdentChar c = true) :
    returnType (pre ++ ident ++ '(' :: post) = returnType (pre ++ '(' :: post) := by
  have htake : (pre ++ '(' :: post).takeWhile (· ≠ '(') = pre := by
    simpa using @takeWhile_declOf pre [] post hpre (by simp)
  rw [returnType, returnType, takeWhile_declOf hpre hident, htake, rdropWhile_append_ident hident]

lemma matchesCall_void {pre ident : Text} {n : ℕ} (hpre : '(' ∉ pre)
    (htype : IsInteger (returnType (pre ++ "(void);")))
    (hident : ∀ c ∈ ident, isIdentChar c = true) :
    MatchesCall (pre ++ ident ++ "(void);") n ↔ n = 0 := by
  have hparams : parameterList (pre ++ ident ++ "(void);") = [("void" : Text)] := by
    refine (parameterList_declOf hpre hident).trans ?_
    decide
  have hreturns : IsInteger (returnType (pre ++ ident ++ "(void);")) := by
    have heq : returnType (pre ++ ident ++ "(void);") = returnType (pre ++ "(void);") :=
      returnType_declOf hpre hident
    exact heq ▸ htype
  rw [MatchesCall, Accepts, hparams]
  exact and_iff_left hreturns

lemma matchesCall_stubDecl {n : ℕ} (h : ∀ c ∈ ident, isIdentChar c = true) :
    MatchesCall (stubDecl ident) n ↔ n = 0 :=
  matchesCall_void (by decide) (by decide) h

lemma matchesCall_forwardDecl (f : IRFunction) {n : ℕ} : MatchesCall (forwardDecl f) n ↔ n = 0 :=
  matchesCall_void (by decide) (by decide) (isIdentChar_sanitise f.name)

def libcDecl (proto : Text) : Text := "extern " ++ proto ++ ";"

lemma matchesCall_libc : ∀ p ∈ knownLibc,
    (MatchesCall (libcDecl p.2.toList) 6 ↔ p.1.toList = "syscall") ∧
      ¬ MatchesCall (libcDecl p.2.toList) 0 := by
  decide +kernel

lemma syscall_proto : libcProto "syscall" =
    some ("long syscall(long number, ...)" : Text) := by decide

lemma nameDecl_some {proto : Text} (h : libcProto name = some proto) :
    nameDecl name = libcDecl proto := by
  rw [nameDecl, h]
  rfl

lemma nameDecl_none (h : libcProto name = none) :
    nameDecl name = stubDecl (sanitiseCIdent name) := by
  rw [nameDecl, h]

lemma matchesCall_nameDecl_six : MatchesCall (nameDecl name) 6 ↔ name = "syscall" := by
  cases hp : libcProto name with
  | none =>
    rw [nameDecl_none hp, matchesCall_stubDecl (isIdentChar_sanitise name)]
    refine iff_of_false (by decide) ?_
    rintro rfl
    rw [syscall_proto] at hp
    cases hp
  | some proto =>
    obtain ⟨p, hmem, rfl, rfl⟩ := libc_of_proto hp
    rw [nameDecl_some hp]
    exact (matchesCall_libc p hmem).1

lemma matchesCall_nameDecl_zero : MatchesCall (nameDecl name) 0 ↔ libcProto name = none := by
  cases hp : libcProto name with
  | none =>
    rw [nameDecl_none hp, matchesCall_stubDecl (isIdentChar_sanitise name)]
    exact iff_of_true rfl rfl
  | some proto =>
    obtain ⟨p, hmem, -, rfl⟩ := libc_of_proto hp
    rw [nameDecl_some hp]
    exact iff_of_false (matchesCall_libc p hmem).2 (by simp)

lemma matchesCall_targetDecl_zero :
    MatchesCall (targetDecl symbols a) 0 ↔ ∀ name ∈ symbols[a]?, libcProto name = none := by
  rw [targetDecl]
  cases symbols[a]? with
  | none => exact iff_of_true ((matchesCall_stubDecl (isIdentChar_stub _)).mpr rfl) (by simp)
  | some name => simpa using matchesCall_nameDecl_zero

lemma eq_of_sanitise {w : Text} (hw : '_' ∉ w) (h : sanitiseCIdent name = w) : name = w := by
  rw [sanitiseCIdent_eq] at h
  have hchars : ∀ c ∈ padded name, identChar c = c := by
    intro c hc
    rw [identChar]
    split
    · rfl
    · rename_i hnot
      refine absurd ?_ hw
      rw [← h, List.mem_map]
      exact ⟨c, hc, if_neg hnot⟩
  have hpadded : padded name = w := by
    rw [← h]
    exact ((List.map_congr_left hchars).trans (List.map_id _)).symm
  simp only [padded] at hpadded
  split at hpadded
  · subst hpadded
    exact absurd (by decide) hw
  · split at hpadded
    · subst hpadded
      exact absurd List.mem_cons_self hw
    · exact hpadded

lemma eq_syscall (h : sanitiseCIdent name = "syscall") : name = "syscall" :=
  eq_of_sanitise (by decide) h

/-- Every call by name is one of `syscall`, which no function is named after, and no direct call
goes to a listed function. -/
structure Matched (functions : List IRFunction) (symbols : SymbolTable) : Prop where
  external : ∀ name, Calls functions (.external name) →
    name = "syscall" ∧ ∀ f ∈ functions, f.name ≠ name
  direct : ∀ a, Calls functions (.direct a) → ¬ Emitted functions a →
    ∀ name ∈ symbols[a]?, libcProto name = none

lemma declaredName_targetDecl_ne (ha : ∀ n ∈ symbols[a]?, libcProto n = none) :
    declaredName (targetDecl symbols a) ≠ some ("syscall" : Text) := by
  rw [targetDecl]
  intro hd
  cases hs : symbols[a]? with
  | none =>
    rw [hs, declaredName_stubDecl (isIdentChar_stub _), Option.some.injEq] at hd
    have hmem : '_' ∈ ("syscall" : Text) := by
      rw [← hd]
      exact List.mem_append_left _ (by decide)
    exact absurd hmem (by decide)
  | some n =>
    rw [hs, declaredName_nameDecl, Option.some.injEq] at hd
    have hnone := ha n (by rw [hs]; rfl)
    rw [eq_syscall hd, syscall_proto] at hnone
    cases hnone

lemma Matched.external_match (h : Matched functions symbols)
    (hcall : Calls functions (.external "syscall")) {d : Text}
    (hd : d ∈ declarations functions symbols) (hname : declaredName d = some ("syscall" : Text)) :
    MatchesCall d 6 := by
  rcases (mem_declarations_of_name hname).mp hd with
    ⟨n, -, rfl⟩ | ⟨a, ⟨ha, hnot⟩, rfl⟩ | ⟨f, hf, rfl⟩
  · rw [declaredName_nameDecl, Option.some.injEq] at hname
    exact matchesCall_nameDecl_six.mpr (eq_syscall hname)
  · exact absurd hname (declaredName_targetDecl_ne (h.direct a ha hnot))
  · rw [declaredName_forwardDecl, Option.some.injEq] at hname
    exact absurd (eq_syscall hname) ((h.external _ hcall).2 f hf)

lemma Matched.direct_match (h : Matched functions symbols) (hcall : Calls functions (.direct a))
    {d : Text} (hd : d ∈ declarations functions symbols)
    (hname : declaredName d = some (resolveCallName a symbols (funcNameMap functions))) :
    MatchesCall d 0 := by
  rcases (mem_declarations_of_name hname).mp hd with
    ⟨n, hn, rfl⟩ | ⟨b, ⟨hb, hnot⟩, rfl⟩ | ⟨f, -, rfl⟩
  · obtain ⟨rfl, hnames⟩ := h.external n hn
    have hsyscall : sanitiseCIdent "syscall" = "syscall" := by decide
    rw [declaredName_nameDecl, Option.some.injEq, hsyscall] at hname
    rcases resolveCallName_cases functions symbols a with ⟨⟨f, hf, hf'⟩, -⟩ | ⟨hnot, hdecl⟩
    · rw [hf'] at hname
      exact absurd (eq_syscall hname.symm) (hnames f hf)
    · rw [← hname] at hdecl
      exact absurd hdecl (declaredName_targetDecl_ne (h.direct a hcall hnot))
  · exact matchesCall_targetDecl_zero.mpr (h.direct b hb hnot)
  · exact (matchesCall_forwardDecl f).mpr rfl

def unlistedCall : IRFunction where
  name := "main"
  addr := 0x1000
  blocks := (∅ : TreeMap BlockId IRBlock).insert 0 ⟨0, 0x1000,
    [⟨0x1000, .call (.external "foo") 0x1005⟩, ⟨0x1005, .ret⟩]⟩
  entryBlock := 0
  blockAddrs := (∅ : TreeMap BlockId U64).insert 0 0x1000

end Dexe.Backend
