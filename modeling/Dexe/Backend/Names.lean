import Dexe.Backend
import Dexe.Clang.Print
import Dexe.Collections.Maps

/-! The names of functions and of the targets of calls. -/

namespace Dexe.Backend

open Std Text Clang Collections

variable {functions : List IRFunction} {symbols : SymbolTable} {a : U64}

def Calls (functions : List IRFunction) (target : CallTarget) : Prop :=
  ∃ fallthrough, Opcode.call target fallthrough ∈ opcodes functions

def Emitted (functions : List IRFunction) (a : U64) : Prop := ∃ f ∈ functions, f.addr = a

def emittedAddrs (functions : List IRFunction) : TreeSet U64 :=
  TreeSet.ofList (functions.map IRFunction.addr)

lemma contains_emittedAddrs : (emittedAddrs functions).contains a = true ↔ Emitted functions a := by
  simp [emittedAddrs, Emitted]

lemma mem_foldl_calls {κ : Type} [Ord κ] [TransOrd κ] [LawfulEqOrd κ] {k : κ} {P : Prop}
    {step : TreeSet κ → Opcode → TreeSet κ} {found : Opcode → Option κ} {target : CallTarget}
    (hstep : ∀ s op, step s op = (found op).elim s s.insert)
    (hfound : ∀ op, found op = some k ↔ (∃ fallthrough, op = .call target fallthrough) ∧ P) :
    k ∈ (opcodes functions).foldl step ∅ ↔ Calls functions target ∧ P := by
  refine (mem_foldl_insert hstep (opcodes functions) k).trans ?_
  simp only [hfound]
  constructor
  · rintro ⟨op, hop, ⟨fallthrough, rfl⟩, h⟩
    exact ⟨⟨fallthrough, hop⟩, h⟩
  · rintro ⟨⟨fallthrough, hop⟩, h⟩
    exact ⟨_, hop, ⟨fallthrough, rfl⟩, h⟩

def externTarget (functions : List IRFunction) : Opcode → Option U64
  | .call (.direct addr) _ => if (emittedAddrs functions).contains addr then none else some addr
  | _ => none

def externName : Opcode → Option Text
  | .call (.external name) _ => some name
  | _ => none

lemma externTarget_eq_some_iff {op : Opcode} : externTarget functions op = some a ↔
    (∃ fallthrough, op = .call (.direct a) fallthrough) ∧ ¬ Emitted functions a := by
  rw [← contains_emittedAddrs]
  unfold externTarget
  split
  · rename_i addr fallthrough
    by_cases h : (emittedAddrs functions).contains addr = true
    · rw [if_pos h]
      refine ⟨by simp, ?_⟩
      rintro ⟨⟨_, he⟩, hnot⟩
      cases he
      exact absurd h hnot
    · rw [if_neg h, Option.some.injEq]
      refine ⟨?_, ?_⟩
      · rintro rfl
        exact ⟨⟨_, rfl⟩, h⟩
      · rintro ⟨⟨_, he⟩, -⟩
        cases he
        rfl
  · rename_i hother
    refine ⟨by simp, ?_⟩
    rintro ⟨⟨fallthrough, rfl⟩, -⟩
    exact absurd rfl (hother a fallthrough)

lemma externName_eq_some_iff {op : Opcode} {name : Text} : externName op = some name ↔
    ∃ fallthrough, op = .call (.external name) fallthrough := by
  unfold externName
  split
  · simp
  · rename_i hother
    refine ⟨by simp, ?_⟩
    rintro ⟨fallthrough, rfl⟩
    exact absurd rfl (hother name fallthrough)

lemma mem_externTargets :
    a ∈ externTargets (emittedAddrs functions) functions ↔
      Calls functions (.direct a) ∧ ¬ Emitted functions a := by
  rw [externTargets]
  refine mem_foldl_calls ?_ fun op => externTarget_eq_some_iff
  intro s op
  cases op with
  | call target fallthrough =>
    cases target with
    | direct addr =>
      show (if (emittedAddrs functions).contains addr then s else s.insert addr) = _
      rw [externTarget]
      split <;> rfl
    | _ => rfl
  | _ => rfl

lemma mem_externNames {name : Text} :
    name ∈ externNames functions ↔ Calls functions (.external name) := by
  have hfound : ∀ op, externName op = some name ↔
      (∃ fallthrough, op = .call (.external name) fallthrough) ∧ True := by
    intro op
    rw [and_true]
    exact externName_eq_some_iff
  rw [externNames]
  refine (mem_foldl_calls ?_ hfound).trans (and_iff_left trivial)
  intro s op
  cases op with
  | call target fallthrough => cases target <;> rfl
  | _ => rfl

lemma funcNameMap_none : (funcNameMap functions)[a]? = none ↔ ¬ Emitted functions a := by
  have hmem : a ∈ funcNameMap functions ↔ Emitted functions a := by
    rw [funcNameMap, TreeMap.mem_ofList]
    simp [Emitted]
  rw [← hmem, TreeMap.mem_iff_isSome_getElem?, Option.not_isSome_iff_eq_none]

lemma funcNameMap_some {ident : Text} (h : (funcNameMap functions)[a]? = some ident) :
    ∃ f ∈ functions, f.addr = a ∧ ident = sanitiseCIdent f.name := by
  obtain ⟨f, hf, he⟩ := List.mem_map.mp (mem_of_getElem?_ofList h)
  cases he
  exact ⟨f, hf, rfl, rfl⟩

lemma funcNameMap_of_mem (hnd : (functions.map IRFunction.addr).Nodup) {f : IRFunction}
    (hf : f ∈ functions) : (funcNameMap functions)[f.addr]? = some (sanitiseCIdent f.name) := by
  apply TreeMap.getElem?_ofList_of_mem (k := f.addr) ReflCmp.compare_self
  · rw [List.pairwise_map]
    exact (List.pairwise_map.mp hnd).imp fun h he => h (LawfulEqCmp.eq_of_compare he)
  · exact List.mem_map_of_mem hf

def identChar (c : Char) : Char := if isIdentChar c then c else '_'

def padded (name : Text) : Text :=
  match name with
  | [] => "_anon"
  | c :: _ => if c.isDigit then '_' :: name else name

lemma isDigit_identChar (c : Char) : (identChar c).isDigit = c.isDigit := by
  rw [identChar]
  split
  · rfl
  · rename_i h
    have hdigit : c.isDigit = false := by
      simp only [isIdentChar, Char.isAlphanum, Bool.or_eq_true, not_or] at h
      simpa using h.1.2
    rw [hdigit]
    rfl

lemma isIdentChar_eq (c : Char) : isIdentChar c = isWordChar c := rfl

lemma isWordChar_identChar (c : Char) : isWordChar (identChar c) = true := by
  rw [identChar]
  split
  · rwa [← isIdentChar_eq]
  · decide

lemma padded_eq_cons (name : Text) : ∃ c l, padded name = c :: l ∧ c.isDigit = false := by
  cases name with
  | nil => exact ⟨'_', _, rfl, by decide⟩
  | cons c l =>
    rw [padded]
    cases hdigit : c.isDigit with
    | true => exact ⟨'_', _, rfl, by decide⟩
    | false => exact ⟨c, l, rfl, hdigit⟩

lemma sanitiseCIdent_eq (name : Text) : sanitiseCIdent name = (padded name).map identChar := by
  cases name with
  | nil => decide
  | cons c l =>
    have hresult : (c :: l).map (fun c => if isIdentChar c then c else '_') =
        identChar c :: l.map identChar := rfl
    simp only [sanitiseCIdent, hresult, isDigit_identChar, padded]
    split
    · rfl
    · rfl

lemma isWord_sanitiseCIdent (name : Text) : IsWord (sanitiseCIdent name) := by
  obtain ⟨c, l, hpadded, hdigit⟩ := padded_eq_cons name
  rw [sanitiseCIdent_eq, hpadded]
  refine ⟨by simp, ?_, by simp [isDigit_identChar, hdigit]⟩
  intro d hd
  obtain ⟨a, -, rfl⟩ := List.mem_map.mp hd
  exact isWordChar_identChar a

def Alike (c d : Char) : Prop := c = d ∨ c.isAlphanum = false ∧ d.isAlphanum = false

instance (c d : Char) : Decidable (Alike c d) := inferInstanceAs (Decidable (_ ∨ _))

lemma identChar_of_alphanum {c : Char} (h : c.isAlphanum = true) : identChar c = c := by
  simp [identChar, isIdentChar, h]

lemma identChar_of_not_alphanum {c : Char} (h : c.isAlphanum = false) : identChar c = '_' := by
  rw [identChar, isIdentChar]
  rw [h, Bool.false_or]
  split
  · exact of_decide_eq_true ‹_›
  · rfl

lemma identChar_eq_iff {c d : Char} : identChar c = identChar d ↔ Alike c d := by
  have hunderscore : ('_' : Char).isAlphanum = false := by decide
  cases hc : c.isAlphanum <;> cases hd : d.isAlphanum
  · rw [identChar_of_not_alphanum hc, identChar_of_not_alphanum hd]
    exact iff_of_true rfl (.inr ⟨hc, hd⟩)
  · rw [identChar_of_not_alphanum hc, identChar_of_alphanum hd]
    refine iff_of_false ?_ ?_
    · rintro rfl
      rw [hunderscore] at hd
      cases hd
    · rintro (rfl | ⟨-, h⟩)
      · rw [hc] at hd
        cases hd
      · rw [hd] at h
        cases h
  · rw [identChar_of_alphanum hc, identChar_of_not_alphanum hd]
    refine iff_of_false ?_ ?_
    · rintro rfl
      rw [hunderscore] at hc
      cases hc
    · rintro (rfl | ⟨h, -⟩)
      · rw [hc] at hd
        cases hd
      · rw [hc] at h
        cases h
  · rw [identChar_of_alphanum hc, identChar_of_alphanum hd, Alike, hc]
    simp

/-- Equal up to characters other than ASCII letters and digits, after padding. -/
def Merges (s t : Text) : Prop := List.Forall₂ Alike (padded s) (padded t)

instance (s t : Text) : Decidable (Merges s t) :=
  inferInstanceAs (Decidable (List.Forall₂ Alike (padded s) (padded t)))

lemma sanitise_eq_iff {s t : Text} : sanitiseCIdent s = sanitiseCIdent t ↔ Merges s t := by
  rw [sanitiseCIdent_eq, sanitiseCIdent_eq, ← List.forall₂_eq_eq_eq, List.forall₂_map_left_iff,
    List.forall₂_map_right_iff, Merges]
  simp only [identChar_eq_iff]

lemma sanitise_word {w : Text} (h : IsWord w) : sanitiseCIdent w = w := by
  obtain ⟨hne, hchars, hdigit⟩ := h
  obtain ⟨c, l, rfl⟩ := List.exists_cons_of_ne_nil hne
  have hmap : (c :: l).map identChar = c :: l := by
    refine (List.map_congr_left ?_).trans (List.map_id _)
    intro d hd
    exact if_pos (hchars d hd)
  have hc : c.isDigit = false := by simpa using hdigit
  rw [sanitiseCIdent_eq, padded, hc]
  exact hmap

def rawName (functions : List IRFunction) (symbols : SymbolTable) (a : U64) : Text :=
  match functions.find? fun f => f.addr = a with
  | some f => f.name
  | none => symbols[a]?.getD ("stub_0x" ++ hex a.toNat)

lemma isWord_stub (n : ℕ) : IsWord ("stub_0x" ++ hex n) := isWord_append_hex (by decide) n

lemma resolveCallName_eq (hnd : (functions.map IRFunction.addr).Nodup) :
    resolveCallName a symbols (funcNameMap functions) =
      sanitiseCIdent (rawName functions symbols a) := by
  rw [resolveCallName, rawName]
  cases h : functions.find? fun f => f.addr = a with
  | some f =>
    have hf := List.mem_of_find?_eq_some h
    have ha : f.addr = a := by simpa using List.find?_some h
    rw [← ha, funcNameMap_of_mem hnd hf]
  | none =>
    have hnone : (funcNameMap functions)[a]? = none := by
      rw [funcNameMap_none]
      rintro ⟨f, hf, ha⟩
      have := List.find?_eq_none.mp h f hf
      simp [ha] at this
    rw [hnone]
    cases symbols[a]? with
    | some name => rfl
    | none => exact (sanitise_word (isWord_stub a.toNat)).symm

/-- The functions that `string.h` and `stdlib.h` declare, each with another type than the
`uint64_t(void)` of an emitted function. -/
def headerFunctions : List Text :=
  ["memcpy", "memmove", "strcpy", "strncpy", "strcat", "strncat", "memcmp", "strcmp", "strcoll",
    "strncmp", "strxfrm", "memchr", "strchr", "strcspn", "strpbrk", "strrchr", "strspn", "strstr",
    "strtok", "memset", "strerror", "strlen", "atof", "atoi", "atol", "atoll", "strtod", "strtof",
    "strtold", "strtol", "strtoll", "strtoul", "strtoull", "rand", "srand", "calloc", "free",
    "malloc", "realloc", "abort", "atexit", "exit", "_Exit", "getenv", "system", "bsearch",
    "qsort", "abs", "labs", "llabs", "div", "ldiv", "lldiv", "mblen", "mbtowc", "wctomb",
    "mbstowcs", "wcstombs"]

def headerObjects : List Text := ["cpu", "process_memory", "init_state", "CPU_State"]

def reserved : List Text := keywords ++ headerObjects ++ headerFunctions

lemma isWord_reserved : ∀ w ∈ reserved, IsWord w := by decide

/-- Functions, targets of direct calls and reserved words do not share names. -/
structure DistinctNames (functions : List IRFunction) (symbols : SymbolTable) : Prop where
  bodies : (functions.map fun f => sanitiseCIdent f.name).Nodup
  targets : ∀ a b, Calls functions (.direct a) → Calls functions (.direct b) → a ≠ b →
    resolveCallName a symbols (funcNameMap functions) ≠
      resolveCallName b symbols (funcNameMap functions)
  words : ∀ f ∈ functions, sanitiseCIdent f.name ∉ reserved

structure Unmerged (functions : List IRFunction) (symbols : SymbolTable) : Prop where
  bodies : functions.Pairwise fun f g => ¬ Merges f.name g.name
  targets : ∀ a b, Calls functions (.direct a) → Calls functions (.direct b) → a ≠ b →
    ¬ Merges (rawName functions symbols a) (rawName functions symbols b)
  words : ∀ f ∈ functions, ∀ w ∈ reserved, ¬ Merges f.name w

lemma sanitise_mem_reserved {name : Text} :
    sanitiseCIdent name ∈ reserved ↔ ∃ w ∈ reserved, Merges name w := by
  constructor
  · intro h
    refine ⟨_, h, sanitise_eq_iff.mp ?_⟩
    exact (sanitise_word (isWord_reserved _ h)).symm
  · rintro ⟨w, hw, hmerges⟩
    rw [sanitise_eq_iff.mpr hmerges, sanitise_word (isWord_reserved w hw)]
    exact hw

/-- Names stay apart exactly when no two of them merge. -/
theorem distinctNames_iff (hnd : (functions.map IRFunction.addr).Nodup) :
    DistinctNames functions symbols ↔ Unmerged functions symbols := by
  have hfunctions : (functions.map fun f => sanitiseCIdent f.name).Nodup ↔
      functions.Pairwise fun f g => ¬ Merges f.name g.name := by
    rw [List.Nodup, List.pairwise_map]
    simp only [ne_eq, sanitise_eq_iff]
  have htargets : ∀ a b, resolveCallName a symbols (funcNameMap functions) ≠
      resolveCallName b symbols (funcNameMap functions) ↔
        ¬ Merges (rawName functions symbols a) (rawName functions symbols b) := by
    intro a b
    rw [resolveCallName_eq hnd, resolveCallName_eq hnd, ne_eq, sanitise_eq_iff]
  have hreserved : ∀ name, sanitiseCIdent name ∉ reserved ↔ ∀ w ∈ reserved, ¬ Merges name w := by
    intro name
    rw [sanitise_mem_reserved]
    simp only [not_exists, not_and]
  constructor
  · intro h
    refine ⟨hfunctions.mp h.bodies, ?_, ?_⟩
    · intro a b ha hb hne
      exact (htargets a b).mp (h.targets a b ha hb hne)
    · intro f hf
      exact (hreserved f.name).mp (h.words f hf)
  · intro h
    refine ⟨hfunctions.mpr h.bodies, ?_, ?_⟩
    · intro a b ha hb hne
      exact (htargets a b).mpr (h.targets a b ha hb hne)
    · intro f hf
      exact (hreserved f.name).mpr (h.words f hf)

def leaf (name : Text) (addr : U64) : IRFunction where
  name := name
  addr := addr
  blocks := (∅ : TreeMap BlockId IRBlock).insert 0 ⟨0, addr, [⟨addr, .ret⟩]⟩
  entryBlock := 0
  blockAddrs := (∅ : TreeMap BlockId U64).insert 0 addr

def twins : List IRFunction := [leaf "helper" 0x1000, leaf "helper" 0x1010]

theorem twins_share_name :
    (twins.map IRFunction.addr).Nodup ∧ ∀ symbols, ¬ DistinctNames twins symbols := by
  refine ⟨by decide, ?_⟩
  intro symbols h
  exact absurd h.bodies (by decide)

theorem leaves_distinctNames_iff :
    DistinctNames [leaf "main" 0x1000, leaf "helper" 0x1010] ∅ ↔
      Unmerged [leaf "main" 0x1000, leaf "helper" 0x1010] ∅ :=
  distinctNames_iff (by decide)

end Dexe.Backend
