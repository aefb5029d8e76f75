import Dexe.Backend.Reading
import Dexe.Text.Patterns

/-! The names that the emitter makes are identifiers. -/

namespace Dexe

open Text

namespace Clang

open scoped Computability

def Nondigit (c : Char) : Prop := ('A' ≤ c ∧ c ≤ 'Z') ∨ ('a' ≤ c ∧ c ≤ 'z') ∨ c = '_'

def Digit (c : Char) : Prop := '0' ≤ c ∧ c ≤ '9'

def identifier : Language Char := oneOf Nondigit * (oneOf fun c => Nondigit c ∨ Digit c)∗

lemma isDigit_iff {c : Char} : c.isDigit = true ↔ Digit c := by
  simp [Char.isDigit, Digit, Char.le_def]

lemma isWordChar_iff {c : Char} : isWordChar c = true ↔ Nondigit c ∨ Digit c := by
  rw [isWordChar, Bool.or_eq_true, isAlphanum_iff, beq_iff_eq, isDigit_iff, Nondigit]
  tauto

lemma not_digit_of_nondigit {c : Char} (h : Nondigit c) : ¬ Digit c := by
  rintro ⟨-, hnine⟩
  rcases h with ⟨hA, -⟩ | ⟨ha, -⟩ | rfl
  · exact absurd (Char.le_trans hA hnine) (by decide)
  · exact absurd (Char.le_trans ha hnine) (by decide)
  · exact absurd hnine (by decide)

lemma mem_identifier_iff {w : Text} : w ∈ identifier ↔ IsWord w := by
  rw [identifier, mem_oneOf_mul]
  constructor
  · rintro ⟨c, v, hc, hv, rfl⟩
    rw [mem_kstar_oneOf] at hv
    refine ⟨by simp, ?_, ?_⟩
    · intro d hd
      rw [isWordChar_iff]
      rcases List.mem_cons.mp hd with rfl | hd
      · exact .inl hc
      · exact hv d hd
    · simpa [isDigit_iff] using not_digit_of_nondigit hc
  · rintro ⟨hne, hchars, hdigit⟩
    obtain ⟨c, v, rfl⟩ := List.exists_cons_of_ne_nil hne
    have hall : ∀ d ∈ c :: v, Nondigit d ∨ Digit d := fun d hd => isWordChar_iff.mp (hchars d hd)
    have hc : ¬ Digit c := by simpa [isDigit_iff] using hdigit
    refine ⟨c, v, (hall c List.mem_cons_self).resolve_right hc, ?_, rfl⟩
    exact mem_kstar_oneOf.mpr fun d hd => hall d (List.mem_cons_of_mem _ hd)

end Clang

namespace Backend

open Std Clang

lemma sanitiseCIdent_eq_self_iff {name : Text} : sanitiseCIdent name = name ↔ IsWord name := by
  constructor
  · intro h
    rw [← h]
    exact isWord_sanitiseCIdent name
  · exact sanitise_word

/-- Sanitised names are identifiers, and identifiers are the names that sanitising keeps. -/
theorem sanitiseCIdent_identifier (name : Text) :
    sanitiseCIdent name ≠ [] ∧ sanitiseCIdent name ∈ identifier ∧
      (sanitiseCIdent name = name ↔ name ∈ identifier) ∧
      sanitiseCIdent (sanitiseCIdent name) = sanitiseCIdent name := by
  have hword := isWord_sanitiseCIdent name
  refine ⟨hword.1, mem_identifier_iff.mpr hword, ?_, sanitise_word hword⟩
  rw [mem_identifier_iff]
  exact sanitiseCIdent_eq_self_iff

example : sanitiseCIdent "2nd.part" = ("_2nd_part" : Text) := by decide

lemma namesWords_funcNameMap (functions : List IRFunction) :
    NamesWords (funcNameMap functions) := by
  intro addr name h
  obtain ⟨f, -, -, rfl⟩ := funcNameMap_some h
  exact isWord_sanitiseCIdent f.name

theorem resolveCallName_identifier (functions : List IRFunction) (symbols : SymbolTable) (a : U64) :
    resolveCallName a symbols (funcNameMap functions) ∈ identifier := by
  rw [mem_identifier_iff]
  exact isWord_resolveCallName symbols (namesWords_funcNameMap functions) a

end Backend

end Dexe
