import Mathlib.Data.List.Basic

/-! What holds at every step of a fold, in the state that the step starts from. -/

namespace Dexe.Collections

variable {α σ : Type*} (step : σ → α → σ) {P Q : σ → α → Prop}

def Along (P : σ → α → Prop) : σ → List α → Prop
  | _, [] => True
  | s, a :: l => P s a ∧ Along P (step s a) l

lemma along_append (P : σ → α → Prop) (s : σ) (l m : List α) :
    Along step P s (l ++ m) ↔ Along step P s l ∧ Along step P (l.foldl step s) m := by
  induction l generalizing s with
  | nil => simp [Along]
  | cons a l ih => rw [List.cons_append, Along, Along, ih, List.foldl_cons, and_assoc]

lemma along_singleton (P : σ → α → Prop) (s : σ) (a : α) : Along step P s [a] ↔ P s a := by
  simp [Along]

lemma along_iff (P : σ → α → Prop) (s : σ) (l : List α) :
    Along step P s l ↔ ∀ pre a post, l = pre ++ a :: post → P (pre.foldl step s) a := by
  induction l generalizing s with
  | nil => simp [Along]
  | cons a l ih =>
    rw [Along, ih]
    constructor
    · rintro ⟨ha, hl⟩ pre b post h
      rcases pre with _ | ⟨c, pre⟩
      · cases h
        exact ha
      · cases h
        exact hl pre b post rfl
    · intro h
      exact ⟨h [] a l rfl, fun pre b post hl => h (a :: pre) b post (by rw [hl]; rfl)⟩

variable {step}

lemma Along.imp {s : σ} {l : List α} (h : Along step P s l) (hPQ : ∀ s a, P s a → Q s a) :
    Along step Q s l := by
  induction l generalizing s with
  | nil => trivial
  | cons a l ih => exact ⟨hPQ s a h.1, ih h.2⟩

end Dexe.Collections
