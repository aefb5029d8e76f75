import Mathlib.Computability.Language

/-! Languages that are given by classes of letters. -/

namespace Dexe.Text

open scoped Computability

variable {α : Type*} {p : α → Prop} {l : Language α} {w : List α}

def oneOf (p : α → Prop) : Language α := {w | ∃ a, p a ∧ w = [a]}

lemma mem_oneOf : w ∈ oneOf p ↔ ∃ a, p a ∧ w = [a] := Iff.rfl

lemma mem_oneOf_mul : w ∈ oneOf p * l ↔ ∃ a v, p a ∧ v ∈ l ∧ w = a :: v := by
  rw [Language.mem_mul]
  constructor
  · rintro ⟨_, ⟨a, ha, rfl⟩, v, hv, rfl⟩
    exact ⟨a, v, ha, hv, rfl⟩
  · rintro ⟨a, v, ha, hv, rfl⟩
    exact ⟨[a], ⟨a, ha, rfl⟩, v, hv, rfl⟩

lemma mem_kstar_oneOf : w ∈ (oneOf p)∗ ↔ ∀ a ∈ w, p a := by
  rw [Language.mem_kstar]
  constructor
  · rintro ⟨L, rfl, hL⟩ a ha
    obtain ⟨v, hv, ha⟩ := List.mem_flatten.mp ha
    obtain ⟨b, hb, rfl⟩ := mem_oneOf.mp (hL v hv)
    rwa [List.mem_singleton.mp ha]
  · intro h
    refine ⟨w.map fun a => [a], ?_, ?_⟩
    · rw [← List.flatMap_def, List.flatMap_singleton']
    · intro v hv
      obtain ⟨a, ha, rfl⟩ := List.mem_map.mp hv
      exact ⟨a, h a ha, rfl⟩

end Dexe.Text
