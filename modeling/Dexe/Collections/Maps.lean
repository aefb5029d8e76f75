import Mathlib.Data.List.Sort
import Mathlib.Tactic
import Std.Data.TreeMap
import Std.Data.TreeSet

/-! Maps and sets built by a loop of insertions. -/

namespace Dexe.Collections

open Std

section Order

variable {α : Type*} {r : α → α → Prop}

lemma eq_of_pairwise_of_mem_iff (hasymm : ∀ a b, r a b → ¬ r b a) {l₁ l₂ : List α}
    (h₁ : l₁.Pairwise r) (h₂ : l₂.Pairwise r) (h : ∀ a, a ∈ l₁ ↔ a ∈ l₂) : l₁ = l₂ := by
  have hnd : ∀ l : List α, l.Pairwise r → l.Nodup := by
    intro l hl
    refine hl.imp ?_
    rintro a _ hab rfl
    exact hasymm a a hab hab
  have hp : l₁.Perm l₂ := (List.perm_ext_iff_of_nodup (hnd _ h₁) (hnd _ h₂)).mpr h
  exact hp.eq_of_pairwise (fun a b _ _ hab hba => (hasymm a b hab hba).elim) h₁ h₂

end Order

section Fold

variable {σ β : Type*}

lemma foldl_iff {f : σ → β → σ} (P : σ → Prop) (A : β → Prop)
    (h : ∀ s b, P (f s b) ↔ P s ∨ A b) (l : List β) (s : σ) :
    P (l.foldl f s) ↔ P s ∨ ∃ b ∈ l, A b := by
  induction l generalizing s with
  | nil => simp
  | cons b l ih => simp [ih, h, or_assoc]

end Fold

section Maps

variable {κ ν : Type*} {cmp : κ → κ → Ordering}

def insertAll (l : List (κ × ν)) : TreeMap κ ν cmp := l.foldl (fun m p => m.insert p.1 p.2) ∅

lemma insertAll_snoc (l : List (κ × ν)) (p : κ × ν) :
    (insertAll (l ++ [p]) : TreeMap κ ν cmp) = (insertAll l).insert p.1 p.2 := by
  simp [insertAll]

variable [TransCmp cmp] [LawfulEqCmp cmp]

lemma getElem?_insertAll {l : List (κ × ν)} (hl : (l.map Prod.fst).Nodup) (k : κ) (v : ν) :
    (insertAll l : TreeMap κ ν cmp)[k]? = some v ↔ (k, v) ∈ l := by
  induction l using List.reverseRecOn with
  | nil => simp [insertAll]
  | append_singleton l p ih =>
    rw [List.map_append, List.nodup_append] at hl
    rw [insertAll_snoc, TreeMap.getElem?_insert]
    by_cases hk : cmp p.1 k = .eq
    · have hpk : p.1 = k := LawfulEqCmp.eq_of_compare hk
      have hnot : (k, v) ∉ l := by
        intro hmem
        exact hl.2.2 k (List.mem_map_of_mem hmem) p.1 (by simp) hpk.symm
      rw [if_pos hk]
      constructor
      · rintro ⟨⟩
        simp [← hpk]
      · intro hmem
        rcases List.mem_append.mp hmem with hmem | hmem
        · exact absurd hmem hnot
        · rw [← List.mem_singleton.mp hmem]
    · rw [if_neg hk, ih hl.1]
      have hne : (k, v) ≠ p := by
        rintro rfl
        exact hk ReflCmp.compare_self
      simp [hne]

lemma mem_of_getElem?_insertAll {l : List (κ × ν)} {k : κ} {v : ν}
    (h : (insertAll l : TreeMap κ ν cmp)[k]? = some v) : (k, v) ∈ l := by
  induction l using List.reverseRecOn with
  | nil => simp [insertAll] at h
  | append_singleton l p ih =>
    rw [insertAll_snoc, TreeMap.getElem?_insert] at h
    split at h
    · rename_i hk
      rw [← LawfulEqCmp.eq_of_compare hk, ← Option.some.inj h]
      simp
    · exact List.mem_append_left _ (ih h)

lemma mem_of_getElem?_ofList {l : List (κ × ν)} {k : κ} {v : ν}
    (h : (TreeMap.ofList l cmp)[k]? = some v) : (k, v) ∈ l := by
  rw [TreeMap.ofList_equiv_foldl.getElem?_eq] at h
  exact mem_of_getElem?_insertAll h

lemma toList_insertAll {l : List (κ × ν)} (hl : l.Pairwise fun a b => cmp a.1 b.1 = .lt) :
    (insertAll l : TreeMap κ ν cmp).toList = l := by
  have hnd : (l.map Prod.fst).Nodup := by
    refine List.pairwise_map.mpr (hl.imp fun {a b} hab he => ?_)
    rw [he] at hab
    exact OrientedCmp.not_lt_of_lt hab hab
  refine eq_of_pairwise_of_mem_iff (fun a b => OrientedCmp.not_lt_of_lt)
    TreeMap.ordered_keys_toList hl ?_
  rintro ⟨k, v⟩
  rw [TreeMap.mem_toList_iff_getElem?_eq_some, getElem?_insertAll hnd]

lemma toList_ofList {l : List (κ × ν)} (hl : l.Pairwise fun a b => cmp a.1 b.1 = .lt) :
    (TreeMap.ofList l cmp).toList = l :=
  (TreeMap.ofList_equiv_foldl.toList_eq).trans (toList_insertAll hl)

end Maps

section Sets

variable {κ β : Type*} {cmp : κ → κ → Ordering} [TransCmp cmp] [LawfulEqCmp cmp]

lemma mem_foldl_insert {step : TreeSet κ cmp → β → TreeSet κ cmp} {g : β → Option κ}
    (h : ∀ s b, step s b = (g b).elim s s.insert) (l : List β) (k : κ) :
    k ∈ l.foldl step ∅ ↔ ∃ b ∈ l, g b = some k := by
  have hstep : ∀ s b, k ∈ step s b ↔ k ∈ s ∨ g b = some k := by
    intro s b
    rw [h]
    cases g b with
    | none => simp
    | some k' =>
      rw [Option.elim_some, TreeSet.mem_insert, LawfulEqCmp.compare_eq_iff_eq, or_comm]
      simp
  rw [foldl_iff (k ∈ ·) _ hstep]
  simp

lemma toList_congr {s t : TreeSet κ cmp} (h : ∀ k, k ∈ s ↔ k ∈ t) :
    s.toList = t.toList := by
  have hasymm : ∀ a b : κ, cmp a b = .lt → ¬ cmp b a = .lt := by
    intro a b hab hba
    exact absurd (OrientedCmp.gt_of_lt hab) (by simp [hba])
  apply eq_of_pairwise_of_mem_iff hasymm TreeSet.ordered_toList TreeSet.ordered_toList
  intro k
  rw [TreeSet.mem_toList, TreeSet.mem_toList, h]

end Sets

end Dexe.Collections
