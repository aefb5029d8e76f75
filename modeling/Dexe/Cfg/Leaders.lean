import Dexe.Cfg
import Dexe.Collections.Maps
import Dexe.Collections.Runs

/-! The leaders of a function and their numbering. -/

namespace Dexe.Cfg

open Std Collections

def Increasing (insns : List DisassembledInsn) : Prop :=
  insns.Pairwise fun i j => i.address < j.address

instance (insns : List DisassembledInsn) : Decidable (Increasing insns) :=
  inferInstanceAs (Decidable (insns.Pairwise _))

lemma compare_lt_iff {a b : U64} : compare a b = .lt ↔ a < b := compareOfLessAndEq_eq_lt

lemma ne_of_lt {a b : U64} (h : a < b) : a ≠ b := by
  rintro rfl
  exact absurd h (BitVec.lt_irrefl a)

def IsLeader (insns : List DisassembledInsn) (i : DisassembledInsn) : Prop :=
  insns.head? = some i ∨ (∃ prev, Follows insns prev i ∧ EndsBlock prev.mnemonic) ∨
    ∃ s ∈ insns, IsJump s.mnemonic ∧ parseHexTarget s.opStr = some i.address

lemma mem_insert_iff {s : TreeSet U64} {k a : U64} : a ∈ s.insert k ↔ a ∈ s ∨ a = k := by
  rw [TreeSet.mem_insert, Std.compare_eq_iff_eq, or_comm, eq_comm]

lemma mem_validAddrs {insns : List DisassembledInsn} {a : U64} :
    a ∈ validAddrs insns ↔ ∃ i ∈ insns, i.address = a := by
  have hstep : ∀ (s : TreeSet U64) (i : DisassembledInsn),
      a ∈ s.insert i.address ↔ a ∈ s ∨ i.address = a := by
    intro s i
    rw [mem_insert_iff, eq_comm]
  have := foldl_iff (a ∈ ·) (fun i => i.address = a) hstep insns ∅
  simpa [validAddrs] using this

def Adds (insns : List DisassembledInsn) (p : DisassembledInsn × ℕ) (a : U64) : Prop :=
  (EndsBlock p.1.mnemonic ∧ ∃ next, insns[p.2 + 1]? = some next ∧ a = next.address) ∨
    (IsJump p.1.mnemonic ∧ parseHexTarget p.1.opStr = some a ∧ ∃ i ∈ insns, i.address = a)

lemma mem_insertNext {insns : List DisassembledInsn} {idx : ℕ} {s : TreeSet U64} {a : U64} :
    a ∈ insertNext insns idx s ↔
      a ∈ s ∨ ∃ next, insns[idx + 1]? = some next ∧ a = next.address := by
  rw [insertNext]
  cases insns[idx + 1]? with
  | none => simp
  | some next => simp only [mem_insert_iff, Option.some.injEq, exists_eq_left']

lemma mem_insertTarget {insns : List DisassembledInsn} {opStr : Text} {s : TreeSet U64} {a : U64} :
    a ∈ insertTarget (validAddrs insns) opStr s ↔
      a ∈ s ∨ parseHexTarget opStr = some a ∧ ∃ i ∈ insns, i.address = a := by
  rw [insertTarget]
  cases parseHexTarget opStr with
  | none => simp
  | some target =>
    by_cases h : target ∈ validAddrs insns
    · have hv := mem_validAddrs.mp h
      simp only [TreeSet.contains_iff_mem, h, if_true, mem_insert_iff, Option.some.injEq]
      constructor
      · rintro (ha | rfl)
        · exact .inl ha
        · exact .inr ⟨rfl, hv⟩
      · rintro (ha | ⟨rfl, _⟩)
        · exact .inl ha
        · exact .inr rfl
    · simp only [TreeSet.contains_iff_mem, h, if_false, Option.some.injEq]
      constructor
      · exact .inl
      · rintro (ha | ⟨rfl, hv⟩)
        · exact ha
        · exact absurd (mem_validAddrs.mpr hv) h

lemma mem_leaderStep {insns : List DisassembledInsn} {p : DisassembledInsn × ℕ} {s : TreeSet U64}
    {a : U64} : a ∈ leaderStep insns s p ↔ a ∈ s ∨ Adds insns p a := by
  rw [leaderStep, Adds]
  by_cases he : EndsBlock p.1.mnemonic
  · by_cases hj : IsJump p.1.mnemonic
    · simp only [he, hj, if_true, mem_insertTarget, mem_insertNext, true_and, or_assoc]
    · simp only [he, hj, if_true, if_false, mem_insertNext, true_and, false_and, or_false]
  · have hj : ¬ IsJump p.1.mnemonic := fun hj => he (.inl hj)
    simp only [he, hj, if_false, false_and, or_false]

lemma follows_iff_getElem? {insns : List DisassembledInsn} {i j : DisassembledInsn} :
    Follows insns i j ↔ ∃ k, insns[k]? = some i ∧ insns[k + 1]? = some j := by
  induction insns with
  | nil => simp
  | cons a l ih =>
    rw [follows_cons, ih]
    constructor
    · rintro (⟨rfl, hj⟩ | ⟨k, hk⟩)
      · exact ⟨0, rfl, by simpa [List.head?_eq_getElem?] using hj⟩
      · exact ⟨k + 1, by simpa using hk⟩
    · rintro ⟨k, hi, hj⟩
      cases k with
      | zero => exact .inl ⟨by simpa using hi, by simpa [List.head?_eq_getElem?] using hj⟩
      | succ k => exact .inr ⟨k, by simpa using hi, by simpa using hj⟩

lemma mem_leaders {first : DisassembledInsn} {insns : List DisassembledInsn} {a : U64} :
    a ∈ leaders first insns ↔ a = first.address ∨ ∃ p ∈ insns.zipIdx, Adds insns p a := by
  refine (foldl_iff (a ∈ ·) (Adds insns · a) (fun s p => mem_leaderStep) insns.zipIdx _).trans ?_
  rw [mem_insert_iff]
  simp

lemma Increasing.nodup {insns : List DisassembledInsn} (h : Increasing insns) : insns.Nodup := by
  refine h.imp ?_
  rintro i _ hij rfl
  exact ne_of_lt hij rfl

lemma Increasing.eq_of_address {insns : List DisassembledInsn} (h : Increasing insns)
    {i j : DisassembledInsn} (hi : i ∈ insns) (hj : j ∈ insns) (ha : i.address = j.address) :
    i = j := by
  have hnd : (insns.map DisassembledInsn.address).Nodup := List.pairwise_map.mpr (h.imp ne_of_lt)
  exact List.inj_on_of_nodup_map hnd hi hj ha

lemma mem_leaders_iff {first : DisassembledInsn} {insns : List DisassembledInsn}
    (hfirst : insns.head? = some first) {a : U64} :
    a ∈ leaders first insns ↔ ∃ i ∈ insns, IsLeader insns i ∧ i.address = a := by
  have hf : first ∈ insns := List.mem_of_mem_head? hfirst
  rw [mem_leaders]
  constructor
  · rintro (rfl | ⟨⟨prev, k⟩, hp, ⟨he, next, hnext, rfl⟩ | ⟨hj, ht, i, hi, rfl⟩⟩)
    · exact ⟨first, hf, .inl hfirst, rfl⟩
    · have hprev := List.mem_zipIdx_iff_getElem?.mp hp
      exact ⟨next, List.mem_of_getElem? hnext,
        .inr (.inl ⟨prev, follows_iff_getElem?.mpr ⟨k, hprev, hnext⟩, he⟩), rfl⟩
    · have hprev := List.mem_of_getElem? (List.mem_zipIdx_iff_getElem?.mp hp)
      exact ⟨i, hi, .inr (.inr ⟨prev, hprev, hj, ht⟩), rfl⟩
  · rintro ⟨i, hi, h0 | ⟨prev, hfol, he⟩ | ⟨s, hs, hj, ht⟩, rfl⟩
    · rw [hfirst, Option.some.injEq] at h0
      exact .inl (by rw [h0])
    · obtain ⟨k, hprev, hnext⟩ := follows_iff_getElem?.mp hfol
      exact .inr ⟨(prev, k), List.mem_zipIdx_iff_getElem?.mpr hprev, .inl ⟨he, i, hnext, rfl⟩⟩
    · obtain ⟨k, hk⟩ := List.getElem?_of_mem hs
      exact .inr ⟨(s, k), List.mem_zipIdx_iff_getElem?.mpr hk, .inr ⟨hj, ht, i, hi, rfl⟩⟩

instance (insns : List DisassembledInsn) (i : DisassembledInsn) : Decidable (IsLeader insns i) :=
  decidable_of_iff
    (insns.head? = some i ∨ (∃ prev ∈ insns, [prev, i] <:+: insns ∧ EndsBlock prev.mnemonic) ∨
      ∃ s ∈ insns, IsJump s.mnemonic ∧ parseHexTarget s.opStr = some i.address) <| by
    refine or_congr_right (or_congr_left ⟨?_, ?_⟩)
    · rintro ⟨prev, _, hfol, he⟩
      exact ⟨prev, hfol, he⟩
    · rintro ⟨prev, hfol, he⟩
      exact ⟨prev, hfol.subset (by simp), hfol, he⟩

def lead (insns : List DisassembledInsn) (i : DisassembledInsn) : Bool := decide (IsLeader insns i)

lemma leaders_toList {first : DisassembledInsn} {insns : List DisassembledInsn}
    (hfirst : insns.head? = some first) (hinc : Increasing insns) :
    (leaders first insns).toList = (insns.filter (lead insns)).map DisassembledInsn.address := by
  refine eq_of_pairwise_of_mem_iff (fun a b => BitVec.lt_asymm)
    (TreeSet.ordered_toList.imp compare_lt_iff.mp) ?_ ?_
  · exact List.pairwise_map.mpr (hinc.filter _)
  · intro a
    rw [TreeSet.mem_toList, mem_leaders_iff hfirst]
    simp [lead, and_assoc]

end Dexe.Cfg
