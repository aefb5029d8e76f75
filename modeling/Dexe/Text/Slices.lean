import Dexe.Text.Basic
import Mathlib.Tactic

/-! Cutting a text at a byte. -/

namespace Dexe.Text

/-- `&s[n..]`, which panics unless a character starts at byte `n` or the text ends there. -/
def sliceFrom : Text → ℕ → Option Text
  | s, 0 => some s
  | [], _ + 1 => none
  | c :: s, n + 1 => if c.utf8Size ≤ n + 1 then sliceFrom s (n + 1 - c.utf8Size) else none

def IsAscii (s : Text) : Prop := ∀ c ∈ s, c.toNat < 128

instance (s : Text) : Decidable (IsAscii s) := inferInstanceAs (Decidable (∀ c ∈ s, _))

variable {p s : Text} {c : Char}

lemma utf8Size_of_ascii (hc : c.toNat < 128) : c.utf8Size = 1 := by
  have hle : c.val ≤ 0x7f := by
    rw [UInt32.le_iff_toNat_le]
    exact Nat.lt_succ_iff.mp hc
  rw [Char.utf8Size]
  exact if_pos hle

lemma sliceFrom_append (hp : IsAscii p) (s : Text) : sliceFrom (p ++ s) p.length = some s := by
  induction p with
  | nil => cases s <;> rfl
  | cons c p ih =>
    have hsize := utf8Size_of_ascii (hp c List.mem_cons_self)
    rw [List.cons_append, List.length_cons, sliceFrom, hsize, if_pos (by omega),
      Nat.add_sub_cancel]
    exact ih fun a ha => hp a (List.mem_cons_of_mem _ ha)

lemma sliceFrom_of_startsWith (hp : IsAscii p) (h : s.startsWith p = true) :
    sliceFrom s p.length = some (s.drop p.length) := by
  obtain ⟨t, rfl⟩ := List.isPrefixOf_iff_prefix.mp h
  rw [sliceFrom_append hp, List.drop_left]

lemma lowerChar_head {a : Char} {u v : Text} (h : lowerChar a ++ u = c :: v) (hc : c.toNat < 128)
    (hk : c ≠ 'k') (hi : c ≠ 'i') : a.toNat < 128 ∧ lowerChar a = [c] ∧ u = v := by
  rw [lowerChar] at h ⊢
  split_ifs at h ⊢ with h1 h2
  · exact absurd (List.cons.inj h).1.symm hk
  · exact absurd (List.cons.inj h).1.symm hi
  · obtain ⟨hlower, hu⟩ := List.cons.inj h
    refine ⟨?_, by rw [hlower], hu⟩
    rw [← hlower] at hc
    by_cases hA : a.val ≥ 'A'.val ∧ a.val ≤ 'Z'.val
    · have : a.toNat ≤ 90 := hA.2
      omega
    · have hkept : a.toLower = a := dif_neg hA
      rwa [hkept] at hc

lemma prefix_of_toLowercase (hp : IsAscii p) (hk : 'k' ∉ p) (hi : 'i' ∉ p)
    (h : p <+: toLowercase s) : ∃ u v, s = u ++ v ∧ IsAscii u ∧ toLowercase u = p ∧
      u.length = p.length := by
  induction p generalizing s with
  | nil => exact ⟨[], s, rfl, by simp [IsAscii], rfl, rfl⟩
  | cons c p ih =>
    cases s with
    | nil => simp [toLowercase] at h
    | cons a s =>
      obtain ⟨t, ht⟩ := h
      have hsplit : lowerChar a ++ toLowercase s = c :: (p ++ t) := by
        rw [← List.cons_append, ht]
        rfl
      have hck : c ≠ 'k' := fun hck => hk (by simp [hck])
      have hci : c ≠ 'i' := fun hci => hi (by simp [hci])
      obtain ⟨ha, hlower, hs⟩ := lowerChar_head hsplit (hp c List.mem_cons_self) hck hci
      obtain ⟨u, v, rfl, hu, hup, hlen⟩ := ih (s := s)
        (fun a ha => hp a (List.mem_cons_of_mem _ ha))
        (fun hmem => hk (List.mem_cons_of_mem _ hmem))
        (fun hmem => hi (List.mem_cons_of_mem _ hmem)) ⟨t, hs.symm⟩
      have hcons : toLowercase (a :: u) = lowerChar a ++ toLowercase u := rfl
      exact ⟨a :: u, v, rfl, List.forall_mem_cons.mpr ⟨ha, hu⟩, by rw [hcons, hlower, hup]; rfl,
        by simp [hlen]⟩

lemma sliceFrom_of_toLowercase (hp : IsAscii p) (hk : 'k' ∉ p) (hi : 'i' ∉ p)
    (h : (toLowercase s).startsWith p = true) :
    sliceFrom s p.length = some (s.drop p.length) := by
  obtain ⟨u, v, rfl, hu, -, hlen⟩ :=
    prefix_of_toLowercase hp hk hi (List.isPrefixOf_iff_prefix.mp h)
  rw [← hlen, sliceFrom_append hu, List.drop_left]

end Dexe.Text
