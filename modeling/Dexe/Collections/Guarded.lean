import Mathlib.Data.List.Basic
import Mathlib.Tactic

/-! Computations that stop, beside ones that do not look whether they should. -/

namespace Dexe.Collections

variable {α β σ : Type*}

/-- Where `p` holds the computation `x` gives what `y` gives, and elsewhere it stops. -/
structure Guarded (p : Prop) (x y : Option α) : Prop where
  eq : p → x = y
  isSome : p → y.isSome
  eq_none : ¬ p → x = none

namespace Guarded

variable {p q : Prop} {x y : Option α} {a : α} {f g : α → Option β}

lemma isSome_iff (h : Guarded p x y) : x.isSome ↔ p := by
  by_cases hp : p
  · simp [hp, h.eq hp, h.isSome hp]
  · simp [hp, h.eq_none hp]

lemma agrees (h : Guarded p x y) (hx : x = some a) : y = some a := by
  have hp : p := h.isSome_iff.mp (by simp [hx])
  rw [← h.eq hp, hx]

protected lemma pure (a : α) : Guarded True (some a) (some a) :=
  ⟨fun _ => rfl, fun _ => rfl, by simp⟩

lemma congr (h : Guarded p x y) (hpq : p ↔ q) : Guarded q x y := by rwa [← hpq]

lemma of_isSome (h : x.isSome ↔ p) : Guarded p x x :=
  ⟨fun _ => rfl, h.mpr, fun hp => by simpa using mt h.mp hp⟩

lemma of_eq (h : Guarded p x y) {x' : Option α} (hx : x' = x) : Guarded p x' y := by rwa [hx]

lemma bind (hx : Guarded p x y) (hf : p → ∀ a, y = some a → Guarded q (f a) (g a)) :
    Guarded (p ∧ q) (x.bind f) (y.bind g) := by
  by_cases hp : p
  · obtain ⟨a, ha⟩ := Option.isSome_iff_exists.mp (hx.isSome hp)
    rw [hx.eq hp, ha]
    simpa [hp] using hf hp a ha
  · refine ⟨fun h => absurd h.1 hp, fun h => absurd h.1 hp, fun _ => ?_⟩
    rw [hx.eq_none hp, Option.bind_none]

lemma bind_some {z : Option β} (hx : Guarded p x (some a)) (hf : Guarded q (f a) z) :
    Guarded (p ∧ q) (x.bind f) z := by
  have := hx.bind (f := f) (g := fun _ => z) (q := q) fun _ b hb => by rwa [← Option.some.inj hb]
  simpa using this

lemma map (hx : Guarded p x y) (f : α → β) : Guarded p (x.map f) (y.map f) := by
  refine ⟨fun hp => by rw [hx.eq hp], fun hp => ?_, fun hp => ?_⟩
  · rw [Option.isSome_map, hx.isSome hp]
  · rw [hx.eq_none hp, Option.map_none]

end Guarded

lemma guarded_foldlM {p : β → Prop} {f : σ → β → Option σ} {g : σ → β → σ} {l : List β}
    (h : ∀ s, ∀ b ∈ l, Guarded (p b) (f s b) (some (g s b))) (s : σ) :
    Guarded (∀ b ∈ l, p b) (l.foldlM f s) (some (l.foldl g s)) := by
  induction l generalizing s with
  | nil => exact (Guarded.pure s).congr (by simp)
  | cons b l ih =>
    rw [List.foldlM_cons, List.foldl_cons]
    have hrest := ih (fun s b hb => h s b (List.mem_cons_of_mem _ hb)) (g s b)
    exact ((h s b List.mem_cons_self).bind_some hrest).congr List.forall_mem_cons.symm

lemma guarded_mapM {p : α → Prop} {f g : α → Option β} {l : List α}
    (h : ∀ a ∈ l, Guarded (p a) (f a) (g a)) : Guarded (∀ a ∈ l, p a) (l.mapM f) (l.mapM g) := by
  induction l with
  | nil => exact (Guarded.pure []).congr (by simp)
  | cons a l ih =>
    rw [List.mapM_cons, List.mapM_cons]
    have hrest := ih fun a ha => h a (List.mem_cons_of_mem _ ha)
    refine Guarded.congr ?_ List.forall_mem_cons.symm
    refine (h a List.mem_cons_self).bind fun _ b _ => ?_
    have hcons := hrest.map (b :: ·)
    rw [Option.map_eq_bind, Option.map_eq_bind] at hcons
    exact hcons

lemma foldlM_eq_some {f : σ → β → Option σ} {g : σ → β → σ} {l : List β} (P : σ → Prop)
    (h : ∀ s, P s → ∀ b ∈ l, f s b = some (g s b) ∧ P (g s b)) {s : σ} (hs : P s) :
    l.foldlM f s = some (l.foldl g s) := by
  induction l generalizing s with
  | nil => rfl
  | cons b l ih =>
    obtain ⟨hf, hP⟩ := h s hs b List.mem_cons_self
    rw [List.foldlM_cons, hf]
    exact ih (fun s hs b hb => h s hs b (List.mem_cons_of_mem _ hb)) hP

end Dexe.Collections
