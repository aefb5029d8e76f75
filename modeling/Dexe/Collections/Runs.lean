import Mathlib.Data.List.SplitBy
import Mathlib.Tactic

/-! Lists cut into runs, and neighbours in a list. -/

namespace Dexe.Collections

variable {α : Type*}

def runs (p : α → Bool) (l : List α) : List (List α) := l.splitBy fun _ b => !p b

variable {p : α → Bool} {l : List α}

lemma flatten_runs (p : α → Bool) (l : List α) : (runs p l).flatten = l := List.flatten_splitBy _ l

lemma ne_nil_of_mem_runs {g : List α} (h : g ∈ runs p l) : g ≠ [] := List.ne_nil_of_mem_splitBy h

lemma runs_singleton (x : α) : runs p [x] = [[x]] := by simp [runs, List.splitBy, List.splitBy.loop]

lemma runs_snoc_of_pos {x : α} (hx : p x = true) : runs p (l ++ [x]) = runs p l ++ [[x]] := by
  rw [runs, List.splitBy_append_cons [] (by simp [hx])]
  exact congrArg _ (runs_singleton x)

lemma runs_snoc_of_neg {gs : List (List α)} {g : List α} {x : α} (hl : runs p l = gs ++ [g])
    (hx : p x = false) : runs p (l ++ [x]) = gs ++ [g ++ [x]] := by
  obtain ⟨hflat, hnil, hchain, hcut⟩ := List.splitBy_eq_iff.mp hl
  have hg : g ≠ [] := by rintro rfl; simp at hnil
  refine List.splitBy_eq_iff.mpr ⟨by simp [hflat], ?_, ?_, ?_⟩
  · simp only [List.mem_append, List.mem_singleton, not_or] at hnil ⊢
    exact ⟨hnil.1, by simp⟩
  · intro m hm
    rcases List.mem_append.mp hm with hm | hm
    · exact hchain m (List.mem_append_left _ hm)
    · rw [List.mem_singleton.mp hm, List.isChain_append]
      refine ⟨hchain g (by simp), by simp, ?_⟩
      rintro a - b hb
      obtain rfl : x = b := by simpa using hb
      simp [hx]
  · rw [List.isChain_append] at hcut ⊢
    refine ⟨hcut.1, by simp, ?_⟩
    rintro a ha b hb
    obtain rfl : g ++ [x] = b := by simpa using hb
    obtain ⟨hne, _, hr⟩ := hcut.2.2 a ha g (by simp)
    exact ⟨hne, by simp, by simpa [List.head_append_of_ne_nil hg] using hr⟩

lemma runs_eq_snoc (p : α → Bool) (hl : l ≠ []) : ∃ gs g, runs p l = gs ++ [g] :=
  ⟨_, _, (List.dropLast_append_getLast (List.splitBy_ne_nil.mpr hl)).symm⟩

lemma heads_runs {x : α} (hx : p x = true) (l : List α) :
    (runs p (x :: l)).filterMap List.head? = (x :: l).filter p := by
  induction l using List.reverseRecOn with
  | nil => simp [runs_singleton, hx]
  | append_singleton l y ih =>
    rw [← List.cons_append]
    obtain ⟨gs, g, hg⟩ := runs_eq_snoc p (List.cons_ne_nil x l)
    by_cases hy : p y = true
    · rw [runs_snoc_of_pos hy, List.filterMap_append, ih, List.filter_append]
      simp [hy]
    · have hne : g ≠ [] := ne_nil_of_mem_runs (p := p) (l := x :: l) (by simp [hg])
      have hhead : (g ++ [y]).head? = g.head? := List.head?_append_of_ne_nil g hne
      rw [runs_snoc_of_neg hg (by simpa using hy), List.filter_append, ← ih, hg]
      simp [hy, List.filterMap_append, List.filterMap_cons, hhead]

lemma length_runs {x : α} (hx : p x = true) (l : List α) :
    (runs p (x :: l)).length = ((x :: l).filter p).length := by
  have hlen : ∀ gs : List (List α), (∀ g ∈ gs, g ≠ []) →
      (gs.filterMap List.head?).length = gs.length := by
    intro gs hgs
    induction gs with
    | nil => rfl
    | cons g gs ih =>
      obtain ⟨y, g, rfl⟩ := List.exists_cons_of_ne_nil (hgs g List.mem_cons_self)
      simp [ih fun g hg => hgs g (List.mem_cons_of_mem _ hg)]
  rw [← heads_runs hx l, hlen _ fun g hg => ne_nil_of_mem_runs hg]

lemma not_of_mem_tail_runs {g : List α} {y : α} (hg : g ∈ runs p l) (hy : y ∈ g.tail) :
    p y = false := by
  obtain ⟨i, hi, rfl⟩ := List.getElem_of_mem hy
  have hlt : i + 1 < g.length := by simp at hi; omega
  have := List.isChain_iff_getElem.mp (List.isChain_of_mem_splitBy hg) i hlt
  simpa using this

lemma filter_append_filter {r : α → α → Prop} {q : α → Bool} (hl : l.Pairwise r)
    (hpq : ∀ x, p x = true → q x = false) (h : ∀ x y, r x y → q x = true → p y = false) :
    l.filter p ++ l.filter q = l.filter fun x => p x || q x := by
  induction l with
  | nil => rfl
  | cons x l ih =>
    obtain ⟨hx, hl⟩ := List.pairwise_cons.mp hl
    have ih := ih hl
    by_cases hp : p x = true
    · simp [hp, hpq x hp, ih]
    · by_cases hq : q x = true
      · have hnone : l.filter p = [] := by
          apply List.filter_eq_nil_iff.mpr
          intro y hy
          rw [h x y (hx y hy) hq]
          exact Bool.false_ne_true
        rw [hnone, List.nil_append] at ih
        simp [hp, hq, hnone, ih]
      · simp [hp, hq, ih]

def Follows (l : List α) (x y : α) : Prop := [x, y] <:+: l

@[simp] lemma not_follows_nil (x y : α) : ¬ Follows [] x y := by simp [Follows]

lemma follows_cons {l : List α} {a x y : α} :
    Follows (a :: l) x y ↔ (a = x ∧ l.head? = some y) ∨ Follows l x y := by
  have hhead : [y] <+: l ↔ l.head? = some y := by
    cases l <;> simp [List.cons_prefix_cons, eq_comm]
  rw [Follows, List.infix_cons_iff, Follows, List.cons_prefix_cons, hhead, eq_comm]

lemma follows_append {l m : List α} {x y : α} :
    Follows (l ++ m) x y ↔
      Follows l x y ∨ (l.getLast? = some x ∧ m.head? = some y) ∨ Follows m x y := by
  induction l with
  | nil => simp
  | cons a l ih =>
    rw [List.cons_append, follows_cons, follows_cons, ih]
    cases l with
    | nil => simp
    | cons b l => simp [or_assoc]

lemma Follows.right_mem_tail {l : List α} {x y : α} (h : Follows l x y) : y ∈ l.tail := by
  induction l with
  | nil => simp at h
  | cons a l ih =>
    rcases follows_cons.mp h with ⟨rfl, hy⟩ | h
    · exact List.mem_of_mem_head? hy
    · exact List.mem_of_mem_tail (ih h)

lemma Follows.ne_head {l : List α} (hl : l.Nodup) {x y : α} (h : Follows l x y) :
    l.head? ≠ some y := by
  cases l with
  | nil => simp
  | cons a l =>
    rintro ⟨⟩
    exact (List.nodup_cons.mp hl).1 h.right_mem_tail

lemma Follows.left_unique {l : List α} (hl : l.Nodup) {x y z : α} (hx : Follows l x z)
    (hy : Follows l y z) : x = y := by
  induction l with
  | nil => simp at hx
  | cons a l ih =>
    have hl' := (List.nodup_cons.mp hl).2
    rcases follows_cons.mp hx with ⟨rfl, hz⟩ | hx <;> rcases follows_cons.mp hy with ⟨rfl, hz'⟩ | hy
    · rfl
    · exact absurd hz (hy.ne_head hl')
    · exact absurd hz' (hx.ne_head hl')
    · exact ih hl' hx hy

lemma last_or_follows {l : List α} {x : α} (h : x ∈ l) :
    l.getLast? = some x ∨ ∃ y, Follows l x y := by
  induction l with
  | nil => simp at h
  | cons a l ih =>
    cases l with
    | nil =>
      obtain rfl := List.mem_singleton.mp h
      exact .inl rfl
    | cons b l =>
      rcases List.mem_cons.mp h with rfl | h
      · exact .inr ⟨b, follows_cons.mpr (.inl ⟨rfl, rfl⟩)⟩
      · rcases ih h with hlast | ⟨y, hy⟩
        · exact .inl (by rw [List.getLast?_cons_cons, hlast])
        · exact .inr ⟨y, follows_cons.mpr (.inr hy)⟩

lemma mem_dropLast_iff {l : List α} {x : α} : x ∈ l.dropLast ↔ ∃ y, Follows l x y := by
  induction l with
  | nil => simp
  | cons a l ih =>
    cases l with
    | nil => simp [follows_cons]
    | cons b l =>
      rw [List.dropLast_cons_cons, List.mem_cons, ih]
      simp only [follows_cons (a := a), List.head?_cons, Option.some.injEq]
      constructor
      · rintro (rfl | ⟨y, hy⟩)
        · exact ⟨b, .inl ⟨rfl, rfl⟩⟩
        · exact ⟨y, .inr hy⟩
      · rintro ⟨y, ⟨rfl, _⟩ | hy⟩
        · exact .inl rfl
        · exact .inr ⟨y, hy⟩

lemma getElem?_heads {gs : List (List α)} (h : ∀ g ∈ gs, g ≠ []) (k : ℕ) :
    (gs.filterMap List.head?)[k]? = gs[k]?.bind List.head? := by
  induction gs generalizing k with
  | nil => simp
  | cons g gs ih =>
    obtain ⟨x, g, rfl⟩ := List.exists_cons_of_ne_nil (h g List.mem_cons_self)
    cases k with
    | zero => simp
    | succ k => simp [ih fun g hg => h g (List.mem_cons_of_mem _ hg)]

lemma follows_flatten {gs : List (List α)} (h : [] ∉ gs) {x y : α} :
    Follows gs.flatten x y ↔ (∃ g ∈ gs, Follows g x y) ∨
      ∃ k g g', gs[k]? = some g ∧ gs[k + 1]? = some g' ∧
        g.getLast? = some x ∧ g'.head? = some y := by
  induction gs with
  | nil => simp
  | cons g gs ih =>
    have hgs : [] ∉ gs := fun hm => h (List.mem_cons_of_mem _ hm)
    have hhead : gs.flatten.head? = some y ↔ ∃ g', gs[0]? = some g' ∧ g'.head? = some y := by
      cases gs with
      | nil => simp
      | cons g' gs =>
        have hne : g' ≠ [] := fun he => hgs (by simp [he])
        simp [List.head?_append_of_ne_nil g' hne]
    rw [List.flatten_cons, follows_append, ih hgs, hhead]
    constructor
    · rintro (hf | ⟨hlast, g', h0, hy⟩ | ⟨g', hm, hf⟩ | ⟨k, g', g'', hk, hk', hx, hy⟩)
      · exact .inl ⟨g, List.mem_cons_self, hf⟩
      · exact .inr ⟨0, g, g', rfl, h0, hlast, hy⟩
      · exact .inl ⟨g', List.mem_cons_of_mem _ hm, hf⟩
      · exact .inr ⟨k + 1, g', g'', hk, hk', hx, hy⟩
    · rintro (⟨g', hm, hf⟩ | ⟨k, g', g'', hk, hk', hx, hy⟩)
      · rcases List.mem_cons.mp hm with rfl | hm
        · exact .inl hf
        · exact .inr (.inr (.inl ⟨g', hm, hf⟩))
      · cases k with
        | zero =>
          obtain rfl : g = g' := by simpa using hk
          exact .inr (.inl ⟨hx, g'', hk', hy⟩)
        | succ k => exact .inr (.inr (.inr ⟨k, g', g'', hk, hk', hx, hy⟩))

end Dexe.Collections
