import Dexe.Collections.Runs
import Mathlib.Data.List.Nodup
import Mathlib.Logic.Relation

/-! A list that is cut into blocks: steps from element to element against paths from block to
block. -/

namespace Dexe.Collections

variable {α : Type*} (blocks : List (List α)) (E : ℕ → ℕ → Prop)

/-- A step goes on in a block, or along an edge from the last element of a block to the first one
of another. -/
inductive BlockStep : α → α → Prop
  | inside {g : List α} {x y : α} (hg : g ∈ blocks) (h : Follows g x y) : BlockStep x y
  | edge {k k' : ℕ} {g g' : List α} {x y : α} (hk : blocks[k]? = some g)
      (hk' : blocks[k']? = some g') (hx : g.getLast? = some x) (hy : g'.head? = some y)
      (h : E k k') : BlockStep x y

def unrolled (ks : List ℕ) : List α := ks.flatMap fun k => blocks[k]?.getD []

structure IsPath (ks : List ℕ) : Prop where
  chain : List.IsChain E ks
  inside : ∀ k ∈ ks, k < blocks.length

variable {blocks E} {k k' : ℕ} {g g' s s' : List α} {x y : α}

lemma unrolled_cons (hk : blocks[k]? = some g) (ks : List ℕ) :
    unrolled blocks (k :: ks) = g ++ unrolled blocks ks := by
  rw [unrolled, List.flatMap_cons, hk, Option.getD_some]
  rfl

lemma suffix_unique (hnd : g.Nodup) (h : x :: s <:+ g) (h' : x :: s' <:+ g) : s = s' := by
  have hsame : ∀ t t' : List α, (x :: t').Nodup → x :: t <:+ x :: t' → t = t' := by
    intro t t' ht hsub
    rcases List.suffix_cons_iff.mp hsub with heq | hsub
    · exact (List.cons.inj heq).2
    · exact absurd (hsub.subset List.mem_cons_self) (List.nodup_cons.mp ht).1
  rcases List.suffix_or_suffix_of_suffix h h' with hsub | hsub
  · exact hsame s s' (h'.sublist.nodup hnd) hsub
  · exact (hsame s' s (h.sublist.nodup hnd) hsub).symm

lemma suffix_of_follows (h : Follows g x y) : ∃ s, x :: y :: s <:+ g := by
  obtain ⟨p, s, rfl⟩ := h
  exact ⟨s, p, by simp⟩

lemma getLast?_of_suffix (h : x :: s <:+ g) : g.getLast? = (x :: s).getLast? := by
  obtain ⟨p, rfl⟩ := h
  rw [List.getLast?_append_of_ne_nil p (List.cons_ne_nil x s)]

section Cut

variable (hnd : blocks.flatten.Nodup)

include hnd

lemma nodup_block (hk : blocks[k]? = some g) : g.Nodup :=
  (List.nodup_flatten.mp hnd).1 g (List.mem_of_getElem? hk)

lemma same_block (hk : blocks[k]? = some g) (hk' : blocks[k']? = some g') (hx : x ∈ g)
    (hx' : x ∈ g') : k = k' := by
  obtain ⟨hlt, rfl⟩ := List.getElem?_eq_some_iff.mp hk
  obtain ⟨hlt', rfl⟩ := List.getElem?_eq_some_iff.mp hk'
  have hdisj := List.pairwise_iff_getElem.mp (List.nodup_flatten.mp hnd).2
  rcases lt_trichotomy k k' with h | h | h
  · exact absurd hx' (hdisj k k' hlt hlt' h hx)
  · exact h
  · exact absurd hx (hdisj k' k hlt' hlt h hx')

lemma eq_block (hk : blocks[k]? = some g) (hg' : g' ∈ blocks) (hx : x ∈ g) (hx' : x ∈ g') :
    g = g' := by
  obtain ⟨k', hk'⟩ := List.getElem?_of_mem hg'
  obtain rfl := same_block hnd hk hk' hx hx'
  exact Option.some.inj (hk.symm.trans hk')

lemma blockStep_cases (hk : blocks[k]? = some g) (hs : x :: s <:+ g) (h : BlockStep blocks E x y) :
    (∃ s', s = y :: s') ∨
      (s = [] ∧ ∃ k' s', blocks[k']? = some (y :: s') ∧ E k k') := by
  have hx : x ∈ g := hs.subset List.mem_cons_self
  have hg := nodup_block hnd hk
  cases h with
  | inside hg' h =>
    obtain ⟨s', hs'⟩ := suffix_of_follows h
    obtain rfl := eq_block hnd hk hg' hx (hs'.subset List.mem_cons_self)
    exact .inl ⟨s', suffix_unique hg hs hs'⟩
  | @edge k₁ k₂ g₁ g₂ _ _ hk₁ hk₂ hlast hhead he =>
    have hx₁ : x ∈ g₁ := List.mem_of_getLast? hlast
    obtain rfl := same_block hnd hk hk₁ hx hx₁
    obtain rfl := Option.some.inj (hk.symm.trans hk₁)
    have hnil : x :: [] <:+ g := by
      obtain ⟨p, rfl⟩ := List.getLast?_eq_some_iff.mp hlast
      exact List.suffix_append p [x]
    obtain ⟨s', rfl⟩ := List.head?_eq_some_iff.mp hhead
    exact .inr ⟨suffix_unique hg hs hnil, k₂, s', hk₂, he⟩

lemma path_of_chain {xs : List α} (hk : blocks[k]? = some g) (hs : x :: s <:+ g)
    (hchain : List.IsChain (BlockStep blocks E) (x :: xs))
    (hend : ∃ g' ∈ blocks, g'.getLast? = (x :: xs).getLast?) :
    ∃ ks, IsPath blocks E (k :: ks) ∧ xs = s ++ unrolled blocks ks := by
  induction xs generalizing k g x s with
  | nil =>
    obtain ⟨g', hg', hlast⟩ := hend
    have hx' : x ∈ g' := List.mem_of_getLast? hlast
    obtain rfl := eq_block hnd hk hg' (hs.subset List.mem_cons_self) hx'
    obtain ⟨p, rfl⟩ := List.getLast?_eq_some_iff.mp hlast
    have hnil := suffix_unique (nodup_block hnd hk) hs (List.suffix_append p [x])
    subst hnil
    obtain ⟨hlt, -⟩ := List.getElem?_eq_some_iff.mp hk
    exact ⟨[], ⟨.singleton k, by simpa using hlt⟩, rfl⟩
  | cons y ys ih =>
    rw [List.isChain_cons_cons] at hchain
    obtain ⟨hlt, -⟩ := List.getElem?_eq_some_iff.mp hk
    have hend' : ∃ g' ∈ blocks, g'.getLast? = (y :: ys).getLast? := by
      simpa only [List.getLast?_cons_cons] using hend
    -- the path grows only where the run leaves the block, behind its last element
    rcases blockStep_cases hnd hk hs hchain.1 with ⟨s', rfl⟩ | ⟨rfl, k', s', hk', he⟩
    · obtain ⟨ks, hpath, rfl⟩ := ih hk ((List.suffix_cons x _).trans hs) hchain.2 hend'
      exact ⟨ks, hpath, rfl⟩
    · obtain ⟨ks, hpath, rfl⟩ := ih hk' List.suffix_rfl hchain.2 hend'
      refine ⟨k' :: ks, ⟨.cons_cons he hpath.chain, ?_⟩, ?_⟩
      · intro j hj
        rcases List.mem_cons.mp hj with rfl | hj
        · exact hlt
        · exact hpath.inside j hj
      · rw [unrolled_cons hk']
        rfl

end Cut

lemma chain_of_mem (hg : g ∈ blocks) : List.IsChain (BlockStep blocks E) g := by
  have hinside : ∀ s, s <:+ g → List.IsChain (BlockStep blocks E) s := by
    intro s hs
    induction s with
    | nil => exact .nil
    | cons x s ih =>
      cases s with
      | nil => exact .singleton x
      | cons y s =>
        have hfollows : Follows g x y := by
          obtain ⟨p, rfl⟩ := hs
          exact ⟨p, s, by simp⟩
        exact .cons_cons (.inside hg hfollows) (ih ((List.suffix_cons x _).trans hs))
  exact hinside g List.suffix_rfl

lemma chain_of_path (hne : [] ∉ blocks) {ks : List ℕ} (hk : blocks[k]? = some g)
    (h : IsPath blocks E (k :: ks)) :
    List.IsChain (BlockStep blocks E) (unrolled blocks (k :: ks)) ∧
      ∃ g' ∈ blocks, g'.getLast? = (unrolled blocks (k :: ks)).getLast? := by
  induction ks generalizing k g with
  | nil =>
    have hg := List.mem_of_getElem? hk
    rw [unrolled_cons hk]
    simp only [unrolled, List.flatMap_nil, List.append_nil]
    exact ⟨chain_of_mem hg, g, hg, rfl⟩
  | cons k' ks ih =>
    have hlt : k' < blocks.length := h.inside k' (by simp)
    have hk' : blocks[k']? = some blocks[k'] := List.getElem?_eq_getElem hlt
    have hchain := List.isChain_cons_cons.mp h.chain
    obtain ⟨hrest, hend⟩ := ih hk' ⟨hchain.2, fun j hj => h.inside j (List.mem_cons_of_mem _ hj)⟩
    have hg := List.mem_of_getElem? hk
    obtain ⟨y, s', hs'⟩ := List.exists_cons_of_ne_nil fun hnil =>
      hne (hnil ▸ List.mem_of_getElem? hk' : ([] : List α) ∈ blocks)
    have hunrolled : unrolled blocks (k' :: ks) = y :: (s' ++ unrolled blocks ks) := by
      rw [unrolled_cons hk', hs']
      rfl
    rw [unrolled_cons hk, List.getLast?_append_of_ne_nil _ (by rw [hunrolled]; simp)]
    refine ⟨?_, hend⟩
    rw [List.isChain_append]
    refine ⟨chain_of_mem hg, hrest, ?_⟩
    intro a ha b hb
    rw [hunrolled] at hb
    obtain rfl : y = b := by simpa using hb
    exact .edge hk hk' ha (by rw [hs']; rfl) hchain.1

lemma mem_of_blockStep (h : BlockStep blocks E x y) : ∃ g ∈ blocks, y ∈ g := by
  cases h with
  | inside hg h =>
    obtain ⟨s, hs⟩ := suffix_of_follows h
    exact ⟨_, hg, hs.subset (by simp)⟩
  | edge hk hk' hx hy h => exact ⟨_, List.mem_of_getElem? hk', List.mem_of_mem_head? hy⟩

lemma mem_of_chain {xs : List α} (h : List.IsChain (BlockStep blocks E) (x :: xs)) :
    ∀ y ∈ xs, ∃ g ∈ blocks, y ∈ g := by
  induction xs generalizing x with
  | nil => simp
  | cons y xs ih =>
    rw [List.isChain_cons_cons] at h
    intro z hz
    rcases List.mem_cons.mp hz with rfl | hz
    · exact mem_of_blockStep h.1
    · exact ih h.2 z hz

lemma exists_completion {xs : List α} (hx : ∃ g ∈ blocks, x ∈ g)
    (hchain : List.IsChain (BlockStep blocks E) (x :: xs)) :
    ∃ ys, List.IsChain (BlockStep blocks E) (x :: (xs ++ ys)) ∧
      ∃ g ∈ blocks, g.getLast? = (x :: (xs ++ ys)).getLast? := by
  induction xs generalizing x with
  | nil =>
    obtain ⟨g, hg, hx⟩ := hx
    obtain ⟨p, s, rfl⟩ := List.append_of_mem hx
    have hs : x :: s <:+ p ++ x :: s := List.suffix_append p _
    refine ⟨s, ?_, _, hg, getLast?_of_suffix hs⟩
    exact (chain_of_mem hg).suffix hs
  | cons y xs ih =>
    rw [List.isChain_cons_cons] at hchain
    obtain ⟨ys, hrest, hend⟩ := ih (mem_of_blockStep hchain.1) hchain.2
    refine ⟨ys, .cons_cons hchain.1 hrest, ?_⟩
    simpa only [List.cons_append, List.getLast?_cons_cons] using hend

/-- The runs from the start of a block are the beginnings of the paths from that block. -/
theorem chain_iff_path (hnd : blocks.flatten.Nodup) (hne : [] ∉ blocks)
    (hk : blocks[k]? = some (x :: s)) (xs : List α) :
    List.IsChain (BlockStep blocks E) (x :: xs) ↔
      ∃ ks, IsPath blocks E (k :: ks) ∧ x :: xs <+: unrolled blocks (k :: ks) := by
  constructor
  · intro hchain
    have hx : ∃ g ∈ blocks, x ∈ g := ⟨_, List.mem_of_getElem? hk, List.mem_cons_self⟩
    obtain ⟨ys, hfull, hend⟩ := exists_completion hx hchain
    obtain ⟨ks, hpath, heq⟩ := path_of_chain hnd hk List.suffix_rfl hfull hend
    refine ⟨ks, hpath, ?_⟩
    rw [unrolled_cons hk, List.cons_append, ← heq]
    exact List.prefix_append (x :: xs) ys
  · rintro ⟨ks, hpath, t, ht⟩
    have hall := (chain_of_path hne hk hpath).1
    rw [← ht] at hall
    exact (List.isChain_append.mp hall).1

end Dexe.Collections
