import Mathlib.Tactic

/-! Deterministic machines that may finish with a result, and simulations between two of them that
hold as long as a condition on the first one does. -/

namespace Dexe.Trace

variable {σ τ ρ π : Type*}

inductive Next (σ ρ : Type*)
  | on (s : σ)
  | done (r : ρ)
  | stuck

inductive Travels (next : σ → Next σ ρ) : ℕ → σ → σ → Prop
  | refl (s : σ) : Travels next 0 s s
  | step {n : ℕ} {s s' t : σ} (h : next s = .on s') (ht : Travels next n s' t) :
      Travels next (n + 1) s t

def Finishes (next : σ → Next σ ρ) (s : σ) (r : ρ) : Prop :=
  ∃ n s', Travels next n s s' ∧ next s' = .done r

def Always (next : σ → Next σ ρ) (P : σ → Prop) (s : σ) : Prop :=
  ∀ n s', Travels next n s s' → P s'

section Runs

variable {next : σ → Next σ ρ} {s s' t u : σ} {m n : ℕ} {r : ρ} {P : σ → Prop}

lemma Travels.single (h : next s = .on s') : Travels next 1 s s' := .step h (.refl s')

lemma Travels.trans (h : Travels next m s t) (h' : Travels next n t u) :
    Travels next (n + m) s u := by
  induction h with
  | refl => exact h'
  | step h _ ih => exact .step h (ih h')

lemma Travels.rest (h : Travels next m s t) (h' : Travels next (n + m) s u) :
    Travels next n t u := by
  induction h with
  | refl => exact h'
  | step h _ ih =>
    cases h' with
    | step h₁ hu =>
      obtain rfl : _ = _ := by simpa [h] using h₁
      exact ih hu

lemma Travels.before (h : Travels next m s t) (h' : Travels next n s u) (hmn : n < m) :
    ∃ u', next u = .on u' := by
  obtain ⟨k, rfl⟩ : ∃ k, m = (k + 1) + n := ⟨m - n - 1, by omega⟩
  cases h'.rest h with
  | step h _ => exact ⟨_, h⟩

lemma Finishes.step (h : next s = .on s') (hf : Finishes next s' r) : Finishes next s r := by
  obtain ⟨n, t, ht, hr⟩ := hf
  exact ⟨n + 1, t, .step h ht, hr⟩

lemma Finishes.of_travels (h : Travels next n s t) (hf : Finishes next t r) :
    Finishes next s r := by
  induction h with
  | refl => exact hf
  | step h _ ih => exact .step h (ih hf)

lemma Always.here (h : Always next P s) : P s := h 0 s (.refl s)

lemma Always.after (h : Always next P s) (hs : next s = .on s') : Always next P s' :=
  fun n t ht => h (n + 1) t (.step hs ht)

lemma Always.of_invariant {I : σ → Prop} (hstep : ∀ s s', I s → next s = .on s' → I s')
    (hP : ∀ s, I s → P s) (h : I s) : Always next P s := by
  intro n t ht
  induction ht with
  | refl => exact hP _ h
  | step hs _ ih => exact ih (hstep _ _ h hs)

lemma Travels.of_done (hs : next s = .done r) (h : Travels next n s t) : n = 0 ∧ t = s := by
  cases h with
  | refl => exact ⟨rfl, rfl⟩
  | step h _ => simp [hs] at h

end Runs

/-- What the second machine does when the first makes a step: it comes to a related state, or
finishes with a related result. It may stand still only where a rank goes down. -/
inductive Answers (next' : τ → Next τ π) (R : σ → τ → Prop) (Q : ρ → π → Prop) (rank : σ → ℕ)
    (s : σ) (t : τ) : Next σ ρ → Prop
  | on {s' : σ} {t' : τ} {n : ℕ} (ht : Travels next' n t t') (h : R s' t')
      (hn : n = 0 → rank s' < rank s) : Answers next' R Q rank s t (.on s')
  | done {r : ρ} {r' : π} {t' : τ} {n : ℕ} (ht : Travels next' n t t') (hr : next' t' = .done r')
      (h : Q r r') : Answers next' R Q rank s t (.done r)

def Simulates (next : σ → Next σ ρ) (next' : τ → Next τ π) (P : σ → Prop) (R : σ → τ → Prop)
    (Q : ρ → π → Prop) (rank : σ → ℕ) : Prop :=
  ∀ s t, R s t → P s → Answers next' R Q rank s t (next s)

namespace Simulates

variable {next : σ → Next σ ρ} {next' : τ → Next τ π} {P : σ → Prop} {R : σ → τ → Prop}
  {Q : ρ → π → Prop} {rank : σ → ℕ} (hsim : Simulates next next' P R Q rank) {s : σ} {t : τ}

include hsim

theorem finishes (hst : R s t) (hP : Always next P s) {r : ρ} (hf : Finishes next s r) :
    ∃ r', Finishes next' t r' ∧ Q r r' := by
  obtain ⟨n, s', hs, hr⟩ := hf
  induction hs generalizing t with
  | refl s =>
    have hans := hsim s t hst hP.here
    rw [hr] at hans
    cases hans with
    | done ht hr' h => exact ⟨_, ⟨_, _, ht, hr'⟩, h⟩
  | @step _ s s₁ _ h _ ih =>
    have hans := hsim s t hst hP.here
    rw [h] at hans
    cases hans with
    | on ht hR =>
      obtain ⟨r', hf, hQ⟩ := ih hR (hP.after h) hr
      exact ⟨r', hf.of_travels ht, hQ⟩

theorem finishes_of_finishes (hst : R s t) (hP : Always next P s) {r' : π}
    (hf : Finishes next' t r') : ∃ r, Finishes next s r ∧ Q r r' := by
  obtain ⟨n, u, hu, hr⟩ := hf
  -- on the steps that the second machine has left, and on the rank where an answer takes none
  induction n using Nat.strong_induction_on generalizing s t with
  | _ n ihn =>
    induction hk : rank s using Nat.strong_induction_on generalizing s t with
    | _ k ihk =>
      have hans := hsim s t hst hP.here
      generalize hs : next s = x at hans
      cases hans with
      | @on s' t' m ht hR hm =>
        have hle : m ≤ n := by
          by_contra hlt
          obtain ⟨_, h⟩ := ht.before hu (by omega)
          simp [hr] at h
        obtain ⟨j, rfl⟩ := Nat.exists_eq_add_of_le' hle
        have hrest := ht.rest hu
        obtain ⟨r, hf, hQ⟩ : ∃ r, Finishes next s' r ∧ Q r r' := by
          rcases Nat.eq_zero_or_pos m with rfl | hpos
          · exact ihk (rank s') (hk ▸ hm rfl) hR (hP.after hs) hrest rfl
          · exact ihn j (by omega) hR (hP.after hs) hrest
        exact ⟨r, hf.step hs, hQ⟩
      | @done r r₁ t' m ht hr₁ hQ =>
        have hmn : m ≤ n := by
          by_contra hlt
          obtain ⟨_, h⟩ := ht.before hu (by omega)
          simp [hr] at h
        obtain ⟨j, rfl⟩ := Nat.exists_eq_add_of_le' hmn
        obtain ⟨-, rfl⟩ := (ht.rest hu).of_done hr₁
        obtain rfl : r₁ = r' := by simpa [hr₁] using hr
        exact ⟨r, ⟨0, s, .refl s, hs⟩, hQ⟩

theorem never_stuck (hst : R s t) (hP : Always next P s) :
    Always next' (fun u => next' u ≠ .stuck) t := by
  intro n u hu hstuck
  induction n using Nat.strong_induction_on generalizing s t with
  | _ n ihn =>
    induction hk : rank s using Nat.strong_induction_on generalizing s t with
    | _ k ihk =>
      have hans := hsim s t hst hP.here
      generalize hs : next s = x at hans
      have hle : ∀ {m : ℕ} {t' : τ}, Travels next' m t t' → m ≤ n := by
        intro m t' ht
        by_contra hlt
        obtain ⟨_, h⟩ := ht.before hu (by omega)
        simp [hstuck] at h
      cases hans with
      | @on s' t' m ht hR hm =>
        obtain ⟨j, rfl⟩ := Nat.exists_eq_add_of_le' (hle ht)
        have hrest := ht.rest hu
        rcases Nat.eq_zero_or_pos m with rfl | hpos
        · exact ihk (rank s') (hk ▸ hm rfl) hR (hP.after hs) hrest rfl
        · exact ihn j (by omega) hR (hP.after hs) hrest
      | @done r r₁ t' m ht hr₁ _ =>
        obtain ⟨j, rfl⟩ := Nat.exists_eq_add_of_le' (hle ht)
        obtain ⟨-, rfl⟩ := (ht.rest hu).of_done hr₁
        simp [hr₁] at hstuck

end Simulates

end Dexe.Trace
