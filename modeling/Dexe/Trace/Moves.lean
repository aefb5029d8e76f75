import Mathlib.Tactic

/-! Traces of deterministic systems that test conditions whose outcomes come from outside, and
simulations that preserve them. -/

namespace Dexe.Trace

variable {σ τ ε : Type*}

inductive Move (σ ε : Type*)
  | stop (e : Option ε)
  | go (e : Option ε) (next : σ)
  | test (e : Option ε) (yes no : σ)
  | stuck

/-- The system can show the trace, consuming the outcomes; the flag says that it has stopped. -/
inductive Runs (next : σ → Move σ ε) : σ → List Bool → List ε → Bool → Prop
  | here (s : σ) : Runs next s [] [] false
  | stop {s : σ} {e : Option ε} (h : next s = .stop e) : Runs next s [] e.toList true
  | go {s s' : σ} {e : Option ε} {os : List Bool} {tr : List ε} {fin : Bool}
      (h : next s = .go e s') (hr : Runs next s' os tr fin) : Runs next s os (e.toList ++ tr) fin
  | test {s yes no : σ} {e : Option ε} {o : Bool} {os : List Bool} {tr : List ε} {fin : Bool}
      (h : next s = .test e yes no) (hr : Runs next (if o then yes else no) os tr fin) :
      Runs next s (o :: os) (e.toList ++ tr) fin

inductive Reaches (next : σ → Move σ ε) : σ → σ → Prop
  | refl (s : σ) : Reaches next s s
  | go {s s' t : σ} {e : Option ε} (h : next s = .go e s') (hr : Reaches next s' t) :
      Reaches next s t
  | yes {s y n t : σ} {e : Option ε} (h : next s = .test e y n) (hr : Reaches next y t) :
      Reaches next s t
  | no {s y n t : σ} {e : Option ε} (h : next s = .test e y n) (hr : Reaches next n t) :
      Reaches next s t

inductive Silent (next : σ → Move σ ε) : σ → σ → Prop
  | refl (s : σ) : Silent next s s
  | step {s s' t : σ} (h : next s = .go none s') (hr : Silent next s' t) : Silent next s t

inductive Matches (R : σ → τ → Prop) : Move σ ε → Move τ ε → Prop
  | stop (e : Option ε) : Matches R (.stop e) (.stop e)
  | go {s : σ} {t : τ} (e : Option ε) (h : R s t) : Matches R (.go e s) (.go e t)
  | test {y n : σ} {y' n' : τ} (e : Option ε) (hy : R y y') (hn : R n n') :
      Matches R (.test e y n) (.test e y' n')

variable {next : σ → Move σ ε} {next' : τ → Move τ ε} {R : σ → τ → Prop}

lemma Silent.runs {s t : σ} {os : List Bool} {tr : List ε} {fin : Bool} (h : Silent next s t)
    (hr : Runs next t os tr fin) : Runs next s os tr fin := by
  induction h with
  | refl => exact hr
  | step h _ ih => exact .go h (ih hr)

lemma Silent.trans {s t u : σ} (h : Silent next s t) (h' : Silent next t u) : Silent next s u := by
  induction h with
  | refl => exact h'
  | step h _ ih => exact .step h (ih h')

lemma Silent.reaches {s t : σ} (h : Silent next s t) : Reaches next s t := by
  induction h with
  | refl => exact .refl _
  | step h _ ih => exact .go h ih

lemma Reaches.trans {s t u : σ} (h : Reaches next s t) (h' : Reaches next t u) :
    Reaches next s u := by
  induction h with
  | refl => exact h'
  | go h _ ih => exact .go h (ih h')
  | yes h _ ih => exact .yes h (ih h')
  | no h _ ih => exact .no h (ih h')

/-- Related states do the same, the second after some silent steps. -/
def Simulation (next : σ → Move σ ε) (next' : τ → Move τ ε) (R : σ → τ → Prop) : Prop :=
  ∀ s t, R s t → ∃ t', Silent next' t t' ∧ Matches R (next s) (next' t')

section Simulation

variable (hsim : Simulation next next' R) {s : σ} {t : τ} {os : List Bool} {tr : List ε}
  {fin : Bool}

include hsim

lemma Simulation.runs (hst : R s t) (hr : Runs next s os tr fin) : Runs next' t os tr fin := by
  induction hr generalizing t with
  | here s => exact .here t
  | stop h =>
    obtain ⟨t', hsil, hm⟩ := hsim _ _ hst
    rw [h] at hm
    generalize ht : next' t' = m at hm
    cases hm with
    | stop e => exact hsil.runs (.stop ht)
  | go h _ ih =>
    obtain ⟨t', hsil, hm⟩ := hsim _ _ hst
    rw [h] at hm
    generalize ht : next' t' = m at hm
    cases hm with
    | go e hR => exact hsil.runs (.go ht (ih hR))
  | @test s yes no e o os tr fin h hr ih =>
    obtain ⟨t', hsil, hm⟩ := hsim _ _ hst
    rw [h] at hm
    generalize ht : next' t' = m at hm
    cases hm with
    | test e hy hn =>
      refine hsil.runs (.test ht (ih ?_))
      cases o
      · exact hn
      · exact hy

lemma Simulation.runs_of_runs (hst : R s t) (hr : Runs next' t os tr fin) :
    Runs next s os tr fin := by
  obtain ⟨t', hsil, hm⟩ := hsim s t hst
  clear hst
  induction hr generalizing s t' with
  | here t => exact .here s
  | stop h =>
    cases hsil with
    | refl =>
      rw [h] at hm
      generalize hs : next s = m at hm
      cases hm with
      | stop e => exact .stop hs
    | step h' => simp [h] at h'
  | go h _ ih =>
    cases hsil with
    | refl =>
      rw [h] at hm
      generalize hs : next s = m at hm
      cases hm with
      | go e hR =>
        obtain ⟨t'', hsil', hm'⟩ := hsim _ _ hR
        exact .go hs (ih t'' hsil' hm')
    | step h' hsil' =>
      obtain ⟨rfl, rfl⟩ : _ = _ ∧ _ = _ := by simpa [h] using h'
      exact ih t' hsil' hm
  | @test t yes no e o os tr fin h hr ih =>
    cases hsil with
    | refl =>
      rw [h] at hm
      generalize hs : next s = m at hm
      cases hm with
      | @test y n y' n' e hy hn =>
        have hR : R (if o then y else n) (if o then yes else no) := by
          cases o
          · exact hn
          · exact hy
        obtain ⟨t'', hsil', hm'⟩ := hsim _ _ hR
        exact .test hs (ih t'' hsil' hm')
    | step h' => simp [h] at h'

theorem Simulation.runs_iff (hst : R s t) : Runs next s os tr fin ↔ Runs next' t os tr fin :=
  ⟨hsim.runs hst, hsim.runs_of_runs hst⟩

end Simulation

end Dexe.Trace
