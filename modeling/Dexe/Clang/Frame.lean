import Dexe.Clang.Semantics

/-! The objects that a statement can assign to, and what statements leave alone. -/

namespace Dexe.Clang

def placeOf : Expr → Option Place
  | .var x => some (.var x)
  | .member x f => some (.field x f)
  | .paren e => placeOf e
  | _ => none

def assigned : Stmt → Option Place
  | .expr (.bin .assign a _) | .expr (.bin .addAssign a _) | .expr (.bin .subAssign a _) =>
    placeOf a
  | _ => none

lemma placeOf_of_target {σ : State} {a : Expr} {p : Place} (h : target σ a = some (.place p)) :
    placeOf a = some p := by
  induction a with
  | var x | member x f =>
    cases h
    rfl
  | paren e ih => exact ih h
  | un op e =>
    cases op with
    | deref =>
      obtain ⟨v, -, hv⟩ := Option.bind_eq_some_iff.mp h
      split at hv <;> cases hv
    | _ => cases h
  | _ => cases h

lemma put_vars_of_ne {σ : State} {a : Expr} {t : Target} (h : target σ a = some t) {p : Place}
    (hp : placeOf a ≠ some p) (v : BitVec 64) : (σ.put t v).vars p = σ.vars p := by
  cases t with
  | place q =>
    apply State.set_vars_of_ne
    rintro rfl
    exact hp (placeOf_of_target h)
  | mem addr => rfl

variable {σ σ' : State} {p : Place}

lemma execCall_ne_next {dst : Option Target} {e : Expr} : execCall σ dst e ≠ some (.next σ') := by
  intro h
  cases e with
  | call0 f =>
    obtain ⟨c, -, hc⟩ := Option.map_eq_some_iff.mp h
    cases hc
  | call f args =>
    obtain ⟨c, -, h⟩ := Option.bind_eq_some_iff.mp h
    obtain ⟨vs, -, hvs⟩ := Option.map_eq_some_iff.mp h
    cases hvs
  | _ => cases h

lemma update_frame {op : BinOp} {a b : Expr} (h : update σ op a b = some (.next σ'))
    (hp : placeOf a ≠ some p) : σ'.vars p = σ.vars p := by
  obtain ⟨t, ht, h⟩ := Option.bind_eq_some_iff.mp h
  obtain ⟨w, -, h⟩ := Option.bind_eq_some_iff.mp h
  obtain ⟨v, -, hv⟩ := Option.map_eq_some_iff.mp h
  cases hv
  exact put_vars_of_ne ht hp _

theorem exec_frame {s : Stmt} (h : exec σ s = some (.next σ')) (hp : assigned s ≠ some p) :
    σ'.vars p = σ.vars p := by
  have hother : ∀ {e : Expr}, exec σ (.expr e) = some (.next σ') → exec σ (.expr e) =
      (if isCall e then execCall σ none e else (eval σ e).map fun _ => .next σ) → σ' = σ := by
    intro e he heq
    rw [heq] at he
    split at he
    · exact absurd he execCall_ne_next
    · obtain ⟨v, -, hv⟩ := Option.map_eq_some_iff.mp he
      cases hv
      rfl
  cases s with
  | goto label => cases h
  | ret e =>
    obtain ⟨v, -, hv⟩ := Option.map_eq_some_iff.mp h
    cases hv
  | ifGoto c label =>
    obtain ⟨t, -, ht⟩ := Option.map_eq_some_iff.mp h
    split at ht <;> cases ht
    rfl
  | expr e =>
    cases e with
    | bin op a b =>
      cases op with
      | assign =>
        obtain ⟨t, ht, h⟩ := Option.bind_eq_some_iff.mp h
        split at h
        · exact absurd h execCall_ne_next
        · obtain ⟨v, -, hv⟩ := Option.map_eq_some_iff.mp h
          cases hv
          exact put_vars_of_ne ht hp v
      | addAssign => exact update_frame h hp
      | subAssign => exact update_frame h hp
      | _ => rw [hother h rfl]
    | _ => rw [hother h rfl]

def callsOut : Stmt → Bool
  | .expr (.bin .assign _ b) => isCall b
  | _ => false

def builtins : List Text :=
  ["__sync_fetch_and_add", "__sync_fetch_and_sub", "__sync_fetch_and_and", "__sync_fetch_and_or",
    "__sync_fetch_and_xor"]

/-- Statements one after the other. A call whose value is assigned can leave any state. -/
inductive Passes : State → List Stmt → State → Prop
  | nil (σ : State) : Passes σ [] σ
  | next {σ σ₁ σ' : State} {s : Stmt} {l : List Stmt} (h : exec σ s = some (.next σ₁))
    (hl : Passes σ₁ l σ') : Passes σ (s :: l) σ'
  | builtin {σ σ₁ σ' : State} {s : Stmt} {l : List Stmt} {f : Text} {args : List (BitVec 64)}
    (h : exec σ s = some (.call (.name f) args none)) (hf : f ∈ builtins)
    (hvars : σ₁.vars = σ.vars) (hl : Passes σ₁ l σ') : Passes σ (s :: l) σ'
  | call {σ σ₁ σ' : State} {s : Stmt} {l : List Stmt} {f : Callee} {args : List (BitVec 64)}
    {t : Target} (h : exec σ s = some (.call f args (some t))) (v : BitVec 64)
    (hl : Passes (σ₁.put t v) l σ') : Passes σ (s :: l) σ'

lemma Passes.split {l l' : List Stmt} (h : Passes σ (l ++ l') σ') :
    ∃ σ₁, Passes σ l σ₁ ∧ Passes σ₁ l' σ' := by
  induction l generalizing σ with
  | nil => exact ⟨σ, .nil σ, h⟩
  | cons s l ih =>
    cases h with
    | next hs hl =>
      obtain ⟨σ₁, hfirst, hrest⟩ := ih hl
      exact ⟨σ₁, .next hs hfirst, hrest⟩
    | builtin hs hf hvars hl =>
      obtain ⟨σ₁, hfirst, hrest⟩ := ih hl
      exact ⟨σ₁, .builtin hs hf hvars hfirst, hrest⟩
    | call hs v hl =>
      obtain ⟨σ₁, hfirst, hrest⟩ := ih hl
      exact ⟨σ₁, .call hs v hfirst, hrest⟩

lemma execCall_dst {dst : Option Target} {e : Expr} {f : Callee} {args : List (BitVec 64)}
    {t : Option Target} (h : execCall σ dst e = some (.call f args t)) : t = dst := by
  cases e with
  | call0 g =>
    obtain ⟨c, -, hc⟩ := Option.map_eq_some_iff.mp h
    cases hc
    rfl
  | call g as =>
    obtain ⟨c, -, h⟩ := Option.bind_eq_some_iff.mp h
    obtain ⟨vs, -, hvs⟩ := Option.map_eq_some_iff.mp h
    cases hvs
    rfl
  | _ => cases h

lemma update_ne_call {op : BinOp} {a b : Expr} {f : Callee} {args : List (BitVec 64)}
    {t : Option Target} : update σ op a b ≠ some (.call f args t) := by
  intro h
  obtain ⟨u, -, h⟩ := Option.bind_eq_some_iff.mp h
  obtain ⟨w, -, h⟩ := Option.bind_eq_some_iff.mp h
  obtain ⟨v, -, hv⟩ := Option.map_eq_some_iff.mp h
  cases hv

lemma callsOut_of_call {s : Stmt} {f : Callee} {args : List (BitVec 64)} {t : Target}
    (h : exec σ s = some (.call f args (some t))) : callsOut s = true := by
  have hother : ∀ {e : Expr}, exec σ (.expr e) = some (.call f args (some t)) →
      exec σ (.expr e) =
        (if isCall e then execCall σ none e else (eval σ e).map fun _ => .next σ) → False := by
    intro e he heq
    rw [heq] at he
    split at he
    · cases execCall_dst he
    · obtain ⟨v, -, hv⟩ := Option.map_eq_some_iff.mp he
      cases hv
  cases s with
  | goto label => cases h
  | ret e =>
    obtain ⟨v, -, hv⟩ := Option.map_eq_some_iff.mp h
    cases hv
  | ifGoto c label =>
    obtain ⟨t, -, ht⟩ := Option.map_eq_some_iff.mp h
    split at ht <;> cases ht
  | expr e =>
    cases e with
    | bin op a b =>
      cases op with
      | assign =>
        obtain ⟨u, -, h⟩ := Option.bind_eq_some_iff.mp h
        split at h
        · assumption
        · obtain ⟨v, -, hv⟩ := Option.map_eq_some_iff.mp h
          cases hv
      | addAssign => exact absurd h update_ne_call
      | subAssign => exact absurd h update_ne_call
      | _ => exact (hother h rfl).elim
    | _ => exact (hother h rfl).elim

theorem passes_frame {l : List Stmt} (h : Passes σ l σ') (hp : ∀ s ∈ l, assigned s ≠ some p)
    (hcalls : ∀ s ∈ l, callsOut s = false) : σ'.vars p = σ.vars p := by
  induction h with
  | nil => rfl
  | next hs hl ih =>
    rw [List.forall_mem_cons] at hp hcalls
    rw [ih hp.2 hcalls.2, exec_frame hs hp.1]
  | builtin hs hf hvars hl ih =>
    rw [List.forall_mem_cons] at hp hcalls
    rw [ih hp.2 hcalls.2, hvars]
  | call hs v hl ih =>
    rw [List.forall_mem_cons] at hcalls
    rw [callsOut_of_call hs] at hcalls
    exact absurd hcalls.1 (by decide)

end Dexe.Clang
