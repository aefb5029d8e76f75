import Dexe.Straight.Agreement
import Dexe.Straight.Stack
import Dexe.X86.Programs

/-! The private flag word of the emitted C against the flags of a run that has jumps in it, and the
statements that read it. -/

namespace Dexe.Programs

open Std Ir X86 Clang Backend Straight

/-- A condition is read from the word as from the flags, where they are known and the last
instruction that wrote one of them carries it. -/
def Agree (past : List Insn) (status : Status) (word : U64) : Prop :=
  ∀ c w, lastWriter c past = some w → Carries w c → ∀ b, status.holds c = some b →
    condValue word c = b

lemma agree_nil (status : Status) (word : U64) : Agree [] status word := by
  intro c w h
  cases h

lemma tests_ne_nil (c : Cond) : ∃ x, x ∈ c.tests := by cases c <;> exact ⟨_, List.mem_cons_self⟩

lemma Status.holds_congr {f f' : Status} {c : Cond} (h : ∀ x ∈ c.tests, f x = f' x) :
    f.holds c = f'.holds c := by
  have hknown : (∀ x ∈ c.tests, (f x).isSome) ↔ ∀ x ∈ c.tests, (f' x).isSome := by
    refine forall_congr' fun x => forall_congr' fun hx => ?_
    rw [h x hx]
  have hvalue : c.holds (fun x => (f x).getD false) = c.holds fun x => (f' x).getD false := by
    apply Cond.holds_congr
    intro x hx
    show (f x).getD false = (f' x).getD false
    rw [h x hx]
  simp only [Status.holds, hknown, hvalue]

lemma Status.holds_unknown (c : Cond) : Status.holds (fun _ => none) c = none := by
  obtain ⟨x, hx⟩ := tests_ne_nil c
  rw [Status.holds, if_neg]
  intro h
  cases h x hx

lemma Status.holds_known {f : Status} {g : Flags} {c : Cond} (h : ∀ x ∈ c.tests, f x = some (g x)) :
    f.holds c = some (c.holds g) := by
  have hvalue : c.holds (fun x => (f x).getD false) = c.holds g := by
    apply Cond.holds_congr
    intro x hx
    show (f x).getD false = g x
    rw [h x hx]
    rfl
  rw [Status.holds, if_pos, hvalue]
  intro x hx
  rw [h x hx]
  rfl

lemma holds_after_compare (f : Status) (s : X86.State) (op : CompareOp) (r : Reg) (src : Source)
    (c : Cond) : (f.after s (.compare op r src)).holds c =
      some (c.holds (newFlags s (.compare op r src))) := by
  apply Status.holds_known
  intro x _
  cases x <;> rfl

lemma holds_after {c : Cond} {i : Insn} (h : i.writesTested c = false) (f : Status) (s : X86.State)
    {b : Bool} (hb : (f.after s i).holds c = some b) : f.holds c = some b := by
  have hout : ∀ x ∈ c.tests, x ∉ i.writes := by
    intro x hx hmem
    have := List.any_eq_false.mp h x hmem
    simp [hx] at this
  have hsame : (f.after s i).holds c = none ∨ (f.after s i).holds c = f.holds c := by
    rw [Status.after.eq_def]
    split
    · exact .inl (Status.holds_unknown c)
    · exact .inl (Status.holds_unknown c)
    · refine .inr (Status.holds_congr fun x hx => ?_)
      rw [if_neg (hout x hx)]
  rcases hsame with hnone | hsame
  · rw [hnone] at hb
    cases hb
  · rw [← hsame, hb]

lemma Agree.step {past : List Insn} {status : Status} {word : U64} (h : Agree past status word)
    (s : X86.State) (i : Insn) :
    Agree (past ++ [i]) (status.after s i) (wordAfter s word i) := by
  intro c w hlast hw b hb
  rw [lastWriter_concat] at hlast
  by_cases hi : i.writesTested c = true
  · rw [if_pos hi] at hlast
    cases i with
    | compare op r src =>
      cases hlast
      rw [holds_after_compare] at hb
      cases hb
      cases op with
      | cmp => exact condValue_cmpWord hw _ _
      | test => exact condValue_testWord hw _ _
    | alu op r src =>
      cases hlast
      exact hw.elim
    | unary op r =>
      cases hlast
      exact hw.elim
    | _ => cases hlast
  · rw [if_neg hi] at hlast
    have hi := Bool.eq_false_iff.mpr hi
    rw [wordAfter_of_writesTested hi]
    exact h c w hlast hw b (holds_after hi status s hb)

section Statements

variable {symbols : SymbolTable} {funcNames : TreeMap U64 Text} {σ : Clang.State} {s : X86.State}

lemma flagWord_stack (σ : Clang.State) (v : U64) : flagWord (σ.set (place .rsp) v) = flagWord σ :=
  flagWord_set σ .rsp v

lemma runsTo_push (hm : Matches σ s) {op : Operand} {src : Source} (hop : Means op src)
    (h : s.lower.read src = s.read src) :
    RunsTo σ (opcodeStmts symbols funcNames (.push op)) (s.push (s.read src)) (flagWord σ) := by
  have hvalue := hasInt_operandTree (σ := σ.set (place .rsp) (σ.vars (place .rsp) - 8)) op
  rw [hm.lower.operandValue hop] at hvalue
  rw [h] at hvalue
  exact ⟨_, execAll_pushStmts hvalue, hm.push _, flagWord_stack σ (σ.vars (place .rsp) - 8)⟩

lemma runsTo_pop (hm : Matches σ s) {r : Reg} {dst : VarId} (hdst : dst.base = r.base)
    (h : r ≠ .rsp) :
    RunsTo σ (opcodeStmts symbols funcNames (.pop dst)) (s.pop r) (flagWord σ) := by
  have hset : Matches (σ.set (place dst.base) (σ.mem.load64 (σ.vars (place .rsp))))
      (s.set r (s.mem.load64 (s.regs .rsp))) := by
    rw [hdst, hm.mem, show σ.vars (place .rsp) = s.regs .rsp from hm.regs .rsp]
    exact hm.set r _
  refine ⟨_, execAll_popStmts σ dst, ?_, ?_⟩
  · rw [← (X86.State.latePop_eq_pop_iff r).mpr h, X86.State.latePop, ← hset.regs .rsp]
    exact hset.set .rsp _
  · rw [flagWord_stack, hdst, flagWord_set]

lemma valueTy_operandTree {op : Operand} (hwide : Wide op) :
    (operandTree op).valueTy = some .u64 := by
  let σ : Clang.State := ⟨fun _ => 0, fun _ => 0⟩
  obtain ⟨ty, -, hty, hval⟩ := typed_operandTree (σ := σ) op
  rw [eval_operandTree hwide] at hval
  cases hval
  exact hty

lemma valueTy_varTree (v : VarId) : (varTree v).valueTy = some .u64 := by
  rcases v with ⟨base, version⟩
  cases base <;> rfl

lemma eval_chooseTree {c : Cond} {a b : Expr} {x y : U64} (ha : eval σ a = some ⟨.u64, x⟩)
    (hb : eval σ b = some ⟨.u64, y⟩) (hta : a.valueTy = some .u64) (htb : b.valueTy = some .u64) :
    eval σ (chooseTree (condition c) a b) =
      some ⟨.u64, if condValue (flagWord σ) c then x else y⟩ := by
  have htruth : (eval σ (.paren (.paren (condTree (condition c))))).bind Val.truth =
      some (condValue (flagWord σ) c) := truthOf_condTree σ c
  have hty : (Expr.cond (.paren (.paren (condTree (condition c)))) a b).valueTy = some .u64 := by
    rw [Expr.valueTy, hta, htb]
    rfl
  rw [chooseTree, eval_cond htruth hty, ha, hb]
  split <;> rfl

lemma runsTo_move (hm : Matches σ s) {c : Cond} {r : Reg} {src : Source} {dst : VarId}
    {op : Operand} (hdst : dst.base = r.base) (hop : Means op src) (hwide : Wide op) {b : Bool}
    (hb : condValue (flagWord σ) c = b) :
    RunsTo σ (opcodeStmts symbols funcNames (.cmovcc (condition c) dst op))
      (if b then s.set r (s.read src) else s) (flagWord σ) := by
  have hvar : eval σ (varTree dst) = some ⟨.u64, s.regs r⟩ := by
    rw [eval_varTree, hdst, hm.regs]
  have hchoose := eval_chooseTree (c := c) (eval_of_means hm hop hwide) hvar
    (valueTy_operandTree hwide) (valueTy_varTree dst)
  rw [hb] at hchoose
  have hrun := runsTo_setTo hm hdst (.of_u64 hchoose)
  cases b with
  | true => exact hrun
  | false =>
    have hsame : s.set r (s.regs r) = s := by
      rw [X86.State.set, Function.update_eq_self]
    simp only [Bool.false_eq_true, if_false, hsame] at hrun ⊢
    exact hrun

lemma runsTo_leave (hm : Matches σ s) {dst dst' : VarId} {op : Operand} (hdst : dst.base = .rsp)
    (hop : Means op (.reg .rbp)) (hdst' : dst'.base = .rbp) :
    RunsTo σ (opcodeStmts symbols funcNames (.mov dst op) ++
      opcodeStmts symbols funcNames (.pop dst')) s.leave (flagWord σ) := by
  have hmove : RunsTo σ (opcodeStmts symbols funcNames (.mov dst op)) _ _ :=
    runsTo_setTo (r := .rsp) hm hdst (hasInt_of_means hm hop)
  obtain ⟨σ₁, hexec₁, hm₁, hw₁⟩ := hmove
  have hpop : RunsTo σ₁ (opcodeStmts symbols funcNames (.pop dst')) _ _ :=
    runsTo_pop (r := .rbp) hm₁ hdst' (by decide)
  obtain ⟨σ₂, hexec₂, hm₂, hw₂⟩ := hpop
  refine ⟨σ₂, ?_, hm₂, hw₂.trans hw₁⟩
  rw [execAll_append, hexec₁, Option.bind_some, hexec₂]

end Statements

end Dexe.Programs
