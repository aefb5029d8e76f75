import Dexe.Backend.Evaluation
import Dexe.Clang.Frame
import Dexe.Control.Lines
import Dexe.Pipeline
import Mathlib.Data.BitVec
import Mathlib.Tactic.Ring

/-! Emitted functions that call each other, and the stack pointer after their calls. -/

namespace Dexe.Control

open Backend Clang Ir Text

structure Emission where
  functions : List DisassembledFunction
  irs : List IRFunction
  symbols : SymbolTable
  lifted : liftAll functions = some irs

namespace Emission

variable (E : Emission)

def opcodeStmts (op : Opcode) : List Stmt := Backend.opcodeStmts E.symbols (funcNameMap E.irs) op

def lineStmts : Line → List Stmt
  | .instr ir _ => E.opcodeStmts ir.opcode
  | .defaultReturn => [.ret (cpuField "rax")]
  | _ => []

def callStmt (target : CallTarget) : Stmt :=
  .expr (.bin .assign (cpuField "rax") (callTree E.symbols (funcNameMap E.irs) target))

/-- The C function that is called has no body in the output. -/
def Foreign (c : Callee) : Prop := ∀ ir ∈ E.irs, c ≠ .name (sanitiseCIdent ir.name)

def Names (c : Callee) (ir : IRFunction) : Prop :=
  c = .name (sanitiseCIdent ir.name) ∨ ∃ a, c = .pointer a

end Emission

def callOf : Line → Option (CallTarget × U64)
  | .instr ⟨_, .call target fallthrough⟩ _ => some (target, fallthrough)
  | _ => none

def retOperand (i : DisassembledInsn) : ℕ :=
  if i.mnemonic.toLowercase = "ret" ∨ i.mnemonic.toLowercase = "retn" then
    ((parseOperands i.opStr).head?.bind parseImmediate).elim 0 BitVec.toNat
  else 0

def popped (f : DisassembledFunction) : Line → ℕ
  | .instr ir _ => (f.instructions.find? fun i => i.address = ir.addr).elim 0 retOperand
  | _ => 0

def sp (σ : State) : BitVec 64 := σ.vars (place .rsp)

inductive Task
  | body (f : DisassembledFunction) (all rest : List Line)
  | callee (c : Callee)
  | statement (target : CallTarget) (fallthrough : U64)

/-- What a run returns and does to the stack pointer: `shift` is the sum of what the statements
of the function itself do and of the operands of `ret` in the functions that it calls, and
`lost` adds up, for each call, the bytes of the return address and of the operand of `ret`, less
those that a function has restored by itself. -/
structure Effect where
  value : BitVec 64
  popped : ℕ
  shift : BitVec 64
  lost : ℕ

/-- Runs in which every function that returns is balanced: its own statements cancel out, each
call taken for what it is on the machine, or the stack pointer is where it was on entry. A
foreign function does not know the objects of the output. -/
inductive Performs (E : Emission) : Task → State → State → Effect → Prop
  | on {f : DisassembledFunction} {all rest : List Line} {l : Line} {σ σ₁ σ' : State} {e : Effect}
    (hl : callOf l = none) (hs : Passes σ (E.lineStmts l) σ₁)
    (hr : Performs E (.body f all rest) σ₁ σ' e) :
    Performs E (.body f all (l :: rest)) σ σ' { e with shift := sp σ₁ - sp σ + e.shift }
  | goto {f : DisassembledFunction} {all rest lines : List Line} {l : Line} {σ σ' : State}
    {s : Stmt} {a : U64} {e : Effect} (hl : E.lineStmts l = [s])
    (hs : exec σ s = some (.goto (blockLabel a))) (ha : atLabel all a = some lines)
    (hr : Performs E (.body f all lines) σ σ' e) :
    Performs E (.body f all (l :: rest)) σ σ' e
  | ret {f : DisassembledFunction} {all rest : List Line} {l : Line} {σ : State} {s : Stmt}
    {v : BitVec 64} (hl : E.lineStmts l = [s]) (hs : exec σ s = some (.ret v)) :
    Performs E (.body f all (l :: rest)) σ σ ⟨v, popped f l, 0, 0⟩
  | call {f : DisassembledFunction} {all rest : List Line} {l : Line} {target : CallTarget}
    {fallthrough : U64} {σ σ₁ σ' : State} {c e : Effect}
    (hl : callOf l = some (target, fallthrough))
    (hc : Performs E (.statement target fallthrough) σ σ₁ c)
    (hr : Performs E (.body f all rest) σ₁ σ' e) :
    Performs E (.body f all (l :: rest)) σ σ'
      { e with shift := c.popped + e.shift, lost := c.lost + e.lost }
  | statement {target : CallTarget} {fallthrough : U64} {σ σ₁ σ₂ : State} {c : Callee}
    {args : List (BitVec 64)} {e : Effect}
    (hpush : execAll σ (pushStmts (hexNum fallthrough.toNat .none)) = some σ₁)
    (hcall : exec σ₁ (E.callStmt target) = some (.call c args (some (.place (place .rax)))))
    (hc : Performs E (.callee c) σ₁ σ₂ e) :
    Performs E (.statement target fallthrough) σ (σ₂.set (place .rax) e.value) e
  | cancels {c : Callee} {f : DisassembledFunction} {ir : IRFunction} {σ σ' : State} {e : Effect}
    (hf : f ∈ E.functions) (hir : liftFunction (buildCfg f) = some ir)
    (hc : Emission.Names c ir)
    (hbody : Performs E (.body f (functionLines ir) (functionLines ir)) (σ.set (.var "tmp") 0) σ' e)
    (hbalanced : e.shift = 0) :
    Performs E (.callee c) σ (σ'.set (.var "tmp") (σ.vars (.var "tmp")))
      ⟨e.value, e.popped, 0, 8 + e.popped + e.lost⟩
  | restores {c : Callee} {f : DisassembledFunction} {ir : IRFunction} {σ σ' : State} {e : Effect}
    (hf : f ∈ E.functions) (hir : liftFunction (buildCfg f) = some ir)
    (hc : Emission.Names c ir)
    (hbody : Performs E (.body f (functionLines ir) (functionLines ir)) (σ.set (.var "tmp") 0) σ' e)
    (hbalanced : sp σ' = sp σ) :
    Performs E (.callee c) σ (σ'.set (.var "tmp") (σ.vars (.var "tmp")))
      ⟨e.value, e.popped, 0, 8 + e.popped⟩
  | foreign {c : Callee} {σ σ' : State} (hc : E.Foreign c) (hvars : σ'.vars = σ.vars)
    (v : BitVec 64) : Performs E (.callee c) σ σ' ⟨v, 0, 0, 8⟩

/-- What an effect says about the stack pointer. A function starts after its return address was
pushed. -/
def Accounts (σ σ' : State) (e : Effect) : Task → Prop
  | .body _ _ _ => sp σ' = sp σ + e.shift - e.lost
  | .callee _ => sp σ' = sp σ + 8 + e.popped - e.lost ∧ 8 ≤ e.lost
  | .statement _ _ => sp σ' = sp σ + e.popped - e.lost ∧ 8 ≤ e.lost

lemma sp_set {p : Place} (hp : place .rsp ≠ p) (σ : State) (v : BitVec 64) :
    sp (σ.set p v) = sp σ := σ.set_vars_of_ne hp v

lemma sp_push {n : ℕ} (hn : n < 2 ^ 64) {suffix : Suffix} {σ σ₁ : State}
    (h : execAll σ (pushStmts (hexNum n suffix)) = some σ₁) : sp σ₁ = sp σ - 8 := by
  have hpush : execAll σ (pushStmts (hexNum n suffix)) = some _ :=
    execAll_pushStmts (hasInt_hex hn suffix _)
  rw [hpush] at h
  cases h
  rw [sp, State.poke_vars, State.set_vars_self, sp]

variable {E : Emission} {σ σ' : State} {e : Effect}

lemma Performs.accounts {t : Task} (h : Performs E t σ σ' e) : Accounts σ σ' e t := by
  have htmp : place .rsp ≠ .var "tmp" := by decide
  have hrax : place .rsp ≠ place .rax := by decide
  induction h with
  | @on _ _ _ _ σ σ₁ σ' e _ _ _ ih =>
    simp only [Accounts] at ih ⊢
    rw [ih]
    ring
  | goto _ _ _ _ ih => exact ih
  | ret => simp [Accounts]
  | call _ _ _ ihc ihr =>
    simp only [Accounts] at ihc ihr ⊢
    rw [ihr, ihc.1, Nat.cast_add]
    ring
  | statement hpush _ _ ih =>
    simp only [Accounts] at ih ⊢
    refine ⟨?_, ih.2⟩
    rw [sp_set hrax, ih.1, sp_push (BitVec.isLt _) hpush]
    ring
  | cancels _ _ _ _ hbalanced ih =>
    simp only [Accounts] at ih ⊢
    refine ⟨?_, by omega⟩
    rw [sp_set htmp, ih, sp_set htmp, hbalanced, Nat.cast_add, Nat.cast_add, Nat.cast_ofNat]
    ring
  | restores _ _ _ _ hbalanced _ =>
    simp only [Accounts]
    refine ⟨?_, by omega⟩
    rw [sp_set htmp, hbalanced, Nat.cast_add, Nat.cast_ofNat]
    ring
  | foreign _ hvars _ =>
    simp only [Accounts]
    refine ⟨?_, le_rfl⟩
    rw [sp, hvars, sp, Nat.cast_zero, Nat.cast_ofNat]
    ring

lemma natCast_eq_zero_iff (n : ℕ) : (n : BitVec 64) = 0 ↔ 2 ^ 64 ∣ n := by
  rw [← BitVec.toNat_inj, BitVec.natCast_eq_ofNat, BitVec.toNat_ofNat]
  exact (Nat.dvd_iff_mod_eq_zero).symm

lemma callee_of_execCall {dst d : Option Target} {f args : Expr} {c : Callee}
    {vs : List (BitVec 64)} (h : execCall σ dst (.call f args) = some (.call c vs d)) :
    Clang.callee σ f = some c := by
  obtain ⟨c', hc', h⟩ := Option.bind_eq_some_iff.mp h
  obtain ⟨vs', -, h⟩ := Option.map_eq_some_iff.mp h
  cases h
  exact hc'

lemma exec_callStmt (target : CallTarget) :
    exec σ (E.callStmt target) = execCall σ (some (.place (place .rax)))
      (callTree E.symbols (funcNameMap E.irs) target) := by
  cases target <;> rfl

lemma Performs.foreign_effect {c : Callee} (hc : E.Foreign c) (hname : ∀ a, c ≠ .pointer a)
    (h : Performs E (.callee c) σ σ' e) : e.popped = 0 ∧ e.lost = 8 := by
  have hnot : ∀ {f ir}, f ∈ E.functions → liftFunction (buildCfg f) = some ir →
      ¬ Emission.Names c ir := by
    rintro f ir hf hir (rfl | ⟨a, rfl⟩)
    · obtain ⟨ir', hmem, hir'⟩ := Pipeline.lifted_of_mem E.lifted hf
      rw [hir] at hir'
      cases hir'
      exact hc ir hmem rfl
    · exact hname a rfl
  cases h with
  | cancels hf hir hnames => exact absurd hnames (hnot hf hir)
  | restores hf hir hnames => exact absurd hnames (hnot hf hir)
  | foreign => exact ⟨rfl, rfl⟩

lemma Performs.foreign_call {name : Text} {fallthrough : U64}
    (hforeign : E.Foreign (.name (sanitiseCIdent name)))
    (h : Performs E (.statement (.external name) fallthrough) σ σ' e) :
    e.popped = 0 ∧ e.lost = 8 := by
  cases h with
  | statement hpush hcall hc =>
    rw [exec_callStmt] at hcall
    cases callee_of_execCall hcall
    exact hc.foreign_effect hforeign fun a ha => by cases ha

/-- After a call the stack pointer is where the machine has it exactly when the lost bytes wrap
around. A call of a function without a body loses the eight bytes of the return address. -/
theorem call_restores_iff {target : CallTarget} {fallthrough : U64}
    (h : Performs E (.statement target fallthrough) σ σ' e) :
    8 ≤ e.lost ∧ (sp σ' = sp σ + e.popped ↔ 2 ^ 64 ∣ e.lost) ∧
    ∀ name, target = .external name → E.Foreign (.name (sanitiseCIdent name)) →
      sp σ' = sp σ - 8 ∧ sp σ' ≠ sp σ := by
  obtain ⟨hsp, hlost⟩ : sp σ' = sp σ + e.popped - e.lost ∧ 8 ≤ e.lost := h.accounts
  refine ⟨hlost, ?_, ?_⟩
  · rw [hsp, ← natCast_eq_zero_iff, sub_eq_self]
  · rintro name rfl hforeign
    obtain ⟨hpopped, hlost⟩ := h.foreign_call hforeign
    have hsub : sp σ' = sp σ - 8 := by
      rw [hsp, hpopped, hlost, Nat.cast_zero, add_zero, Nat.cast_ofNat]
    refine ⟨hsub, ?_⟩
    rw [hsub, ne_eq, sub_eq_self]
    decide

def leafFunction : DisassembledFunction :=
  ⟨"leaf", 0x1010, 0x1011, [⟨0x1010, 1, "ret", "", [0xc3]⟩]⟩

def leafCaller : DisassembledFunction :=
  ⟨"main", 0x1000, 0x1008,
    [⟨0x1000, 5, "call", "0x1010", []⟩, ⟨0x1005, 2, "syscall", "", []⟩,
      ⟨0x1007, 1, "ret", "", [0xc3]⟩]⟩

lemma lift_leaf : (liftAll [leafCaller, leafFunction]).isSome = true := by decide

def leafEmission : Emission :=
  ⟨[leafCaller, leafFunction], _, ∅, (Option.some_get lift_leaf).symm⟩

lemma leaf_lines : (liftFunction (buildCfg leafFunction)).map functionLines =
    some [.label 0x1010, .blockStart, .instr ⟨0x1010, .ret⟩ true, .blockEnd, .defaultReturn] := by
  decide

lemma leaf_name : (liftFunction (buildCfg leafFunction)).map (fun ir => sanitiseCIdent ir.name) =
    some (resolveCallName 0x1010 ∅ (funcNameMap leafEmission.irs)) := by
  decide

lemma leaf_returns (σ : State) (all : List Line) :
    ∃ e, Performs leafEmission (.body leafFunction all
        [.label 0x1010, .blockStart, .instr ⟨0x1010, .ret⟩ true, .blockEnd, .defaultReturn]) σ σ e ∧
      e.popped = 0 ∧ e.shift = 0 ∧ e.lost = 0 := by
  have hlabel : Passes σ (leafEmission.lineStmts (.label 0x1010)) σ := .nil σ
  have hblock : Passes σ (leafEmission.lineStmts .blockStart) σ := .nil σ
  refine ⟨_, .on rfl hlabel (.on rfl hblock (.ret rfl rfl)), rfl, ?_, rfl⟩
  simp

lemma leaf_call (σ : State) (fallthrough : U64) :
    ∃ σ' e, Performs leafEmission (.statement (.direct 0x1010) fallthrough) σ σ' e ∧
      e.popped = 0 ∧ e.lost = 8 := by
  obtain ⟨ir, hir, hlines⟩ := Option.map_eq_some_iff.mp leaf_lines
  obtain ⟨ir', hir', hname⟩ := Option.map_eq_some_iff.mp leaf_name
  rw [hir] at hir'
  cases hir'
  have hpush : execAll σ (pushStmts (hexNum fallthrough.toNat .none)) = some _ :=
    execAll_pushStmts (hasInt_hex fallthrough.isLt .none _)
  obtain ⟨e, hbody, hpopped, hshift, hlost⟩ := leaf_returns
    (((σ.set (place .rsp) (sp σ - 8)).poke (sp σ - 8) _).set (.var "tmp") 0) (functionLines ir)
  rw [← hlines] at hbody
  have hcallee := Performs.cancels (by decide) hir (.inl (congrArg Callee.name hname.symm)) hbody
    hshift
  refine ⟨_, _, .statement hpush (exec_callStmt _) hcallee, hpopped, ?_⟩
  rw [hpopped, hlost]

lemma syscall_foreign : leafEmission.Foreign (.name (sanitiseCIdent "syscall")) := by
  rw [Emission.Foreign]
  decide

lemma syscall_call (σ : State) (fallthrough : U64) :
    ∃ σ' e, Performs leafEmission (.statement (.external "syscall") fallthrough) σ σ' e := by
  have hpush : execAll σ (pushStmts (hexNum fallthrough.toNat .none)) = some _ :=
    execAll_pushStmts (hasInt_hex fallthrough.isLt .none _)
  exact ⟨_, _, .statement hpush (exec_callStmt _) (.foreign syscall_foreign rfl 0)⟩

lemma leafCaller_calls : Calls leafEmission.irs (.direct 0x1010) ∧
    Calls leafEmission.irs (.external "syscall") :=
  ⟨⟨0x1005, by decide⟩, ⟨0x1007, by decide⟩⟩

theorem leaf_call_loses :
    Calls leafEmission.irs (.direct 0x1010) ∧ Calls leafEmission.irs (.external "syscall") ∧
    (∃ σ σ' e, Performs leafEmission (.statement (.direct 0x1010) 0x1005) σ σ' e ∧
      e.popped = 0 ∧ sp σ' ≠ sp σ) ∧
    ∃ σ σ' e, Performs leafEmission (.statement (.external "syscall") 0x1007) σ σ' e ∧
      sp σ' ≠ sp σ := by
  let σ : State := ⟨fun _ => 0, fun _ => 0⟩
  have hne : ∀ {t ft σ' e}, Performs leafEmission (.statement t ft) σ σ' e → e.popped = 0 →
      e.lost = 8 → sp σ' ≠ sp σ := by
    intro t ft σ' e h hpopped hlost
    obtain ⟨hsp, -⟩ : sp σ' = sp σ + e.popped - e.lost ∧ 8 ≤ e.lost := h.accounts
    rw [hsp, hpopped, hlost]
    decide
  obtain ⟨σ₁, e₁, h₁, hpopped, hlost⟩ := leaf_call σ 0x1005
  obtain ⟨σ₂, e₂, h₂⟩ := syscall_call σ 0x1007
  obtain ⟨hpopped₂, hlost₂⟩ := h₂.foreign_call syscall_foreign
  exact ⟨leafCaller_calls.1, leafCaller_calls.2, ⟨σ, σ₁, e₁, h₁, hpopped, hne h₁ hpopped hlost⟩,
    σ, σ₂, e₂, h₂, hne h₂ hpopped₂ hlost₂⟩

theorem leaf_call_restores_iff :
    ∃ σ σ' e, Performs leafEmission (.statement (.direct 0x1010) 0x1005) σ σ' e ∧ 8 ≤ e.lost ∧
      (sp σ' = sp σ + e.popped ↔ 2 ^ 64 ∣ e.lost) := by
  obtain ⟨σ', e, h, -, -⟩ := leaf_call ⟨fun _ => 0, fun _ => 0⟩ 0x1005
  obtain ⟨hlost, hiff, -⟩ := call_restores_iff h
  exact ⟨_, σ', e, h, hlost, hiff⟩

end Dexe.Control
