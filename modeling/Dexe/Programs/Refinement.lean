import Dexe.Programs.Flags
import Dexe.Programs.Layout

/-! Whole functions: the emitted C makes the run that the machine instructions make. -/

namespace Dexe.Programs

open Std Ir X86 Clang Backend Straight Cfg Control Trace Collections

/-- The emitted C can follow the instruction from here: it has no undefined negation, no use of
the stack pointer that depends on when it moves, and no condition that the flag word does not
carry. -/
def Follows (c : Config) : Instr → Prop
  | .plain i => Defined c.state i
  | .push src => c.state.lower.read src = c.state.read src
  | .pop r => r ≠ .rsp
  | .move cond _ _ | .branch cond _ => ∃ w, lastWriter cond c.past = some w ∧ Carries w cond
  | .leave | .nop | .jump _ | .ret _ => True

def Followed (code : Program) (c : Config) : Prop :=
  X86.next code c ≠ .stuck ∧ ∀ p ∈ c.rest.head?, Follows c p.2

/-- The state of C after a return of the machine: the stack pointer was not raised, and points to
the return address still, and everything else is the same. -/
structure Unpopped (r : Returned) (σ : Clang.State) : Prop where
  state : Matches σ r.lowered
  target : σ.mem.load64 (σ.vars (place .rsp)) = r.target

abbrev Agrees (r : Returned) (p : BitVec 64 × Clang.State) : Prop :=
  p.1 = r.state.regs .rax ∧ Unpopped r p.2

lemma agrees_ret {σ : Clang.State} {s : X86.State} (hm : Matches σ s) (args : BitVec 16) :
    Agrees (s.ret args) (σ.vars (place .rax), σ) := by
  refine ⟨?_, ?_, ?_⟩
  · rw [Returned.ret_regs s args (by decide)]
    exact hm.regs .rax
  · rw [Returned.lowered_ret]
    exact hm
  · show σ.mem.load64 (σ.vars (place (Reg.rsp).base)) = s.mem.load64 (s.regs .rsp)
    rw [hm.mem, hm.regs .rsp]

structure ShowsAt (d : DisassembledInsn) (p : U64 × Instr) : Prop where
  address : d.address = p.1
  shows : Shows d p.2

variable {symbols : SymbolTable} {funcNames : TreeMap U64 Text}

lemma addresses_eq {insns : List DisassembledInsn} {code : Program}
    (h : List.Forall₂ ShowsAt insns code) :
    insns.map DisassembledInsn.address = code.map Prod.fst := by
  rw [← List.forall₂_eq_eq_eq, List.forall₂_map_left_iff, List.forall₂_map_right_iff]
  exact h.imp fun _ _ h => h.address

lemma mem_of_atAddress {a : U64} {code rest : Program} (h : atAddress a code = some rest) :
    a ∈ code.map Prod.fst := by
  induction code with
  | nil => cases h
  | cons p code ih =>
    rw [atAddress] at h
    split at h
    · rename_i ha
      exact List.mem_cons.mpr (.inl ha.symm)
    · exact List.mem_cons_of_mem _ (ih h)

lemma target_of_shows {d : DisassembledInsn} {i : Instr} {a : U64} (h : Shows d i)
    (hi : i = .jump a ∨ ∃ c, i = .branch c a) :
    IsJump d.mnemonic ∧ parseHexTarget d.opStr = some a := by
  cases h with
  | jump hm h =>
    obtain rfl : _ = a := by simpa using hi
    exact ⟨.inl hm, parseHexTarget_target h⟩
  | branch ht hm hjump h =>
    obtain rfl : _ = a := by simpa using hi
    exact ⟨.inr hjump, parseHexTarget_target h⟩
  | _ => simp at hi

structure Setting (symbols : SymbolTable) (funcNames : TreeMap U64 Text) where
  insns : List DisassembledInsn
  code : Program
  F : FunctionDef
  items : List Item
  increasing : Increasing insns
  shown : List.Forall₂ ShowsAt insns code
  body : F.body = discardItem :: items
  laid : Laid symbols funcNames (lead insns) insns items

namespace Setting

variable (S : Setting symbols funcNames)

def StandsAt (k : ℕ) (items : List Item) : Prop :=
  Stands symbols funcNames (lead S.insns) S.F (S.insns.drop k) items

structure Related (c : Config) (t : FunctionState) : Prop where
  position : ∃ k, c.rest = S.code.drop k ∧ S.StandsAt k t.1
  state : Matches t.2 c.state
  flags : Agree c.past c.status (flagWord t.2)

variable {S} {k : ℕ} {a : U64} {i : Instr} {rest : Program} {items : List Item}

lemma shown_at (h : S.code.drop k = (a, i) :: rest) :
    ∃ d later, S.insns.drop k = d :: later ∧ d ∈ S.insns ∧ Shows d i ∧
      rest = S.code.drop (k + 1) ∧ later = S.insns.drop (k + 1) := by
  have hdrop := List.forall₂_drop k S.shown
  rw [h] at hdrop
  obtain ⟨d, later, hd, -, hins⟩ := List.forall₂_cons_right_iff.mp hdrop
  refine ⟨d, later, hins, ?_, hd.shows, ?_, ?_⟩
  · exact List.mem_of_mem_drop (hins ▸ List.mem_cons_self)
  · rw [← List.drop_drop, h]
    rfl
  · rw [← List.drop_drop, hins]
    rfl

lemma statements (h : S.code.drop k = (a, i) :: rest) (hs : S.StandsAt k items) :
    ∃ n ops items', Compiles i ops ∧ S.StandsAt (k + 1) items' ∧
      ∀ σ, Travels S.F.next n (items, σ)
        ((ops.flatMap (opcodeStmts symbols funcNames)).map .stmt ++ items', σ) := by
  obtain ⟨d, later, hins, -, hshows, -, hlater⟩ := shown_at h
  rw [StandsAt, hins] at hs
  obtain ⟨n, irs, v, v', items', hlift, htravels, hrest⟩ := hs.instruction
  obtain ⟨ops, v'', hops, hcompiles⟩ := liftInsn_shows v hshows
  rw [hlift] at hops
  cases hops
  rw [hlater] at hrest
  refine ⟨n, ops, items', hcompiles, hrest, fun σ => ?_⟩
  have hitems : itemsOf symbols funcNames (codeOf d.address ops) =
      (ops.flatMap (opcodeStmts symbols funcNames)).map .stmt := by
    simp [itemsOf, codeOf, instructionItems, List.flatMap_map, List.map_flatMap]
  rw [← hitems]
  exact htravels σ

lemma jump_target {a' : U64} {code' : Program} (h : S.code.drop k = (a, i) :: rest)
    (hi : i = .jump a' ∨ ∃ c, i = .branch c a') (hat : atAddress a' S.code = some code') :
    ∃ k' items', fromLabel (blockLabel a') S.F.body = some items' ∧ code' = S.code.drop k' ∧
      S.StandsAt k' items' := by
  obtain ⟨d, later, -, hd, hshows, -⟩ := shown_at h
  obtain ⟨hjump, htarget⟩ := target_of_shows hshows hi
  have haddr := addresses_eq S.shown
  obtain ⟨t, ht, rfl⟩ := List.mem_map.mp (haddr ▸ mem_of_atAddress hat)
  have hlead : lead S.insns t = true := decide_eq_true (.inr (.inr ⟨d, hd, hjump, htarget⟩))
  obtain ⟨later', items', k', hdrop, hat', hlabel, hlaid⟩ :=
    S.laid.fromLabel S.increasing haddr ht hlead
  rw [hat'] at hat
  refine ⟨k', items', ?_, (Option.some.inj hat).symm, ?_⟩
  · rw [S.body, Clang.fromLabel, if_neg (by simp [discardItem]), hlabel]
  · rw [StandsAt, hdrop]
    exact hlaid.stands

variable {c : Config} {t : FunctionState}

abbrev Answered (S : Setting symbols funcNames) (c : Config) (t : FunctionState) :
    Next Config Returned → Prop :=
  Answers S.F.next S.Related Agrees (fun c => c.rest.length) c t

lemma answered_run (h : S.code.drop k = (a, i) :: rest) (hc : c.rest = (a, i) :: rest)
    (hs : S.StandsAt k t.1) {c' : Config} (hrest : c'.rest = rest)
    (hrun : ∀ ops, Compiles i ops → ∃ w,
      RunsTo t.2 (ops.flatMap (opcodeStmts symbols funcNames)) c'.state w ∧
        Agree c'.past c'.status w) :
    S.Answered c t (.on c') := by
  obtain ⟨n, ops, items', hcompiles, hstands, htravels⟩ := statements h hs
  obtain ⟨w, ⟨σ', hexec, hm, rfl⟩, hagree⟩ := hrun ops hcompiles
  obtain ⟨-, -, -, -, -, hdrop, -⟩ := shown_at h
  have hafter := FunctionDef.travels_execAll (F := S.F) hexec items'
  refine .on ((htravels t.2).trans hafter) ⟨⟨k + 1, hrest.trans hdrop, hstands⟩, hm, hagree⟩ ?_
  intro _
  simp [hrest, hc]

lemma answered_goTo {a' : U64} {code' : Program} {st : Stmt}
    (h : S.code.drop k = (a, i) :: rest) (hr : S.Related c t) (hs : S.StandsAt k t.1)
    (hi : i = .jump a' ∨ ∃ c, i = .branch c a') (hat : atAddress a' S.code = some code')
    (hstmts : ∀ ops, Compiles i ops → ops.flatMap (opcodeStmts symbols funcNames) = [st])
    (hexec : exec t.2 st = some (.goto (blockLabel a'))) :
    S.Answered c t (.on (c.goTo code' c.state)) := by
  obtain ⟨n, ops, items', hcompiles, -, htravels⟩ := statements h hs
  obtain ⟨k', items'', hlabel, hcode', hstands⟩ := jump_target h hi hat
  have hgoto : S.F.next (.stmt st :: items', t.2) = .on (items'', t.2) := by
    simp only [FunctionDef.next, hexec, hlabel, Option.elim_some]
  have hto := htravels t.2
  rw [hstmts ops hcompiles] at hto
  refine .on (hto.trans (.single hgoto)) ⟨⟨k', hcode', hstands⟩, hr.state, hr.flags⟩ ?_
  intro hn
  omega

lemma answered_ret {args : BitVec 16} (h : S.code.drop k = (a, .ret args) :: rest)
    (hr : S.Related c t) (hs : S.StandsAt k t.1) : S.Answered c t (.done (c.state.ret args)) := by
  obtain ⟨n, ops, items', hcompiles, -, htravels⟩ := statements h hs
  cases hcompiles
  have hexec : exec t.2 (.ret (cpuField "rax")) = some (.ret (t.2.vars (place .rax))) := rfl
  have hdone : S.F.next (.stmt (.ret (cpuField "rax")) :: items', t.2) =
      .done (t.2.vars (place .rax), t.2) := by
    simp only [FunctionDef.next, hexec]
  exact .done (htravels t.2) hdone (agrees_ret hr.state args)

lemma exec_branch {cond : Cond} {b : Bool} (hb : condValue (flagWord t.2) cond = b) (l : Text) :
    exec t.2 (.ifGoto (condTree (condition cond)) l) =
      some (if b then .goto l else .next t.2) := by
  have htruth : (eval t.2 (condTree (condition cond))).bind Val.truth = some b :=
    hb ▸ truthOf_condTree t.2 cond
  rw [exec, htruth]
  rfl

lemma condition_known (hr : S.Related c t) {cond : Cond}
    (hw : ∃ w, lastWriter cond c.past = some w ∧ Carries w cond) {b : Bool}
    (hb : c.status.holds cond = some b) : condValue (flagWord t.2) cond = b := by
  obtain ⟨w, hlast, hcarries⟩ := hw
  exact hr.flags cond w hlast hcarries b hb

lemma answered_branch {cond : Cond} {a' : U64} (h : S.code.drop k = (a, .branch cond a') :: rest)
    (hc : c.rest = (a, .branch cond a') :: rest) (hr : S.Related c t) (hs : S.StandsAt k t.1)
    (hf : Followed S.code c) : S.Answered c t (X86.next S.code c) := by
  have hstuck := hf.1
  have hfollows : Follows c (.branch cond a') := hf.2 (a, .branch cond a') (by simp [hc])
  simp only [X86.next, hc] at hstuck ⊢
  -- where the flags are unknown the machine is stuck itself
  cases hb : c.status.holds cond with
  | none => simp [hb] at hstuck
  | some b =>
    have hword := condition_known hr hfollows hb
    have hexec := exec_branch hword (blockLabel a')
    simp only [hb, Option.elim_some] at hstuck ⊢
    cases b with
    | true =>
      cases hat : atAddress a' S.code with
      | none => simp [hat] at hstuck
      | some code' =>
        refine answered_goTo h hr hs (.inr ⟨cond, rfl⟩) hat ?_ hexec
        intro ops hops
        cases hops
        rfl
    | false =>
      refine answered_run h hc hs rfl fun ops hops => ⟨flagWord t.2, ?_, hr.flags⟩
      cases hops
      exact runsTo_of_exec hexec hr.state rfl

lemma answered_move {cond : Cond} {r : Reg} {src : Factor}
    (h : S.code.drop k = (a, .move cond r src) :: rest)
    (hc : c.rest = (a, .move cond r src) :: rest) (hr : S.Related c t)
    (hs : S.StandsAt k t.1) (hf : Followed S.code c) :
    S.Answered c t (X86.next S.code c) := by
  have hstuck := hf.1
  have hfollows : Follows c (.move cond r src) := hf.2 (a, .move cond r src) (by simp [hc])
  simp only [X86.next, hc] at hstuck ⊢
  cases hb : c.status.holds cond with
  | none => simp [hb] at hstuck
  | some b =>
    have hword := condition_known hr hfollows hb
    simp only [Option.elim_some]
    refine answered_run h hc hs rfl fun ops hops => ⟨flagWord t.2, ?_, hr.flags⟩
    cases hops with
    | move hdst hop hwide =>
      rw [List.flatMap_singleton]
      exact runsTo_move hr.state hdst hop hwide hword

lemma answered_jump {a' : U64} (h : S.code.drop k = (a, .jump a') :: rest)
    (hc : c.rest = (a, .jump a') :: rest) (hr : S.Related c t) (hs : S.StandsAt k t.1)
    (hf : Followed S.code c) : S.Answered c t (X86.next S.code c) := by
  have hstuck := hf.1
  simp only [X86.next, hc] at hstuck ⊢
  cases hat : atAddress a' S.code with
  | none => simp [hat] at hstuck
  | some code' =>
    have hexec : exec t.2 (.goto (blockLabel a')) = some (.goto (blockLabel a')) := rfl
    refine answered_goTo h hr hs (.inl rfl) hat ?_ hexec
    intro ops hops
    cases hops
    rfl

lemma simulates (S : Setting symbols funcNames) :
    Simulates (X86.next S.code) S.F.next (Followed S.code) S.Related Agrees
      fun c => c.rest.length := by
  intro c t hr hf
  obtain ⟨k, hpos, hs⟩ := hr.position
  cases hrest : S.code.drop k with
  | nil => exact absurd (by simp [X86.next, hpos, hrest]) hf.1
  | cons p rest =>
    obtain ⟨a, i⟩ := p
    have hc : c.rest = (a, i) :: rest := hpos.trans hrest
    have hfollows : Follows c i := hf.2 (a, i) (by simp [hc])
    -- all but jumps and returns are statements that are run, after which the next ones stand
    cases i with
    | plain i =>
      simp only [X86.next, hc]
      refine answered_run hrest hc hs rfl fun ops hops => ⟨_, ?_, hr.flags.step c.state i⟩
      cases hops with
      | plain hembeds =>
        rw [List.flatMap_singleton]
        exact runsTo_step symbols funcNames hembeds hr.state hfollows
    | push src =>
      simp only [X86.next, hc]
      refine answered_run hrest hc hs rfl fun ops hops => ⟨flagWord t.2, ?_, hr.flags⟩
      cases hops with
      | push hop =>
        rw [List.flatMap_singleton]
        exact runsTo_push hr.state hop hfollows
    | pop r =>
      simp only [X86.next, hc]
      refine answered_run hrest hc hs rfl fun ops hops => ⟨flagWord t.2, ?_, hr.flags⟩
      cases hops with
      | pop hdst =>
        rw [List.flatMap_singleton]
        exact runsTo_pop hr.state hdst hfollows
    | leave =>
      simp only [X86.next, hc]
      refine answered_run hrest hc hs rfl fun ops hops => ⟨flagWord t.2, ?_, hr.flags⟩
      cases hops with
      | leave hdst hop hdst' => exact runsTo_leave hr.state hdst hop hdst'
    | nop =>
      simp only [X86.next, hc]
      refine answered_run hrest hc hs rfl fun ops hops => ⟨flagWord t.2, ?_, hr.flags⟩
      cases hops
      exact ⟨t.2, rfl, hr.state, rfl⟩
    | move cond r src => exact answered_move hrest hc hr hs hf
    | jump a' => exact answered_jump hrest hc hr hs hf
    | branch cond a' => exact answered_branch hrest hc hr hs hf
    | ret args =>
      simp only [X86.next, hc]
      exact answered_ret hrest hr hs

lemma related_start (S : Setting symbols funcNames) {σ : Clang.State} {s : X86.State}
    (hm : Matches σ s) (hlocal : S.F.localName = "tmp") :
    S.Related (.start S.code s) (S.F.start σ) := by
  have hne : ∀ r : Reg, place r.base ≠ .var "tmp" := by
    intro r
    rw [place_base]
    simp
  have hdiscard : ∀ σ : Clang.State,
      S.F.next (discardItem :: S.items, σ) = .on (S.items, σ) := fun _ => rfl
  refine ⟨⟨0, rfl, 1, S.items, S.laid, ?_⟩, ⟨fun r => ?_, hm.mem⟩, agree_nil _ _⟩
  · intro σ
    rw [FunctionDef.start, S.body]
    exact .single (hdiscard σ)
  · rw [FunctionDef.start, hlocal, State.set_vars_of_ne σ (hne r), hm.regs]
    rfl

end Setting

end Dexe.Programs
