import Dexe.Programs.Emitted

/-! A check of the code of a function against a table of what the flags hold at its labels. The
emitted C follows every run of code that passes. -/

namespace Dexe.Programs

open Std Ir X86 Clang Backend Straight Trace

/-- The comparison that wrote what a condition tests, where that is known. -/
abbrev Known := Cond → Option CompareOp

abbrev Labels := U64 → Option Known

def conds : List Cond := [.e, .ne, .l, .le, .g, .ge, .b, .be, .a, .ae, .s, .ns]

lemma mem_conds (c : Cond) : c ∈ conds := by cases c <;> decide

namespace Known

def nothing : Known := fun _ => none

/-- What a multiplication leaves in the flags is not known. -/
def after (k : Known) : Insn → Known
  | .compare op _ _ => fun _ => some op
  | .alu .imul _ _ | .imul _ _ _ => nothing
  | i => fun c => if i.writesTested c then none else k c

def Has (k : Known) (c : Cond) : Prop := ∃ op ∈ k c, Carries (.compare op) c

instance (k : Known) (c : Cond) : Decidable (k.Has c) :=
  inferInstanceAs (Decidable (∃ op ∈ k c, _))

def Within (k k' : Known) : Prop := ∀ c ∈ conds, ∀ op ∈ k c, op ∈ k' c

instance (k k' : Known) : Decidable (k.Within k') :=
  inferInstanceAs (Decidable (∀ c ∈ conds, ∀ op ∈ k c, _))

lemma Within.refl (k : Known) : k.Within k := fun _ _ _ h => h

end Known

def AvoidsStack : Source → Prop
  | .reg r => r ≠ .rsp
  | .imm _ => True
  | .mem m => m.base ≠ some .rsp ∧ ∀ i ∈ m.index, i.1 ≠ .rsp

instance : (src : Source) → Decidable (AvoidsStack src)
  | .reg _ => inferInstanceAs (Decidable (_ ≠ _))
  | .imm _ => inferInstanceAs (Decidable True)
  | .mem _ => inferInstanceAs (Decidable (_ ∧ ∀ i ∈ _, _))

def IsNegation : Insn → Prop
  | .unary .neg _ => True
  | _ => False

instance : DecidablePred IsNegation := fun i => by
  unfold IsNegation
  split <;> infer_instance

/-- A jump goes to an instruction whose label holds no more than is known here. -/
def Reaches (labels : Labels) (code : Program) (k : Known) (t : U64) : Prop :=
  t ∈ code.map Prod.fst ∧ ∃ k' ∈ labels t, Known.Within k' k

instance (labels : Labels) (code : Program) (k : Known) (t : U64) :
    Decidable (Reaches labels code k t) :=
  inferInstanceAs (Decidable (_ ∧ ∃ k' ∈ labels t, _))

def Safe (labels : Labels) (code : Program) (k : Known) : Instr → Prop
  | .plain i => ¬ IsNegation i
  | .push src => AvoidsStack src
  | .pop r => r ≠ .rsp
  | .move c _ _ => k.Has c
  | .jump t => Reaches labels code k t
  | .branch c t => k.Has c ∧ Reaches labels code k t
  | .leave | .nop | .ret _ => True

instance (labels : Labels) (code : Program) (k : Known) : DecidablePred (Safe labels code k)
  | .plain _ => inferInstanceAs (Decidable (¬ _))
  | .push src => inferInstanceAs (Decidable (AvoidsStack src))
  | .pop _ => inferInstanceAs (Decidable (_ ≠ _))
  | .move c _ _ => inferInstanceAs (Decidable (k.Has c))
  | .jump t => inferInstanceAs (Decidable (Reaches labels code k t))
  | .branch _ _ => inferInstanceAs (Decidable (_ ∧ _))
  | .leave | .nop | .ret _ => inferInstanceAs (Decidable True)

def behind (k : Known) : Instr → Option Known
  | .plain i => some (k.after i)
  | .jump _ | .ret _ => none
  | _ => some k

/-- The code is checked from top to bottom, with what is known where control comes from above. No
control comes to the end, and code that none comes to is passed over. -/
def Checked (labels : Labels) (code : Program) : Option Known → Program → Prop
  | above, [] => above.isNone
  | above, p :: rest =>
    (∀ k ∈ labels p.1, ∀ k' ∈ above, Known.Within k k') ∧
      (∀ k ∈ (labels p.1).or above, Safe labels code k p.2) ∧
      Checked labels code (((labels p.1).or above).bind fun k => behind k p.2) rest

instance decidableChecked (labels : Labels) (code : Program) :
    (above : Option Known) → (later : Program) → Decidable (Checked labels code above later)
  | above, [] => inferInstanceAs (Decidable (above.isNone = true))
  | above, p :: rest =>
    have := decidableChecked labels code (((labels p.1).or above).bind fun k => behind k p.2) rest
    inferInstanceAs (Decidable (_ ∧ _ ∧ _))

def Passes (labels : Labels) (code : Program) : Prop :=
  Checked labels code (some .nothing) code

instance (labels : Labels) (code : Program) : Decidable (Passes labels code) :=
  inferInstanceAs (Decidable (Checked _ _ _ _))

variable {labels : Labels} {code later rest : Program} {above : Option Known} {k k' : Known}
  {c c' : Config} {a : U64} {i : Instr}

def Holds (k : Known) (c : Config) : Prop :=
  ∀ cond, ∀ op ∈ k cond, lastWriter cond c.past = some (.compare op) ∧ (c.status.holds cond).isSome

lemma Holds.mono (h : Holds k' c) (hk : k.Within k') : Holds k c :=
  fun cond op hop => h cond op (hk cond (mem_conds cond) op hop)

lemma holds_nothing (c : Config) : Holds .nothing c := by
  intro cond op hop
  cases hop

lemma Holds.goTo (h : Holds k c) (rest : Program) (s : X86.State) : Holds k (c.goTo rest s) := h

lemma isSome_holds_after {f : Status} {cond : Cond} {j : Insn} (hj : j.writesTested cond = false)
    (himul : ∀ dst src, j ≠ .alu .imul dst src) (himul' : ∀ dst lhs rhs, j ≠ .imul dst lhs rhs)
    (h : (f.holds cond).isSome) (s : X86.State) : ((f.after s j).holds cond).isSome := by
  have hsame : (f.after s j).holds cond = f.holds cond := by
    apply Status.holds_congr
    intro x hx
    have hout : x ∉ j.writes := by
      intro hmem
      have := List.any_eq_false.mp hj x hmem
      simp [hx] at this
    rw [Status.after.eq_def]
    split
    · exact absurd rfl (himul _ _)
    · exact absurd rfl (himul' _ _ _)
    · exact if_neg hout
  rw [hsame]
  exact h

lemma Holds.run (h : Holds k c) (rest : Program) (j : Insn) :
    Holds (k.after j) (c.run rest j) := by
  intro cond op hop
  show lastWriter cond (c.past ++ [j]) = _ ∧ ((c.status.after c.state j).holds cond).isSome
  rw [lastWriter_concat]
  by_cases hcompare : ∃ op r src, j = .compare op r src
  · obtain ⟨op', r, src, rfl⟩ := hcompare
    cases hop
    rw [writesTested_compare, holds_after_compare]
    exact ⟨rfl, rfl⟩
  · have hkeep : j.writesTested cond = false ∧ op ∈ k cond ∧
        (∀ dst src, j ≠ .alu .imul dst src) ∧ ∀ dst lhs rhs, j ≠ .imul dst lhs rhs := by
      rw [Known.after.eq_def] at hop
      split at hop
      · exact absurd ⟨_, _, _, rfl⟩ hcompare
      · cases hop
      · cases hop
      · rename_i himul himul'
        cases hj : j.writesTested cond with
        | true => simp [hj] at hop
        | false => exact ⟨rfl, by simpa [hj] using hop, himul, himul'⟩
    obtain ⟨hj, hop, himul, himul'⟩ := hkeep
    obtain ⟨hlast, hsome⟩ := h cond op hop
    rw [if_neg (by simp [hj])]
    exact ⟨hlast, isSome_holds_after hj himul himul' hsome c.state⟩

def Backed (labels : Labels) (code : Program) (c : Config) : Prop :=
  ∃ k, Holds k c ∧ Checked labels code (some k) c.rest

lemma Checked.next (h : Checked labels code (some k) ((a, i) :: rest)) (hk : Holds k c) :
    ∃ k', Holds k' c ∧ Safe labels code k' i ∧ Checked labels code (behind k' i) rest := by
  obtain ⟨hlabel, hsafe, hrest⟩ := h
  cases ha : labels a with
  | none =>
    rw [ha] at hsafe hrest
    exact ⟨k, hk, hsafe k rfl, hrest⟩
  | some k' =>
    rw [ha] at hsafe hrest
    exact ⟨k', hk.mono (hlabel k' ha k rfl), hsafe k' rfl, hrest⟩

lemma Checked.at_label (h : Checked labels code above later) (hk : k ∈ labels a)
    (hat : atAddress a later = some rest) : Checked labels code (some k) rest := by
  induction later generalizing above with
  | nil => cases hat
  | cons p later ih =>
    rw [atAddress] at hat
    split at hat
    · rename_i ha
      cases hat
      obtain ⟨-, hsafe, hrest⟩ := h
      rw [ha, Option.mem_def.mp hk] at hsafe hrest
      refine ⟨fun k' hk' k'' hk'' => ?_, ?_, ?_⟩
      · rw [ha, hk] at hk'
        cases hk'
        cases hk''
        exact Known.Within.refl k
      · rw [ha, Option.mem_def.mp hk]
        exact hsafe
      · rw [ha, Option.mem_def.mp hk]
        exact hrest
    · exact ih h.2.2 hat

lemma exists_atAddress (h : a ∈ code.map Prod.fst) : ∃ rest, atAddress a code = some rest := by
  induction code with
  | nil => cases h
  | cons p code ih =>
    rw [atAddress]
    by_cases ha : p.1 = a
    · exact ⟨p :: code, if_pos ha⟩
    · rw [if_neg ha]
      rcases List.mem_cons.mp h with h | h
      · exact absurd h.symm ha
      · exact ih h

lemma Reaches.backed (hpass : Passes labels code) (h : Reaches labels code k a) (hk : Holds k c) :
    ∃ rest, atAddress a code = some rest ∧ Backed labels code (c.goTo rest c.state) := by
  obtain ⟨hmem, k', hk', hwithin⟩ := h
  obtain ⟨rest, hat⟩ := exists_atAddress hmem
  exact ⟨rest, hat, k', (hk.mono hwithin).goTo _ _, Checked.at_label hpass hk' hat⟩

lemma Known.Has.carried {cond : Cond} (h : k.Has cond) (hk : Holds k c) :
    (∃ w, lastWriter cond c.past = some w ∧ Carries w cond) ∧
      ∃ b, c.status.holds cond = some b := by
  obtain ⟨op, hop, hcarries⟩ := h
  obtain ⟨hlast, hsome⟩ := hk cond op hop
  exact ⟨⟨_, hlast, hcarries⟩, Option.isSome_iff_exists.mp hsome⟩

lemma AvoidsStack.read_lower {src : Source} (h : AvoidsStack src) (s : X86.State) :
    s.lower.read src = s.read src := by
  cases src with
  | reg r => exact (X86.State.lower_regs_eq_iff r).mpr h
  | imm n => rfl
  | mem m =>
    obtain ⟨hbase, hindex⟩ := h
    have hregs : ∀ r, r ≠ .rsp → s.lower.regs r = s.regs r := fun r hr =>
      (X86.State.lower_regs_eq_iff r).mpr hr
    have haddress : m.address s.lower.regs = m.address s.regs := by
      have hb : m.base.elim 0 s.lower.regs = m.base.elim 0 s.regs := by
        cases hm : m.base with
        | none => rfl
        | some r => exact hregs r fun hr => hbase (by rw [hm, hr])
      have hi : (m.index.elim 0 fun i => s.lower.regs i.1 * BitVec.ofNat 64 i.2.factor) =
          m.index.elim 0 fun i => s.regs i.1 * BitVec.ofNat 64 i.2.factor := by
        cases hm : m.index with
        | none => rfl
        | some i =>
          show s.lower.regs i.1 * _ = s.regs i.1 * _
          rw [hregs i.1 (hindex i hm)]
      rw [MemRef.address, MemRef.address, hb, hi]
    show s.mem.load64 _ = s.mem.load64 _
    rw [haddress]

lemma defined_of_not_negation {j : Insn} (h : ¬ IsNegation j) (s : X86.State) : Defined s j := by
  rintro r rfl
  exact absurd trivial h

lemma Backed.step (hpass : Passes labels code) (h : Backed labels code c) :
    (∀ p ∈ c.rest.head?, Follows c p.2) ∧
      ((∃ c', X86.next code c = .on c' ∧ Backed labels code c') ∨
        ∃ s, X86.next code c = .done s) := by
  obtain ⟨k, hk, hchecked⟩ := h
  cases hc : c.rest with
  | nil =>
    rw [hc] at hchecked
    cases hchecked
  | cons p rest =>
    obtain ⟨a, i⟩ := p
    rw [hc] at hchecked
    obtain ⟨k', hk', hsafe, hrest⟩ := hchecked.next hk
    have hhead : Follows c i → ∀ p ∈ ((a, i) :: rest).head?, Follows c p.2 := by
      rintro hi p hp
      cases hp
      exact hi
    simp only [X86.next, hc]
    -- a jump goes on from what its label says, everything else from what is known behind it
    cases i with
    | plain j =>
      exact ⟨hhead (defined_of_not_negation hsafe c.state), .inl ⟨_, rfl, _, hk'.run rest j, hrest⟩⟩
    | push src =>
      exact ⟨hhead (hsafe.read_lower c.state), .inl ⟨_, rfl, _, hk'.goTo _ _, hrest⟩⟩
    | pop r => exact ⟨hhead hsafe, .inl ⟨_, rfl, _, hk'.goTo _ _, hrest⟩⟩
    | leave => exact ⟨hhead trivial, .inl ⟨_, rfl, _, hk'.goTo _ _, hrest⟩⟩
    | nop => exact ⟨hhead trivial, .inl ⟨_, rfl, _, hk'.goTo _ _, hrest⟩⟩
    | move cond r src =>
      obtain ⟨hcarried, b, hb⟩ := Known.Has.carried hsafe hk'
      simp only [hb, Option.elim_some]
      exact ⟨hhead hcarried, .inl ⟨_, rfl, _, hk'.goTo _ _, hrest⟩⟩
    | jump t =>
      obtain ⟨later, hat, hbacked⟩ := Reaches.backed hpass hsafe hk'
      simp only [hat, Option.elim_some]
      exact ⟨hhead trivial, .inl ⟨_, rfl, hbacked⟩⟩
    | branch cond t =>
      obtain ⟨hcarried, b, hb⟩ := hsafe.1.carried hk'
      obtain ⟨later, hat, hbacked⟩ := Reaches.backed hpass hsafe.2 hk'
      simp only [hb, hat, Option.elim_some]
      refine ⟨hhead hcarried, .inl ?_⟩
      cases b with
      | true => exact ⟨_, rfl, hbacked⟩
      | false => exact ⟨_, rfl, _, hk'.goTo _ _, hrest⟩
    | ret args => exact ⟨hhead trivial, .inr ⟨_, rfl⟩⟩

lemma Backed.followed (hpass : Passes labels code) (h : Backed labels code c) :
    Followed code c := by
  obtain ⟨hfollows, hnext⟩ := h.step hpass
  refine ⟨fun hstuck => ?_, hfollows⟩
  rcases hnext with ⟨c', hc', -⟩ | ⟨s, hs⟩
  · rw [hc'] at hstuck
    cases hstuck
  · rw [hs] at hstuck
    cases hstuck

lemma always_followed (hpass : Passes labels code) (s : X86.State) :
    Always (X86.next code) (Followed code) (.start code s) := by
  apply Always.of_invariant _ fun _ => Backed.followed hpass
  · exact ⟨.nothing, holds_nothing _, hpass⟩
  · intro c c' h hn
    obtain ⟨-, ⟨c'', hc'', hbacked⟩ | ⟨s', hs'⟩⟩ := h.step hpass
    · rw [hc''] at hn
      cases hn
      exact hbacked
    · rw [hs'] at hn
      cases hn

/-- A function whose code passes the check is emitted as a C function that refines it from every
state, whatever else is in the file. -/
theorem checked_refines {funcs : List DisassembledFunction} {irs : List IRFunction}
    {symbols : SymbolTable} (hlift : liftAll funcs = some irs)
    (hread : ∀ ir ∈ irs, Readable symbols (funcNameMap irs) ir) :
    ∃ Fs, parseDefinitions (bodies irs symbols) = some Fs ∧
      List.Forall₂ (fun f F => ∀ code labels, Shown f code → Passes labels code →
        ∀ σ s, Matches σ s → Refines code F σ s) funcs Fs := by
  obtain ⟨Fs, hparse, hemits⟩ := emitC_refines hlift hread
  refine ⟨Fs, hparse, hemits.imp fun f F hF code labels hshown hpass σ s hm => ?_⟩
  exact hF.refines code hshown σ s hm (always_followed hpass s)

example : Passes (fun a => if a = 0x1008 then some fun _ => some .cmp else none)
    [(0x1000, .plain (.compare .cmp .rdi (.reg .rsi))), (0x1003, .branch .b 0x1008),
      (0x1005, .plain (.mov .rax (.reg .rdi))), (0x1008, .move .a .rax (.reg .rsi)),
      (0x100c, .ret 0)] := by decide

def sumDownLabels : Labels := fun a => if a = 0x1003 then some .nothing else none

lemma sumDown_passes : Passes sumDownLabels sumDownCode := by decide

theorem sumDown_checked_refines : ∃ irs F, liftAll [sumDown] = some irs ∧
    parseDefinitions (bodies irs ∅) = some [F] ∧
    ∀ σ s, Matches σ s → Refines sumDownCode F σ s := by
  obtain ⟨ir, hir⟩ := shown_sumDown.lifts
  have hlift : liftAll [sumDown] = some [ir] := by
    rw [liftAll, List.mapM_cons, hir]
    rfl
  have hread : ∀ ir' ∈ [ir], Readable ∅ (funcNameMap [ir]) ir' := by
    intro ir' hir'
    rw [List.mem_singleton.mp hir']
    exact shown_sumDown.readable ∅ _ hir
  obtain ⟨Fs, hparse, hall⟩ := checked_refines hlift hread
  cases hall with
  | cons hF hnil =>
    cases hnil
    exact ⟨_, _, hlift, hparse, hF sumDownCode sumDownLabels shown_sumDown sumDown_passes⟩

end Dexe.Programs
