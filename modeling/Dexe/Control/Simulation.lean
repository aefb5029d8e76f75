import Dexe.Control.Layout
import Dexe.Control.Machine

/-! The emitted body runs through the same machine instructions as the instruction list. -/

namespace Dexe.Control

open Cfg Ir Trace

section Positions

variable {p : DisassembledInsn → Bool} {all : List Line}

lemma fromFirst_append {α : Type*} {q : α → Bool} {l : List α} (h : ∀ x ∈ l, q x = false)
    (m : List α) : fromFirst q (l ++ m) = fromFirst q m := by
  induction l with
  | nil => rfl
  | cons x l ih =>
    rw [List.cons_append, fromFirst, h x List.mem_cons_self]
    exact ih fun y hy => h y (List.mem_cons_of_mem _ hy)

lemma fromFirst_suffix {α : Type*} {q : α → Bool} {l m : List α} (h : fromFirst q l = some m) :
    m <:+ l := by
  induction l with
  | nil => cases h
  | cons x l ih =>
    rw [fromFirst] at h
    split at h
    · cases h
      exact List.suffix_refl _
    · exact (ih h).trans (List.suffix_cons x l)

lemma silent_startLines (i : DisassembledInsn) (lines : List Line) :
    Silent (next all) (startLines p i ++ lines) lines := by
  rw [startLines]
  split
  · exact .step rfl (.step rfl (.refl _))
  · exact .refl _

lemma silent_endLines (rest : List DisassembledInsn) (lines : List Line) :
    Silent (next all) (endLines p rest ++ lines) lines := by
  rw [endLines]
  split
  · exact .step rfl (.refl _)
  · exact .refl _

lemma silent_instructionLines {i : DisassembledInsn} {irs : List IRInstruction}
    (h : IsLiftOf i irs) (all lines : List Line) :
    ∃ ir : IRInstruction, ir.addr = i.address ∧ ir.opcode.transfer = transferOf i ∧
      Silent (next all) (instructionLines irs ++ lines) (.instr ir true :: lines) := by
  obtain ⟨before, op, rfl, hbefore, hop⟩ := h
  refine ⟨⟨i.address, op⟩, rfl, hop, ?_⟩
  induction before with
  | nil =>
    simp only [List.nil_append, List.map_cons, List.map_nil, instructionLines]
    exact .refl _
  | cons o before ih =>
    have ho : o.transfer = none := hbefore o List.mem_cons_self
    have hrest := ih fun o' h' => hbefore o' (List.mem_cons_of_mem _ h')
    refine .step ?_ hrest
    simp [instructionLines, next, Line.transfer, Line.event, ho]

def At (p : DisassembledInsn → Bool) (all : List Line) (insns : List DisassembledInsn)
    (lines : List Line) : Prop :=
  ∃ lines', Silent (next all) lines lines' ∧ Layout p insns lines'

lemma Layout.executes {i : DisassembledInsn} {rest : List DisassembledInsn} {lines : List Line}
    (h : Layout p (i :: rest) lines) (all : List Line) :
    ∃ ir after, ir.addr = i.address ∧ ir.opcode.transfer = transferOf i ∧
      Silent (next all) lines (.instr ir true :: after) ∧ At p all rest after := by
  cases h with
  | @cons _ _ irs ls hi hrest =>
    obtain ⟨ir, haddr, htransfer, hsil⟩ :=
      silent_instructionLines hi all (endLines p rest ++ ls)
    refine ⟨ir, endLines p rest ++ ls, haddr, htransfer, ?_, ls, silent_endLines rest ls, hrest⟩
    simp only [List.append_assoc]
    exact (silent_startLines i _).trans hsil

lemma label_not_mem_instructionLines {a : U64} (irs : List IRInstruction) :
    .label a ∉ instructionLines irs := by
  induction irs with
  | nil => simp [instructionLines]
  | cons ir irs ih => simp [instructionLines, ih]

lemma Layout.atLabel {insns : List DisassembledInsn} {lines : List Line} {t : DisassembledInsn}
    (h : Layout p insns lines) (hinc : Increasing insns) (ht : t ∈ insns) (hp : p t = true) :
    ∃ rest lines', fromFirst (fun i => i.address.toNat = t.address.toNat) insns =
        some (t :: rest) ∧ Control.atLabel lines t.address = some lines' ∧
      Layout p (t :: rest) lines' := by
  induction h with
  | nil => simp at ht
  | @cons i rest irs ls hi hrest ih =>
    by_cases hit : i.address = t.address
    · obtain rfl : i = t := hinc.eq_of_address List.mem_cons_self ht hit
      refine ⟨rest, _, by simp [fromFirst], ?_, .cons hi hrest⟩
      simp [Control.atLabel, startLines, hp, fromFirst]
    · have htr : t ∈ rest := by
        rcases List.mem_cons.mp ht with rfl | htr
        · exact absurd rfl hit
        · exact htr
      obtain ⟨rest', ls', hfirst, hlabel, hlayout⟩ := ih hinc.of_cons htr
      refine ⟨rest', ls', ?_, ?_, hlayout⟩
      · have hne : i.address.toNat ≠ t.address.toNat := fun he => hit (BitVec.eq_of_toNat_eq he)
        rw [fromFirst, if_neg (by simpa using hne), hfirst]
      · refine (fromFirst_append ?_ ls).trans hlabel
        intro l hl
        refine decide_eq_false ?_
        rintro rfl
        rcases List.mem_append.mp hl with hl | hl
        · rcases List.mem_append.mp hl with hl | hl
          · rw [startLines] at hl
            split at hl
            · simp [Ne.symm hit] at hl
            · cases hl
          · exact label_not_mem_instructionLines irs hl
        · rw [endLines] at hl
          split at hl <;> simp at hl

end Positions

section Simulation

variable {insns : List DisassembledInsn} {lines : List Line} {p : DisassembledInsn → Bool}

lemma jumpTo_atLabel (hinc : Increasing insns) (hlayout : Layout p insns lines)
    {i t : DisassembledInsn} (ht : t ∈ insns) (hp : p t = true)
    (hop : hexOperand i.opStr = some t.address.toNat) :
    ∃ rest lines', jumpTo insns i.opStr = some rest ∧ atLabel lines t.address = some lines' ∧
      At p lines rest lines' := by
  obtain ⟨rest, lines', hfirst, hlabel, hl⟩ := hlayout.atLabel hinc ht hp
  exact ⟨t :: rest, lines', by rw [jumpTo, hop, Option.bind_some, hfirst], hlabel,
    lines', .refl _, hl⟩

lemma jumpTo_suffix {opStr : Text} {rest : List DisassembledInsn}
    (h : jumpTo insns opStr = some rest) : rest <:+ insns := by
  obtain ⟨n, _, hfirst⟩ := Option.bind_eq_some_iff.mp h
  exact fromFirst_suffix hfirst

lemma condJump_ne_jmp : ∀ mn ∈ condJumps, mn ≠ "jmp" := by decide

lemma simulation_body (hinc : Increasing insns) (hjumps : DirectJumps insns)
    (hlayout : Layout (lead insns) insns lines) :
    Simulation (machineNext insns) (next lines)
      fun s ls => s <:+ insns ∧ At (lead insns) lines s ls := by
  rintro s ls ⟨hsuf, ls', hsil, hl⟩
  cases s with
  | nil =>
    cases hl
    exact ⟨_, hsil, .stop none⟩
  | cons i rest =>
    have hi : i ∈ insns := hsuf.subset List.mem_cons_self
    have hrest : rest <:+ insns := (List.suffix_cons i rest).trans hsuf
    obtain ⟨ir, after, haddr, htransfer, hsil', hafter⟩ := hl.executes lines
    refine ⟨_, hsil.trans hsil', ?_⟩
    have hkind := hjumps i hi
    by_cases hjump : IsJump i.mnemonic
    · rw [if_pos hjump] at hkind
      obtain ⟨t, ht, hop⟩ := hkind
      have hlead : lead insns t = true :=
        decide_eq_true (.inr (.inr ⟨i, hi, hjump, parseHexTarget_target hop⟩))
      obtain ⟨rest', ls'', hto, hlabel, hat⟩ := jumpTo_atLabel hinc hlayout ht hlead hop
      rcases hjump with hjmp | hcond
      · have htr := transferOf_jmp hop hjmp
        rw [machineNext, if_pos hjmp, hto]
        simp only [next, Line.transfer, Line.event, htransfer, htr, hlabel, haddr, Option.elim_some]
        exact .go _ ⟨jumpTo_suffix hto, hat⟩
      · have htr := transferOf_condJump hop hcond
        rw [machineNext, if_neg (condJump_ne_jmp _ hcond), if_pos hcond, hto]
        simp only [next, Line.transfer, Line.event, htransfer, htr, hlabel, haddr, Option.elim_some]
        exact .test _ ⟨jumpTo_suffix hto, hat⟩ ⟨hrest, hafter⟩
    · rw [if_neg hjump] at hkind
      have hj := not_or.mp hjump
      rw [machineNext, if_neg hj.1, if_neg hj.2]
      by_cases hun : i.mnemonic ∈ unconditional
      · rw [if_pos hun]
        simp only [next, Line.transfer, Line.event, htransfer, transferOf_unconditional hun, haddr]
        exact .stop _
      · rw [if_neg hun]
        have hnone := hkind.resolve_left hun
        simp only [next, Line.transfer, Line.event, htransfer, hnone, haddr]
        exact .go _ ⟨hrest, hafter⟩

end Simulation

lemma lift_countdown : (liftFunction (buildCfg countdown)).isSome = true := by decide

end Dexe.Control
