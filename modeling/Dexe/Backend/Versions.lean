import Dexe.Backend.Frame
import Dexe.Ir.Ssa

/-! The values that the reads of a lifted block observe when its emitted statements run. -/

namespace Dexe

open Std Clang Ir

namespace Backend

lemma place_field {base : VarBase} (h : place base ≠ .var "tmp") :
    place base = .field "cpu" (fieldName base) ∧ parseRegister (fieldName base) = some base := by
  cases base with
  | temp n => exact absurd rfl h
  | _ => exact ⟨rfl, by decide⟩

lemma place_inj {a b : VarBase} (ha : place a ≠ .var "tmp") (h : place a = place b) : a = b := by
  have hb : place b ≠ .var "tmp" := by rwa [← h]
  obtain ⟨hplace, hparse⟩ := place_field ha
  obtain ⟨hplace', hparse'⟩ := place_field hb
  rw [hplace, hplace'] at h
  rw [(Place.field.inj h).2] at hparse
  exact Option.some.inj (hparse.symm.trans hparse')

lemma place_dstRegister (t : Text) : place ((dstRegister t).getD .rax) ≠ .var "tmp" := by
  have hall : ∀ p ∈ registerNames, place p.1 ≠ .var "tmp" := by decide
  cases h : dstRegister t with
  | none => exact (by decide : place .rax ≠ .var "tmp")
  | some vb =>
    obtain ⟨p, hp, rfl⟩ := Option.map_eq_some_iff.mp h
    exact hall p (List.mem_of_find?_eq_some hp)

lemma place_definedBase {arm : Arm} {operands : List Text} {base : VarBase}
    (h : definedBase arm operands = some base) : place base ≠ .var "tmp" := by
  rw [definedBase] at h
  cases hd : destination arm operands with
  | some t =>
    rw [hd] at h
    rw [← Option.some.inj h]
    exact place_dstRegister t
  | none =>
    rw [hd] at h
    have hfixed : fixedDestination arm operands = some base := h
    cases arm with
    | mul =>
      rcases operands with _ | ⟨first, _ | ⟨second, more⟩⟩
      · cases hfixed
      · rw [← Option.some.inj hfixed]
        decide
      · rw [← Option.some.inj hfixed]
        exact place_dstRegister first
    | leave =>
      rw [← Option.some.inj hfixed]
      decide
    | _ => rcases operands with _ | ⟨first, _ | ⟨second, more⟩⟩ <;> cases hfixed

lemma place_implicitOf {arm : Arm} {operands : List Text} {base : VarBase}
    (h : base ∈ implicitOf arm operands) : place base ≠ .var "tmp" := by
  have hall : ∀ l ∈ ([[.rsp], [.rsp, .rax], [.rflags], []] : List (List VarBase)), ∀ base ∈ l,
      place base ≠ .var "tmp" := by
    decide
  apply hall (implicitOf arm operands) _ base h
  simp only [implicitOf]
  split
  all_goals try split
  all_goals decide

end Backend

namespace Ir

open Backend

def Silent (insn : DisassembledInsn) : Prop :=
  ∃ base ∈ implicitOf (armOfInsn insn) (parseOperands insn.opStr),
    definedBase (armOfInsn insn) (parseOperands insn.opStr) ≠ some base

instance : DecidablePred Silent := fun insn =>
  inferInstanceAs (Decidable (∃ base ∈ implicitOf (armOfInsn insn) (parseOperands insn.opStr),
    definedBase (armOfInsn insn) (parseOperands insn.opStr) ≠ some base))

end Ir

namespace Backend

variable (symbols : SymbolTable) (funcNames : TreeMap U64 Text)

def Accompanied (op : Opcode) : Prop :=
  ∀ p ∈ assignedPlaces symbols funcNames op, ∃ v ∈ op.dst, place v.base = p

lemma accompanied_iff {op : Opcode} {arm : Arm} {operands : List Text}
    (h : AssignSpec arm operands op) :
    Accompanied symbols funcNames op ↔
      ∀ base ∈ implicitOf arm operands, definedBase arm operands = some base := by
  constructor
  · intro hop base hbase
    have hmem : place base ∈ assignedPlaces symbols funcNames op := by
      rw [mem_assignedPlaces, h.implicit]
      exact .inr ⟨base, hbase, rfl⟩
    obtain ⟨v, hv, hplace⟩ := hop (place base) hmem
    rw [← h.dst, Option.mem_def.mp hv, place_inj (place_implicitOf hbase) hplace.symm]
    rfl
  · intro hall p hp
    rw [mem_assignedPlaces, h.implicit] at hp
    rcases hp with hp | ⟨base, hbase, rfl⟩
    · exact hp
    · have hdst := hall base hbase
      rw [← h.dst] at hdst
      obtain ⟨v, hv, rfl⟩ := Option.map_eq_some_iff.mp hdst
      exact ⟨v, hv, rfl⟩

lemma accompanied_insn {insn : DisassembledInsn} {versions versions' : Versions}
    {irs : List IRInstruction} (h : liftInsn insn versions = some (irs, versions')) :
    (∀ ir ∈ irs, Accompanied symbols funcNames ir.opcode) ↔ ¬ Silent insn := by
  obtain ⟨op, hop, rfl⟩ := liftInsn_eq h
  have hspec : AssignSpec (armOfInsn insn) (parseOperands insn.opStr) op :=
    liftArm_assign rfl hop
  have hlast : Accompanied symbols funcNames op ↔ ¬ Silent insn := by
    rw [accompanied_iff symbols funcNames hspec, Silent]
    simp only [not_exists, not_and, not_not]
  have hbefore : ∀ o ∈ (liftBefore (armOfInsn insn) versions).1,
      Accompanied symbols funcNames o := by
    intro o ho
    cases harm : armOfInsn insn with
    | leave =>
      rw [harm] at ho
      rw [List.mem_singleton.mp ho]
      intro p hp
      rw [mem_assignedPlaces] at hp
      exact hp.resolve_right (by rintro ⟨base, hbase, -⟩; cases hbase)
    | _ =>
      rw [harm] at ho
      cases ho
  rw [← hlast]
  constructor
  · intro hall
    exact hall ⟨insn.address, op⟩ (by simp)
  · intro hop' ir hir
    obtain ⟨o, ho, rfl⟩ := List.mem_map.mp hir
    rcases List.mem_append.mp ho with ho | ho
    · exact hbefore o ho
    · rwa [List.mem_singleton.mp ho]

lemma definitions_insn {insn : DisassembledInsn} {versions versions' : Versions}
    {irs : List IRInstruction} (h : liftInsn insn versions = some (irs, versions')) :
    (definitions irs).map VarId.base = numbered insn := by
  obtain ⟨op, hop, rfl⟩ := liftInsn_eq h
  have hspec : AssignSpec (armOfInsn insn) (parseOperands insn.opStr) op :=
    liftArm_assign rfl hop
  have hlast : op.dst.toList.map VarId.base =
      (definedBase (armOfInsn insn) (parseOperands insn.opStr)).toList := by
    rw [← hspec.dst]
    cases op.dst <;> rfl
  have hone : definitions ([op].map fun op => ⟨insn.address, op⟩) = op.dst.toList := by
    cases hdst : op.dst <;> simp [definitions, hdst]
  have hsplit : ∀ l l', definitions (l ++ l') = definitions l ++ definitions l' :=
    fun l l' => List.filterMap_append
  rw [numbered, ← hlast, List.map_append, hsplit, List.map_append, hone]
  congr 1
  by_cases harm : armOfInsn insn = .leave
  · rw [if_pos harm, harm]
    rfl
  · rw [if_neg harm, liftBefore_of_ne harm]
    rfl

lemma accompanied_insns {insns : List DisassembledInsn} {versions versions' : Versions}
    {irs : List IRInstruction} (h : liftInsns insns versions = some (irs, versions')) :
    (∀ ir ∈ irs, Accompanied symbols funcNames ir.opcode) ↔ ∀ insn ∈ insns, ¬ Silent insn := by
  induction insns generalizing versions irs with
  | nil =>
    cases h
    simp
  | cons insn insns ih =>
    obtain ⟨⟨first, w⟩, hfirst, h⟩ := Option.bind_eq_some_iff.mp h
    obtain ⟨⟨rest, w'⟩, hrest, h⟩ := Option.bind_eq_some_iff.mp h
    cases h
    rw [List.forall_mem_append, List.forall_mem_cons, accompanied_insn symbols funcNames hfirst,
      ih hrest]

lemma place_dst_insn {insn : DisassembledInsn} {versions versions' : Versions}
    {irs : List IRInstruction} (h : liftInsn insn versions = some (irs, versions')) :
    ∀ ir ∈ irs, ∀ v ∈ ir.opcode.dst, place v.base ≠ .var "tmp" := by
  obtain ⟨op, hop, rfl⟩ := liftInsn_eq h
  have hspec : AssignSpec (armOfInsn insn) (parseOperands insn.opStr) op :=
    liftArm_assign rfl hop
  intro ir hir v hv
  obtain ⟨o, ho, rfl⟩ := List.mem_map.mp hir
  rcases List.mem_append.mp ho with ho | ho
  · cases harm : armOfInsn insn with
    | leave =>
      rw [harm] at ho
      rw [List.mem_singleton.mp ho] at hv
      cases hv
      exact (by decide : place .rsp ≠ .var "tmp")
    | _ =>
      rw [harm] at ho
      cases ho
  · rw [List.mem_singleton.mp ho] at hv
    apply place_definedBase
    rw [← hspec.dst, Option.mem_def.mp hv]
    rfl

lemma place_dst_insns {insns : List DisassembledInsn} {versions versions' : Versions}
    {irs : List IRInstruction} (h : liftInsns insns versions = some (irs, versions')) :
    ∀ ir ∈ irs, ∀ v ∈ ir.opcode.dst, place v.base ≠ .var "tmp" := by
  induction insns generalizing versions irs with
  | nil =>
    cases h
    simp
  | cons insn insns ih =>
    obtain ⟨⟨first, w⟩, hfirst, h⟩ := Option.bind_eq_some_iff.mp h
    obtain ⟨⟨rest, w'⟩, hrest, h⟩ := Option.bind_eq_some_iff.mp h
    cases h
    rw [List.forall_mem_append]
    exact ⟨place_dst_insn hfirst, ih hrest⟩

def leading (op : Opcode) : List Stmt := (opcodeStmts symbols funcNames op).dropLast

def reading (op : Opcode) : List Stmt := (opcodeStmts symbols funcNames op).getLast?.toList

def instructionStmts (irs : List IRInstruction) : List Stmt :=
  irs.flatMap fun ir => opcodeStmts symbols funcNames ir.opcode

/-- The opcode reads the variable in a state: as a source, or as the value that a choice keeps since
its condition is false. -/
def ReadsIn (σ : State) (op : Opcode) (v : VarId) : Prop :=
  v ∈ op.sourceVars ∨ ∃ condition src, op = .cmovcc condition v src ∧
    (eval σ (condTree condition)).bind Val.truth = some false

/-- Two instructions that read one variable observe one value in every run between them. -/
def ReadsAgree (irs : List IRInstruction) : Prop :=
  ∀ pre ir mid ir' post, irs = pre ++ ir :: mid ++ ir' :: post →
    ∀ σ₀ σ σ', Passes σ₀ (instructionStmts symbols funcNames pre ++
        leading symbols funcNames ir.opcode) σ →
      Passes σ (reading symbols funcNames ir.opcode ++ instructionStmts symbols funcNames mid ++
        leading symbols funcNames ir'.opcode) σ' →
      ∀ v, ReadsIn σ ir.opcode v → ReadsIn σ' ir'.opcode v →
        σ'.vars (place v.base) = σ.vars (place v.base)

variable {symbols funcNames}

lemma not_accompanied {op : Opcode} {base : VarBase} (hdst : op.dst = none)
    (hbase : base ∈ op.implicit) : ¬ Accompanied symbols funcNames op := by
  intro h
  have hmem : place base ∈ assignedPlaces symbols funcNames op := by
    rw [mem_assignedPlaces]
    exact .inr ⟨base, hbase, rfl⟩
  obtain ⟨v, hv, -⟩ := h (place base) hmem
  rw [hdst] at hv
  cases hv

lemma leading_of_accompanied {op : Opcode} (h : Accompanied symbols funcNames op) {σ : State}
    {v : VarId} (hv : ReadsIn σ op v) : leading symbols funcNames op = [] := by
  cases op with
  | push src => exact absurd h (not_accompanied rfl (List.mem_singleton_self _))
  | call target fallthrough => exact absurd h (not_accompanied rfl List.mem_cons_self)
  | pop dst =>
    rcases hv with hv | ⟨_, _, hop, -⟩
    · cases hv
    · cases hop
  | atomicRMW op addr src =>
    have hone : leading symbols funcNames (.atomicRMW op addr src) = [] := by
      rw [leading, opcodeStmts]
      split <;> rfl
    exact hone
  | _ => rfl

lemma isCall_operandTree (op : Operand) : isCall (operandTree op) = false :=
  isCall_of_hasInt (σ := ⟨fun _ => 0, fun _ => 0⟩) (hasInt_operandTree op)

lemma callsOut_of_accompanied {op : Opcode} (h : Accompanied symbols funcNames op) :
    ∀ s ∈ opcodeStmts symbols funcNames op, callsOut s = false := by
  intro s hs
  cases op with
  | push src => exact absurd h (not_accompanied rfl (List.mem_singleton_self _))
  | call target fallthrough => exact absurd h (not_accompanied rfl List.mem_cons_self)
  | mov dst src =>
    rw [List.mem_singleton.mp hs]
    exact isCall_operandTree src
  | store addr src =>
    rw [List.mem_singleton.mp hs]
    exact isCall_operandTree src
  | pop dst =>
    rcases List.mem_cons.mp hs with rfl | hs
    · rfl
    · rw [List.mem_singleton.mp hs]
      rfl
  | atomicRMW op addr src =>
    have hnone : ∀ s ∈ opcodeStmts symbols funcNames (.atomicRMW op addr src),
        callsOut s = false := by
      rw [opcodeStmts]
      split <;> simp [callsOut]
    exact hnone s hs
  | nop | unknown => cases hs
  | _ =>
    rw [List.mem_singleton.mp hs]
    rfl

lemma mem_instructionStmts {irs : List IRInstruction} {s : Stmt} :
    s ∈ instructionStmts symbols funcNames irs ↔
      ∃ ir ∈ irs, s ∈ opcodeStmts symbols funcNames ir.opcode := List.mem_flatMap

lemma mem_of_mem_reading {op : Opcode} {s : Stmt} (h : s ∈ reading symbols funcNames op) :
    s ∈ opcodeStmts symbols funcNames op :=
  List.mem_of_getLast? (Option.mem_toList.mp h)

lemma passes_kept {condition : Condition} {dst : VarId} {src : Operand} {σ σ' : State}
    (hfalse : (eval σ (condTree condition)).bind Val.truth = some false)
    (h : Passes σ (reading symbols funcNames (.cmovcc condition dst src)) σ') :
    σ'.vars (place dst.base) = σ.vars (place dst.base) := by
  obtain ⟨ty, hty, hsrc, -⟩ := typed_operandTree (σ := σ) src
  have hdst : (varTree dst).valueTy = some .u64 := (eval_operandTy (σ := σ) (.var dst)).1
  have hcommon : (chooseTree condition (operandTree src) (varTree dst)).valueTy = some .u64 := by
    rw [chooseTree, Expr.valueTy, hsrc, hdst]
    rcases hty with rfl | rfl <;> rfl
  have hcond : eval σ (chooseTree condition (operandTree src) (varTree dst)) =
      some ⟨.u64, σ.vars (place dst.base)⟩ := by
    have hparen : (eval σ (.paren (.paren (condTree condition)))).bind Val.truth = some false :=
      hfalse
    rw [chooseTree, eval_cond hparen hcommon, if_neg Bool.false_ne_true, eval_varTree]
    rfl
  have hexec := exec_setTo (.of_u64 hcond) dst
  have hstmts : reading symbols funcNames (.cmovcc condition dst src) =
      [setTo dst (chooseTree condition (operandTree src) (varTree dst))] := rfl
  rw [hstmts] at h
  cases h with
  | next hs hl =>
    rw [hexec] at hs
    cases hs
    cases hl
    exact State.set_vars_self ..
  | builtin hs | call hs =>
    rw [hexec] at hs
    cases hs

lemma passes_undefined {irs : List IRInstruction} {base : VarBase} {stmts : List Stmt}
    {σ σ' : State} (haccompanied : ∀ ir ∈ irs, Accompanied symbols funcNames ir.opcode)
    (hplace : ∀ ir ∈ irs, ∀ v ∈ ir.opcode.dst, place v.base ≠ .var "tmp")
    (hnone : ∀ ir ∈ irs, ∀ v ∈ ir.opcode.dst, v.base ≠ base)
    (hstmts : ∀ s ∈ stmts, ∃ ir ∈ irs, s ∈ opcodeStmts symbols funcNames ir.opcode)
    (hrun : Passes σ stmts σ') : σ'.vars (place base) = σ.vars (place base) := by
  apply passes_frame hrun
  · intro s hs hassigned
    obtain ⟨ir, hir, hs⟩ := hstmts s hs
    have hp : place base ∈ assignedPlaces symbols funcNames ir.opcode :=
      List.mem_filterMap.mpr ⟨s, hs, hassigned⟩
    obtain ⟨w, hw, hwp⟩ := haccompanied ir hir _ hp
    exact hnone ir hir w hw (place_inj (hplace ir hir w hw) hwp)
  · intro s hs
    obtain ⟨ir, hir, hs⟩ := hstmts s hs
    exact callsOut_of_accompanied (haccompanied ir hir) s hs

variable (symbols funcNames)

lemma readsAgree_of_latest {irs : List IRInstruction}
    (hreads : Collections.Along defineStep ReadsCurrent Versions.initial irs)
    (hallocates : Collections.Along defineStep AllocatesNext Versions.initial irs)
    (hcount : ∀ base, ((definitions irs).filter (·.base = base)).length < 2 ^ 32)
    (haccompanied : ∀ ir ∈ irs, Accompanied symbols funcNames ir.opcode)
    (hplace : ∀ ir ∈ irs, ∀ v ∈ ir.opcode.dst, place v.base ≠ .var "tmp") :
    ReadsAgree symbols funcNames irs := by
  intro pre ir mid ir' post hsplit σ₀ σ σ' _ hrun v hv hv'
  have hmem : ∀ i ∈ ir :: mid, i ∈ irs := by
    intro i hi
    rw [hsplit]
    simp only [List.mem_append]
    exact .inl (.inr hi)
  have hmem' : ir' ∈ irs := by simp [hsplit]
  rw [leading_of_accompanied (haccompanied ir' hmem') hv', List.append_nil] at hrun
  -- what the second instruction reads is not what it defines, if that was there before
  have hlatest : ∀ old new, old ++ new = pre ++ ir :: mid → v.version = latest v.base old →
      ∀ i ∈ new, ∀ w ∈ i.opcode.dst, w.base ≠ v.base := by
    intro old new hsame hold
    rw [← hsame] at hsplit
    subst hsplit
    rcases hv' with hsource | ⟨condition, src, hop, -⟩
    · have hnew := latest_of_reads hreads rfl hsource
      exact no_definition hallocates (hcount v.base) (hold.symm.trans hnew)
    · have hdst : v ∈ ir'.opcode.dst := by rw [hop]; rfl
      exact absurd hold.symm (latest_ne_next hallocates (hcount v.base) hdst)
  have hstmts : ∀ s ∈ instructionStmts symbols funcNames mid,
      ∃ i ∈ mid, s ∈ opcodeStmts symbols funcNames i.opcode :=
    fun s hs => mem_instructionStmts.mp hs
  rcases hv with hsource | ⟨condition, src, hop, hfalse⟩
  · have hold := latest_of_reads hreads (hsplit.trans (List.append_assoc ..)) hsource
    refine passes_undefined (fun i hi => haccompanied i (hmem i hi))
      (fun i hi => hplace i (hmem i hi)) (hlatest pre (ir :: mid) rfl hold) ?_ hrun
    intro s hs
    rcases List.mem_append.mp hs with hs | hs
    · exact ⟨ir, List.mem_cons_self, mem_of_mem_reading hs⟩
    · obtain ⟨i, hi, hs⟩ := hstmts s hs
      exact ⟨i, List.mem_cons_of_mem _ hi, hs⟩
  · have hdst : v ∈ ir.opcode.dst := by rw [hop]; rfl
    obtain ⟨σ₁, hfirst, hrest⟩ := hrun.split
    rw [hop] at hfirst
    have hmid := hlatest (pre ++ [ir]) mid (by simp) (latest_of_dst hdst)
    exact (passes_undefined (fun i hi => haccompanied i (hmem i (List.mem_cons_of_mem _ hi)))
      (fun i hi => hplace i (hmem i (List.mem_cons_of_mem _ hi))) hmid hstmts hrest).trans
        (passes_kept hfalse hfirst)

lemma definitions_insns {insns : List DisassembledInsn} {versions versions' : Versions}
    {irs : List IRInstruction} (h : liftInsns insns versions = some (irs, versions')) :
    (definitions irs).map VarId.base = insns.flatMap numbered := by
  induction insns generalizing versions irs with
  | nil =>
    cases h
    rfl
  | cons insn insns ih =>
    obtain ⟨⟨first, w⟩, hfirst, h⟩ := Option.bind_eq_some_iff.mp h
    obtain ⟨⟨rest, w'⟩, hrest, h⟩ := Option.bind_eq_some_iff.mp h
    cases h
    rw [definitions, List.filterMap_append, List.map_append, List.flatMap_cons, ← ih hrest,
      ← definitions_insn hfirst]
    rfl

/-- Every assignment of a block is a definition exactly when no instruction is silent; without
silent instructions, and without one that reads what it defines, a variable is one value. -/
theorem versions_denote {cfg : ControlFlowGraph} {function : IRFunction} {id : BlockId}
    {bb : BasicBlock} {b : IRBlock} (hlift : liftFunction cfg = some function)
    (hbb : cfg.blocks[id]? = some bb) (hb : function.blocks[id]? = some b) :
    ((∀ ir ∈ b.instructions, Accompanied symbols funcNames ir.opcode) ↔
      ∀ insn ∈ bb.instructions, ¬ Silent insn) ∧
    ((∀ insn ∈ bb.instructions, ¬ Silent insn ∧ ¬ SelfReads insn) →
      (∀ base, (bb.instructions.flatMap numbered).count base < 2 ^ 32) →
        ReadsAgree symbols funcNames b.instructions) := by
  obtain ⟨versions, hirs⟩ := liftInsns_of_block hlift hbb hb
  obtain ⟨hallocates, hreads, -, -⟩ := liftInsns_spec hirs
  have haccompanied := accompanied_insns symbols funcNames hirs
  refine ⟨haccompanied, ?_⟩
  intro hquiet hcount
  apply readsAgree_of_latest symbols funcNames _ hallocates
  · intro base
    have hbase := hcount base
    rw [← definitions_insns hirs, List.count, List.countP_map, List.countP_eq_length_filter]
      at hbase
    exact hbase
  · exact haccompanied.mpr fun insn h => (hquiet insn h).1
  · exact place_dst_insns hirs
  · exact hreads.mpr fun insn h => (hquiet insn h).2

def readAroundPush : DisassembledFunction :=
  ⟨"read_around_push", 0x1000, 0x1008,
    [⟨0x1000, 3, "mov", "rax, rsp", []⟩, ⟨0x1003, 1, "push", "rbx", []⟩,
      ⟨0x1004, 3, "mov", "rcx, rsp", []⟩, ⟨0x1007, 1, "ret", "", []⟩]⟩

def readAroundPushBlock : BasicBlock := ⟨0, 0x1000, 0x1008, readAroundPush.instructions, .ret⟩

def readAroundPushIr : IRBlock :=
  ⟨0, 0x1000,
    [⟨0x1000, .mov ⟨.rax, 1⟩ (.var ⟨.rsp, 0⟩)⟩, ⟨0x1003, .push (.var ⟨.rbx, 0⟩)⟩,
      ⟨0x1004, .mov ⟨.rcx, 1⟩ (.var ⟨.rsp, 0⟩)⟩, ⟨0x1007, .ret⟩]⟩

lemma readAroundPush_block : (buildCfg readAroundPush).blocks[0]? = some readAroundPushBlock := by
  decide

lemma lift_readAroundPush : (liftFunction (buildCfg readAroundPush)).isSome = true := by decide

lemma lift_readAroundPushBlock : liftBlock 0 readAroundPushBlock = some readAroundPushIr := by
  decide

theorem readAroundPush_disagrees :
    ∃ function b, liftFunction (buildCfg readAroundPush) = some function ∧
      function.blocks[0]? = some b ∧
      (¬ ∀ ir ∈ b.instructions, Accompanied ∅ ∅ ir.opcode) ∧ ¬ ReadsAgree ∅ ∅ b.instructions := by
  obtain ⟨function, hlift⟩ := Option.isSome_iff_exists.mp lift_readAroundPush
  have hb := (liftFunction_getElem? hlift readAroundPush_block).trans lift_readAroundPushBlock
  refine ⟨function, readAroundPushIr, hlift, hb, ?_, ?_⟩
  · intro hall
    exact not_accompanied rfl (List.mem_singleton_self _)
      (hall ⟨0x1003, .push (.var ⟨.rbx, 0⟩)⟩ (by decide))
  · intro h
    let σ : State := ⟨fun _ => 0, fun _ => 0⟩
    have hmov := exec_setTo (hasInt_varTree (σ := σ) ⟨.rsp, 0⟩) ⟨.rax, 1⟩
    have hstore := exec_stackSlot
      (hasInt_varTree (σ := (σ.set (place .rax) 0).set (place .rsp) (-8))
      ⟨.rbx, 0⟩)
    have hrun := Passes.next hmov (.next (exec_subStack _) (.next hstore (.nil _)))
    have hread := h [] _ [⟨0x1003, .push (.var ⟨.rbx, 0⟩)⟩] _ [⟨0x1007, .ret⟩] rfl σ σ _ (.nil σ)
      hrun ⟨.rsp, 0⟩ (.inl (by decide)) (.inl (by decide))
    exact absurd hread (by decide)

def readTwice : DisassembledFunction :=
  ⟨"read_twice", 0x1000, 0x100b,
    [⟨0x1000, 3, "mov", "rax, rsp", []⟩, ⟨0x1003, 4, "cmove", "rcx, rsp", []⟩,
      ⟨0x1007, 3, "add", "rdx, rcx", []⟩, ⟨0x100a, 1, "ret", "", []⟩]⟩

def readTwiceBlock : BasicBlock := ⟨0, 0x1000, 0x100b, readTwice.instructions, .ret⟩

lemma readTwice_block : (buildCfg readTwice).blocks[0]? = some readTwiceBlock := by decide

lemma lift_readTwice : (liftFunction (buildCfg readTwice)).isSome = true := by decide

lemma lift_readTwiceBlock : (liftBlock 0 readTwiceBlock).isSome = true := by decide

theorem readTwice_agrees :
    ∃ function b, liftFunction (buildCfg readTwice) = some function ∧
      function.blocks[0]? = some b ∧
      (∀ ir ∈ b.instructions, Accompanied ∅ ∅ ir.opcode) ∧ ReadsAgree ∅ ∅ b.instructions := by
  obtain ⟨function, hlift⟩ := Option.isSome_iff_exists.mp lift_readTwice
  obtain ⟨b, hb⟩ := Option.isSome_iff_exists.mp lift_readTwiceBlock
  have hblock := (liftFunction_getElem? hlift readTwice_block).trans hb
  obtain ⟨haccompanied, hagree⟩ := versions_denote ∅ ∅ hlift readTwice_block hblock
  exact ⟨function, b, hlift, hblock, haccompanied.mpr (by decide),
    hagree (by decide) fun base => List.count_le_length.trans_lt (by decide)⟩

end Backend

end Dexe
