import Dexe.Straight.Emitted

/-! Instructions that do not write flags: the statements emitted for them keep the flag word. -/

namespace Dexe.Straight

open Std Ir X86 Clang Backend

def moves : List Text := ["mov", "movabs", "movzx", "movsx", "movsxd", "movq", "movd"]

lemma isMove_of_mem {m : Text} (h : m ∈ moves) : IsMove m := by
  have hall : ∀ m ∈ moves, lockedMnemonic m = (false, m) ∧ armOf false m = .mov := by decide
  exact ⟨(hall m h).1, (hall m h).2⟩

def Destination (t : Text) : Prop := (∃ r : X86.Target, t = r.name) ∨ AddressText t

inductive Neutral (d : DisassembledInsn) : Prop
  | move {m dst src : Text} (hm : m ∈ moves) (hdst : Destination dst) (hsrc : OperandText src)
      (h : PrintsAs d m [dst, src])
  | lea {r : X86.Target} {src : Text} (hsrc : AddressText src) (h : PrintsAs d "lea" [r.name, src])
  | push {src : Text} (hsrc : OperandText src) (h : PrintsAs d "push" [src])
  | pop {dst : Text} (hdst : Destination dst) (h : PrintsAs d "pop" [dst])
  | not {r : X86.Target} (h : PrintsAs d "not" [r.name])
  | cmov {c : Code} {t src : Text} {r : X86.Target} (ht : t ∈ c.suffixes) (hsrc : OperandText src)
      (h : PrintsAs d ("cmov" ++ t) [r.name, src])

inductive Quiet : Opcode → Prop
  | mov {dst : VarId} (hdst : dst.base ≠ .rflags) (src : Operand) : Quiet (.mov dst src)
  | load {dst : VarId} (hdst : dst.base ≠ .rflags) (addr : Operand) : Quiet (.load dst addr)
  | store (addr src : Operand) : Quiet (.store addr src)
  | lea {dst : VarId} (hdst : dst.base ≠ .rflags) (addr : Operand) : Quiet (.lea dst addr)
  | push (src : Operand) : Quiet (.push src)
  | pop {dst : VarId} (hdst : dst.base ≠ .rflags) : Quiet (.pop dst)
  | not {dst : VarId} (hdst : dst.base ≠ .rflags) {src : Operand} (hsrc : Wide src) :
      Quiet (.not dst src)
  | cmovcc {dst : VarId} (hdst : dst.base ≠ .rflags) (c : Code) (src : Operand) :
      Quiet (.cmovcc (codeCondition c) dst src)

lemma base_target (r : X86.Target) : dstRegister r.name = some r.parent.base := by
  cases r with
  | whole r => exact dstRegister_name r
  | part r => exact (part_text r).2.2

lemma operandText_target (r : X86.Target) : OperandText r.name :=
  .inl ⟨(piece_target r).ne_nil, plain_target r⟩

lemma base_ne_rflags (r : Reg) : r.base ≠ .rflags := by cases r <;> decide

namespace Destination

variable {t : Text}

lemma operandText (h : Destination t) : OperandText t := by
  rcases h with ⟨r, rfl⟩ | h
  · exact operandText_target r
  · exact .inr h

lemma base_ne (h : Destination t) : (dstRegister t).getD .rax ≠ .rflags := by
  rcases h with ⟨r, rfl⟩ | h
  · rw [base_target, Option.getD_some]
    exact base_ne_rflags r.parent
  · rw [h.dstRegister]
    decide

end Destination

variable {d : DisassembledInsn}

lemma liftMov_quiet {m dst src : Text} (hdst : Destination dst) (hsrc : OperandText src)
    (addr : U64)
    (versions : Versions) :
    ∃ op versions', liftMov [dst, src] m addr versions = some (op, versions') ∧ Quiet op := by
  have hbase : (versions.newVersion ((dstRegister dst).getD .rax)).1.base ≠ .rflags := hdst.base_ne
  by_cases hstore : isMemoryOperand dst ∧ ¬ isMemoryOperand src
  · obtain ⟨a, ha⟩ := Option.isSome_iff_exists.mp
      (hdst.operandText.parseMemoryOperand hstore.1 versions)
    obtain ⟨op, hop⟩ := Option.isSome_iff_exists.mp (hsrc.parseSingleOperand versions)
    exact ⟨_, _, liftMov_store versions m addr hstore.1 hstore.2 ha hop, .store a op⟩
  · by_cases hload : ¬ isMemoryOperand dst ∧ isMemoryOperand src
    · obtain ⟨a, ha⟩ := Option.isSome_iff_exists.mp (hsrc.parseMemoryOperand hload.2
        (versions.newVersion ((dstRegister dst).getD .rax)).2)
      exact ⟨_, _, liftMov_memory versions m addr rfl hload.1 hload.2 ha, .load hbase a⟩
    · obtain ⟨op, hop⟩ := Option.isSome_iff_exists.mp (hsrc.parseSingleOperand
        (versions.newVersion ((dstRegister dst).getD .rax)).2)
      rw [liftMov, if_neg hstore, if_neg hload]
      simp only [hop, Option.bind_eq_bind, Option.bind_some]
      exact ⟨_, _, rfl, .mov hbase op⟩

lemma liftArm_neutral {m : Text} {ts : List Text} {arm : Arm} {op : Opcode}
    {versions versions' : Versions} (h : PrintsAs d m ts)
    (harm : lockedMnemonic m = (false, m) ∧ armOf false m = arm ∧ arm ≠ .leave)
    (hts : ∀ t ∈ ts, Piece t) (hlift : liftArm arm m ts d versions = some (op, versions'))
    (hquiet : Quiet op) :
    ∃ op versions', liftInsn d versions = some ([⟨d.address, op⟩], versions') ∧ Quiet op :=
  ⟨op, versions', liftInsn_printsAs h harm.1 harm.2.1 harm.2.2 hts hlift, hquiet⟩

lemma liftInsn_neutral (h : Neutral d) (versions : Versions) :
    ∃ op versions', liftInsn d versions = some ([⟨d.address, op⟩], versions') ∧ Quiet op := by
  have hbase : ∀ {t : Text}, Destination t →
      (versions.newVersion ((dstRegister t).getD .rax)).1.base ≠ .rflags := fun h => h.base_ne
  have hreg : ∀ r : X86.Target, Destination r.name := fun r => .inl ⟨r, rfl⟩
  cases h with
  | @move m dst src hm hdst hsrc h =>
    obtain ⟨op, versions', hlift, hquiet⟩ := liftMov_quiet (m := m) hdst hsrc d.address versions
    obtain ⟨hlock, harm⟩ := isMove_of_mem hm
    exact liftArm_neutral h ⟨hlock, harm, by decide⟩ (piece_pair hdst.operandText.piece hsrc.piece)
      hlift hquiet
  | @lea r src hsrc h =>
    let p := versions.newVersion ((dstRegister r.name).getD .rax)
    obtain ⟨a, ha⟩ := Option.isSome_iff_exists.mp (hsrc.parseMemoryOperand p.2)
    have hlift : liftArm .lea "lea" [r.name, src] d versions = some (.lea p.1 a, p.2) :=
      (congrArg (Option.bind · _) ha).trans rfl
    exact liftArm_neutral h (by decide) (piece_pair (piece_target r) hsrc.piece) hlift
      (.lea (hbase (hreg r)) a)
  | @push src hsrc h =>
    obtain ⟨op, hop⟩ := Option.isSome_iff_exists.mp (hsrc.parseSingleOperand versions)
    have hlift : liftArm .push "push" [src] d versions = some (.push op, versions) :=
      (congrArg (Option.bind · _) hop).trans rfl
    exact liftArm_neutral h (by decide) (piece_single hsrc.piece) hlift (.push op)
  | @pop dst hdst h =>
    have hlift : liftArm .pop "pop" [dst] d versions = some (_, _) := rfl
    exact liftArm_neutral h (by decide) (piece_single hdst.operandText.piece) hlift
      (.pop (hbase hdst))
  | @not r h =>
    let p := versions.newVersion ((dstRegister r.name).getD .rax)
    have hmem := not_memory_of_plain (plain_target r)
    have hlift : liftArm .not "not" [r.name] d versions =
        some (.not p.1 (.var (versions.currentVar ((dstRegister r.name).getD .rax))), p.2) := by
      simp only [liftArm, liftUnaryReg, if_neg hmem]
      rfl
    exact liftArm_neutral h (by decide) (piece_single (piece_target r)) hlift
      (.not (hbase (hreg r)) (wide_var _))
  | @cmov c t src r ht hsrc h =>
    let p := versions.newVersion ((dstRegister r.name).getD .rax)
    obtain ⟨op, hop⟩ := Option.isSome_iff_exists.mp (hsrc.parseSingleOperand versions)
    have harm : lockedMnemonic ("cmov" ++ t) = (false, "cmov" ++ t) ∧
        armOf false ("cmov" ++ t) = .cmov := arm_of_reader (.move r.name src) ht
    have hcondition : parseConditionSuffix (List.drop 4 ("cmov" ++ t)) = codeCondition c :=
      (suffix_condition ht).2
    have hlift : liftArm .cmov ("cmov" ++ t) [r.name, src] d versions =
        some (.cmovcc (codeCondition c) p.1 op, p.2) := by
      rw [← hcondition]
      exact (congrArg (Option.bind · _) hop).trans rfl
    exact liftArm_neutral h ⟨harm.1, harm.2, by decide⟩
      (piece_pair (piece_target r) hsrc.piece) hlift
      (.cmovcc (hbase (hreg r)) c op)

def KeepsWord (σ : Clang.State) (l : List Stmt) : Prop :=
  ∃ σ', execAll σ l = some σ' ∧ flagWord σ' = flagWord σ

section Keeps

variable {σ : Clang.State} {e : Expr} {v : U64} {dst : VarId}

lemma flagWord_set_of_ne {base : VarBase} (hbase : base ≠ .rflags) (σ : Clang.State) (v : U64) :
    flagWord (σ.set (place base) v) = flagWord σ := by
  have hplace : place .rflags ≠ place base := by
    cases base with
    | rflags => exact absurd rfl hbase
    | temp n => simp [place]
    | _ => decide
  exact State.set_vars_of_ne σ hplace v

lemma keepsWord_setTo (hdst : dst.base ≠ .rflags) (he : HasInt σ e v) :
    KeepsWord σ [setTo dst e] := by
  refine ⟨σ.set (place dst.base) v, ?_, flagWord_set_of_ne hdst σ v⟩
  simp only [execAll, exec_setTo he dst]

lemma hasInt_chooseTree (σ : Clang.State) (c : Code) (src : Operand) (dst : VarId) :
    ∃ v, HasInt σ (chooseTree (codeCondition c) (operandTree src) (varTree dst)) v := by
  obtain ⟨s, hs, hsrcTy, hsrc⟩ := typed_operandTree (σ := σ) src
  obtain ⟨t, ht, hdstTy, hdst⟩ := typed_operandTree (σ := σ) (.var dst)
  have hty : (chooseTree (codeCondition c) (operandTree src) (varTree dst)).valueTy =
      s.common t := by
    rw [chooseTree, Expr.valueTy, hsrcTy, Option.bind_some]
    exact (congrArg (Option.bind · _) hdstTy).trans rfl
  obtain ⟨w, hw, hint⟩ : ∃ w, s.common t = some w ∧ w.isInt = true := by
    rcases hs with rfl | rfl <;> rcases ht with rfl | rfl <;> exact ⟨_, rfl, rfl⟩
  have hcond := eval_cond (truthOf_codeTree σ c) (hty.trans hw)
  have hdst : eval σ (varTree dst) = _ := hdst
  rw [hsrc, hdst] at hcond
  cases h : codeValue (flagWord σ) c with
  | true =>
    rw [h] at hcond
    exact ⟨_, w, hint, hcond⟩
  | false =>
    rw [h] at hcond
    exact ⟨_, w, hint, hcond⟩

end Keeps

variable (symbols : SymbolTable) (funcNames : TreeMap U64 Text)

lemma reads_of_quiet {op : Opcode} (h : Quiet op) : Backend.Reads symbols funcNames op := by
  cases h <;> exact ⟨trivial, by simp [CommentEnds, comment]⟩

lemma keepsWord_quiet {op : Opcode} (h : Quiet op) (σ : Clang.State) :
    KeepsWord σ (opcodeStmts symbols funcNames op) := by
  cases h with
  | mov hdst src => exact keepsWord_setTo hdst (hasInt_operandTree src)
  | load hdst addr =>
    exact keepsWord_setTo hdst (.of_u64 (hasInt_memAddrTree addr).paren.deref)
  | store addr src =>
    have htarget := (hasInt_memAddrTree (σ := σ) addr).paren.target_deref
    have hexec := exec_assign htarget (hasInt_operandTree src)
    refine ⟨σ.poke (addressValue (registersOf σ) σ.mem addr)
      (operandValue (registersOf σ) σ.mem src), ?_, rfl⟩
    simp only [opcodeStmts, derefTree, execAll, hexec]
    rfl
  | lea hdst addr =>
    have hcast := (hasInt_memAddrTree (σ := σ) addr).paren.cast .uint64 (by decide)
    exact keepsWord_setTo hdst (.of_u64 hcast)
  | push src =>
    have hrsp : VarBase.rsp ≠ .rflags := by decide
    have hword := flagWord_set_of_ne hrsp σ (σ.vars (place .rsp) - 8)
    exact ⟨_, execAll_pushStmts (hasInt_operandTree src), hword⟩
  | @pop dst hdst =>
    have hrsp : VarBase.rsp ≠ .rflags := by decide
    exact ⟨_, execAll_popStmts σ dst,
      (flagWord_set_of_ne hrsp _ _).trans (flagWord_set_of_ne hdst σ _)⟩
  | not hdst hsrc => exact keepsWord_setTo hdst (.of_u64 (HasInt.bitNot (eval_operandTree hsrc)))
  | cmovcc hdst c src =>
    obtain ⟨v, hv⟩ := hasInt_chooseTree σ c src _
    exact keepsWord_setTo hdst hv

theorem liftInsns_neutral {ds : List DisassembledInsn} (h : ∀ d ∈ ds, Neutral d)
    (versions : Versions) :
    ∃ irs versions', liftInsns ds versions = some (irs, versions') ∧
      (∀ ir ∈ irs, Backend.Reads symbols funcNames ir.opcode) ∧
      ∀ σ, KeepsWord σ (irs.flatMap fun ir => opcodeStmts symbols funcNames ir.opcode) := by
  induction ds generalizing versions with
  | nil => exact ⟨[], versions, rfl, by simp, fun σ => ⟨σ, rfl, rfl⟩⟩
  | cons d ds ih =>
    rw [List.forall_mem_cons] at h
    obtain ⟨op, v, hop, hquiet⟩ := liftInsn_neutral h.1 versions
    obtain ⟨irs, v', hirs, hreads, hkeeps⟩ := ih h.2 v
    refine ⟨⟨d.address, op⟩ :: irs, v', liftInsns_cons hop hirs, ?_, fun σ => ?_⟩
    · rw [List.forall_mem_cons]
      exact ⟨reads_of_quiet symbols funcNames hquiet, hreads⟩
    · obtain ⟨σ₁, hfirst, hw⟩ := keepsWord_quiet symbols funcNames hquiet σ
      obtain ⟨σ', hrest, hw'⟩ := hkeeps σ₁
      refine ⟨σ', ?_, hw'.trans hw⟩
      rw [List.flatMap_cons, execAll_append, hfirst, Option.bind_some, hrest]

lemma liftInsn_compare {op : CompareOp} {t u : Text} {lhs rhs : Operand} {versions : Versions}
    (hd : PrintsAs d op.mnemonic [t, u]) (hpieces : ∀ v ∈ [t, u], Piece v)
    (hlhs : parseSingleOperand t versions = some lhs)
    (hrhs : parseSingleOperand u versions = some rhs) :
    liftInsn d versions = some ([⟨d.address, compareOpcode op lhs rhs⟩], versions) := by
  cases op with
  | cmp =>
    have hlift : liftArm .cmp CompareOp.cmp.mnemonic [t, u] d versions =
        some (.cmp lhs rhs, versions) := by
      simp only [liftArm, hlhs, hrhs, Option.bind_eq_bind, Option.bind_some]
      rfl
    exact liftInsn_printsAs hd (by decide) (by decide) (by decide) hpieces hlift
  | test =>
    have hlift : liftArm .test CompareOp.test.mnemonic [t, u] d versions =
        some (.test lhs rhs, versions) := by
      simp only [liftArm, hlhs, hrhs, Option.bind_eq_bind, Option.bind_some]
      rfl
    exact liftInsn_printsAs hd (by decide) (by decide) (by decide) hpieces hlift

theorem emittedChoice_compare (op : CompareOp) {a b : Source} {t u : Text} (ht : ReadAs t a)
    (hu : ReadAs u b) (hd : PrintsAs d op.mnemonic [t, u]) {ds : List DisassembledInsn}
    (hds : ∀ d ∈ ds, Neutral d) {reader : DisassembledInsn} {k : Reader} {c : Code}
    (hreader : PrintsReader reader k c) (versions : Versions) {σ : Clang.State} {s : X86.State}
    (hm : Matches σ s) :
    emittedChoice symbols funcNames (d :: ds ++ [reader]) versions σ =
      some (codeValue (compareWord op (s.read a) (s.read b)) c) := by
  obtain ⟨lhs, hlhs, hmeans, -⟩ := ht.parse versions
  obtain ⟨rhs, hrhs, hmeans', -⟩ := hu.parse versions
  have hfirst := liftInsn_compare hd (piece_pair ht.piece hu.piece) hlhs hrhs
  obtain ⟨irs, v, hirs, hreads, hkeeps⟩ := liftInsns_neutral symbols funcNames hds versions
  have hlift : liftInsns (d :: ds) versions =
      some (⟨d.address, compareOpcode op lhs rhs⟩ :: irs, v) := liftInsns_cons hfirst hirs
  have hall : ∀ ir ∈ ⟨d.address, compareOpcode op lhs rhs⟩ :: irs,
      Backend.Reads symbols funcNames ir.opcode := by
    rw [List.forall_mem_cons]
    refine ⟨?_, hreads⟩
    cases op <;> exact ⟨trivial, by simp [CommentEnds, compareOpcode, comment]⟩
  obtain ⟨σ₁, hexec, -, hword⟩ := runsTo_compare symbols funcNames hm hmeans hmeans'
  obtain ⟨σ', hrest, hkept⟩ := hkeeps σ₁
  rw [emittedChoice_eq symbols funcNames hlift hall hreader, List.flatMap_cons, execAll_append,
    hexec, Option.bind_some, hrest, Option.map_some, hkept, hword]

lemma emittedChoice_pair (op : CompareOp) {a b : Source} {t u : Text} (ht : ReadAs t a)
    (hu : ReadAs u b) (hd : PrintsAs d op.mnemonic [t, u]) {reader : DisassembledInsn} {k : Reader}
    {c : Code} (hreader : PrintsReader reader k c) (versions : Versions) {σ : Clang.State}
    {s : X86.State} (hm : Matches σ s) :
    emittedChoice symbols funcNames [d, reader] versions σ =
      some (codeValue (compareWord op (s.read a) (s.read b)) c) := by
  have hnone : ∀ d ∈ ([] : List DisassembledInsn), Neutral d := by simp
  exact emittedChoice_compare symbols funcNames op ht hu hd hnone hreader versions hm

end Dexe.Straight
