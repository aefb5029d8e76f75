import Dexe.Ir.PrintedTexts
import Dexe.Straight.Refinement
import Dexe.X86.Codes

/-! Instructions that read a condition: what they are lifted to, and what C reads there. -/

namespace Dexe.Straight

open Std Ir X86 Clang Backend Collections

def condition : Cond → Condition
  | .e => .equal
  | .ne => .notEqual
  | .l => .less
  | .le => .lessEqual
  | .g => .greater
  | .ge => .greaterEqual
  | .b => .below
  | .be => .belowEqual
  | .a => .above
  | .ae => .aboveEqual
  | .s => .sign
  | .ns => .notSign

def codeCondition : Code → Condition
  | .cond c => condition c
  | .o => .overflow
  | .no => .notOverflow
  | .p => .parity
  | .np => .notParity

structure PrintsConditional (d : DisassembledInsn) (k : Conditional) : Prop where
  mnemonic : d.mnemonic = k.mnemonic
  operands : d.opStr = operandsText k.operands

def destinationBase (t : Text) : VarBase := (dstRegister t).getD .rax

def sourceTree (t : Text) : Option Expr :=
  (parseSingleOperand t Versions.initial).map operandTree

inductive ReadsCondition (c : Condition) : List Text → Opcode → Prop
  | jcc (target : Text) (fallthrough : U64) :
      ReadsCondition c [target] (.jcc c (jccTarget [target]) fallthrough)
  | cmovcc {dst src : Text} {v : VarId} {op : Operand} (hdst : v.base = destinationBase dst)
      (hsrc : sourceTree src = some (operandTree op)) : ReadsCondition c [dst, src] (.cmovcc c v op)
  | setcc {dst : Text} {v : VarId} (hdst : v.base = destinationBase dst) :
      ReadsCondition c [dst] (.setcc c v)

lemma sourceTree_of_parse {t : Text} {versions : Versions} {op : Operand}
    (h : parseSingleOperand t versions = some op) : sourceTree t = some (operandTree op) := by
  obtain ⟨x, hx⟩ := parseSingleOperand_from t
  have htrees : ∀ versions,
      (parseSingleOperand t versions).map operandTree = x.map operandTree := by
    intro versions
    rw [hx, Option.map_map]
    congr 1
    funext op
    show operandTree (op.current versions) = operandTree op
    rw [← operandTree_erase (op.current versions), Operand.erase_current, operandTree_erase]
  rw [sourceTree, htrees, ← htrees versions, h, Option.map_some]

structure PrintsReader (d : DisassembledInsn) (k : Reader) (c : Code) : Prop where
  mnemonic : ∃ t ∈ c.suffixes, d.mnemonic = k.stem ++ t
  operands : d.opStr = operandsText k.operands
  texts : ∀ t ∈ k.operands, OperandText t

def armOfReader : Reader → Arm
  | .jump _ => .condJump
  | .move _ _ => .cmov
  | .set _ => .set

lemma arm_of_reader (k : Reader) {c : Code} {t : Text} (ht : t ∈ c.suffixes) :
    lockedMnemonic (k.stem ++ t) = (false, k.stem ++ t) ∧
      armOf false (k.stem ++ t) = armOfReader k := by
  have hjump : ∀ c ∈ codes, ∀ t ∈ c.suffixes,
      lockedMnemonic ("j" ++ t) = (false, "j" ++ t) ∧ armOf false ("j" ++ t) = .condJump := by
    decide
  have hmove : ∀ c ∈ codes, ∀ t ∈ c.suffixes,
      lockedMnemonic ("cmov" ++ t) = (false, "cmov" ++ t) ∧ armOf false ("cmov" ++ t) = .cmov := by
    decide
  have hset : ∀ c ∈ codes, ∀ t ∈ c.suffixes,
      lockedMnemonic ("set" ++ t) = (false, "set" ++ t) ∧ armOf false ("set" ++ t) = .set := by
    decide
  cases k with
  | jump target => exact hjump c (mem_codes c) t ht
  | move dst src => exact hmove c (mem_codes c) t ht
  | set dst => exact hset c (mem_codes c) t ht

lemma suffix_condition {c : Code} {t : Text} (ht : t ∈ c.suffixes) :
    parseConditionSuffix ("j" ++ t) = codeCondition c ∧
      parseConditionSuffix t = codeCondition c := by
  have hall : ∀ c ∈ codes, ∀ t ∈ c.suffixes, parseConditionSuffix ("j" ++ t) = codeCondition c ∧
      parseConditionSuffix t = codeCondition c := by decide
  exact hall c (mem_codes c) t ht

lemma liftArm_reader (k : Reader) {c : Code} {t : Text} (ht : t ∈ c.suffixes)
    (htexts : ∀ t ∈ k.operands, OperandText t) (d : DisassembledInsn) (versions : Versions) :
    ∃ op versions', liftArm (armOfReader k) (k.stem ++ t) k.operands d versions =
      some (op, versions') ∧ ReadsCondition (codeCondition c) k.operands op := by
  obtain ⟨hjump, hplain⟩ := suffix_condition ht
  cases k with
  | jump target =>
    refine ⟨_, versions, rfl, ?_⟩
    have hc : parseConditionSuffix ((Reader.jump target).stem ++ t) = codeCondition c := hjump
    rw [hc]
    exact .jcc _ _
  | move dst src =>
    obtain ⟨op, hop⟩ := Option.isSome_iff_exists.mp
      ((htexts src (by simp [Reader.operands])).parseSingleOperand versions)
    refine ⟨_, _, (congrArg (Option.bind · _) hop).trans rfl, ?_⟩
    have hc : parseConditionSuffix (List.drop 4 ((Reader.move dst src).stem ++ t)) =
      codeCondition c := hplain
    rw [hc]
    exact .cmovcc (Versions.newVersion_base versions _) (sourceTree_of_parse hop)
  | set dst =>
    refine ⟨_, _, rfl, ?_⟩
    have hc : parseConditionSuffix (List.drop 3 ((Reader.set dst).stem ++ t)) =
      codeCondition c := hplain
    rw [hc]
    exact .setcc (Versions.newVersion_base versions _)

lemma liftInsn_reader {d : DisassembledInsn} {k : Reader} {c : Code} (h : PrintsReader d k c)
    (versions : Versions) :
    ∃ op versions', liftInsn d versions = some ([⟨d.address, op⟩], versions') ∧
      ReadsCondition (codeCondition c) (parseOperands d.opStr) op := by
  obtain ⟨t, ht, hmnemonic⟩ := h.mnemonic
  obtain ⟨hlock, harm⟩ := arm_of_reader k ht
  obtain ⟨op, versions', hlift, hreads⟩ := liftArm_reader k ht h.texts d versions
  have hleave : armOfReader k ≠ .leave := by cases k <;> simp [armOfReader]
  have hpieces : ∀ t ∈ k.operands, Piece t := fun t ht => (h.texts t ht).piece
  refine ⟨op, versions', ?_, ?_⟩
  · exact liftInsn_printsAs ⟨hmnemonic, h.operands⟩ hlock harm hleave hpieces hlift
  · rw [h.operands, parseOperands_operandsText hpieces]
    exact hreads

lemma operandText_source (src : Source) : OperandText src.text := by
  cases src with
  | reg r => exact .inl ⟨(piece_name r).ne_nil, plain_name r⟩
  | imm n => exact .inl ⟨(piece_number n).ne_nil, plain_text n⟩
  | mem m => exact .inr (addressText_operand ⟨m, false, none, none⟩ .qword)

lemma operandText_byte {t : Text} (h : t ∈ byteNames) : OperandText t := by
  have hnames : ∀ t ∈ byteNames, t ≠ [] ∧ ∀ c ∈ t, c.isAlphanum = true := by decide
  exact .of_alphanum (hnames t h).1 (hnames t h).2

lemma PrintsConditional.reader {d : DisassembledInsn} {k : Conditional}
    (h : PrintsConditional d k) : PrintsReader d k.reader (.cond k.cond) := by
  have hsuffix : ∀ c : Cond, c.suffix ∈ (Code.cond c).suffixes := by
    intro c
    cases c <;> decide
  refine ⟨⟨k.cond.suffix, hsuffix k.cond, ?_⟩, ?_, ?_⟩
  · rw [h.mnemonic]
    cases k <;> rfl
  · rw [h.operands]
    cases k <;> rfl
  · intro t ht
    cases k with
    | jump c target =>
      rw [List.mem_singleton.mp ht]
      exact .of_alphanum (magnitude_ne_nil _) (alphanum_magnitude _)
    | move c dst src =>
      simp only [Conditional.reader, Reader.operands, List.mem_cons, List.not_mem_nil,
        or_false] at ht
      rcases ht with rfl | rfl
      · exact operandText_source (.reg dst)
      · exact operandText_source src.source
    | set c dst byte =>
      rw [List.mem_singleton.mp ht]
      exact operandText_byte byte

lemma liftInsn_conditional {d : DisassembledInsn} {k : Conditional} (h : PrintsConditional d k)
    (versions : Versions) :
    ∃ op versions', liftInsn d versions = some ([⟨d.address, op⟩], versions') ∧
      ReadsCondition (condition k.cond) (parseOperands d.opStr) op :=
  liftInsn_reader h.reader versions

/-- The condition of the statement for a conditional instruction with these operands. Where it
holds, the statement jumps to the target, moves the source to the destination, which keeps its
value otherwise, or sets the destination to 1, and otherwise to 0. -/
def conditionOf : List Text → Stmt → Option Expr
  | [target], .ifGoto c label =>
    if label = blockLabel (jccTarget [target]) then some c else none
  | [dst, src], .expr (.bin .assign t (.cond c yes no)) =>
    if t = varTree ⟨destinationBase dst, 0⟩ ∧ sourceTree src = some yes ∧ no = t then some c
    else none
  | [dst], .expr (.bin .assign t (.cond c yes no)) =>
    if t = varTree ⟨destinationBase dst, 0⟩ ∧ yes = decNum 1 ∧ no = decNum 0 then some c else none
  | _, _ => none

def truthOf (σ : Clang.State) (e : Expr) : Option Bool := (eval σ e).bind Val.truth

def condValue (w : U64) : Cond → Bool
  | .e => w &&& 1 != 0
  | .ne => !(w &&& 1 != 0)
  | .l => w &&& 4 != 0
  | .ge => !(w &&& 4 != 0)
  | .b => w &&& 2 != 0
  | .ae => !(w &&& 2 != 0)
  | .g => !(w &&& 1 != 0) && !(w &&& 4 != 0)
  | .le => (w &&& 1 != 0) || (w &&& 4 != 0)
  | .a => !(w &&& 1 != 0) && !(w &&& 2 != 0)
  | .be => (w &&& 1 != 0) || (w &&& 2 != 0)
  | .s => w != 0
  | .ns => !(w != 0)

section Truth

variable {σ : Clang.State} {a b : Expr} {s t : Bool}

lemma truthOf_rflags : truthOf σ rflags = some (flagWord σ != 0) := rfl

lemma truthOf_bit {n : ℕ} (hn : n < 2 ^ 31) :
    truthOf σ (.bin .band rflags (decNum n)) = some (flagWord σ &&& BitVec.ofNat 64 n != 0) := by
  have hword : eval σ rflags = some ⟨.u64, flagWord σ⟩ := rfl
  have hnum : HasInt σ (decNum n) (BitVec.ofNat 64 n) := hasInt_dec (by omega) σ
  rw [truthOf, HasInt.band hword hnum, Option.bind_some]
  rfl

lemma truthOf_not (h : truthOf σ a = some t) : truthOf σ (.un .lnot a) = some !t := by
  have htruth : ∀ t, (Val.ofBool t).truth = some t := by decide
  obtain ⟨v, hv, ht⟩ := Option.bind_eq_some_iff.mp h
  have hnot : eval σ (.un .lnot a) = some (.ofBool !t) := by
    rw [eval, hv, Option.bind_some, unary, ht, Option.map_some]
  rw [truthOf, hnot, Option.bind_some, htruth]

lemma truthOf_and (ha : truthOf σ a = some s) (hb : truthOf σ b = some t) :
    truthOf σ (.bin .land a b) = some (s && t) := by
  have hand : eval σ (.bin .land a b) =
      if s = false then some (.ofBool false) else some (.ofBool t) := by
    rw [eval, if_pos rfl, shortCircuit]
    rw [truthOf] at ha hb
    rw [ha, Option.bind_some, hb, Option.map_some]
  rw [truthOf, hand]
  cases s <;> cases t <;> rfl

lemma truthOf_or (ha : truthOf σ a = some s) (hb : truthOf σ b = some t) :
    truthOf σ (.bin .lor a b) = some (s || t) := by
  have hor : eval σ (.bin .lor a b) =
      if s = true then some (.ofBool true) else some (.ofBool t) := by
    rw [eval, if_neg (by decide), if_pos rfl, shortCircuit]
    rw [truthOf] at ha hb
    rw [ha, Option.bind_some, hb, Option.map_some]
  rw [truthOf, hor]
  cases s <;> cases t <;> rfl

end Truth

lemma truthOf_condTree (σ : Clang.State) (c : Cond) :
    truthOf σ (condTree (condition c)) = some (condValue (flagWord σ) c) := by
  have h1 := truthOf_bit (σ := σ) (n := 1) (by norm_num)
  have h2 := truthOf_bit (σ := σ) (n := 2) (by norm_num)
  have h4 := truthOf_bit (σ := σ) (n := 4) (by norm_num)
  cases c with
  | e => exact h1
  | ne => exact truthOf_not h1
  | l => exact h4
  | ge => exact truthOf_not h4
  | b => exact h2
  | ae => exact truthOf_not h2
  | g => exact truthOf_and (truthOf_not h1) (truthOf_not h4)
  | le => exact truthOf_or h1 h4
  | a => exact truthOf_and (truthOf_not h1) (truthOf_not h2)
  | be => exact truthOf_or h1 h2
  | s => exact truthOf_rflags
  | ns => exact truthOf_not truthOf_rflags

/-- A code that the word has no bit for is read from the whole word. -/
def codeValue (w : U64) : Code → Bool
  | .cond c => condValue w c
  | .o | .p => w != 0
  | .no | .np => !(w != 0)

lemma truthOf_codeTree (σ : Clang.State) (c : Code) :
    truthOf σ (condTree (codeCondition c)) = some (codeValue (flagWord σ) c) := by
  cases c with
  | cond c => exact truthOf_condTree σ c
  | o | p => exact truthOf_rflags
  | no | np => exact truthOf_not truthOf_rflags

variable (symbols : SymbolTable) (funcNames : TreeMap U64 Text)

lemma reads_of_condition {c : Condition} {operands : List Text} {op : Opcode}
    (h : ReadsCondition c operands op) : Backend.Reads symbols funcNames op := by
  cases h <;> exact ⟨trivial, by simp [CommentEnds, comment]⟩

lemma stmts_of_reader {c : Code} {operands : List Text} {op : Opcode}
    (h : ReadsCondition (codeCondition c) operands op) :
    ∃ st e, opcodeStmts symbols funcNames op = [st] ∧ conditionOf operands st = some e ∧
      ∀ σ, truthOf σ e = some (codeValue (flagWord σ) c) := by
  have hvar : ∀ {v : VarId} {base : VarBase}, v.base = base → varTree v = varTree ⟨base, 0⟩ := by
    rintro v base rfl
    rfl
  cases h with
  | jcc target fallthrough => exact ⟨_, _, rfl, if_pos rfl, fun σ => truthOf_codeTree σ c⟩
  | cmovcc hdst hsrc =>
    exact ⟨_, _, rfl, if_pos ⟨hvar hdst, hsrc, rfl⟩, fun σ => truthOf_codeTree σ c⟩
  | setcc hdst => exact ⟨_, _, rfl, if_pos ⟨hvar hdst, rfl, rfl⟩, fun σ => truthOf_codeTree σ c⟩

end Dexe.Straight
