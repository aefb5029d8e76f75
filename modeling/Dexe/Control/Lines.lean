import Dexe.Backend
import Dexe.Ir.Transfers
import Dexe.Trace.Moves

/-! The body of an emitted function as a list of lines, and how control moves over them. -/

namespace Dexe

/-- A line of a function body. An instruction line is `complete` when it is the last one that its
machine instruction has. -/
inductive Line
  | label (addr : U64)
  | blockStart
  | instr (ir : IRInstruction) (complete : Bool)
  | blockEnd
  | defaultReturn
  deriving DecidableEq, Repr

namespace Line

def transfer : Line → Option Transfer
  | .instr ir _ => ir.opcode.transfer
  | .defaultReturn => some .ret
  | _ => none

def event : Line → Option U64
  | .instr ir true => some ir.addr
  | _ => none

end Line

namespace Control

open Backend Trace Text

def instructionLines : List IRInstruction → List Line
  | [] => []
  | ir :: irs =>
    .instr ir (decide (irs.head?.map IRInstruction.addr ≠ some ir.addr)) :: instructionLines irs

def blockLines (b : IRBlock) : List Line :=
  [.label b.startAddr, .blockStart] ++ instructionLines b.instructions ++ [.blockEnd]

def functionLines (ir : IRFunction) : List Line :=
  (sortedBlocks ir).flatMap blockLines ++ [.defaultReturn]

section Text

variable (symbols : SymbolTable) (funcNames : Std.TreeMap U64 Text)

def renderLine : Line → Text
  | .label addr => line (blockLabel addr ++ ":")
  | .blockStart => line "    \x7b"
  | .instr ir _ => emitInstructionLine symbols funcNames ir
  | .blockEnd => line "    \x7d"
  | .defaultReturn => line "    return cpu.rax;"

def renderFunction (name : Text) (lines : List Line) : Text :=
  line ("uint64_t " ++ sanitiseCIdent name ++ "(void) \x7b") ++
    line "    uint64_t tmp = 0; (void)tmp;" ++
    lines.flatMap (renderLine symbols funcNames) ++ line "\x7d"

lemma render_instructionLines (irs : List IRInstruction) :
    (instructionLines irs).flatMap (renderLine symbols funcNames) =
      (irs.map (emitInstructionLine symbols funcNames)).flatten := by
  induction irs with
  | nil => rfl
  | cons ir irs ih =>
    rw [instructionLines, List.flatMap_cons, ih]
    rfl

lemma render_blockLines (b : IRBlock) :
    (blockLines b).flatMap (renderLine symbols funcNames) = emitBlock symbols funcNames b := by
  simp only [blockLines, List.flatMap_append, render_instructionLines, List.flatMap_cons,
    List.flatMap_nil, List.append_nil, renderLine, emitBlock, List.append_assoc]

theorem emitFunction_eq_render (ir : IRFunction) :
    emitFunction symbols funcNames ir =
      renderFunction symbols funcNames ir.name (functionLines ir) := by
  have hblocks : ((sortedBlocks ir).flatMap blockLines).flatMap (renderLine symbols funcNames) =
      ((sortedBlocks ir).map (emitBlock symbols funcNames)).flatten := by
    rw [List.flatMap_assoc, ← List.flatMap_def]
    exact List.flatMap_congr fun b _ => render_blockLines symbols funcNames b
  rw [emitFunction, renderFunction, functionLines, List.flatMap_append, hblocks]
  simp [renderLine, List.append_assoc]

end Text

def fromFirst {α : Type*} (p : α → Bool) : List α → Option (List α)
  | [] => none
  | x :: l => if p x then some (x :: l) else fromFirst p l

def atLabel (lines : List Line) (addr : U64) : Option (List Line) :=
  fromFirst (fun l => l = .label addr) lines

/-- One line, at a position given by the lines still to come. A run over lines is a run of their
text in C if the comments end that stand there for the instructions that are not known. -/
def next (lines : List Line) : List Line → Move (List Line) U64
  | [] => .stuck
  | l :: rest =>
    match l.transfer with
    | none => .go l.event rest
    | some .ret => .stop l.event
    | some (.jump target) => (atLabel lines target).elim .stuck fun s => .go l.event s
    | some (.branch target) => (atLabel lines target).elim .stuck fun s => .test l.event s rest

inductive Step (all : List Line) (l : Line) (rest : List Line) : Move (List Line) U64 → Prop
  | stop : Step all l rest (.stop l.event)
  | on : Step all l rest (.go l.event rest)
  | jump {a : U64} {s : List Line} (h : atLabel all a = some s) : Step all l rest (.go l.event s)
  | branch {a : U64} {s : List Line} (h : atLabel all a = some s) :
      Step all l rest (.test l.event s rest)
  | stuck : Step all l rest .stuck

lemma next_step (all : List Line) (l : Line) (rest : List Line) :
    Step all l rest (next all (l :: rest)) := by
  simp only [next]
  split
  · exact .on
  · exact .stop
  · rename_i target _
    cases h : atLabel all target with
    | none => exact .stuck
    | some s => exact .jump h
  · rename_i target _
    cases h : atLabel all target with
    | none => exact .stuck
    | some s => exact .branch h

end Control

end Dexe
