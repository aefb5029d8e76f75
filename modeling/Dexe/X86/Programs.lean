import Dexe.Trace.Machines
import Dexe.X86.Codes
import Dexe.X86.Stack

/-! The code of one function: instructions at their addresses, and the machine that runs them. -/

namespace Dexe.X86

open Trace

inductive Instr
  | plain (i : Insn)
  | push (src : Source)
  | pop (dst : Reg)
  | leave
  | move (c : Cond) (dst : Reg) (src : Factor)
  | nop
  | jump (target : U64)
  | branch (c : Cond) (target : U64)
  | ret (args : BitVec 16)

abbrev Program := List (U64 × Instr)

abbrev Status := Flag → Option Bool

namespace Status

/-- What a multiplication leaves in the flags is not known. -/
def after (f : Status) (s : State) : Insn → Status
  | .alu .imul _ _ | .imul _ _ _ => fun _ => none
  | i => fun x => if x ∈ i.writes then some (newFlags s i x) else f x

def holds (f : Status) (c : Cond) : Option Bool :=
  if ∀ x ∈ c.tests, (f x).isSome then some (c.holds fun x => (f x).getD false) else none

end Status

def State.leave (s : State) : State := (s.set .rsp (s.regs .rbp)).pop .rbp

/-- What a return does: where control goes, and the state in which the stack pointer stands so many
bytes higher than before. -/
structure Returned where
  target : U64
  raised : U64
  state : State

def State.ret (s : State) (args : BitVec 16) : Returned :=
  let raised := 8 + args.setWidth 64
  ⟨s.mem.load64 (s.regs .rsp), raised, s.set .rsp (s.regs .rsp + raised)⟩

namespace Returned

def lowered (r : Returned) : State := r.state.set .rsp (r.state.regs .rsp - r.raised)

variable (s : State) (args : BitVec 16)

lemma lowered_ret : (s.ret args).lowered = s := by
  simp only [lowered, State.ret, State.set_set, State.set_regs_self]
  exact (State.eq_set_iff.mpr (by ring)).symm

lemma ret_regs {r : Reg} (h : r ≠ .rsp) : (s.ret args).state.regs r = s.regs r :=
  State.set_regs_of_ne h _

end Returned

structure Config where
  rest : Program
  state : State
  status : Status
  past : List Insn

namespace Config

def start (code : Program) (s : State) : Config := ⟨code, s, fun _ => none, []⟩

def goTo (c : Config) (rest : Program) (s : State) : Config := { c with rest := rest, state := s }

def run (c : Config) (rest : Program) (i : Insn) : Config :=
  ⟨rest, step c.state i, c.status.after c.state i, c.past ++ [i]⟩

end Config

def atAddress (a : U64) : Program → Option Program
  | [] => none
  | p :: code => if p.1 = a then some (p :: code) else atAddress a code

/-- One step. The machine is stuck behind the last instruction, at a jump to none of them, and at
a condition of unknown flags; it is done when it has returned. -/
def next (code : Program) (c : Config) : Next Config Returned :=
  match c.rest with
  | [] => .stuck
  | (_, i) :: rest =>
    match i with
    | .plain i => .on (c.run rest i)
    | .push src => .on (c.goTo rest (c.state.push (c.state.read src)))
    | .pop r => .on (c.goTo rest (c.state.pop r))
    | .leave => .on (c.goTo rest c.state.leave)
    | .move cond dst src =>
      (c.status.holds cond).elim .stuck fun b =>
        .on (c.goTo rest (if b then c.state.set dst (c.state.read src.source) else c.state))
    | .nop => .on (c.goTo rest c.state)
    | .jump t => (atAddress t code).elim .stuck fun r => .on (c.goTo r c.state)
    | .branch cond t =>
      (c.status.holds cond).elim .stuck fun b =>
        if b then (atAddress t code).elim .stuck fun r => .on (c.goTo r c.state)
        else .on (c.goTo rest c.state)
    | .ret args => .done (c.state.ret args)

end Dexe.X86
