import Dexe.Cfg.Correct
import Dexe.Debug.Blocks
import Dexe.Debug.Cfg

/-! The functions that a debug build takes from instructions to C. -/

namespace Dexe.Debug

open Std Cfg Ir Backend Collections

/-- `emit_c` has no slice and no arithmetic, and unwraps writes to a string and the first letter
of a name that is not empty. -/
def decompile (func : DisassembledFunction) (symbols : SymbolTable) : Option Text := do
  let cfg ← buildCfg func
  (liftFunction cfg).map fun ir => emitC [ir] symbols

variable {func : DisassembledFunction} {symbols : SymbolTable}

lemma mem_blockRuns_iff {P : List DisassembledInsn → Prop} (hinc : Increasing func.instructions) :
    (∀ p ∈ (Dexe.buildCfg func).blocks.toList, P p.2.instructions) ↔ ∀ g ∈ blockRuns func, P g := by
  by_cases hne : func.instructions = []
  · have hruns : blockRuns func = [] := by
      rw [blockRuns, hne]
      rfl
    have hcfg : (Dexe.buildCfg func).blocks.toList = [] := by
      rw [Dexe.buildCfg, hne]
      rfl
    simp [hruns, hcfg]
  · rw [buildCfg_toList hne hinc, ← numberedBlocks_instructions, List.forall_mem_map]

lemma guarded_decompile (hinc : Increasing func.instructions)
    (hfit : ∀ i ∈ func.instructions, i.address.toNat + i.size.toNat < 2 ^ 64) :
    Guarded (∀ g ∈ blockRuns func, BlockOk g) (decompile func symbols)
      ((Dexe.liftFunction (Dexe.buildCfg func)).map fun ir => emitC [ir] symbols) := by
  have hruns : ∀ g ∈ blockRuns func, ∀ i ∈ g, i.address.toNat + i.size.toNat < 2 ^ 64 := by
    intro g hg i hi
    refine hfit i ?_
    have hmem := List.mem_flatten.mpr ⟨g, hg, hi⟩
    rwa [blockRuns, flatten_runs] at hmem
  have hlift := guarded_liftFunction ((mem_blockRuns_iff hinc).mpr hruns)
  rw [decompile, buildCfg_eq hinc hfit]
  exact (hlift.map fun ir => emitC [ir] symbols).congr (mem_blockRuns_iff hinc)

theorem decompile_agrees (hinc : Increasing func.instructions)
    (hfit : ∀ i ∈ func.instructions, i.address.toNat + i.size.toNat < 2 ^ 64) {c : Text}
    (h : decompile func symbols = some c) :
    ∃ ir, Dexe.liftFunction (Dexe.buildCfg func) = some ir ∧ c = emitC [ir] symbols := by
  obtain ⟨ir, hir, rfl⟩ := Option.map_eq_some_iff.mp ((guarded_decompile hinc hfit).agrees h)
  exact ⟨ir, hir, rfl⟩

/-- The functions that go through: every instruction is read without a panic, and no stretch
between leaders defines a variable `2 ^ 32` times. -/
theorem decompile_isSome_iff (func : DisassembledFunction) (symbols : SymbolTable)
    (hinc : Increasing func.instructions)
    (hfit : ∀ i ∈ func.instructions, i.address.toNat + i.size.toNat < 2 ^ 64) :
    (decompile func symbols).isSome ↔ (∀ i ∈ func.instructions, InsnOk i) ∧
      ∀ g ∈ blockRuns func, ∀ base, (g.flatMap numbered).count base < 2 ^ 32 := by
  have hflat : ∀ i, i ∈ func.instructions ↔ ∃ g ∈ blockRuns func, i ∈ g := by
    intro i
    rw [← List.mem_flatten, blockRuns, flatten_runs]
  rw [(guarded_decompile hinc hfit).isSome_iff]
  constructor
  · intro h
    refine ⟨fun i hi => ?_, fun g hg => (h g hg).versions⟩
    obtain ⟨g, hg, hig⟩ := (hflat i).mp hi
    exact (h g hg).sound i hig
  · rintro ⟨hinsns, hcount⟩ g hg
    exact ⟨fun i hi => hinsns i ((hflat i).mpr ⟨g, hg, hi⟩), hcount g hg⟩

def pushed (opStr : Text) : DisassembledFunction where
  name := "f"
  startAddr := 0x1000
  endAddr := 0x1002
  instructions := [⟨0x1000, 2, "push", opStr, [0xff, 0x30]⟩]

theorem crossedPush_panics : Increasing (pushed "][").instructions ∧
    (∀ i ∈ (pushed "][").instructions, i.address.toNat + i.size.toNat < 2 ^ 64) ∧
    decompile (pushed "][") ∅ = none := by
  refine ⟨by decide, by decide, ?_⟩
  rfl

theorem crossedPush_iff : (decompile (pushed "][") ∅).isSome ↔
    (∀ i ∈ (pushed "][").instructions, InsnOk i) ∧
      ∀ g ∈ blockRuns (pushed "]["), ∀ base, (g.flatMap numbered).count base < 2 ^ 32 :=
  decompile_isSome_iff (pushed "][") ∅ (by decide) (by decide)

-- the least number has no opposite
example : decompile (pushed "--9223372036854775808") ∅ = none := rfl

end Dexe.Debug
