import Dexe.Cfg.Edges
import Dexe.Collections.Paths
import Dexe.Control.Simulation

/-! The runs of an emitted body are the paths of the control flow graph. -/

namespace Dexe.Control

open Cfg Ir Trace Collections

section Steps

variable {func : DisassembledFunction}

def Edge (func : DisassembledFunction) (k k' : BlockId) : Prop := (k, k') ∈ (buildCfg func).edges

lemma edge_iff (hne : func.instructions ≠ []) (hinc : Increasing func.instructions)
    {k k' : ℕ} {g : List DisassembledInsn} {i : DisassembledInsn}
    (hk : (blockRuns func)[k]? = some g)
    (hi : g.getLast? = some i) :
    Edge func k k' ↔ (k, k') ∈ (classify (blockIndex func) (blockRuns func).length k i).2 := by
  rw [Edge, mem_edges hne hinc]
  constructor
  · rintro ⟨n, gn, last, hn, hlast, he⟩
    obtain rfl : k = n := by
      rcases classify_edges.mp he with ⟨t, ht, _⟩ | ⟨ht, _⟩ <;> exact congrArg Prod.fst ht
    obtain rfl : g = gn := Option.some.inj (hk.symm.trans hn)
    obtain rfl : i = last := Option.some.inj (hi.symm.trans hlast)
    exact he
  · intro he
    exact ⟨k, g, i, hk, hi, he⟩

lemma successor_iff_blockStep (hne : func.instructions ≠ []) (hinc : Increasing func.instructions)
    {i j : DisassembledInsn} (hi : i ∈ func.instructions) (hj : j ∈ func.instructions) :
    Successor func.instructions i j ↔ BlockStep (blockRuns func) (Edge func) i j := by
  rw [Successor, follows_iff_blocks, jump_iff_blocks hne hinc hi hj]
  constructor
  · rintro ((⟨g, hg, hf⟩ | ⟨k, g, g', hk, hk', hl, hh, hft⟩) |
      ⟨k, k', g, g', hk, hk', hl, hh, hjump, hres⟩)
    · exact .inside hg hf
    · obtain ⟨hlt, _⟩ := List.getElem?_eq_some_iff.mp hk'
      exact .edge hk hk' hl hh ((edge_iff hne hinc hk hl).mpr
        (classify_edges.mpr (.inr ⟨rfl, hlt, hft⟩)))
    · exact .edge hk hk' hl hh ((edge_iff hne hinc hk hl).mpr
        (classify_edges.mpr (.inl ⟨k', rfl, hjump, hres⟩)))
  · intro h
    cases h with
    | inside hg hf => exact .inl (.inl ⟨_, hg, hf⟩)
    | @edge k k' g g' _ _ hk hk' hl hh he =>
      rcases classify_edges.mp ((edge_iff hne hinc hk hl).mp he) with
        ⟨t, ht, hjump, hres⟩ | ⟨ht, _, hft⟩
      · obtain rfl : k' = t := congrArg Prod.snd ht
        exact .inr ⟨k, k', g, g', hk, hk', hl, hh, hjump, hres⟩
      · obtain rfl : k' = k + 1 := congrArg Prod.snd ht
        exact .inl (.inr ⟨k, g, g', hk, hk', hl, hh, hft⟩)

end Steps

section Machine

variable {insns rest : List DisassembledInsn} {i j t : DisassembledInsn}

lemma fromFirst_target (hinc : Increasing insns) (ht : t ∈ insns) :
    ∃ rest, fromFirst (fun i => i.address.toNat = t.address.toNat) insns = some (t :: rest) ∧
      t :: rest <:+ insns := by
  obtain ⟨p, s, rfl⟩ := List.append_of_mem ht
  refine ⟨s, ?_, List.suffix_append p _⟩
  rw [fromFirst_append]
  · simp [fromFirst]
  · intro x hx
    have hlt : x.address < t.address := by
      rw [Increasing, List.pairwise_append] at hinc
      exact hinc.2.2 x hx t List.mem_cons_self
    exact decide_eq_false fun he => ne_of_lt hlt (BitVec.eq_of_toNat_eq he)

lemma jumpTo_target (hinc : Increasing insns) (ht : t ∈ insns)
    (hop : hexOperand i.opStr = some t.address.toNat) :
    ∃ rest, jumpTo insns i.opStr = some (t :: rest) ∧ t :: rest <:+ insns := by
  obtain ⟨rest, hfirst, hsuf⟩ := fromFirst_target hinc ht
  exact ⟨rest, by rw [jumpTo, hop, Option.bind_some, hfirst], hsuf⟩

inductive Leads (insns : List DisassembledInsn) (i : DisassembledInsn) :
    List DisassembledInsn → Prop
  | stop : Leads insns i []
  | go {j : DisassembledInsn} {rest : List DisassembledInsn} (hsuf : j :: rest <:+ insns)
      (h : Successor insns i j) : Leads insns i (j :: rest)

lemma follows_of_suffix (h : i :: j :: rest <:+ insns) : Follows insns i j := by
  obtain ⟨p, rfl⟩ := h
  exact ⟨p, rest, by simp⟩

lemma leads_rest (h : i :: rest <:+ insns) (hfalls : FallsThrough i.mnemonic) :
    Leads insns i rest := by
  cases rest with
  | nil => exact .stop
  | cons j rest =>
    exact .go ((List.suffix_cons i _).trans h) (.inl ⟨follows_of_suffix h, hfalls⟩)

lemma falls_of_not_unconditional {mn : Text} (hjump : ¬ IsJump mn) (h : mn ∉ unconditional) :
    FallsThrough mn := by
  have hhalt : ∀ mn ∈ haltMnemonics, mn ∈ unconditional := by decide
  have hret : ∀ mn : Text, IsRet mn → mn ∈ unconditional := by
    rintro mn (rfl | rfl) <;> decide
  exact ⟨fun hm => hjump (.inl hm), fun hm => h (hret mn hm), fun hm => h (hhalt mn hm)⟩

lemma machineNext_cases (hinc : Increasing insns) (hjumps : DirectJumps insns)
    (h : i :: rest <:+ insns) :
    (∃ s, machineNext insns (i :: rest) = .go (some i.address) s ∧ Leads insns i s) ∨
      (∃ y n, machineNext insns (i :: rest) = .test (some i.address) y n ∧ Leads insns i y ∧
        Leads insns i n) ∨
      machineNext insns (i :: rest) = .stop (some i.address) := by
  have hi : i ∈ insns := h.subset List.mem_cons_self
  have hkind := hjumps i hi
  by_cases hjump : IsJump i.mnemonic
  · rw [if_pos hjump] at hkind
    obtain ⟨t, ht, hop⟩ := hkind
    obtain ⟨later, hto, hsuf⟩ := jumpTo_target hinc ht hop
    have hleads : Leads insns i (t :: later) := .go hsuf (.inr ⟨hjump, parseHexTarget_target hop⟩)
    rcases hjump with hjmp | hcond
    · refine .inl ⟨_, ?_, hleads⟩
      rw [machineNext, if_pos hjmp, hto, Option.elim_some]
    · refine .inr (.inl ⟨_, rest, ?_, hleads, leads_rest h (condJump_falls _ hcond).2⟩)
      rw [machineNext, if_neg (condJump_falls _ hcond).1, if_pos hcond, hto, Option.elim_some]
  · obtain ⟨hjmp, hcond⟩ := not_or.mp hjump
    by_cases hun : i.mnemonic ∈ unconditional
    · refine .inr (.inr ?_)
      rw [machineNext, if_neg hjmp, if_neg hcond, if_pos hun]
    · refine .inl ⟨rest, ?_, leads_rest h (falls_of_not_unconditional hjump hun)⟩
      rw [machineNext, if_neg hjmp, if_neg hcond, if_neg hun]

def TraceFrom (insns s : List DisassembledInsn) (tr : List U64) : Prop :=
  tr = [] ∨ ∃ i rest xs, s = i :: rest ∧ List.IsChain (Successor insns) (i :: xs) ∧
    (∀ x ∈ xs, x ∈ insns) ∧ tr = (i :: xs).map DisassembledInsn.address

lemma Leads.traceFrom {s : List DisassembledInsn} {tr : List U64} (h : Leads insns i s)
    (htr : TraceFrom insns s tr) (rest : List DisassembledInsn) :
    TraceFrom insns (i :: rest) (i.address :: tr) := by
  have hsingle : TraceFrom insns (i :: rest) [i.address] :=
    .inr ⟨i, rest, [], rfl, .singleton i, by simp, rfl⟩
  rcases htr with rfl | ⟨j, later, xs, hs, hchain, hxs, rfl⟩
  · exact hsingle
  · cases h with
    | stop => cases hs
    | @go j' _ hsuf hsucc =>
      cases hs
      refine .inr ⟨i, rest, j :: xs, rfl, .cons_cons hsucc hchain, ?_, rfl⟩
      intro x hx
      rcases List.mem_cons.mp hx with rfl | hx
      · exact hsuf.subset List.mem_cons_self
      · exact hxs x hx

lemma Leads.suffix {s : List DisassembledInsn} (h : Leads insns i s) : s <:+ insns := by
  cases h with
  | stop => exact List.nil_suffix
  | go hsuf _ => exact hsuf

variable (hinc : Increasing insns) (hjumps : DirectJumps insns)

include hinc hjumps

lemma traceFrom_of_runs {s : List DisassembledInsn} {os : List Bool} {tr : List U64} {fin : Bool}
    (hs : s <:+ insns) (hr : Runs (machineNext insns) s os tr fin) : TraceFrom insns s tr := by
  have hsingle : ∀ i rest, TraceFrom insns (i :: rest) [i.address] := fun i rest =>
    .inr ⟨i, rest, [], rfl, .singleton i, by simp, rfl⟩
  induction hr with
  | here => exact .inl rfl
  | @stop s e h =>
    cases s with
    | nil =>
      cases h
      exact .inl rfl
    | cons i rest =>
      rcases machineNext_cases hinc hjumps hs with ⟨_, hn, _⟩ | ⟨_, _, hn, _⟩ | hn
      all_goals
        rw [hn] at h
        cases h
      exact hsingle i rest
  | @go s s' e os tr fin h hr ih =>
    cases s with
    | nil => cases h
    | cons i rest =>
      rcases machineNext_cases hinc hjumps hs with ⟨_, hn, hl⟩ | ⟨_, _, hn, _⟩ | hn
      all_goals
        rw [hn] at h
        cases h
      exact hl.traceFrom (ih hl.suffix) rest
  | @test s y n e o os tr fin h hr ih =>
    cases s with
    | nil => cases h
    | cons i rest =>
      rcases machineNext_cases hinc hjumps hs with ⟨_, hn, _⟩ | ⟨_, _, hn, hy, hno⟩ | hn
      all_goals
        rw [hn] at h
        cases h
      cases o with
      | true => exact hy.traceFrom (ih hy.suffix) rest
      | false => exact hno.traceFrom (ih hno.suffix) rest

lemma moves_to_successor (h : i :: rest <:+ insns) (hj : j ∈ insns) (hsucc : Successor insns i j) :
    ∃ later, j :: later <:+ insns ∧ ∀ os tr fin,
      Runs (machineNext insns) (j :: later) os tr fin →
        ∃ os', Runs (machineNext insns) (i :: rest) os' (i.address :: tr) fin := by
  have hi : i ∈ insns := h.subset List.mem_cons_self
  have hkind := hjumps i hi
  rcases hsucc with ⟨hfollows, hfalls⟩ | ⟨hjump, htarget⟩
  · obtain ⟨later, hsuf⟩ := suffix_of_follows hfollows
    obtain rfl := suffix_unique hinc.nodup h hsuf
    refine ⟨later, (List.suffix_cons i _).trans hsuf, fun os tr fin hr => ?_⟩
    by_cases hcond : i.mnemonic ∈ condJumps
    · rw [if_pos (.inr hcond)] at hkind
      obtain ⟨t, ht, hop⟩ := hkind
      obtain ⟨taken, hto, -⟩ := jumpTo_target hinc ht hop
      have hn : machineNext insns (i :: j :: later) =
          .test (some i.address) (t :: taken) (j :: later) := by
        rw [machineNext, if_neg hfalls.1, if_pos hcond, hto, Option.elim_some]
      exact ⟨false :: os, .test hn hr⟩
    · have hun : i.mnemonic ∉ unconditional := by
        intro hun
        have hall : ∀ mn ∈ unconditional, IsRet mn ∨ IsHalt mn := by decide
        rcases hall _ hun with hret | hhalt
        · exact hfalls.2.1 hret
        · exact hfalls.2.2 hhalt
      have hn : machineNext insns (i :: j :: later) = .go (some i.address) (j :: later) := by
        rw [machineNext, if_neg hfalls.1, if_neg hcond, if_neg hun]
      exact ⟨os, .go hn hr⟩
  · rw [if_pos hjump] at hkind
    obtain ⟨t, ht, hop⟩ := hkind
    obtain rfl : t = j := by
      have haddr := (parseHexTarget_target hop).symm.trans htarget
      exact hinc.eq_of_address ht hj (Option.some.inj haddr)
    obtain ⟨later, hto, hsuf⟩ := jumpTo_target hinc ht hop
    refine ⟨later, hsuf, fun os tr fin hr => ?_⟩
    rcases hjump with hjmp | hcond
    · have hn : machineNext insns (i :: rest) = .go (some i.address) (t :: later) := by
        rw [machineNext, if_pos hjmp, hto, Option.elim_some]
      exact ⟨os, .go hn hr⟩
    · have hn : machineNext insns (i :: rest) = .test (some i.address) (t :: later) rest := by
        rw [machineNext, if_neg (condJump_falls _ hcond).1, if_pos hcond, hto, Option.elim_some]
      exact ⟨true :: os, .test hn hr⟩

lemma runs_of_chain {xs : List DisassembledInsn} (h : i :: rest <:+ insns)
    (hchain : List.IsChain (Successor insns) (i :: xs)) (hxs : ∀ x ∈ xs, x ∈ insns) :
    ∃ os fin, Runs (machineNext insns) (i :: rest) os ((i :: xs).map DisassembledInsn.address)
      fin := by
  induction xs generalizing i rest with
  | nil =>
    rcases machineNext_cases hinc hjumps h with ⟨s, hn, _⟩ | ⟨y, n, hn, _⟩ | hn
    · exact ⟨[], false, .go hn (.here s)⟩
    · exact ⟨[true], false, .test hn (.here _)⟩
    · exact ⟨[], true, .stop hn⟩
  | cons j xs ih =>
    rw [List.isChain_cons_cons] at hchain
    obtain ⟨later, hsuf, hmoves⟩ :=
      moves_to_successor hinc hjumps h (hxs j List.mem_cons_self) hchain.1
    obtain ⟨os, fin, hr⟩ := ih hsuf hchain.2 fun x hx => hxs x (List.mem_cons_of_mem _ hx)
    obtain ⟨os', hr'⟩ := hmoves _ _ _ hr
    exact ⟨os', fin, hr'⟩

end Machine

def GraphPath (cfg : ControlFlowGraph) (bs : List BasicBlock) : Prop :=
  ∃ ks, List.IsChain (fun k k' => (k, k') ∈ cfg.edges) (cfg.entryBlock :: ks) ∧
    List.Forall₂ (fun k b => cfg.blocks[k]? = some b) (cfg.entryBlock :: ks) bs

variable {func : DisassembledFunction}

lemma unrolled_of_blocks (hne : func.instructions ≠ []) (hinc : Increasing func.instructions)
    {ks : List BlockId} {bs : List BasicBlock}
    (h : List.Forall₂ (fun k b => (buildCfg func).blocks[k]? = some b) ks bs) :
    bs.flatMap BasicBlock.instructions = unrolled (blockRuns func) ks := by
  induction h with
  | nil => rfl
  | @cons k b ks bs hb _ ih =>
    obtain ⟨g, hg, rfl⟩ := (exists_block_iff hne hinc (P := (b.instructions = ·))).mp ⟨b, hb, rfl⟩
    rw [unrolled_cons hg, List.flatMap_cons, ih]

lemma blocks_of_inside (hne : func.instructions ≠ []) (hinc : Increasing func.instructions)
    {ks : List BlockId} (h : ∀ k ∈ ks, k < (blockRuns func).length) :
    ∃ bs, List.Forall₂ (fun k b => (buildCfg func).blocks[k]? = some b) ks bs := by
  induction ks with
  | nil => exact ⟨[], .nil⟩
  | cons k ks ih =>
    obtain ⟨bs, hbs⟩ := ih fun k hk => h k (List.mem_cons_of_mem _ hk)
    have hk := List.getElem?_eq_getElem (h k List.mem_cons_self)
    obtain ⟨b, hb, -⟩ := (exists_block_iff hne hinc (P := fun _ => True)).mpr ⟨_, hk, trivial⟩
    exact ⟨b :: bs, .cons hb hbs⟩

lemma inside_of_blocks (hne : func.instructions ≠ []) (hinc : Increasing func.instructions)
    {ks : List BlockId} {bs : List BasicBlock}
    (h : List.Forall₂ (fun k b => (buildCfg func).blocks[k]? = some b) ks bs) :
    ∀ k ∈ ks, k < (blockRuns func).length := by
  induction h with
  | nil => simp
  | @cons k b ks bs hb _ ih =>
    intro k' hk'
    rcases List.mem_cons.mp hk' with rfl | hk'
    · obtain ⟨g, hg, -⟩ := (exists_block_iff hne hinc (P := fun _ => True)).mp ⟨b, hb, trivial⟩
      exact (List.getElem?_eq_some_iff.mp hg).1
    · exact ih k' hk'

lemma graphPath_iff (hne : func.instructions ≠ []) (hinc : Increasing func.instructions)
    (hentry : (buildCfg func).entryBlock = 0) {P : List DisassembledInsn → Prop} :
    (∃ bs, GraphPath (buildCfg func) bs ∧ P (bs.flatMap BasicBlock.instructions)) ↔
      ∃ ks, IsPath (blockRuns func) (Edge func) (0 :: ks) ∧
        P (unrolled (blockRuns func) (0 :: ks)) := by
  simp only [GraphPath, hentry]
  constructor
  · rintro ⟨bs, ⟨ks, hchain, hbs⟩, hP⟩
    rw [unrolled_of_blocks hne hinc hbs] at hP
    exact ⟨ks, ⟨hchain, inside_of_blocks hne hinc hbs⟩, hP⟩
  · rintro ⟨ks, hpath, hP⟩
    obtain ⟨bs, hbs⟩ := blocks_of_inside hne hinc hpath.inside
    rw [← unrolled_of_blocks hne hinc hbs] at hP
    exact ⟨bs, ⟨ks, hpath.chain, hbs⟩, hP⟩

lemma first_block (hins : func.instructions = first :: rest) :
    ∃ s, (blockRuns func)[0]? = some (first :: s) := by
  have hlead : lead func.instructions first = true := lead_first hins
  have hruns : (blockRuns func).flatten = func.instructions := flatten_blockRuns
  cases hr : blockRuns func with
  | nil =>
    rw [hr, hins] at hruns
    cases hruns
  | cons g gs =>
    obtain ⟨x, s, rfl⟩ := List.exists_cons_of_ne_nil
      fun hg => nil_not_mem_blockRuns func (hr ▸ hg ▸ List.mem_cons_self)
    rw [hr, hins, List.flatten_cons, List.cons_append] at hruns
    obtain ⟨rfl, -⟩ := List.cons.inj hruns
    exact ⟨s, rfl⟩

lemma chain_iff_graph (hinc : Increasing func.instructions)
    (hins : func.instructions = first :: rest) (xs : List DisassembledInsn) :
    (List.IsChain (Successor func.instructions) (first :: xs) ∧
        ∀ x ∈ xs, x ∈ func.instructions) ↔
      ∃ ks, IsPath (blockRuns func) (Edge func) (0 :: ks) ∧
        first :: xs <+: unrolled (blockRuns func) (0 :: ks) := by
  have hne : func.instructions ≠ [] := by simp [hins]
  obtain ⟨s, hs⟩ := first_block hins
  have hnd : (blockRuns func).flatten.Nodup := by
    rw [flatten_blockRuns]
    exact hinc.nodup
  have hmem : ∀ xs, List.IsChain (BlockStep (blockRuns func) (Edge func)) (first :: xs) →
      ∀ x ∈ first :: xs, x ∈ func.instructions := by
    intro xs hchain x hx
    rcases List.mem_cons.mp hx with rfl | hx
    · simp [hins]
    · rw [← flatten_blockRuns]
      exact List.mem_flatten.mpr (mem_of_chain hchain x hx)
  rw [← chain_iff_path hnd (nil_not_mem_blockRuns func) hs]
  constructor
  · rintro ⟨hchain, hxs⟩
    have hall : ∀ x ∈ first :: xs, x ∈ func.instructions := by
      intro x hx
      rcases List.mem_cons.mp hx with rfl | hx
      · simp [hins]
      · exact hxs x hx
    refine hchain.imp_of_mem_imp fun i j hi hj => ?_
    exact (successor_iff_blockStep hne hinc (hall i hi) (hall j hj)).mp
  · intro hchain
    refine ⟨hchain.imp_of_mem_imp fun i j hi hj => ?_, fun x hx => ?_⟩
    · exact (successor_iff_blockStep hne hinc (hmem xs hchain i hi) (hmem xs hchain j hj)).mpr
    · exact hmem xs hchain x (List.mem_cons_of_mem _ hx)

end Dexe.Control
