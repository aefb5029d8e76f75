import Dexe.Cfg.Leaders

/-! The blocks of the builder are the runs between leaders. -/

namespace Dexe.Cfg

open Std Collections

lemma getElem?_addrToBlock {leaderVec : List U64} (hnd : leaderVec.Nodup) {a : U64} {k : ℕ} :
    (addrToBlock leaderVec)[a]? = some k ↔ leaderVec[k]? = some a := by
  have hkeys : (leaderVec.zipIdx.map Prod.fst).Nodup := by simpa using hnd
  exact (getElem?_insertAll hkeys a k).trans List.mem_zipIdx_iff_getElem?

lemma modify_length_append {α : Type*} (l r : List α) (a : α) (f : α → α) :
    (l ++ a :: r).modify l.length f = l ++ f a :: r := by
  induction l with
  | nil => rfl
  | cons b l ih => simpa using ih

section Numbering

variable {insns : List DisassembledInsn}

def leaderVec (insns : List DisassembledInsn) : List U64 :=
  (insns.filter (lead insns)).map DisassembledInsn.address

lemma leaderVec_sorted (hinc : Increasing insns) : (leaderVec insns).Pairwise (· < ·) :=
  List.pairwise_map.mpr (hinc.filter _)

lemma leaderVec_nodup (hinc : Increasing insns) : (leaderVec insns).Nodup :=
  (leaderVec_sorted hinc).imp ne_of_lt

lemma lookup_leader (hinc : Increasing insns) {pre post : List DisassembledInsn}
    {x : DisassembledInsn} (h : insns = pre ++ x :: post) (hx : lead insns x = true) :
    (addrToBlock (leaderVec insns))[x.address]? = some (pre.filter (lead insns)).length := by
  have hv : leaderVec insns = (pre.filter (lead insns)).map DisassembledInsn.address ++
      x.address :: (post.filter (lead insns)).map DisassembledInsn.address := by
    have hfilter : ∀ p : DisassembledInsn → Bool, p x = true →
        insns.filter p = pre.filter p ++ x :: post.filter p := by
      intro p hp
      rw [h, List.filter_append, List.filter_cons_of_pos hp]
    rw [leaderVec, hfilter _ hx]
    simp
  rw [getElem?_addrToBlock (leaderVec_nodup hinc), hv, List.getElem?_append_right (by simp)]
  simp

lemma lookup_other (hinc : Increasing insns) {x : DisassembledInsn} (hmem : x ∈ insns)
    (hx : lead insns x = false) : (addrToBlock (leaderVec insns))[x.address]? = none := by
  rw [Option.eq_none_iff_forall_ne_some]
  intro k hk
  rw [getElem?_addrToBlock (leaderVec_nodup hinc)] at hk
  obtain ⟨i, hi, ha⟩ := List.mem_map.mp (List.mem_of_getElem? hk)
  obtain ⟨hmi, hli⟩ := List.mem_filter.mp hi
  rw [hinc.eq_of_address hmi hmem ha, hx] at hli
  cases hli

end Numbering

section Fold

variable {insns : List DisassembledInsn} {first : DisassembledInsn} {rest : List DisassembledInsn}

lemma lead_first (hins : insns = first :: rest) : lead insns first = true := by
  simp [lead, IsLeader, hins]

lemma partition_prefix (hins : insns = first :: rest) (hinc : Increasing insns)
    (pre post : List DisassembledInsn) (h : insns = first :: pre ++ post) :
    (first :: pre).foldl (partitionStep (addrToBlock (leaderVec insns)))
        ⟨List.replicate (leaderVec insns).length [], 0⟩ =
      ⟨runs (lead insns) (first :: pre) ++
          List.replicate ((leaderVec insns).length - (runs (lead insns) (first :: pre)).length) [],
        (runs (lead insns) (first :: pre)).length - 1⟩ := by
  have hl0 := lead_first hins
  induction pre using List.reverseRecOn generalizing post with
  | nil =>
    have h0 : (addrToBlock (leaderVec insns))[first.address]? = some 0 :=
      lookup_leader hinc (show insns = [] ++ first :: rest from hins) hl0
    obtain ⟨n, hn⟩ : ∃ n, (leaderVec insns).length = n + 1 := by
      refine ⟨(rest.filter (lead insns)).length, ?_⟩
      have := congrArg List.length (congrArg (List.filter (lead insns)) hins)
      simpa [leaderVec, hl0] using this
    simp [partitionStep, h0, hn, runs_singleton, List.replicate_succ]
  | append_singleton pre x ih =>
    have hx : insns = (first :: pre) ++ x :: post := by simpa using h
    have hlen := length_runs hl0 pre
    rw [← List.cons_append, List.foldl_append, ih (x :: post) hx]
    by_cases hlead : lead insns x = true
    · have hlook := lookup_leader hinc hx hlead
      obtain ⟨n, hn⟩ : ∃ n,
          (leaderVec insns).length = (runs (lead insns) (first :: pre)).length + (n + 1) := by
        have := congrArg List.length (congrArg (List.filter (lead insns)) hx)
        rw [List.filter_append, List.filter_cons_of_pos hlead, List.length_append] at this
        exact ⟨_, by rw [leaderVec, List.length_map, this, hlen]; rfl⟩
      have hsub : ∀ k : ℕ, k + (n + 1) - (k + 1) = n := by omega
      rw [← hlen] at hlook
      rw [runs_snoc_of_pos hlead, hn]
      simp only [List.foldl_cons, List.foldl_nil, partitionStep, hlook, Option.getD_some,
        Nat.add_sub_cancel_left, List.replicate_succ, modify_length_append, List.length_append,
        List.length_singleton, hsub, Nat.add_sub_cancel]
      simp
    · have hlead' : lead insns x = false := by simpa using hlead
      have hlook := lookup_other hinc (by rw [hx]; simp) hlead'
      obtain ⟨gs, g, hg⟩ := runs_eq_snoc (lead insns) (List.cons_ne_nil first pre)
      rw [runs_snoc_of_neg hg hlead', hg]
      simp only [List.foldl_cons, List.foldl_nil, partitionStep, hlook, Option.getD_none,
        List.length_append, List.length_singleton, Nat.add_sub_cancel, List.append_assoc,
        List.singleton_append, modify_length_append]

lemma length_leaderVec (hins : insns = first :: rest) :
    (leaderVec insns).length = (runs (lead insns) insns).length := by
  have := length_runs (lead_first hins) rest
  rw [← hins] at this
  rw [leaderVec, List.length_map, this]

lemma partition_eq_runs (hins : insns = first :: rest) (hinc : Increasing insns) :
    partition (addrToBlock (leaderVec insns)) (leaderVec insns).length insns =
      runs (lead insns) insns := by
  have h := partition_prefix hins hinc rest [] (by simpa using hins)
  rw [← hins] at h
  rw [partition, h, length_leaderVec hins]
  simp

end Fold

end Dexe.Cfg
