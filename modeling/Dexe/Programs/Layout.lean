import Dexe.Backend.Functions
import Dexe.Control.Labels
import Dexe.Control.Layout
import Dexe.Programs.Lifting

/-! Where the items of an emitted body stand: the statements of one machine instruction after the
other, in braces with a label before each leader. -/

namespace Dexe.Programs

open Std Ir X86 Clang Backend Straight Cfg Control Trace Collections

variable (symbols : SymbolTable) (funcNames : TreeMap U64 Text) (p : DisassembledInsn → Bool)

def startItems (i : DisassembledInsn) : List Item :=
  if p i then [.label (blockLabel i.address), .opened] else []

def endItems (rest : List DisassembledInsn) : List Item :=
  if rest.head?.all p then [.closed] else []

def itemsOf (irs : List IRInstruction) : List Item :=
  irs.flatMap (instructionItems symbols funcNames)

inductive Laid : List DisassembledInsn → List Item → Prop
  | nil : Laid [] [returnItem]
  | cons {i : DisassembledInsn} {rest : List DisassembledInsn} {irs : List IRInstruction}
      {versions versions' : Versions} {items : List Item}
      (hi : liftInsn i versions = some (irs, versions')) (hrest : Laid rest items) :
      Laid (i :: rest)
        (startItems p i ++ (itemsOf symbols funcNames irs ++ (endItems p rest ++ items)))

variable {symbols funcNames p}

lemma itemsOf_append (irs irs' : List IRInstruction) :
    itemsOf symbols funcNames (irs ++ irs') =
      itemsOf symbols funcNames irs ++ itemsOf symbols funcNames irs' := List.flatMap_append

lemma liftInsns_cons_inv {i : DisassembledInsn} {tl : List DisassembledInsn}
    {versions versions' : Versions} {irs : List IRInstruction}
    (h : liftInsns (i :: tl) versions = some (irs, versions')) :
    ∃ first v rest, liftInsn i versions = some (first, v) ∧
      liftInsns tl v = some (rest, versions') ∧ irs = first ++ rest := by
  obtain ⟨⟨first, v⟩, hfirst, h⟩ := Option.bind_eq_some_iff.mp h
  obtain ⟨⟨rest, v'⟩, hrest, h⟩ := Option.bind_eq_some_iff.mp h
  cases h
  exact ⟨first, v, rest, hfirst, hrest, rfl⟩

lemma laid_block {i : DisassembledInsn} {tl rest : List DisassembledInsn} {items : List Item}
    {versions versions' : Versions} {irs : List IRInstruction}
    (hlift : liftInsns (i :: tl) versions = some (irs, versions'))
    (htl : ∀ j ∈ tl, p j = false) (hend : endItems p rest = [.closed])
    (hrest : Laid symbols funcNames p rest items) :
    Laid symbols funcNames p (i :: tl ++ rest)
      (startItems p i ++ (itemsOf symbols funcNames irs ++ ([.closed] ++ items))) := by
  induction tl generalizing i versions irs with
  | nil =>
    obtain ⟨first, v, _, hi, hnil, rfl⟩ := liftInsns_cons_inv hlift
    cases hnil
    rw [List.append_nil, ← hend]
    exact .cons hi hrest
  | cons j tl ih =>
    obtain ⟨first, v, later, hi, hj, rfl⟩ := liftInsns_cons_inv hlift
    have hpj : p j = false := htl j List.mem_cons_self
    have htail := ih hj fun k hk => htl k (List.mem_cons_of_mem _ hk)
    have hall := Laid.cons hi htail
    have hstart : startItems p j = [] := by simp [startItems, hpj]
    have hnone : endItems p (j :: tl ++ rest) = [] := by simp [endItems, hpj]
    rw [hnone, hstart, List.nil_append, List.nil_append] at hall
    rw [itemsOf_append, List.append_assoc]
    exact hall

lemma laid_blocks {bbs : List BasicBlock} {bs : List IRBlock}
    (hlift : List.Forall₂ IsLiftOfBlock bbs bs)
    (hlead : ∀ bb ∈ bbs, ∃ i tl, bb.instructions = i :: tl ∧ bb.startAddr = i.address ∧
      p i = true ∧ ∀ j ∈ tl, p j = false) :
    Laid symbols funcNames p (bbs.flatMap BasicBlock.instructions)
      (bs.flatMap (blockItems symbols funcNames) ++ [returnItem]) := by
  induction hlift with
  | nil => exact .nil
  | @cons bb b bbs bs hb hbs ih =>
    obtain ⟨i, tl, hins, hstart, hpi, htl⟩ := hlead bb List.mem_cons_self
    obtain ⟨⟨irs, v⟩, hirs, hb⟩ := Option.bind_eq_some_iff.mp hb
    cases hb
    have hrest := ih fun bb hbb => hlead bb (List.mem_cons_of_mem _ hbb)
    have hend : endItems p (bbs.flatMap BasicBlock.instructions) = [.closed] := by
      cases bbs with
      | nil => rfl
      | cons bb' bbs =>
        obtain ⟨i', tl', hins', _, hpi', _⟩ := hlead bb' (by simp)
        simp [endItems, hins', hpi']
    rw [hins] at hirs
    have hblock := laid_block hirs htl hend hrest
    have hitems : startItems p i = [.label (blockLabel bb.startAddr), .opened] := by
      simp [startItems, hpi, hstart]
    rw [hitems] at hblock
    rw [List.flatMap_cons, hins]
    convert hblock using 1
    simp [blockItems, itemsOf]

variable (symbols funcNames) in
theorem laid_functionDef {func : DisassembledFunction} {ir : IRFunction}
    (hne : func.instructions ≠ []) (hinc : Increasing func.instructions)
    (h : liftFunction (buildCfg func) = some ir) :
    ∃ items, (functionDef symbols funcNames ir).body = discardItem :: items ∧
      Laid symbols funcNames (lead func.instructions) func.instructions items := by
  refine ⟨_, rfl, ?_⟩
  have hins : (graphBlocks func).flatMap BasicBlock.instructions = func.instructions := by
    rw [List.flatMap_def, graphBlocks_instructions hne hinc]
    exact flatten_runs _ _
  have hlaid : Laid symbols funcNames (lead func.instructions)
      ((graphBlocks func).flatMap BasicBlock.instructions) _ :=
    laid_blocks (blockList_lift hne hinc h) fun bb hbb => lead_of_mem_graphBlocks hne hinc hbb
  rw [sortedBlocks_lift hne hinc h]
  rwa [hins] at hlaid

section Positions

variable {F : FunctionDef} {insns rest : List DisassembledInsn} {items : List Item}

lemma silent_startItems (i : DisassembledInsn) : ∀ x ∈ startItems p i, ∀ s, x ≠ .stmt s := by
  intro x hx s
  rw [startItems] at hx
  split at hx
  · rcases List.mem_cons.mp hx with rfl | hx
    · simp
    · rw [List.mem_singleton.mp hx]
      simp
  · cases hx

lemma silent_endItems (rest : List DisassembledInsn) : ∀ x ∈ endItems p rest, ∀ s, x ≠ .stmt s := by
  intro x hx s
  rw [endItems] at hx
  split at hx
  · rw [List.mem_singleton.mp hx]
    simp
  · cases hx

variable (symbols funcNames p F) in
def Stands (insns : List DisassembledInsn) (items : List Item) : Prop :=
  ∃ n items', Laid symbols funcNames p insns items' ∧
    ∀ σ, Travels F.next n (items, σ) (items', σ)

lemma Laid.stands (h : Laid symbols funcNames p insns items) :
    Stands symbols funcNames p F insns items := ⟨0, items, h, fun _ => .refl _⟩

lemma Stands.instruction {i : DisassembledInsn}
    (h : Stands symbols funcNames p F (i :: rest) items) :
    ∃ n irs versions versions' items', liftInsn i versions = some (irs, versions') ∧
      (∀ σ, Travels F.next n (items, σ) (itemsOf symbols funcNames irs ++ items', σ)) ∧
      Stands symbols funcNames p F rest items' := by
  obtain ⟨n, items', hlaid, htravels⟩ := h
  cases hlaid with
  | @cons _ _ irs v v' later hi hrest =>
    refine ⟨(startItems p i).length + n, irs, v, v', endItems p rest ++ later, hi, ?_, ?_⟩
    · intro σ
      exact (htravels σ).trans (FunctionDef.travels_silent (silent_startItems i) _ σ)
    · exact ⟨_, later, hrest, fun σ => FunctionDef.travels_silent (silent_endItems rest) _ σ⟩

lemma label_not_mem_itemsOf (l : Text) (irs : List IRInstruction) :
    .label l ∉ itemsOf symbols funcNames irs := by
  simp [itemsOf, instructionItems]

lemma label_mem_startItems {i : DisassembledInsn} {a : U64}
    (h : .label (blockLabel a) ∈ startItems p i) : i.address = a := by
  rw [startItems] at h
  split at h
  · simp only [List.mem_cons, Item.label.injEq, List.not_mem_nil, or_false, reduceCtorEq] at h
    exact (blockLabel_injective h).symm
  · cases h

lemma Laid.fromLabel {code : Program} {t : DisassembledInsn}
    (h : Laid symbols funcNames p insns items) (hinc : Increasing insns)
    (hcode : insns.map DisassembledInsn.address = code.map Prod.fst) (ht : t ∈ insns)
    (hp : p t = true) :
    ∃ rest items' k, insns.drop k = t :: rest ∧ atAddress t.address code = some (code.drop k) ∧
      Clang.fromLabel (blockLabel t.address) items = some items' ∧
      Laid symbols funcNames p (t :: rest) items' := by
  induction h generalizing code with
  | nil => cases ht
  | @cons i rest irs v v' later hi hrest ih =>
    cases code with
    | nil => cases hcode
    | cons q code =>
      rw [List.map_cons, List.map_cons] at hcode
      obtain ⟨hq, hcode⟩ := List.cons.inj hcode
      by_cases hit : i.address = t.address
      · obtain rfl : i = t := hinc.eq_of_address List.mem_cons_self ht hit
        refine ⟨rest, _, 0, rfl, by simp [atAddress, ← hq], ?_, .cons hi hrest⟩
        simp [startItems, hp, Clang.fromLabel]
      · have htr : t ∈ rest := by
          rcases List.mem_cons.mp ht with rfl | htr
          · exact absurd rfl hit
          · exact htr
        obtain ⟨rest', items', k, hdrop, hat, hlabel, hlaid⟩ := ih hinc.of_cons hcode htr
        refine ⟨rest', items', k + 1, hdrop, ?_, ?_, hlaid⟩
        · rw [atAddress, ← hq, if_neg hit, hat, List.drop_succ_cons]
        · rw [← List.append_assoc, ← List.append_assoc, fromLabel_append ?_, hlabel]
          intro hmem
          rcases List.mem_append.mp hmem with hmem | hmem
          · rcases List.mem_append.mp hmem with hmem | hmem
            · exact hit (label_mem_startItems hmem)
            · exact label_not_mem_itemsOf _ irs hmem
          · rw [endItems] at hmem
            split at hmem <;> simp at hmem

end Positions

end Dexe.Programs
