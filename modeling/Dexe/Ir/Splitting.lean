import Dexe.Ir.HexOperands
import Dexe.X86.Syntax

/-! Operands joined by commas, split where they were joined. -/

namespace Dexe

namespace Text

lemma trim_spaces {t : Text} (ht : Trimmed t) (m n : ℕ) :
    trim (List.replicate m ' ' ++ t ++ List.replicate n ' ') = t := by
  induction n with
  | zero =>
    induction m with
    | zero => simpa using ht.trim_eq
    | succ m ih => simpa [List.replicate_succ, trim_cons_space] using ih
  | succ n ih =>
    rw [List.replicate_succ', ← List.append_assoc]
    exact (trim_append_space _).trans ih

end Text

namespace Ir

open Text

structure Piece (t : Text) : Prop where
  ne_nil : t ≠ []
  trimmed : Trimmed t
  scan : ∀ result current, t.foldl splitStep ⟨result, current, 0⟩ = ⟨result, current ++ t, 0⟩

lemma pushPiece_of_ne {result : List Text} {current : Text} (h : trim current ≠ []) :
    pushPiece result current = result ++ [trim current] := by
  simp [pushPiece, h]

def joinedText : (ℕ → ℕ × ℕ) → List Text → Text
  | _, [] => []
  | _, [t] => t
  | spaces, t :: ts =>
    t ++ List.replicate (spaces 0).1 ' ' ++ ',' :: (List.replicate (spaces 0).2 ' ' ++
      joinedText (fun i => spaces (i + 1)) ts)

lemma joinedText_cons (spaces : ℕ → ℕ × ℕ) (t u : Text) (us : List Text) :
    joinedText spaces (t :: u :: us) =
      t ++ List.replicate (spaces 0).1 ' ' ++ ',' :: (List.replicate (spaces 0).2 ' ' ++
        joinedText (fun i => spaces (i + 1)) (u :: us)) := rfl

lemma operandsText_eq (ts : List Text) : X86.operandsText ts = joinedText (fun _ => (0, 1)) ts := by
  induction ts with
  | nil => rfl
  | cons t ts ih =>
    cases ts with
    | nil => rfl
    | cons u us =>
      rw [X86.operandsText, ih, joinedText_cons]
      · simp
      · simp

lemma scan_spaces (n : ℕ) (st : SplitState) :
    (List.replicate n ' ').foldl splitStep st =
      ⟨st.result, st.current ++ List.replicate n ' ', st.bracketDepth⟩ := by
  refine foldl_splitStep (fun c hc => ?_) st
  rw [List.eq_of_mem_replicate hc]
  decide

lemma scan_comma {result : List Text} {current : Text} (h : trim current ≠ []) :
    splitStep ⟨result, current, 0⟩ ',' = ⟨result ++ [trim current], [], 0⟩ := by
  rw [← pushPiece_of_ne h]
  rfl

variable {t : Text} {ts : List Text}

lemma scan_joinedText (h : ∀ s ∈ t :: ts, Piece s) (spaces : ℕ → ℕ × ℕ) (result : List Text)
    (m : ℕ) :
    ∃ current, (joinedText spaces (t :: ts)).foldl splitStep ⟨result, List.replicate m ' ', 0⟩ =
        ⟨result ++ (t :: ts).dropLast, current, 0⟩ ∧
      trim current = (t :: ts).getLast (by simp) := by
  have ht := h t List.mem_cons_self
  induction ts generalizing t result m spaces with
  | nil =>
    refine ⟨List.replicate m ' ' ++ t, ?_, ?_⟩
    · rw [joinedText, ht.scan]
      simp
    · simpa using trim_spaces ht.trimmed m 0
  | cons u us ih =>
    have hus : ∀ s ∈ u :: us, Piece s := fun s hs => h s (List.mem_cons_of_mem _ hs)
    obtain ⟨current, hscan, hlast⟩ := ih hus (fun i => spaces (i + 1)) (result ++ [t])
      (spaces 0).2 (hus u List.mem_cons_self)
    have htrim := trim_spaces ht.trimmed m (spaces 0).1
    have hne : trim (List.replicate m ' ' ++ t ++ List.replicate (spaces 0).1 ' ') ≠ [] := by
      rw [htrim]
      exact ht.ne_nil
    refine ⟨current, ?_, by simpa using hlast⟩
    rw [joinedText_cons, List.foldl_append, List.foldl_append, ht.scan, scan_spaces,
      List.foldl_cons, scan_comma hne, htrim, List.foldl_append, scan_spaces, List.nil_append,
      hscan]
    simp

lemma trimmed_joinedText (h : ∀ s ∈ t :: ts, Piece s) (spaces : ℕ → ℕ × ℕ) :
    Trimmed (joinedText spaces (t :: ts)) ∧ joinedText spaces (t :: ts) ≠ [] := by
  have ht := h t List.mem_cons_self
  induction ts generalizing t spaces with
  | nil => exact ⟨ht.trimmed, ht.ne_nil⟩
  | cons u us ih =>
    have hus : ∀ s ∈ u :: us, Piece s := fun s hs => h s (List.mem_cons_of_mem _ hs)
    obtain ⟨htrim, hne⟩ := ih hus (fun i => spaces (i + 1)) (hus u List.mem_cons_self)
    have htext : joinedText spaces (t :: u :: us) =
        t ++ (List.replicate (spaces 0).1 ' ' ++ ',' :: List.replicate (spaces 0).2 ' ' ++
          joinedText (fun i => spaces (i + 1)) (u :: us)) := by
      simp [joinedText_cons]
    rw [htext]
    refine ⟨.append ht.trimmed.head ht.ne_nil ?_ (by simp), by simp⟩
    rw [List.getLast?_append_of_ne_nil _ hne]
    exact htrim.last

theorem parseOperands_joinedText (h : ∀ t ∈ ts, Piece t) (spaces : ℕ → ℕ × ℕ) :
    parseOperands (joinedText spaces ts) = ts := by
  cases ts with
  | nil => rfl
  | cons t ts =>
    obtain ⟨htrim, hne⟩ := trimmed_joinedText h spaces
    obtain ⟨current, hscan, hlast⟩ := scan_joinedText h spaces [] 0
    have hpiece : trim current ≠ [] := by
      rw [hlast]
      exact (h _ (List.getLast_mem _)).ne_nil
    rw [List.replicate_zero] at hscan
    simp only [parseOperands, htrim.trim_eq, if_neg hne, hscan, pushPiece_of_ne hpiece, hlast,
      List.nil_append]
    exact List.dropLast_concat_getLast _

structure Balanced (t : Text) : Prop where
  closes : ∀ s, s <+: t → s.count ']' ≤ s.count '['
  total : t.count ']' = t.count '['

structure Splittable (t : Text) : Prop where
  ne_nil : t ≠ []
  trimmed : Trimmed t
  balanced : Balanced t
  comma : ∀ s, s ++ [','] <+: t → s.count ']' < s.count '['

def bracketCount (t : Text) : ℕ := t.count '[' + t.count ']'

section Depth

variable {result : List Text} {current : Text} {d : ℕ}

lemma step_open :
    splitStep ⟨result, current, BitVec.ofNat 32 d⟩ '[' =
      ⟨result, current ++ ['['], BitVec.ofNat 32 (d + 1)⟩ := by
  simp [splitStep, BitVec.ofNat_add]

lemma step_close (hd : d + 1 < 2 ^ 32) :
    splitStep ⟨result, current, BitVec.ofNat 32 (d + 1)⟩ ']' =
      ⟨result, current ++ [']'], BitVec.ofNat 32 d⟩ := by
  have hne : BitVec.ofNat 32 (d + 1) ≠ 0 := by
    intro h
    have := congrArg BitVec.toNat h
    rw [BitVec.toNat_ofNat, Nat.mod_eq_of_lt hd] at this
    exact absurd this (by simp)
  have hpred : BitVec.ofNat 32 (d + 1) - 1 = BitVec.ofNat 32 d := by
    rw [BitVec.ofNat_add]
    exact BitVec.add_sub_cancel _ _
  rw [splitStep, if_neg (by decide), if_pos rfl]
  simp only [if_neg hne, hpred]

lemma step_inside {c : Char} (hopen : c ≠ '[') (hclose : c ≠ ']') (hd : d < 2 ^ 32)
    (hcomma : c = ',' → 0 < d) :
    splitStep ⟨result, current, BitVec.ofNat 32 d⟩ c =
      ⟨result, current ++ [c], BitVec.ofNat 32 d⟩ := by
  have hno : ¬ (c = ',' ∧ BitVec.ofNat 32 d = 0) := by
    rintro ⟨hc, hzero⟩
    have hpos := hcomma hc
    have := congrArg BitVec.toNat hzero
    rw [BitVec.toNat_ofNat, Nat.mod_eq_of_lt hd] at this
    simp only [BitVec.ofNat_eq_ofNat, BitVec.toNat_ofNat, Nat.zero_mod] at this
    omega
  rw [splitStep, if_neg hopen, if_neg hclose, if_neg hno]

lemma scan_depth {t : Text} (hmax : d + t.count '[' < 2 ^ 32)
    (hcloses : ∀ s, s <+: t → s.count ']' ≤ d + s.count '[')
    (hcomma : ∀ s, s ++ [','] <+: t → s.count ']' < d + s.count '[') :
    t.foldl splitStep ⟨result, current, BitVec.ofNat 32 d⟩ =
      ⟨result, current ++ t, BitVec.ofNat 32 (d + t.count '[' - t.count ']')⟩ := by
  induction t generalizing d current with
  | nil => simp
  | cons c t ih =>
    have hcloses' : ∀ s, s <+: t → (c :: s).count ']' ≤ d + (c :: s).count '[' :=
      fun s hs => hcloses (c :: s) (List.cons_prefix_cons.mpr ⟨rfl, hs⟩)
    have hcomma' : ∀ s, s ++ [','] <+: t → (c :: s).count ']' < d + (c :: s).count '[' :=
      fun s hs => hcomma (c :: s) (List.cons_prefix_cons.mpr ⟨rfl, hs⟩)
    rw [List.foldl_cons]
    by_cases hopen : c = '['
    · subst hopen
      simp only [List.count_cons_self, List.count_cons_of_ne (show '[' ≠ ']' by decide)] at *
      rw [step_open, ih (d := d + 1) (by omega)]
      · simp only [List.append_assoc, List.singleton_append]
        congr 2
        omega
      · intro s hs
        have := hcloses' s hs
        omega
      · intro s hs
        have := hcomma' s hs
        omega
    · by_cases hclose : c = ']'
      · subst hclose
        have hpos := hcloses' [] List.nil_prefix
        simp only [List.count_cons_self, List.count_cons_of_ne (show ']' ≠ '[' by decide),
          List.count_nil] at *
        obtain ⟨d, rfl⟩ : ∃ d', d = d' + 1 := ⟨d - 1, by omega⟩
        rw [step_close (by omega), ih (d := d) (by omega)]
        · simp only [List.append_assoc, List.singleton_append]
          congr 2
          omega
        · intro s hs
          have := hcloses' s hs
          omega
        · intro s hs
          have := hcomma' s hs
          omega
      · have hpos : c = ',' → 0 < d := by
          rintro rfl
          simpa using hcomma [] (List.cons_prefix_cons.mpr ⟨rfl, List.nil_prefix⟩)
        simp only [List.count_cons_of_ne hopen, List.count_cons_of_ne hclose] at *
        rw [step_inside hopen hclose (by omega) hpos, ih hmax hcloses' hcomma']
        simp

end Depth

lemma Splittable.piece (h : Splittable t) (hcount : bracketCount t < 2 ^ 32) : Piece t := by
  refine ⟨h.ne_nil, h.trimmed, fun result current => ?_⟩
  have hscan : t.foldl splitStep ⟨result, current, BitVec.ofNat 32 0⟩ = _ :=
    scan_depth (by rw [bracketCount] at hcount; omega) (by simpa using h.balanced.closes)
      (by simpa using h.comma)
  rw [h.balanced.total] at hscan
  simpa using hscan

theorem parseOperands_joined (h : ∀ t ∈ ts, Splittable t)
    (hcount : (ts.map bracketCount).sum < 2 ^ 32) (spaces : ℕ → ℕ × ℕ) :
    parseOperands (joinedText spaces ts) = ts := by
  refine parseOperands_joinedText (fun t ht => (h t ht).piece ?_) spaces
  exact (List.single_le_sum (fun _ _ => Nat.zero_le _) _ (List.mem_map_of_mem ht)).trans_lt hcount

lemma splittable_indexed : Splittable "f[a, b]" := by
  refine ⟨by decide, ⟨?_, ?_⟩, ⟨fun s hs => ?_, by decide⟩, fun s hs => ?_⟩
  · rintro c ⟨⟩
    decide
  · rintro c ⟨⟩
    decide
  · have hall : ∀ s ∈ List.inits ("f[a, b]" : Text), s.count ']' ≤ s.count '[' := by decide
    exact hall s ((List.mem_inits _ _).mpr hs)
  · have hall : ∀ s ∈ List.inits ("f[a, b]" : Text), s.getLast? = some ',' →
        s.dropLast.count ']' < s.dropLast.count '[' := by decide
    simpa using hall _ ((List.mem_inits _ _).mpr hs)

theorem parseOperands_indexed :
    parseOperands (joinedText (fun i => (i, 3)) ["f[a, b]", "f[a, b]"]) =
      ["f[a, b]", "f[a, b]"] := by
  refine parseOperands_joined ?_ (by decide) _
  rintro t ht
  simp only [List.mem_cons, List.not_mem_nil, or_false, or_self] at ht
  exact ht ▸ splittable_indexed

end Ir

end Dexe
