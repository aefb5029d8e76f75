import Dexe.Ir.PrintedTexts
import Dexe.Text.Radix

/-! Which texts are read as immediates. -/

namespace Dexe

namespace Text

def IsHexNumber (s : Text) : Prop :=
  ∃ ds : Text, (s = '0' :: 'x' :: ds ∨ s = '0' :: 'X' :: ds) ∧ IsNumber 16 (2 ^ 64) ds

def IsSigned (r : ℕ) (s : Text) : Prop :=
  IsNumber r (2 ^ 63) s ∨ ∃ ds n, s = '-' :: ds ∧ digits r ds = some n ∧ n ≤ 2 ^ 63

variable {r bound : ℕ} {s ds : Text} {c : Char}

lemma chars_of_digits {n : ℕ} (h : digits r s = some n) (hc : c ∈ s) :
    ∃ d, toDigit r c = some d := toDigit_of_mem_digits (digits_eq_some_iff.mp h).2 c hc

namespace IsNumber

lemma ne_nil (h : IsNumber r bound s) : s ≠ [] := by
  obtain ⟨n, hn, -⟩ := h
  rintro rfl
  cases hn

lemma chars (h : IsNumber r bound s) (hc : c ∈ s) : c = '+' ∨ ∃ d, toDigit r c = some d := by
  obtain ⟨n, hn, -⟩ := h
  rw [dropPlus] at hn
  split at hn
  · cases s with
    | nil => cases hc
    | cons a s =>
      rename_i ha
      rcases List.mem_cons.mp hc with rfl | hc
      · exact .inl (Option.some.inj ha)
      · exact .inr (chars_of_digits hn hc)
  · exact .inr (chars_of_digits hn hc)

lemma plain (hr : r ≤ 16) (h : IsNumber r bound s) (hc : c ∈ s) :
    isWhitespace c = false ∧ c ≠ ',' ∧ c ≠ '[' ∧ c ≠ ']' ∧ c ≠ '-' ∧ c ≠ 'x' ∧ c ≠ 'X' := by
  have hx : toDigit 16 'x' = none ∧ toDigit 16 'X' = none := by decide
  rcases h.chars hc with rfl | ⟨d, hd⟩
  · decide
  · replace hd := toDigit_mono hr hd
    obtain ⟨hspace, hcomma, hopen, hclose, -, hminus⟩ := plain_of_toDigit hd
    refine ⟨hspace, hcomma, hopen, hclose, hminus, ?_, ?_⟩
    · rintro rfl
      cases hx.1.symm.trans hd
    · rintro rfl
      cases hx.2.symm.trans hd

end IsNumber

lemma isSome_u64FromStrRadix : (u64FromStrRadix s r).isSome ↔ IsNumber r (2 ^ 64) s := by
  rw [Option.isSome_iff_exists]
  constructor
  · rintro ⟨a, ha⟩
    obtain ⟨n, hn, hlt, -⟩ := u64FromStrRadix_eq_some_iff.mp ha
    exact ⟨n, hn, hlt⟩
  · rintro ⟨n, hn, hlt⟩
    exact ⟨_, u64FromStrRadix_eq_some_iff.mpr ⟨n, hn, hlt, rfl⟩⟩

lemma i64FromStrRadix_of_number (hr : r ≤ 16) {n : ℕ} (hn : digits r (dropPlus s) = some n)
    (hlt : n < 2 ^ 63) : i64FromStrRadix s r = some (BitVec.ofNat 64 n) := by
  have hminus : s.head? ≠ some '-' := by
    intro h
    exact (IsNumber.plain hr ⟨n, hn, hlt⟩ (List.mem_of_mem_head? h)).2.2.2.2.1 rfl
  rw [i64FromStrRadix, if_neg hminus]
  show (digits r (dropPlus s)).bind _ = _
  rw [hn, Option.bind_some, if_pos hlt]

lemma isSome_i64FromStrRadix (hr : r ≤ 16) : (i64FromStrRadix s r).isSome ↔ IsSigned r s := by
  constructor
  · intro h
    obtain ⟨a, ha⟩ := Option.isSome_iff_exists.mp h
    rw [i64FromStrRadix] at ha
    split at ha
    · rename_i hminus
      obtain ⟨n, hn, hlt⟩ := Option.bind_eq_some_iff.mp ha
      cases s with
      | nil => cases hminus
      | cons c s =>
        cases hminus
        split at hlt
        · exact .inr ⟨s, n, rfl, hn, ‹_›⟩
        · cases hlt
    · obtain ⟨n, hn, hlt⟩ := Option.bind_eq_some_iff.mp ha
      split at hlt
      · exact .inl ⟨n, hn, ‹_›⟩
      · cases hlt
  · rintro (⟨n, hn, hlt⟩ | ⟨ds, n, rfl, hn, hle⟩)
    · rw [i64FromStrRadix_of_number hr hn hlt]
      rfl
    · have hhead : ('-' :: ds).head? = some '-' := rfl
      rw [i64FromStrRadix, if_pos hhead, List.tail_cons, hn, Option.bind_some, if_pos hle]
      rfl

end Text

namespace Ir

open Text

variable {s t ds : Text} {c : Char}

def ImmediateText (s : Text) : Prop :=
  IsHexNumber s ∨ IsNumber 10 (2 ^ 63) s ∨ ∃ ds : Text, s = '-' :: ds ∧
    (IsSigned 10 (trim ds) ∨ ∃ us : Text,
      (trim ds = '0' :: 'x' :: us ∨ trim ds = '0' :: 'X' :: us) ∧ IsSigned 16 us)

lemma hexPrefix_eq_some_iff :
    hexPrefix s = some ds ↔ s = '0' :: 'x' :: ds ∨ s = '0' :: 'X' :: ds := by
  have hstrip : ∀ x : Char, stripPrefix s ['0', x] = some ds ↔ s = '0' :: x :: ds := by
    intro x
    rw [stripPrefix]
    constructor
    · intro h
      split at h
      · rename_i hpre
        obtain ⟨t, rfl⟩ := List.isPrefixOf_iff_prefix.mp hpre
        cases h
        rfl
      · cases h
    · rintro rfl
      rw [if_pos (by simp [startsWith])]
      rfl
  have hx := hstrip 'x'
  have hX := hstrip 'X'
  show (stripPrefix s ['0', 'x']).or (stripPrefix s ['0', 'X']) = some ds ↔ _
  rw [← hx, ← hX, Option.or_eq_some_iff]
  refine or_congr_right (and_iff_right_of_imp fun h => ?_)
  rw [hX.mp h]
  rfl

lemma hexPrefix_eq_none {r bound : ℕ} (hr : r ≤ 16) (h : IsNumber r bound s) :
    hexPrefix s = none := by
  refine Option.eq_none_iff_forall_ne_some.mpr fun ds hds => ?_
  rcases hexPrefix_eq_some_iff.mp hds with rfl | rfl
  · exact (h.plain hr (by simp : 'x' ∈ '0' :: 'x' :: ds)).2.2.2.2.2.1 rfl
  · exact (h.plain hr (by simp : 'X' ∈ '0' :: 'X' :: ds)).2.2.2.2.2.2 rfl

lemma stripPrefix_minus_eq_some_iff : stripPrefix s "-" = some ds ↔ s = '-' :: ds := by
  cases s with
  | nil => simp [stripPrefix, startsWith]
  | cons c s =>
    by_cases hc : c = '-'
    · subst hc
      simp [stripPrefix, startsWith]
    · have hc' : '-' ≠ c := Ne.symm hc
      simp [stripPrefix, startsWith, hc, hc']

lemma parseImmediate_minus (hs : trim t = '-' :: ds) :
    parseImmediate t = match hexPrefix (trim ds) with
      | some hex => (i64FromStrRadix hex 16).map fun v => -v
      | none => (i64FromStrRadix (trim ds) 10).map fun v => -v := by
  have hne : trim t ≠ [] := by simp [hs]
  have hminus : stripPrefix (trim t) "-" = some ds := stripPrefix_minus_eq_some_iff.mpr hs
  refine (if_neg hne).trans ?_
  split
  · rename_i rest hrest
    obtain rfl : ds = rest := Option.some.inj (hminus.symm.trans hrest)
    rfl
  · rename_i hrest
    cases hminus.symm.trans hrest

lemma stripPrefix_minus_eq_none (h : ∀ ds, s ≠ '-' :: ds) : stripPrefix s "-" = none :=
  Option.eq_none_iff_forall_ne_some.mpr fun ds hds => h ds (stripPrefix_minus_eq_some_iff.mp hds)

lemma parseImmediate_hex (hs : hexPrefix (trim t) = some ds) :
    parseImmediate t = u64FromStrRadix ds 16 := by
  have hcases := hexPrefix_eq_some_iff.mp hs
  have hne : trim t ≠ [] := by rcases hcases with h | h <;> simp [h]
  have hminus : stripPrefix (trim t) "-" = none := by
    refine stripPrefix_minus_eq_none fun us hus => ?_
    rcases hcases with h | h <;> simp [h] at hus
  simp only [parseImmediate, if_neg hne, hminus, hs]

lemma parseImmediate_dec (hne : trim t ≠ []) (hminus : ∀ ds, trim t ≠ '-' :: ds)
    (hs : hexPrefix (trim t) = none) : parseImmediate t = i64FromStrRadix (trim t) 10 := by
  simp only [parseImmediate, if_neg hne, stripPrefix_minus_eq_none hminus, hs]

lemma not_isSigned_of_hexPrefix {r : ℕ} (hr : r ≤ 16) (hs : hexPrefix s = some ds) :
    ¬ IsSigned r s := by
  rintro (h | ⟨us, n, rfl, -⟩)
  · rw [hexPrefix_eq_none hr h] at hs
    cases hs
  · rcases hexPrefix_eq_some_iff.mp hs with h | h <;> simp at h

lemma not_minus_of_number {r bound : ℕ} (hr : r ≤ 16) (h : IsNumber r bound s) :
    s ≠ '-' :: ds := by
  rintro rfl
  exact (h.plain hr List.mem_cons_self).2.2.2.2.1 rfl

lemma isHexNumber_iff (hs : hexPrefix s = some ds) : IsHexNumber s ↔ IsNumber 16 (2 ^ 64) ds := by
  constructor
  · rintro ⟨us, hus, h⟩
    rw [hexPrefix_eq_some_iff.mpr hus] at hs
    exact Option.some.inj hs ▸ h
  · exact fun h => ⟨ds, hexPrefix_eq_some_iff.mp hs, h⟩

lemma not_isHexNumber (hs : hexPrefix s = none) : ¬ IsHexNumber s := by
  rintro ⟨us, hus, -⟩
  rw [hexPrefix_eq_some_iff.mpr hus] at hs
  cases hs

lemma immediateText_minus (hs : s = '-' :: ds) : ImmediateText s ↔
    IsSigned 10 (trim ds) ∨ ∃ us : Text,
      (trim ds = '0' :: 'x' :: us ∨ trim ds = '0' :: 'X' :: us) ∧ IsSigned 16 us := by
  subst hs
  have hhex : ¬ IsHexNumber ('-' :: ds) := by
    rintro ⟨us, h | h, -⟩ <;> simp at h
  have hnumber : ¬ IsNumber 10 (2 ^ 63) ('-' :: ds) :=
    fun h => not_minus_of_number (by norm_num) h rfl
  rw [ImmediateText, or_iff_right hhex, or_iff_right hnumber]
  simp

theorem isSome_parseImmediate : (parseImmediate t).isSome ↔ ImmediateText (trim t) := by
  have hten : 10 ≤ 16 := by norm_num
  by_cases hne : trim t = []
  · have hempty : ¬ ImmediateText [] := by
      rintro (⟨us, h | h, -⟩ | h | ⟨us, h, -⟩)
      · cases h
      · cases h
      · exact h.ne_nil rfl
      · cases h
    rw [hne]
    exact iff_of_false (by simp [parseImmediate, hne]) hempty
  · by_cases hminus : ∃ ds, trim t = '-' :: ds
    · obtain ⟨ds, hds⟩ := hminus
      rw [parseImmediate_minus hds, immediateText_minus hds]
      cases hhex : hexPrefix (trim ds) with
      | some us =>
        rw [or_iff_right (not_isSigned_of_hexPrefix hten hhex)]
        simp only [← hexPrefix_eq_some_iff, hhex, Option.some_inj, exists_eq_left',
          Option.isSome_map]
        exact isSome_i64FromStrRadix le_rfl
      | none =>
        simp only [← hexPrefix_eq_some_iff, hhex, reduceCtorEq, false_and, exists_false, or_false,
          Option.isSome_map]
        exact isSome_i64FromStrRadix hten
    · have hno : ∀ ds, trim t ≠ '-' :: ds := fun ds h => hminus ⟨ds, h⟩
      rw [ImmediateText]
      simp only [hno, false_and, exists_false, or_false]
      cases hhex : hexPrefix (trim t) with
      | some ds =>
        have hnumber : ¬ IsNumber 10 (2 ^ 63) (trim t) :=
          fun h => not_isSigned_of_hexPrefix hten hhex (.inl h)
        rw [parseImmediate_hex hhex, or_iff_left hnumber, isHexNumber_iff hhex]
        exact isSome_u64FromStrRadix
      | none =>
        rw [parseImmediate_dec hne hno hhex, or_iff_right (not_isHexNumber hhex),
          isSome_i64FromStrRadix hten]
        refine or_iff_left ?_
        rintro ⟨us, n, h, -⟩
        exact hno us h

lemma parseImmediate_trim (t : Text) : parseImmediate (trim t) = parseImmediate t := by
  simp only [parseImmediate, trim_trim]

lemma not_bracket_of_signed {r : ℕ} (hr : r ≤ 16) (h : IsSigned r s) : '[' ∉ s := by
  rintro hmem
  rcases h with h | ⟨ds, n, rfl, hn, -⟩
  · exact (h.plain hr hmem).2.2.1 rfl
  · rcases List.mem_cons.mp hmem with h | hmem
    · cases h
    · obtain ⟨d, hd⟩ := chars_of_digits hn hmem
      exact (plain_of_toDigit (toDigit_mono hr hd)).2.2.1 rfl

lemma ImmediateText.chars (h : ImmediateText s) :
    '[' ∉ s ∧ ∃ c u, s = c :: u ∧ lowerChar c = [c] ∧ c.isAlpha = false := by
  have hhead : ∀ {bound : ℕ} {u : Text}, IsNumber 10 bound u →
      ∃ c v, u = c :: v ∧ lowerChar c = [c] ∧ c.isAlpha = false := by
    intro bound u hu
    obtain ⟨c, v, rfl⟩ := List.exists_cons_of_ne_nil hu.ne_nil
    refine ⟨c, v, rfl, ?_⟩
    rcases hu.chars List.mem_cons_self with rfl | ⟨d, hd⟩
    · decide
    · exact decimal_toDigit hd
  have hcut : ∀ x us, x = 'x' ∨ x = 'X' → '[' ∉ us → '[' ∉ '0' :: x :: us := by
    rintro x us (rfl | rfl) hus <;> simpa using hus
  rcases h with ⟨us, hs, h⟩ | h | ⟨ds, rfl, h⟩
  · have hus : '[' ∉ us := fun hmem => (h.plain le_rfl hmem).2.2.1 rfl
    rcases hs with rfl | rfl
    · exact ⟨hcut _ us (.inl rfl) hus, _, _, rfl, by decide, by decide⟩
    · exact ⟨hcut _ us (.inr rfl) hus, _, _, rfl, by decide, by decide⟩
  · exact ⟨fun hmem => (h.plain (by norm_num) hmem).2.2.1 rfl, hhead h⟩
  · refine ⟨fun hmem => ?_, '-', ds, rfl, by decide, by decide⟩
    have htrim : '[' ∈ trim ds := by
      rcases List.mem_cons.mp hmem with h | hmem
      · cases h
      · exact mem_trim hmem (by decide)
    rcases h with h | ⟨us, hus, h⟩
    · exact not_bracket_of_signed (by norm_num) h htrim
    · have hnot := not_bracket_of_signed le_rfl h
      rcases hus with hus | hus <;> rw [hus] at htrim
      · exact hcut _ us (.inl rfl) hnot htrim
      · exact hcut _ us (.inr rfl) hnot htrim

lemma parseImmediate_of_memory (h : isMemoryOperand (trim t)) : parseImmediate t = none := by
  rw [← Option.not_isSome_iff_eq_none, isSome_parseImmediate]
  exact fun himm => himm.chars.1 h

lemma parseImmediate_of_register (h : (parseRegister (trim t)).isSome) :
    parseImmediate t = none := by
  rw [← Option.not_isSome_iff_eq_none, isSome_parseImmediate]
  intro himm
  have htrim := trimmed_trim t
  obtain ⟨-, c, u, hs, hlower, halpha⟩ := himm.chars
  rw [hs] at htrim h
  rw [parseRegister_eq_none htrim hlower halpha] at h
  cases h

end Ir

end Dexe
