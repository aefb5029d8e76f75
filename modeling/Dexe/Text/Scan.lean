import Dexe.Text.Numeral

/-! Trimming and replacing in texts put together from pieces. -/

namespace Dexe.Text

structure Trimmed (t : Text) : Prop where
  head : ∀ c ∈ t.head?, isWhitespace c = false
  last : ∀ c ∈ t.getLast?, isWhitespace c = false

lemma dropWhile_of_head {t : Text} (h : ∀ c ∈ t.head?, isWhitespace c = false) :
    t.dropWhile isWhitespace = t := by
  cases t with
  | nil => rfl
  | cons c t => simp [h c rfl]

namespace Trimmed

variable {s t : Text}

lemma trim_eq (h : Trimmed t) : trim t = t := by
  have hlast : ∀ c ∈ t.reverse.head?, isWhitespace c = false := by
    rw [List.head?_reverse]
    exact h.last
  rw [trim, dropWhile_of_head h.head, List.rdropWhile, dropWhile_of_head hlast,
    List.reverse_reverse]

lemma of_forall (h : ∀ c ∈ t, isWhitespace c = false) : Trimmed t :=
  ⟨fun c hc => h c (List.mem_of_mem_head? hc), fun c hc => h c (List.mem_of_getLast? hc)⟩

lemma append (hs : ∀ c ∈ s.head?, isWhitespace c = false) (hne : s ≠ [])
    (ht : ∀ c ∈ t.getLast?, isWhitespace c = false) (hne' : t ≠ []) : Trimmed (s ++ t) := by
  constructor
  · rw [List.head?_append_of_ne_nil _ hne]
    exact hs
  · rw [List.getLast?_append_of_ne_nil _ hne']
    exact ht

end Trimmed

lemma trimmed_trim (t : Text) : Trimmed (trim t) := by
  constructor
  · intro c hc
    obtain ⟨u, hu⟩ := List.rdropWhile_prefix isWhitespace (t.dropWhile isWhitespace)
    have hdrop := List.head?_dropWhile_not isWhitespace t
    have hfirst : (t.dropWhile isWhitespace).head? = some c := by
      rw [← hu, List.head?_append, ← trim, hc]
      rfl
    rw [hfirst] at hdrop
    exact hdrop
  · intro c hc
    have hne : trim t ≠ [] := by
      intro h
      rw [h] at hc
      cases hc
    have hlast := List.rdropWhile_last_not isWhitespace (t.dropWhile isWhitespace) hne
    rw [List.getLast?_eq_some_getLast hne] at hc
    cases hc
    exact Bool.eq_false_iff.mpr hlast

lemma trim_trim (t : Text) : trim (trim t) = trim t := (trimmed_trim t).trim_eq

lemma trim_cons_space (t : Text) : trim (' ' :: t) = trim t := by
  have hspace : isWhitespace ' ' = true := by decide
  rw [trim, List.dropWhile_cons_of_pos hspace, ← trim]

lemma trim_append_space (t : Text) : trim (t ++ " ") = trim t := by
  have hspace : isWhitespace ' ' = true := by decide
  induction t with
  | nil => rw [List.nil_append]; exact trim_cons_space []
  | cons c t ih =>
    by_cases hc : isWhitespace c
    · have h : ∀ u, trim (c :: u) = trim u := by
        intro u
        rw [trim, List.dropWhile_cons_of_pos hc, ← trim]
      rw [List.cons_append, h, h, ih]
    · have h : ∀ u, trim (c :: u) = (c :: u).rdropWhile isWhitespace := by
        intro u
        rw [trim, List.dropWhile_cons_of_neg hc]
      rw [List.cons_append, h, h, ← List.cons_append]
      exact List.rdropWhile_concat_pos _ _ _ hspace

variable {p : Char} {ps rep : Text}

lemma replaceAux_append {t : Text} (ht : p ∉ t) (u : Text) :
    replaceAux (p :: ps) rep 0 (t ++ u) = t ++ replaceAux (p :: ps) rep 0 u := by
  induction t with
  | nil => rfl
  | cons c t ih =>
    have hc : p ≠ c := by
      rintro rfl
      exact ht List.mem_cons_self
    have hno : (p :: ps).isPrefixOf (c :: (t ++ u)) = false := by simp [List.isPrefixOf, hc]
    rw [List.cons_append, replaceAux, hno, if_neg Bool.false_ne_true,
      ih fun h => ht (List.mem_cons_of_mem _ h), List.cons_append]

lemma replaceAux_cons {c : Char} {u : Text} (h : (p :: ps).isPrefixOf (c :: u) = false) :
    replaceAux (p :: ps) rep 0 (c :: u) = c :: replaceAux (p :: ps) rep 0 u := by
  rw [replaceAux, h, if_neg Bool.false_ne_true]

end Dexe.Text
