import Dexe.Ir.PrintedParts
import Dexe.X86.Operands

/-! Operands of any kind, as far as their texts show it. -/

namespace Dexe

namespace Text

lemma mem_dropWhile {p : Char → Bool} {c : Char} {t : Text} (hc : c ∈ t) (hp : p c = false) :
    c ∈ t.dropWhile p := by
  rw [← List.takeWhile_append_dropWhile (p := p) (l := t)] at hc
  rcases List.mem_append.mp hc with hc | hc
  · rw [List.mem_takeWhile_imp hc] at hp
    cases hp
  · exact hc

lemma mem_trim {c : Char} {t : Text} (hc : c ∈ t) (hspace : isWhitespace c = false) :
    c ∈ trim t := by
  rw [trim, List.rdropWhile, List.mem_reverse]
  exact mem_dropWhile (List.mem_reverse.mpr (mem_dropWhile hc hspace)) hspace

end Text

namespace Ir

open Text X86

inductive AddressText : Text → Prop
  | mk {size inner : Text} (hhead : ∀ c ∈ size.head?, isWhitespace c = false)
      (hsize : ∀ c ∈ size, (c ≠ ',' ∧ c ≠ '[' ∧ c ≠ ']') ∧ lowerChar c = [c])
      (hinner : ∀ c ∈ inner, c ≠ ',' ∧ c ≠ '[' ∧ c ≠ ']') :
      AddressText (size ++ ("[" ++ inner ++ "]"))

def OperandText (t : Text) : Prop := (t ≠ [] ∧ ∀ c ∈ t, Plain c) ∨ AddressText t

lemma bracketed_address {size : Text} (h : '[' ∉ size) (inner : Text) :
    bracketed (size ++ ("[" ++ inner ++ "]")) = some (trim inner) := by
  have hfind : Text.find (size ++ ("[" ++ inner ++ "]")) '[' = some size.length := by
    have hnone : ∀ c ∈ size, decide (c = '[') = false := by
      intro c hc
      exact decide_eq_false fun heq => h (heq ▸ hc)
    rw [Text.find, List.findIdx?_append, List.findIdx?_eq_none_iff.mpr hnone]
    simp [List.findIdx?_cons]
  have hrfind : Text.rfind (size ++ ("[" ++ inner ++ "]")) ']' =
      some (size.length + (inner.length + 1)) := by
    simp [Text.rfind, List.findIdx?_cons]
  have htext : size ++ ("[" ++ inner ++ "]") = (size ++ ['[']) ++ inner ++ [']'] := by simp
  have hslice : Text.slice (size ++ ("[" ++ inner ++ "]")) (size.length + 1)
      (size.length + (inner.length + 1)) = some inner := by
    rw [htext, Text.slice, if_pos (by simp), List.take_left' (by simp),
      List.drop_left' (by simp)]
  rw [bracketed, hfind, hrfind]
  simp only [hslice, Option.map_some]

lemma stripSizePrefix_address {size : Text} (hlower : toLowercase size = size) (u : Text) :
    ∃ n, stripSizePrefix (size ++ '[' :: u) = size.drop n ++ '[' :: u := by
  have hprefixes : ∀ p ∈ sizePrefixes, '[' ∉ p := by decide
  rw [stripSizePrefix]
  cases hfind : sizePrefixes.find? fun p => (toLowercase (size ++ '[' :: u)).startsWith p with
  | none => exact ⟨0, rfl⟩
  | some p =>
    have hmem := hprefixes p (List.mem_of_find?_eq_some hfind)
    have hp : p <+: (size ++ ['[']) ++ toLowercase u := by
      have hstart := List.find?_some hfind
      rw [toLowercase_append, hlower] at hstart
      have hcons : toLowercase ('[' :: u) = '[' :: toLowercase u := rfl
      rw [hcons] at hstart
      simpa using List.isPrefixOf_iff_prefix.mp hstart
    have hlen : p <+: size := by
      rcases List.prefix_or_prefix_of_prefix hp (List.prefix_append _ _) with h | h
      · rcases List.prefix_concat_iff.mp h with rfl | h
        · simp at hmem
        · exact h
      · exact absurd (h.subset (by simp)) hmem
    exact ⟨p.length, List.drop_append_of_le_length hlen.length_le⟩

lemma parseRegister_of_bracket {t : Text} (h : '[' ∈ t) : parseRegister t = none := by
  have hnames : ∀ p ∈ registerNames, ∀ w ∈ p.2, '[' ∉ w := by decide
  have hmem : '[' ∈ toLowercase (trim t) :=
    List.mem_flatMap.mpr ⟨'[', mem_trim h (by decide), by decide⟩
  have hfind : (registerNames.find? fun p => toLowercase (trim t) ∈ p.2) = none :=
    List.find?_eq_none.mpr fun p hp hw => hnames p hp _ (of_decide_eq_true hw) hmem
  rw [parseRegister, hfind]
  rfl

namespace AddressText

variable {t : Text}

lemma isMemoryOperand (h : AddressText t) : isMemoryOperand t := by
  cases h
  exact List.mem_append_right _ (List.mem_append_left _ List.mem_cons_self)

lemma trimmed (h : AddressText t) : Trimmed t := by
  obtain ⟨hhead, -, -⟩ := h
  rename_i size inner
  have hbracket : Trimmed ("[" ++ inner ++ "]") := by
    refine .append ?_ (by simp) ?_ (by decide)
    · rintro c ⟨⟩
      decide
    · rintro c ⟨⟩
      decide
  cases size with
  | nil => exact hbracket
  | cons c size => exact .append hhead (by simp) hbracket.last (by simp)

lemma piece (h : AddressText t) : Piece t := by
  have htrim := h.trimmed
  obtain ⟨-, hsize, hinner⟩ := h
  rename_i size inner
  refine ⟨by simp, htrim, fun result current => ?_⟩
  have hopen : ∀ current, splitStep ⟨result, current, 0⟩ '[' = ⟨result, current ++ ['['], 1⟩ :=
    fun _ => rfl
  have hclose : ∀ current, splitStep ⟨result, current, 1⟩ ']' = ⟨result, current ++ [']'], 0⟩ :=
    fun _ => by simp [splitStep]
  have htext : size ++ ("[" ++ inner ++ "]") = size ++ '[' :: (inner ++ [']']) := by simp
  rw [htext, List.foldl_append, foldl_splitStep fun c hc => (hsize c hc).1, List.foldl_cons, hopen,
    List.foldl_append, foldl_splitStep hinner, List.foldl_cons, hclose]
  simp

lemma strip (h : AddressText t) :
    ∃ size inner, stripSizePrefix (trim t) = size ++ ("[" ++ inner ++ "]") ∧ '[' ∉ size := by
  have htrim := h.trimmed
  obtain ⟨-, hsize, -⟩ := h
  rename_i size inner
  have hlower : toLowercase size = size := by
    rw [toLowercase, List.flatMap_congr (g := fun c => [c]) fun c hc => (hsize c hc).2]
    exact List.flatMap_singleton' size
  obtain ⟨n, hn⟩ := stripSizePrefix_address hlower (inner ++ [']'])
  refine ⟨size.drop n, inner, ?_, fun hmem => (hsize _ (List.mem_of_mem_drop hmem)).1.2.1 rfl⟩
  rw [htrim.trim_eq]
  simpa using hn

lemma parseMemoryOperand (h : AddressText t) (versions : Versions) :
    (parseMemoryOperand t versions).isSome := by
  obtain ⟨size, inner, hstrip, hmem⟩ := h.strip
  rw [Ir.parseMemoryOperand, hstrip, bracketed_address hmem]
  rfl

lemma dstRegister (h : AddressText t) : dstRegister t = none := by
  obtain ⟨size, inner, hstrip, -⟩ := h.strip
  rw [Ir.dstRegister, hstrip]
  exact parseRegister_of_bracket (by simp)

end AddressText

namespace OperandText

variable {t : Text}

lemma of_alphanum (hne : t ≠ []) (h : ∀ c ∈ t, c.isAlphanum = true) : OperandText t :=
  .inl ⟨hne, fun c hc => (inTerm_of_alphanum (h c hc)).toPlain⟩

lemma piece (h : OperandText t) : Piece t := by
  rcases h with ⟨hne, h⟩ | h
  · exact .of_plain hne h
  · exact h.piece

lemma parseMemoryOperand (h : OperandText t) (ht : isMemoryOperand t) (versions : Versions) :
    (parseMemoryOperand t versions).isSome := by
  rcases h with ⟨-, h⟩ | h
  · exact absurd ht (not_memory_of_plain h)
  · exact h.parseMemoryOperand versions

lemma parseSingleOperand (h : OperandText t) (versions : Versions) :
    (parseSingleOperand t versions).isSome := by
  simp only [Ir.parseSingleOperand, h.piece.trimmed.trim_eq]
  split
  · exact h.parseMemoryOperand ‹_› versions
  · split <;> rfl

end OperandText

section Operands

variable (m : MemOperand)

lemma ptr_mem (size : Size) : size.ptr ∈ sizePrefixes := by cases size <;> decide

lemma names_registerName (r : Reg) : Names (m.registerName r) r := by
  rw [MemOperand.registerName]
  split
  · have hname : r.partName .dword = some r.dwordName := rfl
    obtain ⟨⟨hne, halnum⟩, hparse, -⟩ := partName_text hname
    exact ⟨hne, halnum, hparse⟩
  · exact names_name r

lemma termText_operand {t : Term} (ht : t ∈ m.terms) : TermText t.text := by
  rcases List.mem_append.mp ht with ht | ht
  · obtain ⟨v, -, rfl⟩ := List.mem_map.mp ht
    rw [MemOperand.ripTerm]
    cases m.half <;> exact .of_alphanum (by decide) (by decide)
  · exact termText_of_mem (names_registerName m) m.ref ht

def Outer (t : Text) : Prop :=
  (∀ c ∈ t.head?, isWhitespace c = false) ∧
    ∀ c ∈ t, (c ≠ ',' ∧ c ≠ '[' ∧ c ≠ ']') ∧ lowerChar c = [c]

instance (t : Text) : Decidable (Outer t) := inferInstanceAs (Decidable (_ ∧ _))

lemma Outer.append {t u : Text} (ht : Outer t) (hu : Outer u) : Outer (t ++ u) := by
  refine ⟨?_, ?_⟩
  · cases t with
    | nil => exact hu.1
    | cons c t => exact ht.1
  · intro c hc
    rcases List.mem_append.mp hc with hc | hc
    · exact ht.2 c hc
    · exact hu.2 c hc

lemma outer_segmentText : Outer m.segmentText := by
  have hall : ∀ s : Segment, Outer (s.name ++ ":") := by
    intro s
    cases s <;> decide
  rw [MemOperand.segmentText]
  rcases m.segment with _ | ⟨segment, base⟩
  · exact ⟨by simp, by simp⟩
  · exact hall segment

lemma stripSizePrefix_segment (s : Text) :
    stripSizePrefix (m.segmentText ++ ("[" ++ s)) = m.segmentText ++ ("[" ++ s) := by
  have hall : ∀ (segment : Segment) (s : Text),
      (sizePrefixes.find? fun p => (toLowercase (segment.name ++ ":" ++ s)).startsWith p) =
        none := by
    intro segment s
    have hlower : toLowercase (segment.name ++ ":") = segment.name ++ ":" := by
      cases segment <;> decide
    rw [toLowercase_append, hlower]
    cases segment <;> simp [sizePrefixes, startsWith, List.isPrefixOf, Segment.name]
  rw [MemOperand.segmentText]
  rcases m.segment with _ | ⟨segment, base⟩
  · exact stripSizePrefix_bracket s
  · simp only [stripSizePrefix, Option.elim_some, hall segment]

lemma outer_size {size : Text} (hsize : size ∈ [] :: sizePrefixes) : Outer size := by
  simp only [sizePrefixes, List.mem_cons, List.not_mem_nil, or_false] at hsize
  rcases hsize with rfl | rfl | rfl | rfl | rfl | rfl | rfl | rfl | rfl | rfl | rfl <;> decide

lemma addressText_sized {size : Text} (hsize : size ∈ [] :: sizePrefixes) :
    AddressText (m.sizedText size) := by
  obtain ⟨hhead, houter⟩ := (outer_size hsize).append (outer_segmentText m)
  exact .mk hhead houter (plain_termsText fun t ht => termText_operand m ht)

lemma addressText_operand (size : Size) : AddressText (m.text size) :=
  addressText_sized m (List.mem_cons_of_mem _ (ptr_mem size))

lemma addressStep_rip (versions : Versions) (s : AddressState) :
    addressStep versions s m.ripTerm.signed = s := by
  have hdropped : ∀ t : Text, '*' ∉ t → parseRegister (t.dropWhile (· = '-')) = none →
      parseImmediate t = none → addressStep versions s t = s := by
    intro t hstar hregister hnumber
    rw [addressStep, if_neg hstar, hregister]
    simp only [hnumber]
  rw [MemOperand.ripTerm]
  cases m.half
  · exact hdropped "rip" (by decide) (by decide) (by decide)
  · exact hdropped "eip" (by decide) (by decide) (by decide)

theorem parseMemoryOperand_sized {size : Text} (hsize : size ∈ [] :: sizePrefixes)
    (versions : Versions) :
    ∃ a : AddressState,
      parseMemoryOperand (m.sizedText size) versions =
        some (.mem a.baseReg a.indexReg a.scale a.disp) ∧
      ∀ regs, a.value regs = m.ref.address fun r => regs r.base := by
  have hterms : ∀ t ∈ m.terms, TermText t.text := fun t ht => termText_operand m ht
  have hstrip : stripSizePrefix (trim (m.sizedText size)) =
      m.segmentText ++ ("[" ++ termsText m.terms ++ "]") := by
    rw [(addressText_sized m hsize).trimmed.trim_eq, MemOperand.sizedText, List.append_assoc]
    rcases List.mem_cons.mp hsize with rfl | hsize
    · rw [List.nil_append, List.append_assoc]
      exact stripSizePrefix_segment m _
    · exact stripSizePrefix_size hsize _
  have hsegment : '[' ∉ m.segmentText := fun h => ((outer_segmentText m).2 _ h).1.2.1 rfl
  have hrip : (m.terms.map Term.signed).foldl (addressStep versions) ⟨none, none, 1, 0⟩ =
      ((m.ref.namedTerms m.registerName).map Term.signed).foldl (addressStep versions)
        ⟨none, none, 1, 0⟩ := by
    rw [MemOperand.terms, List.map_append, List.foldl_append]
    rcases m.rip with _ | v
    · rfl
    · exact congrArg (fun s => List.foldl (addressStep versions) s _) (addressStep_rip m versions _)
  refine ⟨_, ?_, fun regs => foldl_terms versions regs (names_registerName m) m.ref⟩
  rw [parseMemoryOperand, hstrip, bracketed_address hsegment, (trimmed_termsText hterms).trim_eq,
    Option.bind_eq_bind, Option.bind_some, addressTerms_termsText hterms, hrip]
  rfl

lemma parseMemoryOperand_operand (size : Size) (versions : Versions) :
    ∃ a : AddressState,
      parseMemoryOperand (m.text size) versions =
        some (.mem a.baseReg a.indexReg a.scale a.disp) ∧
      ∀ regs, a.value regs = m.ref.address fun r => regs r.base :=
  parseMemoryOperand_sized m (List.mem_cons_of_mem _ (ptr_mem size)) versions

theorem parseSingleOperand_operand (size : Size) (versions : Versions) :
    parseSingleOperand (m.text size) versions = parseMemoryOperand (m.text size) versions := by
  have haddress := addressText_operand m size
  simp only [parseSingleOperand, haddress.trimmed.trim_eq, if_pos haddress.isMemoryOperand]

end Operands

end Ir

end Dexe
