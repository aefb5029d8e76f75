import Dexe.Clang.Parse
import Dexe.Clang.Semantics
import Dexe.Trace.Machines

/-! Function definitions without parameters: how they are read from a text, and how they run. -/

namespace Dexe.Clang

open Trace

inductive Mark
  | tok (t : Token)
  | lbrace
  | rbrace
  deriving DecidableEq, Repr

def Mark.word : Mark → Option Text
  | tok (.word w) => some w
  | _ => none

def brace (c : Char) : Option Mark :=
  if c = '\x7b' then some .lbrace else if c = '\x7d' then some .rbrace else none

def markStep (m : LexMode) (c : Char) : Option (List Mark × LexMode) :=
  match lexStep m c with
  | some p => some (p.1.map .tok, p.2)
  | none => (brace c).bind fun b => (lexEnd m).map fun ts => (ts.map .tok ++ [b], .start)

def marksFrom : LexMode → Text → Option (List Mark)
  | m, [] => (lexEnd m).map fun ts => ts.map .tok
  | m, c :: t => (markStep m c).bind fun p => (marksFrom p.2 t).map (p.1 ++ ·)

def marks (t : Text) : Option (List Mark) := marksFrom .start t

inductive Item
  | label (l : Text)
  | opened
  | closed
  | stmt (s : Stmt)
  deriving DecidableEq, Repr

def itemStep : ParseMode → Mark → Option (List Item × ParseMode)
  | .start, .lbrace => some ([.opened], .start)
  | .start, .rbrace => some ([.closed], .start)
  | _, .lbrace | _, .rbrace => none
  | m, .tok t =>
    match parseStep m t with
    | some p => some (p.1.map .stmt, p.2)
    | none =>
      match m with
      | .got [] (.var l) => if t = .sym .colon then some ([.label l], .start) else none
      | _ => none

def parseItems : ParseMode → List Mark → Option (List Item)
  | m, [] => if m = .start then some [] else none
  | m, t :: ts => (itemStep m t).bind fun p => (parseItems p.2 ts).map (p.1 ++ ·)

/-- A definition `uint64_t name(void)` whose body starts with a declaration
`uint64_t local = n;`. -/
structure FunctionDef where
  name : Text
  localName : Text
  localValue : Literal
  body : List Item
  deriving DecidableEq, Repr

def headMarks (f x n : Text) : List Mark :=
  [.tok (.word "uint64_t"), .tok (.word f), .tok (.sym .lpar), .tok (.word "void"),
    .tok (.sym .rpar), .lbrace, .tok (.word "uint64_t"), .tok (.word x), .tok (.sym .assign),
    .tok (.word n), .tok (.sym .semi)]

def parseDefinition (ts : List Mark) : Option FunctionDef := do
  let f ← ts[1]?.bind Mark.word
  let x ← ts[7]?.bind Mark.word
  let n ← ts[9]?.bind Mark.word
  let l ← parseLiteral n
  let items ← parseItems .start (ts.drop 11)
  if ts.take 11 = headMarks f x n ∧ IsIdent f ∧ IsIdent x ∧ items.getLast? = some .closed then
    some ⟨f, x, l, items.dropLast⟩
  else none

def cutDefinitions : ℕ → List Mark → List Mark → Option (List (List Mark))
  | depth, cur, [] => if depth = 0 ∧ cur = [] then some [] else none
  | depth, cur, .lbrace :: ts => cutDefinitions (depth + 1) (cur ++ [.lbrace]) ts
  | 0, _, .rbrace :: _ => none
  | 1, cur, .rbrace :: ts => (cutDefinitions 0 [] ts).map ((cur ++ [.rbrace]) :: ·)
  | depth + 2, cur, .rbrace :: ts => cutDefinitions (depth + 1) (cur ++ [.rbrace]) ts
  | depth, cur, .tok t :: ts => cutDefinitions depth (cur ++ [.tok t]) ts

def parseDefinitions (t : Text) : Option (List FunctionDef) :=
  (marks t).bind fun ts => (cutDefinitions 0 [] ts).bind fun pieces => pieces.mapM parseDefinition

def fromLabel (l : Text) : List Item → Option (List Item)
  | [] => none
  | i :: items => if i = .label l then some (i :: items) else fromLabel l items

lemma fromLabel_append {l : Text} {items : List Item} (h : .label l ∉ items) (rest : List Item) :
    fromLabel l (items ++ rest) = fromLabel l rest := by
  induction items with
  | nil => rfl
  | cons i items ih =>
    have hi : i ≠ .label l := fun hi => h (hi ▸ List.mem_cons_self)
    rw [List.cons_append, fromLabel, if_neg hi]
    exact ih fun hmem => h (List.mem_cons_of_mem _ hmem)

abbrev FunctionState := List Item × State

namespace FunctionDef

variable (F : FunctionDef)

/-- A function is stuck where its behaviour is undefined, and at a call, which it does not make
alone. -/
def next : FunctionState → Next FunctionState (BitVec 64 × State)
  | ([], _) => .stuck
  | (.stmt s :: rest, σ) =>
    match exec σ s with
    | some (.next σ') => .on (rest, σ')
    | some (.goto l) => (fromLabel l F.body).elim .stuck fun items => .on (items, σ)
    | some (.ret v) => .done (v, σ)
    | _ => .stuck
  | (_ :: rest, σ) => .on (rest, σ)

def start (σ : State) : FunctionState :=
  (F.body, σ.set (.var F.localName) (BitVec.ofNat 64 F.localValue.value))

variable {F}

lemma travels_execAll {σ σ' : State} {l : List Stmt} (h : execAll σ l = some σ')
    (items : List Item) : Travels F.next l.length (l.map .stmt ++ items, σ) (items, σ') := by
  induction l generalizing σ with
  | nil =>
    cases h
    exact .refl _
  | cons s l ih =>
    rw [execAll] at h
    split at h
    · rename_i σ₁ hs
      refine .step ?_ (ih h)
      simp only [List.map_cons, List.cons_append, next, hs]
    · cases h

lemma travels_silent {l : List Item} (h : ∀ i ∈ l, ∀ s, i ≠ .stmt s) (items : List Item)
    (σ : State) : Travels F.next l.length (l ++ items, σ) (items, σ) := by
  induction l with
  | nil => exact .refl _
  | cons i l ih =>
    refine .step ?_ (ih fun j hj => h j (List.mem_cons_of_mem _ hj))
    cases i with
    | stmt s => exact absurd rfl (h _ List.mem_cons_self s)
    | _ => rfl

end FunctionDef

end Dexe.Clang
