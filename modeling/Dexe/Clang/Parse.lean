import Dexe.Clang.Lex

/-! The parser: one pass over the tokens with a stack of open operators. -/

namespace Dexe.Clang

inductive Frame
  | bin (op : BinOp) (lhs : Expr)
  | un (op : UnOp)
  | cast (ty : TypeName)
  | condElse (c a : Expr)
  | condThen (c : Expr)
  | paren
  | call (f : Expr)
  | ifParen
  | ret
  deriving DecidableEq, Repr

namespace Frame

def level : Frame → ℕ
  | bin op _ => op.level
  | un _ | cast _ => unaryLevel
  | condElse _ _ => condLevel
  | _ => 0

def build : Frame → Expr → Expr
  | bin op lhs, e => .bin op lhs e
  | un op, e => .un op e
  | cast ty, e => .cast ty e
  | condElse c a, e => .cond c a e
  | _, e => e

end Frame

def reduce (k : ℕ) : List Frame → Expr → List Frame × Expr
  | [], e => ([], e)
  | f :: fs, e => if k ≤ f.level then reduce k fs (f.build e) else (f :: fs, e)

inductive ParseMode
  | start
  | want (fs : List Frame)
  | got (fs : List Frame) (e : Expr)
  | field (fs : List Frame) (x : Text)
  | typeName (fs : List Frame) (ts : List Token) (depth : ℕ)
  | ifOpen
  | ifClose (c : Expr)
  | gotoLabel (c : Option Expr)
  | gotoEnd (c : Option Expr) (label : Text)
  deriving DecidableEq, Repr

def suffixes : List Suffix := [.none, .ll, .ull]

/-- A number; octal numerals other than `0` are outside of the fragment. -/
def parseLiteral (w : Text) : Option Literal :=
  let hex := Text.startsWith w "0x"
  let body := if hex then w.drop 2 else w
  let digits := body.takeWhile Text.isHexDigit
  let value := Text.digits (if hex then 16 else 10) digits
  let octal := !hex && decide (digits.head? = some '0' ∧ digits ≠ "0")
  match suffixes.find? fun s => s.text = body.dropWhile Text.isHexDigit with
  | some s => if octal then none else value.map fun n => ⟨hex, n, s⟩
  | none => none

def typeNames : List TypeName := [.void, .uint64, .int64, .uintptr, .uint64Ptr, .function]

def typeOf (ts : List Token) : Option TypeName := typeNames.find? fun ty => ty.tokens = ts

def prefixOps : List UnOp := [.neg, .bitNot, .lnot, .deref]

def binOps : List BinOp :=
  [.mul, .add, .sub, .shl, .shr, .lt, .eq, .band, .bxor, .bor, .land, .lor, .assign, .addAssign,
    .subAssign, .comma]

def wantStep (fs : List Frame) : Token → Option ParseMode
  | .word w =>
    if w ∈ typeWords then
      match fs with
      | .paren :: fs => some (.typeName fs [.word w] 0)
      | _ => none
    else if w.head?.any Char.isDigit then (parseLiteral w).map fun l => .got fs (.num l)
    else if w ∈ keywords then none
    else some (.got fs (.var w))
  | .sym .lpar => some (.want (.paren :: fs))
  | .sym .rpar =>
    match fs with
    | .call f :: fs => some (.got fs (.call0 f))
    | _ => none
  | .sym s => (prefixOps.find? fun op => op.sym = s).map fun op => .want (.un op :: fs)

/-- The operators that are closed when a binary operator comes: assignments group to the right. -/
def BinOp.closes (op : BinOp) : ℕ := if op.isAssign then op.level + 1 else op.level

def gotStep (fs : List Frame) (e : Expr) : Token → Option (List Stmt × ParseMode)
  | .word _ => none
  | .sym .lpar => some ([], .want (.call e :: fs))
  | .sym .dot =>
    match e with
    | .var x => some ([], .field fs x)
    | _ => none
  | .sym .quest =>
    let r := reduce (condLevel + 1) fs e
    some ([], .want (.condThen r.2 :: r.1))
  | .sym .colon =>
    match reduce 1 fs e with
    | (.condThen c :: fs, a) => some ([], .want (.condElse c a :: fs))
    | _ => none
  | .sym .rpar =>
    match reduce 1 fs e with
    | (.paren :: fs, e) => some ([], .got fs (.paren e))
    | (.call f :: fs, e) => some ([], .got fs (.call f e))
    | ([.ifParen], e) => some ([], .ifClose e)
    | _ => none
  | .sym .semi =>
    match reduce 1 fs e with
    | ([], e) => some ([.expr e], .start)
    | ([.ret], e) => some ([.ret e], .start)
    | _ => none
  | .sym s =>
    (binOps.find? fun op => op.sym = s).map fun op =>
      let r := reduce op.closes fs e
      ([], .want (.bin op r.2 :: r.1))

def typeStep (fs : List Frame) (ts : List Token) (depth : ℕ) (t : Token) : Option ParseMode :=
  match t, depth with
  | .sym .rpar, 0 => (typeOf ts).map fun ty => .want (.cast ty :: fs)
  | .sym .rpar, depth + 1 => some (.typeName fs (ts ++ [t]) depth)
  | .sym .lpar, depth => some (.typeName fs (ts ++ [t]) (depth + 1))
  | t, depth => some (.typeName fs (ts ++ [t]) depth)

def parseStep : ParseMode → Token → Option (List Stmt × ParseMode)
  | .start, t =>
    if t = .word "if" then some ([], .ifOpen)
    else if t = .word "goto" then some ([], .gotoLabel none)
    else if t = .word "return" then some ([], .want [.ret])
    else (wantStep [] t).map ([], ·)
  | .want fs, t => (wantStep fs t).map ([], ·)
  | .got fs e, t => gotStep fs e t
  | .field fs x, .word f => some ([], .got fs (.member x f))
  | .field _ _, _ => none
  | .typeName fs ts depth, t => (typeStep fs ts depth t).map ([], ·)
  | .ifOpen, t => if t = .sym .lpar then some ([], .want [.ifParen]) else none
  | .ifClose c, t => if t = .word "goto" then some ([], .gotoLabel (some c)) else none
  | .gotoLabel c, .word label => some ([], .gotoEnd c label)
  | .gotoLabel _, _ => none
  | .gotoEnd c label, t =>
    if t = .sym .semi then some ([c.elim (.goto label) fun c => .ifGoto c label], .start) else none

def parseFrom : ParseMode → List Token → Option (List Stmt)
  | m, [] => if m = .start then some [] else none
  | m, t :: ts => (parseStep m t).bind fun p => (parseFrom p.2 ts).map (p.1 ++ ·)

def parse (t : Text) : Option (List Stmt) := (lex t).bind (parseFrom .start)

end Dexe.Clang
