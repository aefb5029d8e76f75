import Dexe.Text.Numeral

/-! A fragment of C99: expressions over `uint64_t` objects, and statements without blocks. The
printer sets one space around a binary operator and none elsewhere. -/

namespace Dexe.Clang

inductive Sym
  | lpar | rpar | semi | comma | quest | colon | dot | tilde
  | assign | eqeq | bang | lt | shl | gt | shr | amp | andand | bar | oror | caret
  | plus | addAssign | minus | subAssign | star
  deriving DecidableEq, Repr

def Sym.text : Sym → Text
  | lpar => "("
  | rpar => ")"
  | semi => ";"
  | comma => ","
  | quest => "?"
  | colon => ":"
  | dot => "."
  | tilde => "~"
  | assign => "="
  | eqeq => "=="
  | bang => "!"
  | lt => "<"
  | shl => "<<"
  | gt => ">"
  | shr => ">>"
  | amp => "&"
  | andand => "&&"
  | bar => "|"
  | oror => "||"
  | caret => "^"
  | plus => "+"
  | addAssign => "+="
  | minus => "-"
  | subAssign => "-="
  | star => "*"

inductive Token
  | word (w : Text)
  | sym (s : Sym)
  deriving DecidableEq, Repr

inductive Suffix
  | none | ll | ull
  deriving DecidableEq, Repr

def Suffix.text : Suffix → Text
  | none => ""
  | ll => "LL"
  | ull => "ULL"

structure Literal where
  hex : Bool
  value : ℕ
  suffix : Suffix
  deriving DecidableEq, Repr

def Literal.text (l : Literal) : Text :=
  (if l.hex then "0x" ++ Text.hex l.value else Text.dec l.value) ++ l.suffix.text

inductive TypeName
  | void | uint64 | int64 | uintptr | uint64Ptr | function
  deriving DecidableEq, Repr

def TypeName.tokens : TypeName → List Token
  | void => [.word "void"]
  | uint64 => [.word "uint64_t"]
  | int64 => [.word "int64_t"]
  | uintptr => [.word "uintptr_t"]
  | uint64Ptr => [.word "uint64_t", .sym .star]
  | function => [.word "uint64_t", .sym .lpar, .sym .star, .sym .rpar, .sym .lpar, .word "void",
      .sym .rpar]

def TypeName.text : TypeName → Text
  | void => "void"
  | uint64 => "uint64_t"
  | int64 => "int64_t"
  | uintptr => "uintptr_t"
  | uint64Ptr => "uint64_t*"
  | function => "uint64_t(*)(void)"

inductive UnOp
  | neg | bitNot | lnot | deref
  deriving DecidableEq, Repr

def UnOp.sym : UnOp → Sym
  | neg => .minus
  | bitNot => .tilde
  | lnot => .bang
  | deref => .star

inductive BinOp
  | mul | add | sub | shl | shr | lt | eq | band | bxor | bor | land | lor
  | assign | addAssign | subAssign | comma
  deriving DecidableEq, Repr

namespace BinOp

def sym : BinOp → Sym
  | mul => .star
  | add => .plus
  | sub => .minus
  | shl => .shl
  | shr => .shr
  | lt => .lt
  | eq => .eqeq
  | band => .amp
  | bxor => .caret
  | bor => .bar
  | land => .andand
  | lor => .oror
  | assign => .assign
  | addAssign => .addAssign
  | subAssign => .subAssign
  | comma => .comma

def level : BinOp → ℕ
  | mul => 13
  | add | sub => 12
  | shl | shr => 11
  | lt => 10
  | eq => 9
  | band => 8
  | bxor => 7
  | bor => 6
  | land => 5
  | lor => 4
  | assign | addAssign | subAssign => 2
  | comma => 1

def isAssign (op : BinOp) : Bool := op.level == 2

def spaced (op : BinOp) : Text := if op = comma then ", " else " " ++ op.sym.text ++ " "

end BinOp

def condLevel : ℕ := 3

def unaryLevel : ℕ := 14

def postfixLevel : ℕ := 16

inductive Expr
  | var (x : Text)
  | member (x f : Text)
  | num (l : Literal)
  | paren (e : Expr)
  | un (op : UnOp) (e : Expr)
  | cast (ty : TypeName) (e : Expr)
  | bin (op : BinOp) (a b : Expr)
  | cond (c a b : Expr)
  | call0 (f : Expr)
  | call (f args : Expr)
  deriving DecidableEq, Repr

inductive Stmt
  | expr (e : Expr)
  | goto (label : Text)
  | ifGoto (c : Expr) (label : Text)
  | ret (e : Expr)
  deriving DecidableEq, Repr

namespace Expr

def text : Expr → Text
  | var x => x
  | member x f => x ++ "." ++ f
  | num l => l.text
  | paren e => "(" ++ e.text ++ ")"
  | un op e => op.sym.text ++ e.text
  | cast ty e => "(" ++ ty.text ++ ")" ++ e.text
  | bin op a b => a.text ++ op.spaced ++ b.text
  | cond c a b => c.text ++ " ? " ++ a.text ++ " : " ++ b.text
  | call0 f => f.text ++ "()"
  | call f args => f.text ++ "(" ++ args.text ++ ")"

def tokens : Expr → List Token
  | var x => [.word x]
  | member x f => [.word x, .sym .dot, .word f]
  | num l => [.word l.text]
  | paren e => [.sym .lpar] ++ e.tokens ++ [.sym .rpar]
  | un op e => [.sym op.sym] ++ e.tokens
  | cast ty e => [.sym .lpar] ++ ty.tokens ++ [.sym .rpar] ++ e.tokens
  | bin op a b => a.tokens ++ [.sym op.sym] ++ b.tokens
  | cond c a b => c.tokens ++ [.sym .quest] ++ a.tokens ++ [.sym .colon] ++ b.tokens
  | call0 f => f.tokens ++ [.sym .lpar, .sym .rpar]
  | call f args => f.tokens ++ [.sym .lpar] ++ args.tokens ++ [.sym .rpar]

end Expr

namespace Stmt

def text : Stmt → Text
  | expr e => e.text ++ ";"
  | goto label => "goto " ++ label ++ ";"
  | ifGoto c label => "if (" ++ c.text ++ ") goto " ++ label ++ ";"
  | ret e => "return " ++ e.text ++ ";"

def tokens : Stmt → List Token
  | expr e => e.tokens ++ [.sym .semi]
  | goto label => [.word "goto", .word label, .sym .semi]
  | ifGoto c label =>
    [.word "if", .sym .lpar] ++ c.tokens ++ [.sym .rpar, .word "goto", .word label, .sym .semi]
  | ret e => [.word "return"] ++ e.tokens ++ [.sym .semi]

lemma text_expr (e : Expr) : (expr e).text = e.text ++ ";" := rfl
lemma text_goto (label : Text) : (goto label).text = "goto " ++ label ++ ";" := rfl
lemma text_ifGoto (c : Expr) (label : Text) :
    (ifGoto c label).text = "if (" ++ c.text ++ ") goto " ++ label ++ ";" := rfl
lemma text_ret (e : Expr) : (ret e).text = "return " ++ e.text ++ ";" := rfl

end Stmt

def keywords : List Text :=
  ["auto", "break", "case", "char", "const", "continue", "default", "do", "double", "else", "enum",
    "extern", "float", "for", "goto", "if", "inline", "int", "long", "register", "restrict",
    "return", "short", "signed", "sizeof", "static", "struct", "switch", "typedef", "union",
    "unsigned", "void", "volatile", "while", "_Bool", "_Complex", "_Imaginary"]

def typeWords : List Text := ["void", "uint64_t", "int64_t", "uintptr_t"]

def isWordChar (c : Char) : Bool := c.isAlphanum || c == '_'

def IsWord (w : Text) : Prop := w ≠ [] ∧ (∀ c ∈ w, isWordChar c = true) ∧ ¬ w.head?.any Char.isDigit

def IsIdent (w : Text) : Prop := IsWord w ∧ w ∉ keywords ∧ w ∉ typeWords

instance (w : Text) : Decidable (IsWord w) := inferInstanceAs (Decidable (_ ∧ _))
instance (w : Text) : Decidable (IsIdent w) := inferInstanceAs (Decidable (_ ∧ _))

/-- The characters that would join an operator to a longer one: `some none` when that one is
outside of the fragment. -/
def extend : Sym → Char → Option (Option Sym)
  | .assign, '=' => some (some .eqeq)
  | .lt, '<' => some (some .shl)
  | .gt, '>' => some (some .shr)
  | .amp, '&' => some (some .andand)
  | .bar, '|' => some (some .oror)
  | .plus, '=' => some (some .addAssign)
  | .minus, '=' => some (some .subAssign)
  | .plus, '+' | .minus, '-' | .minus, '>' | .lt, ':' | .lt, '%' | .colon, '>' => some none
  | .bang, '=' | .lt, '=' | .gt, '=' | .amp, '=' | .bar, '=' | .caret, '=' | .star, '=' => some none
  | .shl, '=' | .shr, '=' => some none
  | .dot, c => if c.isDigit || c == '.' then some none else none
  | _, _ => none

def Separate (op : UnOp) (t : Text) : Prop := ∀ c ∈ t.head?, extend op.sym c = none

namespace Expr

/-- The tree can stand, as it is printed, where operators below level `k` need parentheses. -/
def Fits : ℕ → Expr → Prop
  | _, var x => IsIdent x
  | _, member x f => IsIdent x ∧ IsIdent f
  | _, num _ => True
  | _, paren e => e.Fits 1
  | k, un op e => k ≤ unaryLevel + 1 ∧ Separate op e.text ∧ e.Fits (unaryLevel + 1)
  | k, cast _ e => k ≤ unaryLevel + 1 ∧ e.Fits (unaryLevel + 1)
  | k, bin op a b =>
    k ≤ op.level ∧ a.Fits (if op.isAssign then unaryLevel + 1 else op.level) ∧ b.Fits (op.level + 1)
  | k, cond c a b =>
    k ≤ condLevel ∧ c.Fits (condLevel + 1) ∧ a.Fits (condLevel + 1) ∧ b.Fits (condLevel + 1)
  | _, call0 f => f.Fits postfixLevel
  | _, call f args => f.Fits postfixLevel ∧ args.Fits 1

end Expr

def Stmt.Fits : Stmt → Prop
  | expr e => e.Fits 1
  | goto label => IsWord label
  | ifGoto c label => c.Fits 1 ∧ IsWord label
  | ret e => e.Fits 1

end Dexe.Clang
