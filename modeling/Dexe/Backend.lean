import Dexe.Ir.Lift
import Mathlib.Data.List.Sort

/-! The C99 code generator (`backend.rs`), text for text. -/

namespace Dexe.Backend

open Std Text

def knownLibc : List (String × String) :=
  [("printf", "int printf(const char *fmt, ...)"),
    ("puts", "int puts(const char *s)"),
    ("malloc", "void *malloc(size_t size)"),
    ("free", "void free(void *ptr)"),
    ("exit", "void exit(int status)"),
    ("memcpy", "void *memcpy(void *dst, const void *src, size_t n)"),
    ("memset", "void *memset(void *s, int c, size_t n)"),
    ("strlen", "size_t strlen(const char *s)"),
    ("strcmp", "int strcmp(const char *s1, const char *s2)"),
    ("fprintf", "int fprintf(void *stream, const char *fmt, ...)"),
    ("fopen", "void *fopen(const char *path, const char *mode)"),
    ("fclose", "int fclose(void *stream)"),
    ("read", "long read(int fd, void *buf, unsigned long count)"),
    ("write", "long write(int fd, const void *buf, unsigned long count)"),
    ("open", "int open(const char *path, int flags, ...)"),
    ("close", "int close(int fd)"),
    ("mmap", "void *mmap(void *addr, unsigned long len, int prot, int flags, int fd, long off)"),
    ("munmap", "int munmap(void *addr, unsigned long len)"),
    ("brk", "int brk(void *addr)"),
    ("syscall", "long syscall(long number, ...)"),
    ("calloc", "void *calloc(size_t nmemb, size_t size)"),
    ("realloc", "void *realloc(void *ptr, size_t size)"),
    ("atoi", "int atoi(const char *s)"),
    ("atol", "long atol(const char *s)"),
    ("getenv", "char *getenv(const char *name)"),
    ("abort", "void abort(void)"),
    ("perror", "void perror(const char *s)"),
    ("snprintf", "int snprintf(char *str, size_t size, const char *fmt, ...)"),
    ("sprintf", "int sprintf(char *str, const char *fmt, ...)"),
    ("strncmp", "int strncmp(const char *s1, const char *s2, size_t n)"),
    ("strcpy", "char *strcpy(char *dst, const char *src)"),
    ("strncpy", "char *strncpy(char *dst, const char *src, size_t n)"),
    ("strcat", "char *strcat(char *dst, const char *src)"),
    ("strncat", "char *strncat(char *dst, const char *src, size_t n)")]

def libcProto (name : Text) : Option Text :=
  (knownLibc.find? fun p => p.1.toList = name).map fun p => p.2.toList

def varName (v : VarId) : Text :=
  match v.base with
  | .rax => "cpu.rax"
  | .rbx => "cpu.rbx"
  | .rcx => "cpu.rcx"
  | .rdx => "cpu.rdx"
  | .rsi => "cpu.rsi"
  | .rdi => "cpu.rdi"
  | .rsp => "cpu.rsp"
  | .rbp => "cpu.rbp"
  | .r8 => "cpu.r8"
  | .r9 => "cpu.r9"
  | .r10 => "cpu.r10"
  | .r11 => "cpu.r11"
  | .r12 => "cpu.r12"
  | .r13 => "cpu.r13"
  | .r14 => "cpu.r14"
  | .r15 => "cpu.r15"
  | .rflags => "cpu.rflags"
  | .temp _ => "tmp"

def unsignedAbs (n : I64) : ℕ := n.toInt.natAbs

def join (sep : Text) : List Text → Text
  | [] => []
  | [p] => p
  | p :: ps => p ++ sep ++ join sep ps

def memAddrParts (base index : Option VarId) (scale : BitVec 8) (disp : I64) : List Text :=
  (match base with
    | some b => ["(uintptr_t)" ++ varName b]
    | none => []) ++
  (match index with
    | some idx =>
      if scale.toNat > 1 then ["(uintptr_t)" ++ varName idx ++ " * " ++ dec scale.toNat]
      else ["(uintptr_t)" ++ varName idx]
    | none => []) ++
  (if disp.toInt > 0 then ["0x" ++ hex disp.toNat]
    else if disp.toInt < 0 then ["(-0x" ++ hex (unsignedAbs disp) ++ "LL)"]
    else [])

def buildMemAddrExpr (base index : Option VarId) (scale : BitVec 8) (disp : I64) : Text :=
  let parts := memAddrParts base index scale disp
  if parts = [] then "0" else join " + " parts

def emitOperand : Operand → Text
  | .var v => varName v
  | .imm n =>
    if n.toInt ≥ 0 then "0x" ++ hex n.toNat ++ "ULL"
    else "(-0x" ++ hex (unsignedAbs n) ++ "LL)"
  | .mem base index scale disp =>
    "*(uint64_t*)(" ++ buildMemAddrExpr base index scale disp ++ ")"

def emitMemAddr (op : Operand) : Text :=
  match op with
  | .mem base index scale disp => buildMemAddrExpr base index scale disp
  | _ => "(uintptr_t)(" ++ emitOperand op ++ ")"

def isIdentChar (c : Char) : Bool := c.isAlphanum || c = '_'

def sanitiseCIdent (name : Text) : Text :=
  let result := name.map fun c => if isIdentChar c then c else '_'
  match result with
  | [] => "_anon"
  | c :: _ => if c.isDigit then '_' :: result else result

def resolveCallName (addr : U64) (symbols : SymbolTable) (funcNames : TreeMap U64 Text) : Text :=
  match funcNames[addr]? with
  | some name => name
  | none =>
    match symbols[addr]? with
    | some name => sanitiseCIdent name
    | none => "stub_0x" ++ hex addr.toNat

def getCondExpr : Condition → Text
  | .equal => "(cpu.rflags & 1)"
  | .notEqual => "(!(cpu.rflags & 1))"
  | .less => "(cpu.rflags & 4)"
  | .greaterEqual => "(!(cpu.rflags & 4))"
  | .below => "(cpu.rflags & 2)"
  | .aboveEqual => "(!(cpu.rflags & 2))"
  | .greater => "(!(cpu.rflags & 1) && !(cpu.rflags & 4))"
  | .lessEqual => "((cpu.rflags & 1) || (cpu.rflags & 4))"
  | .above => "(!(cpu.rflags & 1) && !(cpu.rflags & 2))"
  | .belowEqual => "((cpu.rflags & 1) || (cpu.rflags & 2))"
  | .sign => "(cpu.rflags)"
  | .notSign => "(!cpu.rflags)"
  | .overflow => "(cpu.rflags)"
  | .notOverflow => "(!cpu.rflags)"
  | .parity => "(cpu.rflags)"
  | .notParity => "(!cpu.rflags)"

def blockLabel (addr : U64) : Text := "BLOCK_0x" ++ hex addr.toNat

def emitBinary (op : Text) (dst : VarId) (lhs rhs : Operand) : Text :=
  varName dst ++ " = " ++ emitOperand lhs ++ " " ++ op ++ " " ++ emitOperand rhs ++ ";"

def atomicBuiltin (op : Text) : Text :=
  if op = "add" then "__sync_fetch_and_add"
  else if op = "sub" then "__sync_fetch_and_sub"
  else if op = "and" then "__sync_fetch_and_and"
  else if op = "or" then "__sync_fetch_and_or"
  else if op = "xor" then "__sync_fetch_and_xor"
  else "/* unknown lock */"

def emitInstruction (instr : IRInstruction) (symbols : SymbolTable)
    (funcNames : TreeMap U64 Text) : Text :=
  match instr.opcode with
  | .mov dst src => varName dst ++ " = " ++ emitOperand src ++ ";"
  | .load dst addr => varName dst ++ " = *(uint64_t*)(" ++ emitMemAddr addr ++ ");"
  | .store addr src => "*(uint64_t*)(" ++ emitMemAddr addr ++ ") = " ++ emitOperand src ++ ";"
  | .add dst lhs rhs => emitBinary "+" dst lhs rhs
  | .sub dst lhs rhs => emitBinary "-" dst lhs rhs
  | .mul dst lhs rhs => emitBinary "*" dst lhs rhs
  | .and dst lhs rhs => emitBinary "&" dst lhs rhs
  | .or dst lhs rhs => emitBinary "|" dst lhs rhs
  | .xor dst lhs rhs => emitBinary "^" dst lhs rhs
  | .shl dst lhs rhs => emitBinary "<<" dst lhs rhs
  | .shr dst lhs rhs => emitBinary ">>" dst lhs rhs
  | .not dst src => varName dst ++ " = ~" ++ emitOperand src ++ ";"
  | .neg dst src => varName dst ++ " = (uint64_t)(-(int64_t)" ++ emitOperand src ++ ");"
  | .lea dst addr => varName dst ++ " = (uint64_t)(" ++ emitMemAddr addr ++ ");"
  | .cmp lhs rhs =>
    let l := emitOperand lhs
    let r := emitOperand rhs
    "cpu.rflags = ((uint64_t)(" ++ l ++ ") == (uint64_t)(" ++ r ++ ")) | (((uint64_t)(" ++ l ++
      ") < (uint64_t)(" ++ r ++ ")) << 1) | (((int64_t)(" ++ l ++ ") < (int64_t)(" ++ r ++
      ")) << 2);"
  | .test lhs rhs =>
    let l := emitOperand lhs
    let r := emitOperand rhs
    "cpu.rflags = ((" ++ l ++ " & " ++ r ++ ") == 0) ? 1 : 0;"
  | .jmp target => "goto " ++ blockLabel target ++ ";"
  | .jcc condition target _ =>
    "if " ++ getCondExpr condition ++ " goto " ++ blockLabel target ++ ";"
  | .cmovcc condition dst src =>
    varName dst ++ " = (" ++ getCondExpr condition ++ ") ? " ++ emitOperand src ++ " : " ++
      varName dst ++ ";"
  | .setcc condition dst => varName dst ++ " = (" ++ getCondExpr condition ++ ") ? 1 : 0;"
  | .atomicRMW op addr src =>
    atomicBuiltin op ++ "((uint64_t*)(" ++ emitMemAddr addr ++ "), " ++ emitOperand src ++ ");"
  | .call target fallthrough =>
    "cpu.rsp -= 8; *(uint64_t*)(uintptr_t)(cpu.rsp) = 0x" ++ hex fallthrough.toNat ++ "; " ++
    match target with
    | .direct addr => "cpu.rax = " ++ resolveCallName addr symbols funcNames ++ "();"
    | .external name =>
      "cpu.rax = " ++ sanitiseCIdent name ++
        "(cpu.rdi, cpu.rsi, cpu.rdx, cpu.rcx, cpu.r8, cpu.r9);"
    | .indirect op => "cpu.rax = ((uint64_t(*)(void))(" ++ emitOperand op ++ "))();"
  | .ret => "return cpu.rax;"
  | .push src => "cpu.rsp -= 8; *(uint64_t*)(uintptr_t)(cpu.rsp) = " ++ emitOperand src ++ ";"
  | .pop dst => varName dst ++ " = *(uint64_t*)(uintptr_t)(cpu.rsp); cpu.rsp += 8;"
  | .nop => "/* nop */"
  | .unknown mnemonic addr =>
    "/* UNKNOWN: " ++ mnemonic ++ " at 0x" ++ hex addr.toNat ++ " */"

def line (s : Text) : Text := s ++ "\n"

def emitInstructionLine (symbols : SymbolTable) (funcNames : TreeMap U64 Text)
    (instr : IRInstruction) : Text :=
  let text := emitInstruction instr symbols funcNames
  if text = [] then [] else line ("        " ++ text)

def emitBlock (symbols : SymbolTable) (funcNames : TreeMap U64 Text) (block : IRBlock) : Text :=
  line (blockLabel block.startAddr ++ ":") ++ line "    \x7b" ++
    (block.instructions.map (emitInstructionLine symbols funcNames)).flatten ++ line "    \x7d"

/-- The blocks in the order they are emitted in; `sort_by_key` is stable, as this sort is. -/
def sortedBlocks (func : IRFunction) : List IRBlock :=
  func.blockList.insertionSort fun a b => a.startAddr ≤ b.startAddr

def emitFunction (symbols : SymbolTable) (funcNames : TreeMap U64 Text) (func : IRFunction) :
    Text :=
  line ("uint64_t " ++ sanitiseCIdent func.name ++ "(void) \x7b") ++
    line "    uint64_t tmp = 0; (void)tmp;" ++
    ((sortedBlocks func).map (emitBlock symbols funcNames)).flatten ++
    line "    return cpu.rax;" ++ line "\x7d"

def fileHeader : Text :=
  line "/* Decompiled by dEXE */" ++ line "#include <stdint.h>" ++ line "#include <string.h>" ++
    line "#include <stdlib.h>" ++ line "#include <stddef.h>" ++ line "#include <stdatomic.h>" ++
    line "" ++ line "typedef struct \x7b" ++ line "    uint64_t rax, rbx, rcx, rdx;" ++
    line "    uint64_t rsi, rdi, rsp, rbp;" ++ line "    uint64_t r8, r9, r10, r11;" ++
    line "    uint64_t r12, r13, r14, r15;" ++ line "    uint64_t rflags;" ++
    line "\x7d CPU_State;" ++ line "CPU_State cpu = \x7b0\x7d;" ++
    line "uint8_t process_memory[16 * 1024 * 1024]; // 16MB" ++ line "void init_state(void) \x7b" ++
    line "    cpu.rsp = (uintptr_t)&process_memory[sizeof(process_memory) - 8];" ++
    line "\x7d" ++ line ""

def opcodes (functions : List IRFunction) : List Opcode :=
  functions.flatMap fun f => f.blockList.flatMap fun b => b.instructions.map IRInstruction.opcode

def externTargets (emittedAddrs : TreeSet U64) (functions : List IRFunction) : TreeSet U64 :=
  (opcodes functions).foldl (fun (s : TreeSet U64) op =>
    match op with
    | .call (.direct addr) _ => if emittedAddrs.contains addr then s else s.insert addr
    | _ => s) ∅

def externNames (functions : List IRFunction) : TreeSet Text :=
  (opcodes functions).foldl (fun (s : TreeSet Text) op =>
    match op with
    | .call (.external name) _ => s.insert name
    | _ => s) ∅

abbrev Declared := Text × TreeSet Text

def declareLibc (d : Declared) (name : Text) : Declared :=
  match libcProto name with
  | some proto => (d.1 ++ line ("extern " ++ proto ++ ";"), d.2.insert name)
  | none => d

def stubLine (ident : Text) : Text := line ("extern uint64_t " ++ ident ++ "(void);")

def declareUnknown (d : Declared) (name : Text) : Declared :=
  if d.2.contains name then d else (d.1 ++ stubLine (sanitiseCIdent name), d.2)

def declareTarget (symbols : SymbolTable) (d : Declared) (addr : U64) : Declared :=
  match symbols[addr]? with
  | some symName =>
    match libcProto symName with
    | some proto =>
      if d.2.contains symName then d
      else (d.1 ++ line ("extern " ++ proto ++ ";"), d.2.insert symName)
    | none =>
      if d.2.contains symName then d
      else (d.1 ++ stubLine (sanitiseCIdent symName), d.2.insert symName)
  | none => (d.1 ++ stubLine ("stub_0x" ++ hex addr.toNat), d.2)

def externDeclarations (functions : List IRFunction) (symbols : SymbolTable) : Text :=
  let emittedAddrs := TreeSet.ofList (functions.map IRFunction.addr)
  let targets := externTargets emittedAddrs functions
  let names := externNames functions
  let libc := names.toList.foldl declareLibc ([], ∅)
  let unknown := names.toList.foldl declareUnknown libc
  let all := targets.toList.foldl (declareTarget symbols) unknown
  all.1 ++ if targets.isEmpty ∧ names.isEmpty then [] else line ""

def funcNameMap (functions : List IRFunction) : TreeMap U64 Text :=
  TreeMap.ofList (functions.map fun f => (f.addr, sanitiseCIdent f.name))

def forwardDeclarations (functions : List IRFunction) : Text :=
  line "/* Forward declarations */" ++
    (functions.map fun f => line ("uint64_t " ++ sanitiseCIdent f.name ++ "(void);")).flatten ++
    line ""

def emitC (functions : List IRFunction) (symbols : SymbolTable) : Text :=
  fileHeader ++ externDeclarations functions symbols ++ forwardDeclarations functions ++
    (functions.map fun f => emitFunction symbols (funcNameMap functions) f ++ line "").flatten

end Dexe.Backend
