/-!
# Opcodes

The instruction set: a stack machine's operations, with the short and macro
forms that compilers write.  Every opcode has a number, a mnemonic, a kind of
operand, a flow class and a stack effect; numbers past the last opcode stand for
themselves and have no mnemonic.

* `Opcode.info` is the table;
* `Opcode.number` and `Opcode.ofNumber` go between opcodes and numbers, and
  `Opcode.ofNumber_number` says that they undo each other on known opcodes;
* `Opcode.ofName?` finds an opcode by its mnemonic.
-/

namespace JobWeave

/-- What an instruction carries besides its opcode. -/
inductive OperandKind where
  /-- nothing -/
  | none
  /-- the number of an argument, the instance being argument zero -/
  | arg
  /-- a local variable -/
  | slot
  | int32
  | int64
  | float32
  | float64
  | text
  /-- an instruction of the same body -/
  | branch
  /-- a list of instructions of the same body -/
  | table
  | type
  | field
  | method
  /-- a type, a field or a method -/
  | token
  deriving DecidableEq, Repr, Inhabited

/-- The number of an operand kind. -/
def OperandKind.number : OperandKind → Nat
  | none => 0
  | arg => 1
  | slot => 2
  | int32 => 3
  | int64 => 4
  | float32 => 5
  | float64 => 6
  | text => 7
  | branch => 8
  | table => 9
  | type => 10
  | field => 11
  | method => 12
  | token => 13

/-- Where control goes after an instruction. -/
inductive Flow where
  /-- to the next instruction -/
  | next
  /-- to the target -/
  | branch
  /-- to a target or to the next instruction -/
  | condBranch
  /-- into a method and back -/
  | call
  /-- out of the method -/
  | ret
  /-- to a handler -/
  | throw
  /-- to the next instruction, which this one modifies -/
  | modifier
  deriving DecidableEq, Repr, Inhabited

/-- The number of a flow class. -/
def Flow.number : Flow → Nat
  | next => 0
  | branch => 1
  | condBranch => 2
  | call => 3
  | ret => 4
  | throw => 5
  | modifier => 6

/-- The fixed properties of an opcode. -/
structure OpInfo where
  /-- the mnemonic -/
  name : String
  /-- what the instruction carries -/
  operand : OperandKind
  /-- where control goes -/
  flow : Flow
  /-- values taken from the stack, -1 when the operand decides -/
  pop : Int
  /-- values put on the stack, -1 when the operand decides -/
  push : Int
  /-- the operand has a short encoding -/
  short : Bool
  deriving DecidableEq, Repr, Inhabited

/-- An operation of the machine. -/
inductive Opcode where
  | nop | ldarg0 | ldarg1 | ldarg2 | ldarg3 | ldargS | ldarg | ldargaS
  | ldarga | stargS | starg | ldloc0 | ldloc1 | ldloc2 | ldloc3 | ldlocS
  | ldloc | ldlocaS | ldloca | stloc0 | stloc1 | stloc2 | stloc3 | stlocS
  | stloc | ldnull | ldcI4M1 | ldcI40 | ldcI41 | ldcI42 | ldcI43 | ldcI44
  | ldcI45 | ldcI46 | ldcI47 | ldcI48 | ldcI4S | ldcI4 | ldcI8 | ldcR4
  | ldcR8 | dup | pop | call | callvirt | ret | brS | brfalseS | brtrueS
  | beqS | bgeS | bgtS | bleS | bltS | bneUnS | br | brfalse | brtrue | beq
  | bge | bgt | ble | blt | bneUn | switch | ldindI4 | ldindRef | stindI4
  | stindRef | add | sub | mul | div | rem | and | or | xor | shl | shr
  | neg | not | convI4 | convI8 | convR4 | convR8 | convI | convU | ldobj
  | stobj | ldstr | newobj | castclass | isinst | box | unboxAny | throw
  | ldfld | ldflda | stfld | ldsfld | ldsflda | stsfld | newarr | ldlen
  | ldelema | ldelemRef | stelemRef | ldelem | stelem | ldtoken | leaveS
  | leave | endfinally | ceq | cgt | clt | ldftn | ldvirtftn | initobj
  | sizeof | constrained
  /-- a number that no opcode has -/
  | unknown (number : UInt16)
  deriving DecidableEq, Repr, Inhabited

namespace Opcode

/-- The table of fixed properties. -/
def info : Opcode → OpInfo
  | .nop => ⟨"nop", .none, .next, 0, 0, false⟩
  | .ldarg0 => ⟨"ldarg.0", .none, .next, 0, 1, false⟩
  | .ldarg1 => ⟨"ldarg.1", .none, .next, 0, 1, false⟩
  | .ldarg2 => ⟨"ldarg.2", .none, .next, 0, 1, false⟩
  | .ldarg3 => ⟨"ldarg.3", .none, .next, 0, 1, false⟩
  | .ldargS => ⟨"ldarg.s", .arg, .next, 0, 1, true⟩
  | .ldarg => ⟨"ldarg", .arg, .next, 0, 1, false⟩
  | .ldargaS => ⟨"ldarga.s", .arg, .next, 0, 1, true⟩
  | .ldarga => ⟨"ldarga", .arg, .next, 0, 1, false⟩
  | .stargS => ⟨"starg.s", .arg, .next, 1, 0, true⟩
  | .starg => ⟨"starg", .arg, .next, 1, 0, false⟩
  | .ldloc0 => ⟨"ldloc.0", .none, .next, 0, 1, false⟩
  | .ldloc1 => ⟨"ldloc.1", .none, .next, 0, 1, false⟩
  | .ldloc2 => ⟨"ldloc.2", .none, .next, 0, 1, false⟩
  | .ldloc3 => ⟨"ldloc.3", .none, .next, 0, 1, false⟩
  | .ldlocS => ⟨"ldloc.s", .slot, .next, 0, 1, true⟩
  | .ldloc => ⟨"ldloc", .slot, .next, 0, 1, false⟩
  | .ldlocaS => ⟨"ldloca.s", .slot, .next, 0, 1, true⟩
  | .ldloca => ⟨"ldloca", .slot, .next, 0, 1, false⟩
  | .stloc0 => ⟨"stloc.0", .none, .next, 1, 0, false⟩
  | .stloc1 => ⟨"stloc.1", .none, .next, 1, 0, false⟩
  | .stloc2 => ⟨"stloc.2", .none, .next, 1, 0, false⟩
  | .stloc3 => ⟨"stloc.3", .none, .next, 1, 0, false⟩
  | .stlocS => ⟨"stloc.s", .slot, .next, 1, 0, true⟩
  | .stloc => ⟨"stloc", .slot, .next, 1, 0, false⟩
  | .ldnull => ⟨"ldnull", .none, .next, 0, 1, false⟩
  | .ldcI4M1 => ⟨"ldc.i4.m1", .none, .next, 0, 1, false⟩
  | .ldcI40 => ⟨"ldc.i4.0", .none, .next, 0, 1, false⟩
  | .ldcI41 => ⟨"ldc.i4.1", .none, .next, 0, 1, false⟩
  | .ldcI42 => ⟨"ldc.i4.2", .none, .next, 0, 1, false⟩
  | .ldcI43 => ⟨"ldc.i4.3", .none, .next, 0, 1, false⟩
  | .ldcI44 => ⟨"ldc.i4.4", .none, .next, 0, 1, false⟩
  | .ldcI45 => ⟨"ldc.i4.5", .none, .next, 0, 1, false⟩
  | .ldcI46 => ⟨"ldc.i4.6", .none, .next, 0, 1, false⟩
  | .ldcI47 => ⟨"ldc.i4.7", .none, .next, 0, 1, false⟩
  | .ldcI48 => ⟨"ldc.i4.8", .none, .next, 0, 1, false⟩
  | .ldcI4S => ⟨"ldc.i4.s", .int32, .next, 0, 1, true⟩
  | .ldcI4 => ⟨"ldc.i4", .int32, .next, 0, 1, false⟩
  | .ldcI8 => ⟨"ldc.i8", .int64, .next, 0, 1, false⟩
  | .ldcR4 => ⟨"ldc.r4", .float32, .next, 0, 1, false⟩
  | .ldcR8 => ⟨"ldc.r8", .float64, .next, 0, 1, false⟩
  | .dup => ⟨"dup", .none, .next, 1, 2, false⟩
  | .pop => ⟨"pop", .none, .next, 1, 0, false⟩
  | .call => ⟨"call", .method, .call, -1, -1, false⟩
  | .callvirt => ⟨"callvirt", .method, .call, -1, -1, false⟩
  | .ret => ⟨"ret", .none, .ret, -1, 0, false⟩
  | .brS => ⟨"br.s", .branch, .branch, 0, 0, true⟩
  | .brfalseS => ⟨"brfalse.s", .branch, .condBranch, 1, 0, true⟩
  | .brtrueS => ⟨"brtrue.s", .branch, .condBranch, 1, 0, true⟩
  | .beqS => ⟨"beq.s", .branch, .condBranch, 2, 0, true⟩
  | .bgeS => ⟨"bge.s", .branch, .condBranch, 2, 0, true⟩
  | .bgtS => ⟨"bgt.s", .branch, .condBranch, 2, 0, true⟩
  | .bleS => ⟨"ble.s", .branch, .condBranch, 2, 0, true⟩
  | .bltS => ⟨"blt.s", .branch, .condBranch, 2, 0, true⟩
  | .bneUnS => ⟨"bne.un.s", .branch, .condBranch, 2, 0, true⟩
  | .br => ⟨"br", .branch, .branch, 0, 0, false⟩
  | .brfalse => ⟨"brfalse", .branch, .condBranch, 1, 0, false⟩
  | .brtrue => ⟨"brtrue", .branch, .condBranch, 1, 0, false⟩
  | .beq => ⟨"beq", .branch, .condBranch, 2, 0, false⟩
  | .bge => ⟨"bge", .branch, .condBranch, 2, 0, false⟩
  | .bgt => ⟨"bgt", .branch, .condBranch, 2, 0, false⟩
  | .ble => ⟨"ble", .branch, .condBranch, 2, 0, false⟩
  | .blt => ⟨"blt", .branch, .condBranch, 2, 0, false⟩
  | .bneUn => ⟨"bne.un", .branch, .condBranch, 2, 0, false⟩
  | .switch => ⟨"switch", .table, .condBranch, 1, 0, false⟩
  | .ldindI4 => ⟨"ldind.i4", .none, .next, 1, 1, false⟩
  | .ldindRef => ⟨"ldind.ref", .none, .next, 1, 1, false⟩
  | .stindI4 => ⟨"stind.i4", .none, .next, 2, 0, false⟩
  | .stindRef => ⟨"stind.ref", .none, .next, 2, 0, false⟩
  | .add => ⟨"add", .none, .next, 2, 1, false⟩
  | .sub => ⟨"sub", .none, .next, 2, 1, false⟩
  | .mul => ⟨"mul", .none, .next, 2, 1, false⟩
  | .div => ⟨"div", .none, .next, 2, 1, false⟩
  | .rem => ⟨"rem", .none, .next, 2, 1, false⟩
  | .and => ⟨"and", .none, .next, 2, 1, false⟩
  | .or => ⟨"or", .none, .next, 2, 1, false⟩
  | .xor => ⟨"xor", .none, .next, 2, 1, false⟩
  | .shl => ⟨"shl", .none, .next, 2, 1, false⟩
  | .shr => ⟨"shr", .none, .next, 2, 1, false⟩
  | .neg => ⟨"neg", .none, .next, 1, 1, false⟩
  | .not => ⟨"not", .none, .next, 1, 1, false⟩
  | .convI4 => ⟨"conv.i4", .none, .next, 1, 1, false⟩
  | .convI8 => ⟨"conv.i8", .none, .next, 1, 1, false⟩
  | .convR4 => ⟨"conv.r4", .none, .next, 1, 1, false⟩
  | .convR8 => ⟨"conv.r8", .none, .next, 1, 1, false⟩
  | .convI => ⟨"conv.i", .none, .next, 1, 1, false⟩
  | .convU => ⟨"conv.u", .none, .next, 1, 1, false⟩
  | .ldobj => ⟨"ldobj", .type, .next, 1, 1, false⟩
  | .stobj => ⟨"stobj", .type, .next, 2, 0, false⟩
  | .ldstr => ⟨"ldstr", .text, .next, 0, 1, false⟩
  | .newobj => ⟨"newobj", .method, .call, -1, 1, false⟩
  | .castclass => ⟨"castclass", .type, .next, 1, 1, false⟩
  | .isinst => ⟨"isinst", .type, .next, 1, 1, false⟩
  | .box => ⟨"box", .type, .next, 1, 1, false⟩
  | .unboxAny => ⟨"unbox.any", .type, .next, 1, 1, false⟩
  | .throw => ⟨"throw", .none, .throw, 1, 0, false⟩
  | .ldfld => ⟨"ldfld", .field, .next, 1, 1, false⟩
  | .ldflda => ⟨"ldflda", .field, .next, 1, 1, false⟩
  | .stfld => ⟨"stfld", .field, .next, 2, 0, false⟩
  | .ldsfld => ⟨"ldsfld", .field, .next, 0, 1, false⟩
  | .ldsflda => ⟨"ldsflda", .field, .next, 0, 1, false⟩
  | .stsfld => ⟨"stsfld", .field, .next, 1, 0, false⟩
  | .newarr => ⟨"newarr", .type, .next, 1, 1, false⟩
  | .ldlen => ⟨"ldlen", .none, .next, 1, 1, false⟩
  | .ldelema => ⟨"ldelema", .type, .next, 2, 1, false⟩
  | .ldelemRef => ⟨"ldelem.ref", .none, .next, 2, 1, false⟩
  | .stelemRef => ⟨"stelem.ref", .none, .next, 3, 0, false⟩
  | .ldelem => ⟨"ldelem", .type, .next, 2, 1, false⟩
  | .stelem => ⟨"stelem", .type, .next, 3, 0, false⟩
  | .ldtoken => ⟨"ldtoken", .token, .next, 0, 1, false⟩
  | .leaveS => ⟨"leave.s", .branch, .branch, 0, 0, true⟩
  | .leave => ⟨"leave", .branch, .branch, 0, 0, false⟩
  | .endfinally => ⟨"endfinally", .none, .ret, 0, 0, false⟩
  | .ceq => ⟨"ceq", .none, .next, 2, 1, false⟩
  | .cgt => ⟨"cgt", .none, .next, 2, 1, false⟩
  | .clt => ⟨"clt", .none, .next, 2, 1, false⟩
  | .ldftn => ⟨"ldftn", .method, .next, 0, 1, false⟩
  | .ldvirtftn => ⟨"ldvirtftn", .method, .next, 1, 1, false⟩
  | .initobj => ⟨"initobj", .type, .next, 1, 0, false⟩
  | .sizeof => ⟨"sizeof", .type, .next, 0, 1, false⟩
  | .constrained => ⟨"constrained.", .type, .modifier, 0, 0, false⟩
  | .unknown n =>
    ⟨"<invalid 0x" ++ String.ofList (Nat.toDigits 16 n.toNat) ++ ">", .none,
      .next, 0, 0, false⟩

/-- The opcodes in the order of their numbers. -/
def all : Array Opcode := #[
  .nop, .ldarg0, .ldarg1, .ldarg2, .ldarg3, .ldargS, .ldarg, .ldargaS, .ldarga,
  .stargS, .starg, .ldloc0, .ldloc1, .ldloc2, .ldloc3, .ldlocS, .ldloc,
  .ldlocaS, .ldloca, .stloc0, .stloc1, .stloc2, .stloc3, .stlocS, .stloc,
  .ldnull, .ldcI4M1, .ldcI40, .ldcI41, .ldcI42, .ldcI43, .ldcI44, .ldcI45,
  .ldcI46, .ldcI47, .ldcI48, .ldcI4S, .ldcI4, .ldcI8, .ldcR4, .ldcR8, .dup,
  .pop, .call, .callvirt, .ret, .brS, .brfalseS, .brtrueS, .beqS, .bgeS, .bgtS,
  .bleS, .bltS, .bneUnS, .br, .brfalse, .brtrue, .beq, .bge, .bgt, .ble, .blt,
  .bneUn, .switch, .ldindI4, .ldindRef, .stindI4, .stindRef, .add, .sub, .mul,
  .div, .rem, .and, .or, .xor, .shl, .shr, .neg, .not, .convI4, .convI8,
  .convR4, .convR8, .convI, .convU, .ldobj, .stobj, .ldstr, .newobj,
  .castclass, .isinst, .box, .unboxAny, .throw, .ldfld, .ldflda, .stfld,
  .ldsfld, .ldsflda, .stsfld, .newarr, .ldlen, .ldelema, .ldelemRef,
  .stelemRef, .ldelem, .stelem, .ldtoken, .leaveS, .leave, .endfinally, .ceq,
  .cgt, .clt, .ldftn, .ldvirtftn, .initobj, .sizeof, .constrained]

/-- The number of an opcode. -/
def number : Opcode → UInt16
  | .unknown n => n
  | .nop => 0
  | .ldarg0 => 1
  | .ldarg1 => 2
  | .ldarg2 => 3
  | .ldarg3 => 4
  | .ldargS => 5
  | .ldarg => 6
  | .ldargaS => 7
  | .ldarga => 8
  | .stargS => 9
  | .starg => 10
  | .ldloc0 => 11
  | .ldloc1 => 12
  | .ldloc2 => 13
  | .ldloc3 => 14
  | .ldlocS => 15
  | .ldloc => 16
  | .ldlocaS => 17
  | .ldloca => 18
  | .stloc0 => 19
  | .stloc1 => 20
  | .stloc2 => 21
  | .stloc3 => 22
  | .stlocS => 23
  | .stloc => 24
  | .ldnull => 25
  | .ldcI4M1 => 26
  | .ldcI40 => 27
  | .ldcI41 => 28
  | .ldcI42 => 29
  | .ldcI43 => 30
  | .ldcI44 => 31
  | .ldcI45 => 32
  | .ldcI46 => 33
  | .ldcI47 => 34
  | .ldcI48 => 35
  | .ldcI4S => 36
  | .ldcI4 => 37
  | .ldcI8 => 38
  | .ldcR4 => 39
  | .ldcR8 => 40
  | .dup => 41
  | .pop => 42
  | .call => 43
  | .callvirt => 44
  | .ret => 45
  | .brS => 46
  | .brfalseS => 47
  | .brtrueS => 48
  | .beqS => 49
  | .bgeS => 50
  | .bgtS => 51
  | .bleS => 52
  | .bltS => 53
  | .bneUnS => 54
  | .br => 55
  | .brfalse => 56
  | .brtrue => 57
  | .beq => 58
  | .bge => 59
  | .bgt => 60
  | .ble => 61
  | .blt => 62
  | .bneUn => 63
  | .switch => 64
  | .ldindI4 => 65
  | .ldindRef => 66
  | .stindI4 => 67
  | .stindRef => 68
  | .add => 69
  | .sub => 70
  | .mul => 71
  | .div => 72
  | .rem => 73
  | .and => 74
  | .or => 75
  | .xor => 76
  | .shl => 77
  | .shr => 78
  | .neg => 79
  | .not => 80
  | .convI4 => 81
  | .convI8 => 82
  | .convR4 => 83
  | .convR8 => 84
  | .convI => 85
  | .convU => 86
  | .ldobj => 87
  | .stobj => 88
  | .ldstr => 89
  | .newobj => 90
  | .castclass => 91
  | .isinst => 92
  | .box => 93
  | .unboxAny => 94
  | .throw => 95
  | .ldfld => 96
  | .ldflda => 97
  | .stfld => 98
  | .ldsfld => 99
  | .ldsflda => 100
  | .stsfld => 101
  | .newarr => 102
  | .ldlen => 103
  | .ldelema => 104
  | .ldelemRef => 105
  | .stelemRef => 106
  | .ldelem => 107
  | .stelem => 108
  | .ldtoken => 109
  | .leaveS => 110
  | .leave => 111
  | .endfinally => 112
  | .ceq => 113
  | .cgt => 114
  | .clt => 115
  | .ldftn => 116
  | .ldvirtftn => 117
  | .initobj => 118
  | .sizeof => 119
  | .constrained => 120

/-- The opcode of a number. -/
def ofNumber (n : UInt16) : Opcode :=
  (all[n.toNat]?).getD (.unknown n)

/-- The opcode `n` places after `op`, counted modulo 2^16. -/
def after (op : Opcode) (n : Int) : Opcode :=
  ofNumber (op.number + UInt16.ofInt n)

/-- The opcode has a mnemonic of its own. -/
def isValid : Opcode → Bool
  | .unknown _ => false
  | _ => true

/-- The mnemonic. -/
def name (op : Opcode) : String :=
  op.info.name

/-- The flow class. -/
def flow (op : Opcode) : Flow :=
  op.info.flow

/-- The opcode may transfer control to a target. -/
def isBranch (op : Opcode) : Bool :=
  op.flow == .branch || op.flow == .condBranch

/-- The opcode invokes a method. -/
def isCall (op : Opcode) : Bool :=
  op == .call || op == .callvirt || op == .newobj

/-- The opcode with the given mnemonic. -/
def ofName? (s : String) : Option Opcode :=
  all.find? (·.name == s)

set_option maxRecDepth 4000 in
/-- A known opcode is the opcode of its number. -/
theorem ofNumber_number (op : Opcode) (h : op.isValid) :
    ofNumber op.number = op := by
  cases op <;> first | rfl | simp [isValid] at h

end Opcode

end JobWeave
