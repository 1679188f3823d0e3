import Jvm.Kind
import Jvm.Text.Hex

/-!
# Opcodes

The supported instruction set. Instructions that differ only in a kind, a slot or a condition form
one family, and the byte and the mnemonic of a member are computed from its parameters. `ofByte?`
is the inverse of `toByte`.
-/

namespace Jvm

inductive IntOp where
  | add | sub | mul | div | rem | shl | shr | ushr | and | or | xor
  deriving Repr, DecidableEq

inductive LongOp where
  | add | sub | mul | div | rem
  deriving Repr, DecidableEq

/-- The conditions of integer branches, in opcode order. -/
inductive Comparison where
  | eq | ne | lt | ge | gt | le
  deriving Repr, DecidableEq

inductive Opcode where
  | nop
  | aconstNull
  /-- `iconst_m1` to `iconst_5`, numbered from 0. -/
  | iconst (n : Fin 7)
  | lconst (n : Fin 2)
  | fconst (n : Fin 3)
  | dconst (n : Fin 2)
  | bipush
  | sipush
  | ldc
  | ldcW
  | ldc2W
  | load (kind : Kind)
  /-- A load whose slot is part of the opcode. -/
  | loadFrom (kind : Kind) (slot : Fin 4)
  | aaload
  | store (kind : Kind)
  /-- A store whose slot is part of the opcode. -/
  | storeTo (kind : Kind) (slot : Fin 4)
  | pop
  | pop2
  | dup
  | dupX1
  | dupX2
  | swap
  | intBinary (op : IntOp)
  | longBinary (op : LongOp)
  | ineg
  | lneg
  | iinc
  | i2l
  | l2i
  | i2b
  | i2c
  | i2s
  | lcmp
  /-- A branch on an `int` compared with zero. -/
  | ifInt (condition : Comparison)
  /-- A branch on two `int`s compared. -/
  | ifIntCompare (condition : Comparison)
  /-- A branch on two references, taken when they are equal or when they are not. -/
  | ifReferenceCompare (equal : Bool)
  /-- A branch on a reference, taken when it is null or when it is not. -/
  | ifNull (null : Bool)
  | goto
  | valueReturn (kind : Kind)
  | voidReturn
  | getstatic
  | putstatic
  | getfield
  | putfield
  | invokevirtual
  | invokespecial
  | invokestatic
  | invokeinterface
  | new
  | arraylength
  | checkcast
  deriving Repr, DecidableEq

/-- The layout of the operand bytes after an opcode. -/
inductive Shape where
  | none
  | slot
  | byteImmediate
  | shortImmediate
  | poolByte
  | pool
  | increment
  | branch
  | interface
  deriving Repr, DecidableEq

def Shape.width : Shape → Nat
  | none => 0
  | slot | byteImmediate | poolByte => 1
  | shortImmediate | pool | increment | branch => 2
  | interface => 4

namespace IntOp

def all : List IntOp := [add, sub, mul, div, rem, shl, shr, ushr, and, or, xor]

def byte : IntOp → Nat
  | add => 0x60
  | sub => 0x64
  | mul => 0x68
  | div => 0x6c
  | rem => 0x70
  | shl => 0x78
  | shr => 0x7a
  | ushr => 0x7c
  | and => 0x7e
  | or => 0x80
  | xor => 0x82

/-- The mnemonic of an operation, without its kind. -/
def name : IntOp → String
  | add => "add"
  | sub => "sub"
  | mul => "mul"
  | div => "div"
  | rem => "rem"
  | shl => "shl"
  | shr => "shr"
  | ushr => "ushr"
  | and => "and"
  | or => "or"
  | xor => "xor"

end IntOp

namespace LongOp

def all : List LongOp := [add, sub, mul, div, rem]

def byte : LongOp → Nat
  | add => 0x61
  | sub => 0x65
  | mul => 0x69
  | div => 0x6d
  | rem => 0x71

def name : LongOp → String
  | add => "add"
  | sub => "sub"
  | mul => "mul"
  | div => "div"
  | rem => "rem"

end LongOp

namespace Comparison

def all : List Comparison := [eq, ne, lt, ge, gt, le]

/-- The position of a condition in a family of branches. -/
def position : Comparison → Nat
  | eq => 0
  | ne => 1
  | lt => 2
  | ge => 3
  | gt => 4
  | le => 5

def name : Comparison → String
  | eq => "eq"
  | ne => "ne"
  | lt => "lt"
  | ge => "ge"
  | gt => "gt"
  | le => "le"

end Comparison

namespace Opcode

def all : List Opcode :=
  [nop, aconstNull]
    ++ (List.finRange 7).map iconst
    ++ (List.finRange 2).map lconst
    ++ (List.finRange 3).map fconst
    ++ (List.finRange 2).map dconst
    ++ [bipush, sipush, ldc, ldcW, ldc2W]
    ++ Kind.all.map load
    ++ Kind.all.flatMap (fun k => (List.finRange 4).map (loadFrom k))
    ++ [aaload]
    ++ Kind.all.map store
    ++ Kind.all.flatMap (fun k => (List.finRange 4).map (storeTo k))
    ++ [pop, pop2, dup, dupX1, dupX2, swap]
    ++ IntOp.all.map intBinary
    ++ LongOp.all.map longBinary
    ++ [ineg, lneg, iinc, i2l, l2i, i2b, i2c, i2s, lcmp]
    ++ Comparison.all.map ifInt
    ++ Comparison.all.map ifIntCompare
    ++ [ifReferenceCompare true, ifReferenceCompare false, goto]
    ++ Kind.all.map valueReturn
    ++ [voidReturn, getstatic, putstatic, getfield, putfield, invokevirtual, invokespecial,
      invokestatic, invokeinterface, new, arraylength, checkcast, ifNull true, ifNull false]

def number : Opcode → Nat
  | nop => 0x00
  | aconstNull => 0x01
  | iconst n => 0x02 + n
  | lconst n => 0x09 + n
  | fconst n => 0x0b + n
  | dconst n => 0x0e + n
  | bipush => 0x10
  | sipush => 0x11
  | ldc => 0x12
  | ldcW => 0x13
  | ldc2W => 0x14
  | load k => 0x15 + k.position
  | loadFrom k n => 0x1a + 4 * k.position + n
  | aaload => 0x32
  | store k => 0x36 + k.position
  | storeTo k n => 0x3b + 4 * k.position + n
  | pop => 0x57
  | pop2 => 0x58
  | dup => 0x59
  | dupX1 => 0x5a
  | dupX2 => 0x5b
  | swap => 0x5f
  | intBinary op => op.byte
  | longBinary op => op.byte
  | ineg => 0x74
  | lneg => 0x75
  | iinc => 0x84
  | i2l => 0x85
  | l2i => 0x88
  | i2b => 0x91
  | i2c => 0x92
  | i2s => 0x93
  | lcmp => 0x94
  | ifInt c => 0x99 + c.position
  | ifIntCompare c => 0x9f + c.position
  | ifReferenceCompare true => 0xa5
  | ifReferenceCompare false => 0xa6
  | goto => 0xa7
  | valueReturn k => 0xac + k.position
  | voidReturn => 0xb1
  | getstatic => 0xb2
  | putstatic => 0xb3
  | getfield => 0xb4
  | putfield => 0xb5
  | invokevirtual => 0xb6
  | invokespecial => 0xb7
  | invokestatic => 0xb8
  | invokeinterface => 0xb9
  | new => 0xbb
  | arraylength => 0xbe
  | checkcast => 0xc0
  | ifNull true => 0xc6
  | ifNull false => 0xc7

def toByte (op : Opcode) : UInt8 := UInt8.ofNat op.number

/-- The opcode that a byte encodes; `none` for a byte outside the supported set. -/
def ofByte? (b : UInt8) : Option Opcode := all.find? fun op => op.number == b.toNat

def name : Opcode → String
  | nop => "nop"
  | aconstNull => "aconst_null"
  | iconst n => if n = 0 then "iconst_m1" else "iconst_" ++ toString (n.val - 1)
  | lconst n => "lconst_" ++ toString n.val
  | fconst n => "fconst_" ++ toString n.val
  | dconst n => "dconst_" ++ toString n.val
  | bipush => "bipush"
  | sipush => "sipush"
  | ldc => "ldc"
  | ldcW => "ldc_w"
  | ldc2W => "ldc2_w"
  | load k => k.letter ++ "load"
  | loadFrom k n => k.letter ++ "load_" ++ toString n.val
  | aaload => "aaload"
  | store k => k.letter ++ "store"
  | storeTo k n => k.letter ++ "store_" ++ toString n.val
  | pop => "pop"
  | pop2 => "pop2"
  | dup => "dup"
  | dupX1 => "dup_x1"
  | dupX2 => "dup_x2"
  | swap => "swap"
  | intBinary op => "i" ++ op.name
  | longBinary op => "l" ++ op.name
  | ineg => "ineg"
  | lneg => "lneg"
  | iinc => "iinc"
  | i2l => "i2l"
  | l2i => "l2i"
  | i2b => "i2b"
  | i2c => "i2c"
  | i2s => "i2s"
  | lcmp => "lcmp"
  | ifInt c => "if" ++ c.name
  | ifIntCompare c => "if_icmp" ++ c.name
  | ifReferenceCompare true => "if_acmpeq"
  | ifReferenceCompare false => "if_acmpne"
  | goto => "goto"
  | valueReturn k => k.letter ++ "return"
  | voidReturn => "return"
  | getstatic => "getstatic"
  | putstatic => "putstatic"
  | getfield => "getfield"
  | putfield => "putfield"
  | invokevirtual => "invokevirtual"
  | invokespecial => "invokespecial"
  | invokestatic => "invokestatic"
  | invokeinterface => "invokeinterface"
  | new => "new"
  | arraylength => "arraylength"
  | checkcast => "checkcast"
  | ifNull true => "ifnull"
  | ifNull false => "ifnonnull"

def shape : Opcode → Shape
  | load _ | store _ => .slot
  | bipush => .byteImmediate
  | sipush => .shortImmediate
  | ldc => .poolByte
  | ldcW | ldc2W | getstatic | putstatic | getfield | putfield | invokevirtual | invokespecial
  | invokestatic | new | checkcast => .pool
  | iinc => .increment
  | ifInt _ | ifIntCompare _ | ifReferenceCompare _ | ifNull _ | goto => .branch
  | invokeinterface => .interface
  | _ => .none

/-- The slot that is part of the opcode itself, or 0. -/
def impliedSlot : Opcode → UInt16
  | loadFrom _ n | storeTo _ n => UInt16.ofNat n
  | _ => 0

/-- The mnemonic of a byte; a byte outside the supported set is named by its value. -/
def nameOfByte (b : UInt8) : String :=
  match ofByte? b with
  | some op => op.name
  | none => "opcode_0x" ++ Text.Hex.lower 2 b.toNat

end Opcode

end Jvm
