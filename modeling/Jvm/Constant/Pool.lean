import Jvm.Constant.Basic

/-!
# Constant pools

A pool is indexed as in the class file: slot 0 is empty, and so is the slot after a `long` or
`double`. References between entries are followed only on demand, and each accessor reports the
first hop that fails.
-/

namespace Jvm

structure ConstantPool where
  slots : Array (Option Constant)
  deriving Repr, DecidableEq

structure MemberRef where
  className : String
  name : String
  descriptor : String
  deriving Repr, DecidableEq, Inhabited

/-- Class, name and descriptor run together. -/
def MemberRef.text (r : MemberRef) : String := r.className ++ "." ++ r.name ++ r.descriptor

namespace ConstantPool

/-- The number of slots, slot 0 included. -/
def count (p : ConstantPool) : Nat := p.slots.size

/-- The content of a slot; `none` when the slot is outside the pool or empty. -/
def slot? (p : ConstantPool) (index : UInt16) : Option Constant := p.slots[index.toNat]?.join

def usable (p : ConstantPool) (index : UInt16) : Bool := index ≠ 0 && (p.slot? index).isSome

def invalidIndex (detail : String) : Fault := .of .index .invalidConstantIndex detail

def entry (p : ConstantPool) (index : UInt16) : Except Fault Constant :=
  if index = 0 ∨ p.count ≤ index.toNat then
    .error (invalidIndex s!"#{index.toNat} outside [1, {p.count})")
  else match p.slot? index with
    | some c => .ok c
    | none =>
      .error (invalidIndex s!"#{index.toNat} is the unusable slot after a long or double")

/-- The fault of an entry that is not what a reference needs. -/
def wrongEntry (index : UInt16) (have_ : ConstantTag) (want : String) : Fault :=
  .of .typeMismatch .typeMismatch s!"#{index.toNat} is {have_.name}, want {want}"

/-- The part of an entry that only entries with the tag `want` have. -/
def entryAs {α : Type} (p : ConstantPool) (index : UInt16) (want : ConstantTag)
    (part : Constant → Option α) : Except Fault α := do
  let c ← p.entry index
  match part c with
  | some a => .ok a
  | none => .error (wrongEntry index c.tag want.name)

def utf8 (p : ConstantPool) (index : UInt16) : Except Fault String :=
  p.entryAs index .utf8 fun
    | .utf8 value _ => some value
    | _ => none

def className (p : ConstantPool) (index : UInt16) : Except Fault String := do
  let nameIndex ← p.entryAs index .classRef fun
    | .classRef i => some i
    | _ => none
  p.utf8 nameIndex

def nameAndType (p : ConstantPool) (index : UInt16) : Except Fault (String × String) := do
  let (i, j) ← p.entryAs index .nameAndType fun
    | .nameAndType i j => some (i, j)
    | _ => none
  let name ← p.utf8 i
  let descriptor ← p.utf8 j
  return (name, descriptor)

def string (p : ConstantPool) (index : UInt16) : Except Fault String := do
  let i ← p.entryAs index .string fun
    | .string i => some i
    | _ => none
  p.utf8 i

def integer (p : ConstantPool) (index : UInt16) : Except Fault Int32 :=
  p.entryAs index .integer fun
    | .integer v => some v
    | _ => none

/-- The bits of a `Float` entry. -/
def float (p : ConstantPool) (index : UInt16) : Except Fault UInt32 :=
  p.entryAs index .float fun
    | .float bits => some bits
    | _ => none

def long (p : ConstantPool) (index : UInt16) : Except Fault Int64 :=
  p.entryAs index .long fun
    | .long v => some v
    | _ => none

/-- The bits of a `Double` entry. -/
def double (p : ConstantPool) (index : UInt16) : Except Fault UInt64 :=
  p.entryAs index .double fun
    | .double bits => some bits
    | _ => none

def memberRef (p : ConstantPool) (classIndex nameAndTypeIndex : UInt16) :
    Except Fault MemberRef := do
  let className ← p.className classIndex
  let (name, descriptor) ← p.nameAndType nameAndTypeIndex
  return { className, name, descriptor }

def fieldref (p : ConstantPool) (index : UInt16) : Except Fault MemberRef := do
  let (i, j) ← p.entryAs index .fieldref fun
    | .fieldref i j => some (i, j)
    | _ => none
  p.memberRef i j

def methodref (p : ConstantPool) (index : UInt16) : Except Fault MemberRef := do
  let (i, j) ← p.entryAs index .methodref fun
    | .methodref i j => some (i, j)
    | _ => none
  p.memberRef i j

def interfaceMethodref (p : ConstantPool) (index : UInt16) : Except Fault MemberRef := do
  let (i, j) ← p.entryAs index .interfaceMethodref fun
    | .interfaceMethodref i j => some (i, j)
    | _ => none
  p.memberRef i j

/-- The reference of either kind of method entry, and whether it names an interface method. -/
def anyMethodref (p : ConstantPool) (index : UInt16) : Except Fault (MemberRef × Bool) := do
  let c ← p.entry index
  match c with
  | .methodref i j => return (← p.memberRef i j, false)
  | .interfaceMethodref i j => return (← p.memberRef i j, true)
  | _ => .error (wrongEntry index c.tag "a method reference")

def methodType (p : ConstantPool) (index : UInt16) : Except Fault String := do
  let i ← p.entryAs index .methodType fun
    | .methodType i => some i
    | _ => none
  p.utf8 i

def methodHandle (p : ConstantPool) (index : UInt16) : Except Fault Constant :=
  p.entryAs index .methodHandle fun
    | .methodHandle k i => some (.methodHandle k i)
    | _ => none

def invokeDynamic (p : ConstantPool) (index : UInt16) : Except Fault Constant :=
  p.entryAs index .invokeDynamic fun
    | .invokeDynamic i j => some (.invokeDynamic i j)
    | _ => none

/-! ### Binary form -/

/-- Reads entries into `n` more slots, the first of them numbered `i`, onto the reversed list `acc`.
A wide entry leaves the slot after it empty, unless it stands in the last slot. -/
def slotsOnto : Nat → Nat → List (Option Constant) → Parser (List (Option Constant))
  | 0, _, acc, s => .ok (acc.reverse, s)
  | n + 1, i, acc, s =>
    match Constant.parser s with
    | .error f => .error (.context s!"failed to read constant pool entry {i}" f)
    | .ok (c, rest) =>
      if c.isWide then
        match n with
        | 0 => .ok ((some c :: acc).reverse, rest)
        | m + 1 => slotsOnto m (i + 2) (none :: some c :: acc) rest
      else slotsOnto n (i + 1) (some c :: acc) rest

def parser : Parser ConstantPool := do
  let count ← Parser.reading "constant pool count" Reader.u2
  if count = 0 then
    Parser.fail (.of .format .invalidConstantIndex "constant_pool_count is 0")
  else
    let slots ← slotsOnto (count.toNat - 1) 1 []
    return { slots := (none :: slots).toArray }

/-- The entries that are written for slots numbered from `i`, onto the reversed list `acc`. The slot
after a wide entry is passed over. -/
def entriesOnto : Nat → List (Option Constant) → List Constant → Except Fault (List Constant)
  | _, [], acc => .ok acc.reverse
  | i, none :: _, _ => .error (.plain s!"constant pool slot {i} is empty")
  | i, some c :: rest, acc =>
    if c.isWide then
      match rest with
      | [] => .ok (c :: acc).reverse
      | _ :: after => entriesOnto (i + 2) after (c :: acc)
    else entriesOnto (i + 1) rest (c :: acc)

/-- Writes a whole pool. The number of slots is written modulo 65536. -/
def encode (p : ConstantPool) : Except Fault Bytes :=
  match p.slots.toList with
  | [] => .error (.plain "constant pool has no slot 0")
  | _ :: rest => do
    let entries ← entriesOnto 1 rest []
    return Bytes.ofU2 (UInt16.ofNat p.count) ++ entries.flatMap Constant.encode

end ConstantPool

end Jvm
