import Jvm.Bytes

/-!
# Stack maps

The frames of a `StackMapTable` attribute: what the locals and the operand stack hold at given
places of the code. They are decoded and written back, but never enforced.
-/

namespace Jvm

/-! ### Verification types -/

inductive VerificationType where
  | top
  | integer
  | float
  | double
  | long
  | null
  | uninitializedThis
  | object (classIndex : UInt16)
  | uninitialized (offset : UInt16)
  deriving Repr, DecidableEq

namespace VerificationType

def tagNames : List String :=
  ["top", "int", "float", "double", "long", "null", "uninitializedThis", "object", "uninitialized"]

def nameOfCode (code : Nat) : String := tagNames.getD code "invalid"

def code : VerificationType → UInt8
  | top => 0
  | integer => 1
  | float => 2
  | double => 3
  | long => 4
  | null => 5
  | uninitializedThis => 6
  | object _ => 7
  | uninitialized _ => 8

/-- The class index or code offset of the two types that have one, otherwise 0. -/
def index : VerificationType → UInt16
  | object i | uninitialized i => i
  | _ => 0

def encode : VerificationType → Bytes
  | object i => 7 :: Bytes.ofU2 i
  | uninitialized i => 8 :: Bytes.ofU2 i
  | t => [t.code]

end VerificationType

/-! ### Frames -/

inductive StackMapFrame where
  /-- The locals of the frame before and an empty stack. -/
  | same (delta : Fin 64)
  /-- The locals of the frame before and one stack item. -/
  | sameWithItem (delta : Fin 64) (item : VerificationType)
  | sameWithItemExtended (delta : UInt16) (item : VerificationType)
  /-- The last `count + 1` locals removed. -/
  | chop (count : Fin 3) (delta : UInt16)
  | sameExtended (delta : UInt16)
  /-- One to three locals added. -/
  | append (delta : UInt16) (added : List VerificationType)
  | full (delta : UInt16) (slots stack : List VerificationType)
  deriving Repr, DecidableEq

namespace StackMapFrame

def kindNames : List String :=
  ["same_frame", "same_locals_1_stack_item_frame", "same_locals_1_stack_item_frame_extended",
    "chop_frame", "same_frame_extended", "append_frame", "full_frame"]

def nameOfKind (kind : Nat) : String := kindNames.getD kind "unknown_frame"

def kind : StackMapFrame → Nat
  | same _ => 0
  | sameWithItem .. => 1
  | sameWithItemExtended .. => 2
  | chop .. => 3
  | sameExtended _ => 4
  | append .. => 5
  | full .. => 6

/-- The byte that opens a frame. -/
def frameType : StackMapFrame → UInt8
  | same d => UInt8.ofNat d
  | sameWithItem d _ => UInt8.ofNat (64 + d)
  | sameWithItemExtended .. => 247
  | chop n _ => UInt8.ofNat (250 - n)
  | sameExtended _ => 251
  | append _ added => UInt8.ofNat (251 + added.length)
  | full .. => 255

/-- The distance from the frame before. -/
def offsetDelta : StackMapFrame → UInt16
  | same d | sameWithItem d _ => UInt16.ofNat d
  | sameWithItemExtended d _ | chop _ d | sameExtended d | append d _ | full d _ _ => d

/-- The number of locals that a frame removes. -/
def chopped : StackMapFrame → Nat
  | chop n _ => n + 1
  | _ => 0

def slots : StackMapFrame → List VerificationType
  | append _ added => added
  | full _ slots _ => slots
  | _ => []

def stack : StackMapFrame → List VerificationType
  | sameWithItem _ item | sameWithItemExtended _ item => [item]
  | full _ _ stack => stack
  | _ => []

def encode (f : StackMapFrame) : Bytes :=
  f.frameType ::
    match f with
    | same _ => []
    | sameWithItem _ item => item.encode
    | sameWithItemExtended d item => Bytes.ofU2 d ++ item.encode
    | chop _ d => Bytes.ofU2 d
    | sameExtended d => Bytes.ofU2 d
    | append d added => Bytes.ofU2 d ++ added.flatMap VerificationType.encode
    | full d slots stack =>
      Bytes.ofU2 d ++
        Bytes.ofU2 (UInt16.ofNat slots.length) ++ slots.flatMap VerificationType.encode ++
        Bytes.ofU2 (UInt16.ofNat stack.length) ++ stack.flatMap VerificationType.encode

end StackMapFrame

/-! ### Reading -/

namespace StackMap

def short : Fault := .of .format .malformedAttribute "StackMapTable is truncated"

@[inline] def reading {α : Type} (r : Reader α) : Parser α := Parser.ofReader short r

def typeParser : Parser VerificationType := do
  let code ← reading Reader.u1
  match code.toNat with
  | 0 => return .top
  | 1 => return .integer
  | 2 => return .float
  | 3 => return .double
  | 4 => return .long
  | 5 => return .null
  | 6 => return .uninitializedThis
  | 7 => return .object (← reading Reader.u2)
  | 8 => return .uninitialized (← reading Reader.u2)
  | n => Parser.fail (.of .format .malformedAttribute ("verification type tag " ++ toString n))

def typesParser (n : Nat) : Parser (List VerificationType) := Parser.items n fun _ => typeParser

/-- Reads a frame. The types 128 to 246 are reserved. -/
def frameParser : Parser StackMapFrame := do
  let frameType ← reading Reader.u1
  let n := frameType.toNat
  if n ≤ 63 then return .same (Fin.ofNat 64 n)
  else if n ≤ 127 then return .sameWithItem (Fin.ofNat 64 (n - 64)) (← typeParser)
  else if n < 247 then
    Parser.fail
      (.of .format .malformedAttribute ("reserved stack map frame type " ++ toString n))
  else
    let delta ← reading Reader.u2
    if n = 247 then return .sameWithItemExtended delta (← typeParser)
    else if n ≤ 250 then return .chop (Fin.ofNat 3 (250 - n)) delta
    else if n = 251 then return .sameExtended delta
    else if n ≤ 254 then return .append delta (← typesParser (n - 251))
    else
      let slotCount ← reading Reader.u2
      let slots ← typesParser slotCount.toNat
      let stackCount ← reading Reader.u2
      let stack ← typesParser stackCount.toNat
      return .full delta slots stack

def parser : Parser (List StackMapFrame) := do
  let count ← reading Reader.u2
  Parser.items count.toNat fun _ => frameParser

/-- Writes a table. The count is written modulo 65536. -/
def encode (frames : List StackMapFrame) : Bytes :=
  Bytes.ofU2 (UInt16.ofNat frames.length) ++ frames.flatMap StackMapFrame.encode

end StackMap

end Jvm
