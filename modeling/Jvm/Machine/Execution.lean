import Jvm.Machine.Arithmetic
import Jvm.Machine.Invocation

/-!
# Executing instructions

What each instruction does to its frame and to the world, and the step that the thread takes
afterwards. No instruction touches the frames below its own. Code is not verified, so every value is
checked when it is used.
-/

namespace Jvm

/-- An instruction at work: it changes its frame and the world, or fails. -/
abbrev Exec := Effect Scene

namespace Exec

open Scene (onFrame onWorld onArea)

/-! ### Stack and constants -/

def push (v : Value) : Exec Unit := onFrame (Frame.push v)

/-- Puts a value on the stack and goes on. -/
def pushNext (v : Value) : Exec Step := do
  push v
  return .next

def pool : Exec ConstantPool := fun s => (.ok s.frame.pool, s)

def heap : Exec Heap := fun s => (.ok s.world.heap, s)

/-- The fault of a constant that a load cannot push. -/
def notLoadable (mnemonic : String) (c : Constant) (index : UInt16) : Fault :=
  typeMismatch s!"{mnemonic} of {c.tag.name} #{index.toNat}"

def loadConstant (index : UInt16) : Exec Step := do
  let p ← pool
  let c ← Effect.ofExcept (p.entry index)
  match c with
  | .integer v => pushNext (.int v)
  | .float bits => pushNext (.float bits)
  | .string i =>
    let content ← Effect.ofExcept (p.utf8 i)
    let r ← onWorld (World.intern content)
    pushNext (.reference r)
  | _ => Effect.fail (notLoadable "ldc" c index)

def loadWideConstant (index : UInt16) : Exec Step := do
  let p ← pool
  let c ← Effect.ofExcept (p.entry index)
  match c with
  | .long v => pushNext (.long v)
  | .double bits => pushNext (.double bits)
  | _ => Effect.fail (notLoadable "ldc2_w" c index)

def loadLocal (kind : Kind) (index : UInt16) : Exec Step := do
  let v ← onFrame (Frame.getLocalKind index.toNat (some kind))
  pushNext v

def storeLocal (depth : Nat) (kind : Kind) (index : UInt16) : Exec Step := do
  let v ← onFrame (Frame.popKind (some kind))
  Scene.store depth index.toNat v
  return .next

def increment (depth : Nat) (index : UInt16) (amount : Int32) : Exec Step := do
  let v ← onFrame (Frame.getLocalKind index.toNat (some .int))
  Scene.store depth index.toNat (.int (v.toInt32 + amount))
  return .next

def popWord : Effect Frame Value := do
  let v ← Frame.pop
  if v.isWide then
    Effect.fail (typeMismatch ("have " ++ Kind.describe v.kind? ++ ", want a one-word value"))
  else return v

/-- Puts values on the stack, the first of them lowest. -/
def pushAll : List Value → Effect Frame Unit
  | [] => return ()
  | v :: rest => do
    Frame.push v
    pushAll rest

def popOne : Effect Frame Unit := do
  let _ ← popWord

/-- Drops two words: one wide value or two others. -/
def popTwo : Effect Frame Unit := do
  let v ← Frame.pop
  if v.isWide then return ()
  else popOne

def duplicate : Effect Frame Unit := do
  let v ← popWord
  pushAll [v, v]

/-- Copies the top word below the one under it. -/
def duplicateBelowOne : Effect Frame Unit := do
  let v₁ ← popWord
  let v₂ ← popWord
  pushAll [v₁, v₂, v₁]

/-- Copies the top word below the two words under it. -/
def duplicateBelowTwo : Effect Frame Unit := do
  let v₁ ← popWord
  let v₂ ← Frame.pop
  if v₂.isWide then pushAll [v₁, v₂, v₁]
  else
    let v₃ ← popWord
    pushAll [v₁, v₃, v₂, v₁]

def exchange : Effect Frame Unit := do
  let v₁ ← popWord
  let v₂ ← popWord
  pushAll [v₁, v₂]

def rearrange (m : Effect Frame Unit) : Exec Step := do
  onFrame m
  return .next

/-! ### Arithmetic and branches -/

/-- Takes two `int`s off the stack; the first of the pair was pushed first. -/
def popInts : Exec (Int32 × Int32) := do
  let b ← onFrame Frame.popInt
  let a ← onFrame Frame.popInt
  return (a, b)

def popLongs : Exec (Int64 × Int64) := do
  let b ← onFrame Frame.popLong
  let a ← onFrame Frame.popLong
  return (a, b)

def intBinary (op : IntOp) : Exec Step := do
  let (a, b) ← popInts
  let r ← Effect.ofExcept (op.apply a b)
  pushNext (.int r)

def longBinary (op : LongOp) : Exec Step := do
  let (a, b) ← popLongs
  let r ← Effect.ofExcept (op.apply a b)
  pushNext (.long r)

def intUnary (f : Int32 → Value) : Exec Step := do
  let a ← onFrame Frame.popInt
  pushNext (f a)

def longUnary (f : Int64 → Value) : Exec Step := do
  let a ← onFrame Frame.popLong
  pushNext (f a)

def longCompare : Exec Step := do
  let (a, b) ← popLongs
  pushNext (.int (compareLongs a b))

/-- Jumps when a condition holds, otherwise goes on. -/
def branch (taken : Bool) (i : Instruction) : Step := if taken then .jump i.target else .next

def ifInt (c : Comparison) (i : Instruction) : Exec Step := do
  let a ← onFrame Frame.popInt
  return branch (c.holds a 0) i

def ifInts (c : Comparison) (i : Instruction) : Exec Step := do
  let (a, b) ← popInts
  return branch (c.holds a b) i

def ifReferences (equal : Bool) (i : Instruction) : Exec Step := do
  let b ← onFrame Frame.popReference
  let a ← onFrame Frame.popReference
  return branch (decide (a = b) == equal) i

def ifNull (null : Bool) (i : Instruction) : Exec Step := do
  let a ← onFrame Frame.popReference
  return branch (a.isNone == null) i

def valueReturn (kind : Kind) : Exec Step := do
  let v ← onFrame (Frame.popKind (some kind))
  return .return_ v

/-! ### Calls -/

/-- Takes arguments off the stack, those of the last parameters first. -/
def popArgumentsFrom : List FieldType → List Value → Effect Frame (List Value)
  | [], acc => return acc
  | t :: rest, acc => do
    let v ← Frame.popKind (some t.kind)
    popArgumentsFrom rest (v :: acc)

def popArguments (descriptor : String) : Exec (List Value × List FieldType) := do
  let d ← Effect.ofExcept (MethodDescriptor.parse descriptor)
  let arguments ← onFrame (popArgumentsFrom d.parameters.reverse [])
  return (arguments, d.parameters)

def popReceiver (r : MemberRef) : Exec Reference := do
  match ← onFrame Frame.popReference with
  | some target => return target
  | none => Effect.fail (nullReference ("invoking " ++ r.text))

/-- The call of the native registered for a reference, if there is one. No class is loaded. -/
def nativeCall? (env : Environment) (r : MemberRef) (hasReceiver : Bool) : Exec (Option Step) := do
  match env.natives.find? r with
  | none => return none
  | some run =>
    let (arguments, parameters) ← popArguments r.descriptor
    let receiver ← if hasReceiver then some <$> popReceiver r else pure none
    return some (.invoke
      { target := r, callee := .native run none, receiver := receiver.map .reference
        arguments, parameters } false)

/-- Runs `m`; when it fails because a class is not found, the native registered for the reference
takes its place, if there is one. -/
def ensureOrNative (env : Environment) (r : MemberRef) (m : Class → Exec Step) : Exec Step :=
  fun s =>
    match onArea (env.loader.ensure r.className) s with
    | (.ok c, s) => m c s
    | (.error f, s) =>
      if f.cause? = some .classNotFound then
        match nativeCall? env r true s with
        | (.ok (some step), s) => (.ok step, s)
        | (.ok none, s) => (.error f, s)
        | (.error g, s) => (.error g, s)
      else (.error f, s)

def call (env : Environment) (cls : Class) (method : Method) (receiver : Option Reference)
    (arguments : List Value) (parameters : List FieldType) : Exec Step := do
  let i ← Effect.ofExcept
    (env.bind cls method (receiver.map .reference) arguments parameters)
  return .invoke i false

/-- Runs `m` once a class and its superclasses have been started; before that, asks for the next
initialiser and for another try. -/
def initialized (env : Environment) (c : Class) (m : Exec Step) : Exec Step := do
  match ← onArea (env.initStep c) with
  | some i => return .invoke i true
  | none => m

/-- The fault of a member that is not what an instruction needs. -/
def incompatible (detail : String) : Fault := .of .resolution .incompatibleClassChange detail

/-- The class that method selection starts from for a receiver. -/
def classOf (env : Environment) (r : Reference) : Exec Class := do
  let h ← heap
  match r with
  | .object _ =>
    match h.instance? r with
    | some i => return i.cls
    | none => Effect.fail (classNotFound (h.className r))
  | .array _ => onArea (env.loader.ensure objectName)
  | .string .. => onArea (env.loader.ensure stringName)

def invokeStatic (env : Environment) (index : UInt16) : Exec Step := do
  let p ← pool
  let (r, _) ← Effect.ofExcept (p.anyMethodref index)
  match ← nativeCall? env r false with
  | some step => return step
  | none =>
    let c ← onArea (env.loader.ensure r.className)
    match c.resolveMethod? r.name r.descriptor with
    | none => Effect.fail (methodNotFound r.text)
    | some (decl, m) =>
      if !m.isStatic then
        Effect.fail (incompatible ("invokestatic of instance method " ++ r.text))
      else initialized env decl do
        let (arguments, parameters) ← popArguments r.descriptor
        call env decl m none arguments parameters

/-- Where the lookup of a special call starts: a call of a method of the direct superclass starts
there, unless the method is an initialiser or an interface is named. -/
def specialStart (current c : Class) (r : MemberRef) : Class :=
  match current.super? with
  | some parent =>
    if r.name ≠ "<init>" ∧ r.name ≠ "<clinit>" ∧ c.isInterface = false ∧
        Access.has current.file.flags Access.superBit ∧ r.className = parent.name then parent
    else c
  | none => c

def resolveSpecial (env : Environment) (c : Class) (r : MemberRef) (isInterface : Bool) :
    Exec (Class × Method) :=
  match c.resolveMethod? r.name r.descriptor with
  | some found => return found
  | none =>
    if isInterface || c.isInterface then
      onArea (env.loader.resolveInterfaceMethod c r.name r.descriptor)
    else Effect.fail (methodNotFound r.text)

/-- Calls a constructor, a private method or a method of a superclass. -/
def invokeSpecial (env : Environment) (index : UInt16) : Exec Step := do
  let p ← pool
  let (r, isInterface) ← Effect.ofExcept (p.anyMethodref index)
  let intrinsic ← if r.name = "<init>" then nativeCall? env r true else pure none
  match intrinsic with
  | some step => return step
  | none =>
    let c ← onArea (env.loader.ensure r.className)
    let s ← Effect.read
    let start := specialStart s.frame.cls c r
    let (decl, m) ← resolveSpecial env start r isInterface
    if m.isStatic then
      Effect.fail (incompatible ("invokespecial of static method " ++ r.text))
    else if m.isSynchronized then
      Effect.fail (.of .resolution .unsupportedMethodKind
        ("synchronized " ++ Frame.methodLabel decl m))
    else
      let (arguments, parameters) ← popArguments r.descriptor
      let receiver ← popReceiver r
      call env decl m (some receiver) arguments parameters

/-- Calls an instance method of the class of the receiver. -/
def invokeVirtual (env : Environment) (index : UInt16) : Exec Step := do
  let p ← pool
  let r ← Effect.ofExcept (p.methodref index)
  ensureOrNative env r fun c => do
    let (decl, m) ← onArea (env.loader.resolveInterfaceMethod c r.name r.descriptor)
    if m.isStatic then
      Effect.fail (incompatible ("invokevirtual of static method " ++ r.text))
    else
      let (arguments, parameters) ← popArguments r.descriptor
      let receiver ← popReceiver r
      let (decl, m) ←
        if m.isPrivate then pure (decl, m)
        else do
          let rc ← classOf env receiver
          onArea (env.loader.resolveInterfaceMethod rc r.name r.descriptor)
      call env decl m (some receiver) arguments parameters

def invokeInterface (env : Environment) (index : UInt16) : Exec Step := do
  let p ← pool
  let r ← Effect.ofExcept (p.interfaceMethodref index)
  ensureOrNative env r fun c => do
    if !c.isInterface then
      Effect.fail (incompatible ("invokeinterface on class " ++ c.name))
    else
      let _ ← onArea (env.loader.resolveInterfaceMethod c r.name r.descriptor)
      let (arguments, parameters) ← popArguments r.descriptor
      let receiver ← popReceiver r
      let rc ← classOf env receiver
      let (decl, m) ← onArea (env.loader.resolveInterfaceMethod rc r.name r.descriptor)
      if m.isPrivate || m.isStatic then
        Effect.fail (incompatible ("invokeinterface selected " ++
          Access.text .method m.flags ++ " " ++ Frame.methodLabel decl m))
      else call env decl m (some receiver) arguments parameters

/-! ### Fields, objects and arrays -/

/-- Resolves a field reference, which must be static or not as asked for. -/
def resolveField (env : Environment) (index : UInt16) (static : Bool) :
    Exec (Class × MemberRef) := do
  let p ← pool
  let r ← Effect.ofExcept (p.fieldref index)
  let c ← onArea (env.loader.ensure r.className)
  let (decl, f) ← onArea (env.loader.resolveField c r.name r.descriptor)
  if f.isStatic = static then return (decl, r)
  else Effect.fail (incompatible (r.text ++ " static=" ++ toString f.isStatic))

def getStatic (env : Environment) (index : UInt16) : Exec Step := do
  let (decl, r) ← resolveField env index true
  initialized env decl do
    let s ← Effect.read
    let v ← Effect.ofExcept (s.world.area.static decl r.name r.descriptor)
    pushNext v

def putStatic (env : Environment) (index : UInt16) : Exec Step := do
  let (decl, r) ← resolveField env index true
  initialized env decl do
    let v ← onFrame (Frame.popKind (Kind.ofDescriptor? r.descriptor))
    let s ← Effect.read
    let area ← Effect.ofExcept (s.world.area.setStatic decl r.name r.descriptor v)
    onWorld (Effect.update fun w => { w with area })
    return .next

def popInstance (r : MemberRef) : Exec (Reference × Instance) := do
  match ← onFrame Frame.popReference with
  | none => Effect.fail (nullReference ("field " ++ r.text))
  | some target =>
    let h ← heap
    match h.instance? target with
    | some i => return (target, i)
    | none => Effect.fail (typeMismatch ("field " ++ r.text ++ " of " ++ h.className target))

def noField (i : Instance) (decl : Class) (r : MemberRef) : Fault :=
  typeMismatch (i.cls.name ++ " has no field " ++ decl.name ++ "." ++ r.name)

def getField (env : Environment) (index : UInt16) : Exec Step := do
  let (decl, r) ← resolveField env index false
  let (target, i) ← popInstance r
  let h ← heap
  match h.getField? target ⟨decl.name, r.name, r.descriptor⟩ with
  | some v => pushNext v
  | none => Effect.fail (noField i decl r)

def putField (env : Environment) (index : UInt16) : Exec Step := do
  let (decl, r) ← resolveField env index false
  let v ← onFrame (Frame.popKind (Kind.ofDescriptor? r.descriptor))
  let (target, i) ← popInstance r
  let h ← heap
  match h.setField? target ⟨decl.name, r.name, r.descriptor⟩ v with
  | some changed =>
    onWorld (Effect.update fun w => { w with heap := changed })
    return .next
  | none => Effect.fail (noField i decl r)

def newInstance (env : Environment) (index : UInt16) : Exec Step := do
  let p ← pool
  let name ← Effect.ofExcept (p.className index)
  let c ← onArea (env.loader.ensure name)
  if c.isInterface || Access.has c.file.flags Access.abstractBit then
    Effect.fail (incompatible ("new of " ++ Access.text .wholeClass c.file.flags ++ " " ++ name))
  else initialized env c do
    let r ← onWorld (World.newInstance c)
    pushNext (.reference r)

/-- Whether arrays of a component may be used as arrays of another: references go to `Object`. -/
def arrayAssignable (component target : String) : Bool :=
  match component.toList with
  | [] => false
  | c :: _ => component == target || (target == "Ljava/lang/Object;" && (c == 'L' || c == '['))

def isInstance (env : Environment) (r : Reference) (target : String) : Exec Bool := do
  let h ← heap
  if target = objectName ∨ target = h.className r then return true
  else match r with
    | .object _ =>
      match h.instance? r with
      | some i => onArea (env.loader.isAssignable i.cls target)
      | none => return false
    | .array _ =>
      if target = "java/lang/Cloneable" ∨ target = "java/io/Serializable" then return true
      else match h.array? r, target.toList with
        | some a, '[' :: rest => return arrayAssignable a.component (String.ofList rest)
        | _, _ => return false
    | .string .. => return false

def checkCast (env : Environment) (index : UInt16) : Exec Step := do
  let p ← pool
  let target ← Effect.ofExcept (p.className index)
  let v ← onFrame Frame.peek
  match ← Effect.ofExcept (v.expect (some .reference)) with
  | .reference r =>
    if ← isInstance env r target then return .next
    else
      let h ← heap
      Effect.fail (typeMismatch (h.className r ++ " cannot be cast to " ++ target))
  | _ => return .next

def popArray : Exec ArrayObject := do
  match ← onFrame Frame.popReference with
  | none => Effect.fail (nullReference "array is null")
  | some r =>
    let h ← heap
    match h.array? r with
    | some a => return a
    | none => Effect.fail (typeMismatch (h.className r ++ " is not an array"))

def arrayLength : Exec Step := do
  let a ← popArray
  pushNext (.int (Int32.ofNat a.elements.length))

def loadElement : Exec Step := do
  let index ← onFrame Frame.popInt
  let a ← popArray
  if Kind.ofDescriptor? a.component ≠ some .reference then
    Effect.fail (typeMismatch ("aaload from " ++ arrayName a.component))
  else match (if index < 0 then none else a.elements[index.toInt.toNat]?) with
    | some v => pushNext v
    | none =>
      Effect.fail (.of .index .arrayIndexOutOfBounds
        s!"index {index.toInt}, length {a.elements.length}")

end Exec

/-! ### The instruction set -/

open Exec in
/-- Executes one instruction in a thread of `depth` frames. -/
def Environment.execute (env : Environment) (depth : Nat) (i : Instruction) : Exec Step :=
  match i.opcode with
  | .nop => return .next
  | .aconstNull => pushNext .null
  | .iconst n => pushNext (.int (Int32.ofInt (n.val - 1)))
  | .lconst n => pushNext (.long (Int64.ofNat n))
  | .fconst n => pushNext (.float (UInt32.ofNat (Float.encode .single (.finite false n 0))))
  | .dconst n => pushNext (.double (UInt64.ofNat (Float.encode .double (.finite false n 0))))
  | .bipush | .sipush => pushNext (.int i.value)
  | .ldc | .ldcW => loadConstant i.index
  | .ldc2W => loadWideConstant i.index
  | .load kind | .loadFrom kind _ => loadLocal kind i.index
  | .aaload => loadElement
  | .store kind | .storeTo kind _ => storeLocal depth kind i.index
  | .pop => rearrange popOne
  | .pop2 => rearrange popTwo
  | .dup => rearrange duplicate
  | .dupX1 => rearrange duplicateBelowOne
  | .dupX2 => rearrange duplicateBelowTwo
  | .swap => rearrange exchange
  | .intBinary op => intBinary op
  | .longBinary op => longBinary op
  | .ineg => intUnary fun a => .int (-a)
  | .lneg => longUnary fun a => .long (-a)
  | .iinc => increment depth i.index i.value
  | .i2l => intUnary fun a => .long a.toInt64
  | .l2i => longUnary fun a => .int a.toInt32
  | .i2b => intUnary fun a => .int (intToByte a)
  | .i2c => intUnary fun a => .int (intToChar a)
  | .i2s => intUnary fun a => .int (intToShort a)
  | .lcmp => longCompare
  | .ifInt c => ifInt c i
  | .ifIntCompare c => ifInts c i
  | .ifReferenceCompare equal => ifReferences equal i
  | .ifNull null => ifNull null i
  | .goto => return .jump i.target
  | .valueReturn kind => valueReturn kind
  | .voidReturn => return .return_ .none
  | .getstatic => getStatic env i.index
  | .putstatic => putStatic env i.index
  | .getfield => getField env i.index
  | .putfield => putField env i.index
  | .invokevirtual => invokeVirtual env i.index
  | .invokespecial => invokeSpecial env i.index
  | .invokestatic => invokeStatic env i.index
  | .invokeinterface => invokeInterface env i.index
  | .new => newInstance env i.index
  | .arraylength => arrayLength
  | .checkcast => checkCast env i.index

end Jvm
