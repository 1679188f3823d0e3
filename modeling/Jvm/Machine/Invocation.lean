import Jvm.Machine.Native

/-!
# Invocations

A resolved call, the environment in which calls are resolved, and what an instruction tells the
thread to do next. Class initialisation is a call as well: `initStep` claims the first class of a
chain, root first, that has not been started, and asks for its initialiser.
-/

namespace Jvm

/-- What stays fixed while a program runs. -/
structure Environment where
  loader : Loader
  natives : NativeTable
  /-- The number of frames that a thread may have. -/
  maxDepth : Nat
  /-- Whether there is an observer of stores into local slots. Every thread and every frame of a
  thread is given the observer when it is made. -/
  observed : Bool

/-- The depth limit where none is asked for. -/
def defaultMaxDepth : Nat := 1024

/-- What a call runs. -/
inductive Callee where
  /-- A native method, and the loaded method that it implements, if there is one. -/
  | native (run : Native) (method? : Option (Class × Method))
  /-- A method body. -/
  | body (cls : Class) (method : Method)

structure Invocation where
  target : MemberRef
  callee : Callee
  receiver : Option Value
  arguments : List Value
  parameters : List FieldType

/-- The receiver, if there is one, in front of the arguments. -/
def Invocation.nativeArguments (i : Invocation) : List Value :=
  match i.receiver with
  | some v => v :: i.arguments
  | none => i.arguments

inductive Step where
  /-- Go on with the instruction after this one. -/
  | next
  /-- Go on at an address. -/
  | jump (target : Int)
  /-- Call, and go on with the next instruction afterwards, or with this one again. -/
  | invoke (invocation : Invocation) (retry : Bool)
  /-- Leave the method with a value, or with none. -/
  | return_ (value : Value)

namespace Environment

/-- The initialiser of a class that has just been claimed. -/
def initializer? (env : Environment) (c : Class) : Option Invocation :=
  let target : MemberRef := ⟨c.name, "<clinit>", "()V"⟩
  let callee? : Option Callee :=
    match env.natives.find? target with
    | some run => some (.native run none)
    | none => (c.file.method? "<clinit>" "()V").map (.body c)
  callee?.map fun callee => { target, callee, receiver := none, arguments := [], parameters := [] }

/-- Claims classes in order until one of them has an initialiser. -/
def claimFrom (env : Environment) : List Class → MethodArea → Option Invocation × MethodArea
  | [], a => (none, a)
  | c :: rest, a =>
    match a.claim? c.name with
    | none => env.claimFrom rest a
    | some a =>
      match env.initializer? c with
      | some i => (some i, a)
      | none => env.claimFrom rest a

/-- The next initialiser that has to run before a class can be used. -/
def initStep (env : Environment) (c : Class) : Effect MethodArea (Option Invocation) := fun a =>
  let (i, a) := env.claimFrom c.lineage.reverse a
  (.ok i, a)

/-- Turns a selected method into a call. A native registered for the declaring class takes the place
of the method body. -/
def bind (env : Environment) (cls : Class) (method : Method) (receiver : Option Value)
    (arguments : List Value) (parameters : List FieldType) : Except Fault Invocation :=
  let target : MemberRef := ⟨cls.name, method.name, method.descriptor⟩
  let call (callee : Callee) : Invocation := { target, callee, receiver, arguments, parameters }
  if method.isAbstract then
    .error (.of .resolution .incompatibleClassChange (target.text ++ " is abstract"))
  else match env.natives.find? target with
    | some run => .ok (call (.native run (some (cls, method))))
    | none =>
      if method.isNative || method.code?.isNone then
        .error (.of .resolution .unsupportedMethodKind
          ("native " ++ target.text ++ " has no intrinsic"))
      else .ok (call (.body cls method))

end Environment

end Jvm
