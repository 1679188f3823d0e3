import Jvm.ClassFile.Builder
import Jvm.Machine.Class
import Jvm.Machine.Effect

/-!
# The method area

The classes that have been loaded, each with its static storage and a mark that its initialisation
has started. Classes are added on first use, superclasses first, and never removed.

Loading happens in two parts: `Loader.plan` collects the class files that are still missing, from
the requested class up to one that is already there, and `Plan.define` links them from the top down.
-/

namespace Jvm

/-! ### Loaders -/

/-- A source of class files by name. At most `bound` names can be loaded from it. -/
structure Loader where
  load : String → Except Fault ClassFile
  bound : Nat

def classNotFound (detail : String) : Fault := .of .resolution .classNotFound detail

namespace Loader

def empty : Loader := ⟨fun name => .error (classNotFound name), 0⟩

end Loader

/-- Class files in memory, by the name under which each is stored. -/
abbrev Library := List (String × Bytes)

namespace Library

/-- Stores bytes under a name, in place of those stored before. -/
def put (l : Library) (name : String) (data : Bytes) : Library :=
  (name, data) :: l.filter fun entry => entry.1 != name

def add (l : Library) (data : Bytes) : Except Fault Library := do
  let file ← ClassFile.parse data
  return l.put file.name data

def loader (l : Library) : Loader where
  load name :=
    match l.lookup name with
    | some data => ClassFile.parse data
    | none => .error (classNotFound name)
  bound := l.length

end Library

def objectName : String := "java/lang/Object"

/-- The root class that stands in when no loader has one: a constructor that does nothing, and the
two native methods that the machine implements. -/
def builtinObject : Except Fault ClassFile :=
  (((Builder.new objectName "" (Access.publicBit ||| Access.superBit)).method
    Access.publicBit "<init>" "()V" 0 1 (some [Opcode.voidReturn.toByte])).method
    (Access.publicBit ||| Access.nativeBit) "hashCode" "()I" 0 0 none).method
    (Access.publicBit ||| Access.finalBit ||| Access.nativeBit) "getClass" "()Ljava/lang/Class;"
    0 0 none |>.build

/-- The class file of a name. What the loader returns must declare that name. -/
def Loader.classFile (l : Loader) (name : String) : Except Fault ClassFile :=
  match l.load name with
  | .ok file =>
    if file.name = name then .ok file
    else .error (classNotFound (name ++ ": loader returned " ++ file.name))
  | .error f =>
    if f.cause? = some .classNotFound then
      if name = objectName then builtinObject else .error f
    else .error (.context ("loading " ++ name) f)

/-! ### Loaded classes -/

structure LoadedClass where
  cls : Class
  statics : List Value
  /-- Whether initialisation has started. -/
  started : Bool

structure MethodArea where
  classes : List LoadedClass

namespace MethodArea

def empty : MethodArea := ⟨[]⟩

def entry? (a : MethodArea) (name : String) : Option LoadedClass :=
  a.classes.find? fun e => e.cls.name == name

def class? (a : MethodArea) (name : String) : Option Class := (a.entry? name).map LoadedClass.cls

def insert (a : MethodArea) (e : LoadedClass) : MethodArea := ⟨e :: a.classes⟩

def modify (a : MethodArea) (name : String) (f : LoadedClass → LoadedClass) : MethodArea :=
  ⟨a.classes.map fun e => if e.cls.name == name then f e else e⟩

/-- Marks a class as started; `none` when it already was. -/
def claim? (a : MethodArea) (name : String) : Option MethodArea :=
  match a.entry? name with
  | some e => if e.started then none else some (a.modify name fun e => { e with started := true })
  | none => none

def noStatic (c : Class) (name descriptor : String) : Fault :=
  .of .resolution .fieldNotFound ("static " ++ c.name ++ "." ++ name ++ ":" ++ descriptor)

def static (a : MethodArea) (c : Class) (name descriptor : String) : Except Fault Value :=
  match c.staticSlot? name descriptor with
  | none => .error (noStatic c name descriptor)
  | some slot => .ok (((a.entry? c.name).bind fun e => e.statics[slot]?).getD .none)

def setStatic (a : MethodArea) (c : Class) (name descriptor : String) (v : Value) :
    Except Fault MethodArea :=
  match c.staticSlot? name descriptor with
  | none => .error (noStatic c name descriptor)
  | some slot => .ok (a.modify c.name fun e => { e with statics := e.statics.set slot v })

end MethodArea

/-! ### Loading -/

/-- What has to be done to load a class. -/
inductive Plan where
  /-- Nothing: the class is there. -/
  | present (cls : Class)
  /-- Link a class without a superclass. -/
  | root (file : ClassFile)
  /-- Load the superclass, then link. -/
  | derived (file : ClassFile) (parent : Plan)

def superclassContext (name : String) : String := "loading superclass of " ++ name

/-- The plan for a class, where `pending` are the classes whose superclass it is. A class file is
loaded at most once on the way up, so `bound + 2` of fuel is enough. -/
def Loader.planFrom (l : Loader) (a : MethodArea) : Nat → List String → String → Except Fault Plan
  | 0, _, name => .error (classNotFound name)
  | fuel + 1, pending, name =>
    match a.class? name with
    | some c => .ok (.present c)
    | none =>
      if pending.contains name then
        .error (.of .resolution .classCircularity (name ++ " is its own superclass"))
      else
        match l.classFile name with
        | .error f => .error f
        | .ok file =>
          if file.superName = "" then .ok (.root file)
          else
            match l.planFrom a fuel (name :: pending) file.superName with
            | .error f => .error (.context (superclassContext name) f)
            | .ok parent => .ok (.derived file parent)

def Loader.plan (l : Loader) (a : MethodArea) (name : String) : Except Fault Plan :=
  l.planFrom a (l.bound + 2) [] name

/-- Adds a class file below its superclasses. -/
def MethodArea.link (file : ClassFile) (ancestors : List ClassFile) : Effect MethodArea Class :=
  fun a =>
    match Class.staticInitials file with
    | .error f => (.error (.context ("linking " ++ file.name) f), a)
    | .ok statics =>
      let cls : Class := ⟨file, ancestors⟩
      (.ok cls, a.insert { cls, statics, started := false })

def Plan.define : Plan → Effect MethodArea Class
  | .present cls => fun a => (.ok cls, a)
  | .root file => MethodArea.link file []
  | .derived file parent => fun a =>
    match parent.define a with
    | (.error f, a) => (.error (.context (superclassContext file.name) f), a)
    | (.ok c, a) => MethodArea.link file (c.file :: c.ancestors) a

def Loader.ensure (l : Loader) (name : String) : Effect MethodArea Class := fun a =>
  match l.plan a name with
  | .error f => (.error f, a)
  | .ok plan => plan.define a

end Jvm
