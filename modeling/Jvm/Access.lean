/-!
# Access flags

The bits of an access-flag word and their names. The same bit has different names on classes,
fields and methods, so each owner has its own table.
-/

namespace Jvm.Access

/-! ### Bits -/

def publicBit : UInt16 := 0x0001
def privateBit : UInt16 := 0x0002
def protectedBit : UInt16 := 0x0004
def staticBit : UInt16 := 0x0008
def finalBit : UInt16 := 0x0010
def superBit : UInt16 := 0x0020
def synchronizedBit : UInt16 := 0x0020
def volatileBit : UInt16 := 0x0040
def bridgeBit : UInt16 := 0x0040
def transientBit : UInt16 := 0x0080
def varargsBit : UInt16 := 0x0080
def nativeBit : UInt16 := 0x0100
def interfaceBit : UInt16 := 0x0200
def abstractBit : UInt16 := 0x0400
def strictBit : UInt16 := 0x0800
def syntheticBit : UInt16 := 0x1000
def annotationBit : UInt16 := 0x2000
def enumBit : UInt16 := 0x4000
def moduleBit : UInt16 := 0x8000

def has (flags bit : UInt16) : Bool := flags &&& bit != 0

/-! ### Names -/

/-- What a flag word belongs to. -/
inductive Owner where
  | wholeClass
  | field
  | method
  deriving Repr, DecidableEq

def Owner.table : Owner → List (UInt16 × String)
  | .wholeClass =>
    [(publicBit, "public"), (finalBit, "final"), (superBit, "super"), (interfaceBit, "interface"),
      (abstractBit, "abstract"), (syntheticBit, "synthetic"), (annotationBit, "annotation"),
      (enumBit, "enum"), (moduleBit, "module")]
  | .field =>
    [(publicBit, "public"), (privateBit, "private"), (protectedBit, "protected"),
      (staticBit, "static"), (finalBit, "final"), (volatileBit, "volatile"),
      (transientBit, "transient"), (syntheticBit, "synthetic"), (enumBit, "enum")]
  | .method =>
    [(publicBit, "public"), (privateBit, "private"), (protectedBit, "protected"),
      (staticBit, "static"), (finalBit, "final"), (synchronizedBit, "synchronized"),
      (bridgeBit, "bridge"), (varargsBit, "varargs"), (nativeBit, "native"),
      (abstractBit, "abstract"), (strictBit, "strict"), (syntheticBit, "synthetic")]

def names (owner : Owner) (flags : UInt16) : List String :=
  (owner.table.filter fun entry => has flags entry.1).map (·.2)

def text (owner : Owner) (flags : UInt16) : String := " ".intercalate (names owner flags)

end Jvm.Access
