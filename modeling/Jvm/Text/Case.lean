/-!
# Letter case

Lower case and caseless comparison, for texts that are compared with ASCII words. Beyond ASCII only
the few characters count that have an ASCII letter as their other case.
-/

namespace Jvm.Text

/-- The lower case of a character, as far as it is an ASCII letter. -/
def lowerChar (c : Char) : Char :=
  if c.toNat = 0x130 then 'i' else if c.toNat = 0x212a then 'k' else c.toLower

def lower (s : String) : String := String.ofList (s.toList.map lowerChar)

/-- The character that stands for all cases of an ASCII letter. -/
def foldChar (c : Char) : Char :=
  if c.toNat = 0x17f then 's' else if c.toNat = 0x212a then 'k' else c.toLower

/-- Whether two texts differ in letter case only. -/
def sameFolded (a b : String) : Bool := a.toList.map foldChar == b.toList.map foldChar

end Jvm.Text
