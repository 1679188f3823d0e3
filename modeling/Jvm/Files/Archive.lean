import Jvm.Bytes

/-!
# Archives

Zip archives with stored members: the directory at the end of the file lists the members, and each
member is preceded by a header of its own. A member is checked against its size and checksum when it
is read, so that damage to one member leaves the others readable.
-/

namespace Jvm

inductive ArchiveError where
  | invalid
  | badChecksum
  | unsupportedMethod
  | truncated
  | atEnd
  deriving Repr, DecidableEq

def ArchiveError.text : ArchiveError → String
  | invalid => "zip: not a valid zip file"
  | badChecksum => "zip: checksum error"
  | unsupportedMethod => "zip: unsupported compression algorithm"
  | truncated => "unexpected EOF"
  | atEnd => "EOF"

/-! ### Checksums -/

namespace Checksum

/-- One bit of the division by the checksum's polynomial. -/
def shift (c : UInt32) : UInt32 :=
  if c &&& 1 = 1 then (c >>> 1) ^^^ 0xEDB88320 else c >>> 1

def step (c : UInt32) (b : UInt8) : UInt32 :=
  (List.range 8).foldl (fun c _ => shift c) (c ^^^ b.toUInt32)

/-- The 32-bit cyclic redundancy check of a byte string. -/
def crc32 (bytes : Bytes) : UInt32 := bytes.foldl step 0xFFFFFFFF ^^^ 0xFFFFFFFF

end Checksum

namespace Archive

/-! ### Fields -/

def number : Bytes → Nat
  | [] => 0
  | b :: rest => b.toNat + 256 * number rest

def field (record : Bytes) (offset width : Nat) : Nat := number ((record.drop offset).take width)

/-- The first `n` bytes and the rest; fails when there are fewer. -/
def split (n : Nat) (data : Bytes) : Except ArchiveError (Bytes × Bytes) :=
  let front := data.take n
  if front.length = n then .ok (front, data.drop n)
  else if data.isEmpty then .error .atEnd
  else .error .truncated

/-- The `n` bytes at an offset; fails when not all of them are there. -/
def recordAt (data : Bytes) (offset : Int) (n : Nat) : Except ArchiveError Bytes :=
  if offset < 0 then .error .atEnd
  else
    let record := (data.drop offset.toNat).take n
    if record.length = n then .ok record else .error .atEnd

/-! ### Members -/

structure Member where
  name : Bytes
  flags : Nat
  method : Nat
  checksum : Nat
  storedSize : Nat
  size : Nat
  headerOffset : Int
  deriving Repr, DecidableEq

/-- The largest number in a field of four bytes; it says that the number stands elsewhere. -/
def elsewhere : Nat := 0xFFFFFFFF

/-- The numbers that a member keeps in its extra block: sizes and offset, each in turn if its own field
says that it is elsewhere. -/
def Member.withWideFields (m : Member) (block : Bytes) : Except ArchiveError Member := do
  let (size, block) ← take (m.size = elsewhere) m.size block
  let (storedSize, block) ← take (m.storedSize = elsewhere) m.storedSize block
  let (headerOffset, _) ← take (m.headerOffset = elsewhere) m.headerOffset.toNat block
  return { m with size, storedSize, headerOffset := headerOffset }
where
  take (wanted : Bool) (old : Nat) (block : Bytes) : Except ArchiveError (Nat × Bytes) :=
    if !wanted then .ok (old, block)
    else if block.length < 8 then .error .invalid
    else .ok (field block 0 8, block.drop 8)

def extraBlock? (tag : Nat) : Nat → Bytes → Option Bytes
  | 0, _ => none
  | fuel + 1, extra =>
    let width := field extra 2 2
    let rest := extra.drop 4
    if extra.length < 4 || rest.length < width then none
    else if field extra 0 2 = tag then some (rest.take width)
    else extraBlock? tag fuel (rest.drop width)

def Member.read (data : Bytes) : Except ArchiveError (Member × Bytes) := do
  let (record, rest) ← split 46 data
  if field record 0 4 ≠ 0x02014b50 then .error .invalid
  else
    let nameLength := field record 28 2
    let extraLength := field record 30 2
    let (names, rest) ← split (nameLength + extraLength + field record 32 2) rest
    let member : Member :=
      { name := names.take nameLength, flags := field record 8 2, method := field record 10 2
        checksum := field record 16 4, storedSize := field record 20 4, size := field record 24 4
        headerOffset := field record 42 4 }
    let extra := (names.drop nameLength).take extraLength
    match extraBlock? 1 extra.length extra with
    | some block => return (← member.withWideFields block, rest)
    | none =>
      if member.storedSize = elsewhere || member.headerOffset = elsewhere then .error .invalid
      else return (member, rest)

/-- Reads records of the directory up to one that is none, and says what stopped it. -/
def readMembers : Nat → List Member → Bytes → List Member × ArchiveError
  | 0, found, _ => (found.reverse, .invalid)
  | fuel + 1, found, data =>
    match Member.read data with
    | .ok (member, rest) => readMembers fuel (member :: found) rest
    | .error e => (found.reverse, e)

/-! ### The directory -/

/-- Where the directory is and how many members it lists. -/
structure Directory where
  /-- The offset of the record that ends the directory. -/
  endOffset : Int
  records : Nat
  size : Nat
  offset : Nat
  deriving Repr, DecidableEq

/-- The offset, at most `limit`, of the last record that ends a directory. -/
def lastEndRecord (limit : Nat) : Nat → Option Nat → Bytes → Option Nat
  | _, best, [] => best
  | i, best, b :: rest =>
    let matched := b = 0x50 && rest.take 3 = [0x4b, 0x05, 0x06]
    lastEndRecord limit (i + 1) (if matched && i ≤ limit then some i else best) rest

/-- How far from the end of the file the directory's end is looked for. -/
def searchWindow : Nat := 65 * 1024

/-- The directory as the wide end record at an offset describes it. -/
def wideDirectory (data : Bytes) (offset : Int) : Except ArchiveError Directory := do
  let record ← recordAt data offset 56
  if field record 0 4 ≠ 0x06064b50 then .error .invalid
  else return ⟨offset, field record 32 8, field record 40 8, field record 48 8⟩

/-- The offset of the wide end record, when a locator for it stands before the end record. -/
def wideEndOffset? (data : Bytes) (endOffset : Nat) : Option Int :=
  if endOffset < 20 then none
  else
    let locator := (data.drop (endOffset - 20)).take 20
    if field locator 0 4 = 0x07064b50 && field locator 4 4 = 0 && field locator 16 4 = 1 then
      some (field locator 8 8)
    else none

/-- Finds the directory. The comment after its end must be all there. -/
def findDirectory (data : Bytes) : Except ArchiveError Directory :=
  let size := data.length
  if size < 22 then .error .invalid
  else match lastEndRecord (size - 22) 0 none data with
    | none => .error .invalid
    | some p =>
      let record := (data.drop p).take 22
      if p + searchWindow < size || size < p + 22 + field record 20 2 then .error .invalid
      else
        let found : Directory := ⟨p, field record 10 2, field record 12 4, field record 16 4⟩
        if found.records = 0xFFFF || found.size = 0xFFFF || found.offset = elsewhere then
          match wideEndOffset? data p with
          | some offset => wideDirectory data offset
          | none => .ok found
        else .ok found

/-- The least number that is too large for a position in a file. -/
def positionLimit : Nat := 0x8000000000000000

/-- How far the archive is shifted in its file, by the place at which the directory ends. An archive
whose directory is where it says it is, is not shifted. -/
def Directory.shift (d : Directory) (data : Bytes) : Except ArchiveError Int :=
  if positionLimit ≤ d.size || positionLimit ≤ d.offset then .error .invalid
  else
    let shift := d.endOffset - d.size - d.offset
    let start := shift + d.offset
    if start < 0 || (data.length : Int) ≤ start then .error .invalid
    else if 0 < shift && (Member.read (data.drop d.offset)).isOk then .ok 0
    else .ok shift

end Archive

structure Archive where
  data : Bytes
  members : List Archive.Member

namespace Archive

/-- Opens an archive: reads its directory. The number of members has to be the one that the directory's
end gives, as far as its field can hold it. -/
def ofBytes (data : Bytes) : Except ArchiveError Archive := do
  let directory ← findDirectory data
  let shift ← directory.shift data
  let start := (shift + directory.offset).toNat
  let (members, stop) := readMembers (data.length + 1) [] (data.drop start)
  if stop = .atEnd then .error .atEnd
  else if members.length % 65536 ≠ directory.records % 65536 then .error stop
  else return { data
                members := members.map fun m => { m with headerOffset := m.headerOffset + shift } }

/-- The member with a name; of several the last in the directory. -/
def member? (a : Archive) (name : Bytes) : Option Member :=
  a.members.reverse.find? fun m => m.name == name

/-- Whether the sizes and checksum of a member follow its content. -/
def Member.hasDescriptor (m : Member) : Bool := m.flags / 8 % 2 = 1

/-- Checks the record that follows the content of a member. -/
def checkDescriptor (m : Member) (after : Bytes) : Except ArchiveError Unit := do
  let after := after.take 16
  let marked := field after 0 4 = 0x08074b50
  let record := if marked then after.drop 4 else after
  if record.length < 12 then .error .truncated
  else if field record 0 4 ≠ m.checksum then .error .badChecksum
  else return ()

/-- The content of a member. A checksum of zero stands for none, unless it follows the content. -/
def content (a : Archive) (m : Member) : Except ArchiveError Bytes := do
  let header ← recordAt a.data m.headerOffset 30
  if field header 0 4 ≠ 0x04034b50 then .error .invalid
  else if m.method ≠ 0 then .error .unsupportedMethod
  else
    let start := m.headerOffset.toNat + 30 + field header 26 2 + field header 28 2
    let body := (a.data.drop start).take m.storedSize
    if m.size < body.length then .error .invalid
    else if body.length < m.size then .error .truncated
    else
      let matches_ := (Checksum.crc32 body).toNat = m.checksum
      if m.hasDescriptor then
        checkDescriptor m (a.data.drop (start + m.storedSize))
        if matches_ then return body else .error .badChecksum
      else if m.checksum ≠ 0 && !matches_ then .error .badChecksum
      else return body

end Archive

end Jvm
