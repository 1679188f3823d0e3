import Jvm.ClassFile.Parser
import Jvm.ClassFile.Writer
import Jvm.Proofs.ClassFile.PoolCodec

/-!
# Class files read and write alike

A byte string that is accepted as a class file is written back byte for byte. The proof follows the
reader: each part of it accepts only what the writer gives for the answer, because counts, lengths
and indices are kept as they stand in the file and attributes are kept as raw bytes.
-/

namespace Jvm

/-! ### Attributes and members that were read -/

namespace Attribute

theorem rawReader_eq_some {s rest info : Bytes} {nameIndex : UInt16}
    (h : rawReader s = some ((nameIndex, info), rest)) :
    s = Bytes.ofU2 nameIndex ++ Bytes.ofU4 (UInt32.ofNat info.length) ++ info ++ rest := by
  obtain ⟨index, r1, hindex, h⟩ := Reader.bind_eq_some h
  obtain ⟨n, r2, hn, h⟩ := Reader.bind_eq_some h
  obtain ⟨bytes, r3, hbytes, h⟩ := Reader.bind_eq_some h
  cases h
  obtain ⟨hr2, hlen⟩ := Reader.take_eq_some hbytes
  rw [Reader.u2_exact s nameIndex r1 hindex, Reader.u4_exact r1 n r2 hn, hr2, hlen,
    UInt32.ofNat_toNat]
  simp

theorem parserWith_exact (decode : String → Bytes → Except Fault AttributeBody)
    (pool : ConstantPool) : Exact (parserWith decode pool) encode := by
  intro s a rest h
  obtain ⟨⟨nameIndex, info⟩, mid, hraw, h⟩ := Parser.bind_eq_ok h
  obtain ⟨name, mid', hname, h⟩ := Parser.bind_eq_ok h
  obtain ⟨body, mid'', hbody, h⟩ := Parser.bind_eq_ok h
  cases h
  have hmid := (Parser.ofExcept_eq_ok (Parser.within_eq_ok hname)).2
  have hmid' := (Parser.ofExcept_eq_ok hbody).2
  subst hmid hmid'
  exact rawReader_eq_some (Parser.ofReader_eq_ok hraw)

theorem parserAllWith_exact (decode : String → Bytes → Except Fault AttributeBody)
    (pool : ConstantPool) (owner : String) :
    Exact (parserAllWith decode pool owner) encodeAll := by
  intro s as rest h
  obtain ⟨count, mid, hcount, h⟩ := Parser.bind_eq_ok h
  obtain ⟨hlen, hmid⟩ := Parser.items_exact
    (fun _ _ _ _ hw => parserWith_exact decode pool _ _ _ (Parser.within_eq_ok hw)) h
  rw [Reader.u2_exact s count mid (Parser.ofReader_eq_ok hcount), hmid, encodeAll, hlen,
    UInt16.ofNat_toNat, List.append_assoc]

end Attribute

theorem memberHead_exact :
    Exact memberHead fun m => Bytes.ofU2 m.1 ++ Bytes.ofU2 m.2.1 ++ Bytes.ofU2 m.2.2 := by
  intro s m rest h
  obtain ⟨flags, r1, h1, h⟩ := Reader.bind_eq_some h
  obtain ⟨nameIndex, r2, h2, h⟩ := Reader.bind_eq_some h
  obtain ⟨descriptorIndex, r3, h3, h⟩ := Reader.bind_eq_some h
  cases h
  rw [Reader.u2_exact s flags r1 h1, Reader.u2_exact r1 nameIndex r2 h2,
    Reader.u2_exact r2 descriptorIndex rest h3]
  simp

theorem memberParser_eq_ok {α : Type} {kind : String} {pool : ConstantPool}
    {make : UInt16 → UInt16 → UInt16 → List Attribute → String → String → α} {s rest : Bytes}
    {a : α} (h : memberParser kind pool make s = .ok (a, rest)) :
    ∃ flags nameIndex descriptorIndex attributes name descriptor,
      a = make flags nameIndex descriptorIndex attributes name descriptor ∧
        s = encodeMember flags nameIndex descriptorIndex attributes ++ rest := by
  obtain ⟨⟨flags, nameIndex, descriptorIndex⟩, r1, hhead, h⟩ := Parser.bind_eq_ok h
  obtain ⟨name, r2, hname, h⟩ := Parser.bind_eq_ok h
  obtain ⟨descriptor, r3, hdescriptor, h⟩ := Parser.bind_eq_ok h
  obtain ⟨attributes, r4, hattributes, h⟩ := Parser.bind_eq_ok h
  cases h
  have hr1 := (Parser.ofExcept_eq_ok (Parser.within_eq_ok hname)).2
  have hr2 := (Parser.ofExcept_eq_ok (Parser.within_eq_ok hdescriptor)).2
  subst hr1 hr2
  refine ⟨flags, nameIndex, descriptorIndex, attributes, name, descriptor, rfl, ?_⟩
  rw [memberHead_exact s _ r1 (Parser.ofReader_eq_ok hhead),
    Attribute.parserAllWith_exact _ _ _ _ _ _ hattributes, encodeMember]
  simp

theorem Field.parser_exact (pool : ConstantPool) : Exact (Field.parser pool) Field.encode := by
  intro s f rest h
  obtain ⟨flags, i, j, attributes, name, descriptor, rfl, hs⟩ := memberParser_eq_ok h
  exact hs

theorem Method.parser_exact (pool : ConstantPool) : Exact (Method.parser pool) Method.encode := by
  intro s m rest h
  obtain ⟨flags, i, j, attributes, name, descriptor, rfl, hs⟩ := memberParser_eq_ok h
  exact hs

/-! ### Class files that were read -/

namespace ClassFile

theorem magicParser_eq_ok {s rest : Bytes} (h : magicParser s = .ok ((), rest)) :
    s = Bytes.ofU4 magic ++ rest := by
  obtain ⟨found, mid, hfound, h⟩ := Parser.bind_eq_ok h
  have hs := Reader.u4_exact s found mid (Parser.ofReader_eq_ok hfound)
  split at h
  · rename_i hmagic
    cases h
    rw [hs, hmagic]
  · cases h

theorem head_exact :
    Exact Head.reader fun d => Bytes.ofU2 d.flags ++ Bytes.ofU2 d.thisClass ++
      Bytes.ofU2 d.superClass ++ Bytes.ofU2 d.interfaceCount := by
  intro s d rest h
  obtain ⟨flags, r1, h1, h⟩ := Reader.bind_eq_some h
  obtain ⟨thisClass, r2, h2, h⟩ := Reader.bind_eq_some h
  obtain ⟨superClass, r3, h3, h⟩ := Reader.bind_eq_some h
  obtain ⟨interfaceCount, r4, h4, h⟩ := Reader.bind_eq_some h
  cases h
  rw [Reader.u2_exact s flags r1 h1, Reader.u2_exact r1 thisClass r2 h2,
    Reader.u2_exact r2 superClass r3 h3, Reader.u2_exact r3 interfaceCount rest h4]
  simp

theorem interfaceParser_exact (pool : ConstantPool) (i : Nat) :
    Exact (interfaceParser pool i) fun x => Bytes.ofU2 x.1 := by
  intro s x rest h
  obtain ⟨index, r1, hindex, h⟩ := Parser.bind_eq_ok h
  obtain ⟨name, r2, hname, h⟩ := Parser.bind_eq_ok h
  cases h
  have hr1 := (Parser.ofExcept_eq_ok (Parser.within_eq_ok hname)).2
  subst hr1
  exact Reader.u2_exact s index r1 (Parser.ofReader_eq_ok hindex)

theorem superNameParser_eq_ok {pool : ConstantPool} {index : UInt16} {s rest : Bytes}
    {name : String} (h : superNameParser pool index s = .ok (name, rest)) : s = rest := by
  unfold superNameParser at h
  split at h
  · cases h
    rfl
  · exact (Parser.ofExcept_eq_ok (Parser.within_eq_ok h)).2

theorem parser_encode {s rest : Bytes} {c : ClassFile} (h : parser s = .ok (c, rest)) :
    ∃ bytes, c.encode = .ok bytes ∧ s = bytes ++ rest := by
  obtain ⟨⟨⟩, r1, hmagic, h⟩ := Parser.bind_eq_ok h
  obtain ⟨⟨minor, major⟩, r2, hversion, h⟩ := Parser.bind_eq_ok h
  obtain ⟨pool, r3, hpool, h⟩ := Parser.bind_eq_ok h
  obtain ⟨head, r4, hhead, h⟩ := Parser.bind_eq_ok h
  obtain ⟨name, r5, hname, h⟩ := Parser.bind_eq_ok h
  obtain ⟨superName, r6, hsuper, h⟩ := Parser.bind_eq_ok h
  obtain ⟨interfaces, r7, hinterfaces, h⟩ := Parser.bind_eq_ok h
  obtain ⟨fieldCount, r8, hfieldCount, h⟩ := Parser.bind_eq_ok h
  obtain ⟨fields, r9, hfields, h⟩ := Parser.bind_eq_ok h
  obtain ⟨methodCount, r10, hmethodCount, h⟩ := Parser.bind_eq_ok h
  obtain ⟨methods, r11, hmethods, h⟩ := Parser.bind_eq_ok h
  obtain ⟨attributes, r12, hattributes, h⟩ := Parser.bind_eq_ok h
  cases h
  obtain ⟨poolBytes, hencode, hr2⟩ := ConstantPool.parser_encode hpool
  have hr4 := (Parser.ofExcept_eq_ok (Parser.within_eq_ok hname)).2
  have hr5 := superNameParser_eq_ok hsuper
  obtain ⟨hninterfaces, hr6⟩ := Parser.items_exact (interfaceParser_exact pool) hinterfaces
  obtain ⟨hnfields, hr8⟩ := Parser.items_exact
    (fun _ _ _ _ hw => Field.parser_exact pool _ _ _ (Parser.within_eq_ok hw)) hfields
  obtain ⟨hnmethods, hr10⟩ := Parser.items_exact
    (fun _ _ _ _ hw => Method.parser_exact pool _ _ _ (Parser.within_eq_ok hw)) hmethods
  have hs := magicParser_eq_ok hmagic
  have hr1 := Constant.readPair_exact _ _ _ (Parser.ofReader_eq_ok hversion)
  have hr3 := head_exact _ _ _ (Parser.ofReader_eq_ok hhead)
  have hr7 := Reader.u2_exact _ _ _ (Parser.ofReader_eq_ok hfieldCount)
  have hr9 := Reader.u2_exact _ _ _ (Parser.ofReader_eq_ok hmethodCount)
  have hr11 := Attribute.parserAllWith_exact _ _ _ _ _ _ hattributes
  refine ⟨_, by simp only [encode, hencode]; rfl, ?_⟩
  rw [hs, hr1, hr2, hr3, hr4, hr5, hr6, hr7, hr8, hr9, hr10, hr11]
  simp [hninterfaces, hnfields, hnmethods, List.flatMap_map]

/-- A byte string that is accepted as a class file is written back byte for byte. -/
theorem encode_of_parse (data : Bytes) (c : ClassFile) (h : parse data = .ok c) :
    c.encode = .ok data := by
  unfold parse at h
  split at h
  · cases h
  · rename_i file hparser
    cases h
    obtain ⟨bytes, hencode, hdata⟩ := parser_encode hparser
    rw [hencode, hdata, List.append_nil]
  · cases h

/-- A class file whose pool has a lone surrogate, an empty string, a float that is no number and a
`long` in the last slot, and whose method holds an attribute inside its code. -/
def unusual : Bytes :=
  [0xCA, 0xFE, 0xBA, 0xBE, 0, 0, 0, 52, 0, 8,
    7, 0, 2, 1, 0, 1, 65, 1, 0, 3, 0xED, 0xA0, 0x80, 1, 0, 0, 1, 0, 4, 67, 111, 100, 101,
    4, 0x7F, 0xA0, 0, 1, 5, 0xFF, 0, 0, 0, 0, 0, 0, 9,
    0, 33, 0, 1, 0, 0, 0, 0, 0, 0,
    0, 1, 0, 8, 0, 2, 0, 4, 0, 1,
    0, 5, 0, 0, 0, 19, 0, 0, 0, 0, 0, 0, 0, 0, 0, 0, 0, 1, 0, 3, 0, 0, 0, 1, 7,
    0, 0]

theorem encode_of_parse_unusual : ∃ c, parse unusual = .ok c ∧ c.encode = .ok unusual :=
  ⟨_, rfl, encode_of_parse unusual _ rfl⟩

end ClassFile

end Jvm
