import Jvm.Proofs.ClassFile.RoundTrip

/-!
# What was written is read back

A class file whose lists and strings are short enough for their length fields, whose pool has the
right form and whose indices resolve is written, and the bytes are accepted again with the same
content. Only two things can differ: the bytes that a string constant remembers, and the names and
bodies that are worked out anew from indices and raw bytes.
-/

namespace Jvm

/-! ### What a class file must satisfy -/

/-- An attribute that can be read in a class file with the given pool: its length can be written,
its name resolves, and its bytes decode under that name. -/
structure Attribute.Readable (pool : ConstantPool) (a : Attribute) : Prop where
  length_lt : a.info.length < 4294967296
  decodes : ∃ name body, pool.utf8 a.nameIndex = .ok name ∧
    Attribute.decode pool name a.info = .ok body

/-- Attributes whose number can be written and each of which can be read. -/
structure Attribute.AllReadable (pool : ConstantPool) (as : List Attribute) : Prop where
  length_le : as.length ≤ 65535
  each : ∀ a ∈ as, a.Readable pool

/-- A field or method that can be read: its name and descriptor resolve, and so do its
attributes. -/
structure MemberReadable (pool : ConstantPool) (nameIndex descriptorIndex : UInt16)
    (attributes : List Attribute) : Prop where
  name : ∃ n, pool.utf8 nameIndex = .ok n
  descriptor : ∃ d, pool.utf8 descriptorIndex = .ok d
  attributes : Attribute.AllReadable pool attributes

structure ClassFile.Readable (c : ClassFile) : Prop where
  pool : c.pool.WellFormed
  thisClass : ∃ n, c.pool.className c.thisClass = .ok n
  superClass : c.superClass ≠ 0 → ∃ n, c.pool.className c.superClass = .ok n
  interfaces_le : c.interfaces.length ≤ 65535
  interfaces : ∀ i ∈ c.interfaces, ∃ n, c.pool.className i = .ok n
  fields_le : c.fields.length ≤ 65535
  fields : ∀ f ∈ c.fields, MemberReadable c.pool f.nameIndex f.descriptorIndex f.attributes
  methods_le : c.methods.length ≤ 65535
  methods : ∀ m ∈ c.methods, MemberReadable c.pool m.nameIndex m.descriptorIndex m.attributes
  attributes : Attribute.AllReadable c.pool c.attributes

/-! ### What stays the same -/

/-- An entry without the bytes it was read from. -/
def Constant.bare : Constant → Constant
  | utf8 value _ => utf8 value none
  | c => c

def Attribute.content (a : Attribute) : UInt16 × Bytes := (a.nameIndex, a.info)

def Field.content (f : Field) : UInt16 × UInt16 × UInt16 × List (UInt16 × Bytes) :=
  (f.flags, f.nameIndex, f.descriptorIndex, f.attributes.map Attribute.content)

def Method.content (m : Method) : UInt16 × UInt16 × UInt16 × List (UInt16 × Bytes) :=
  (m.flags, m.nameIndex, m.descriptorIndex, m.attributes.map Attribute.content)

/-- Class files with the same versions, flags, indices, pool entries, members and attributes, each
list in the same order. -/
structure ClassFile.SameContent (c d : ClassFile) : Prop where
  minor : c.minor = d.minor
  major : c.major = d.major
  pool : c.pool.slots.map (Option.map Constant.bare) = d.pool.slots.map (Option.map Constant.bare)
  flags : c.flags = d.flags
  thisClass : c.thisClass = d.thisClass
  superClass : c.superClass = d.superClass
  interfaces : c.interfaces = d.interfaces
  fields : c.fields.map Field.content = d.fields.map Field.content
  methods : c.methods.map Method.content = d.methods.map Method.content
  attributes : c.attributes.map Attribute.content = d.attributes.map Attribute.content

theorem Constant.bare_reread (c : Constant) : c.reread.bare = c.bare := by
  cases c <;> rfl

theorem ConstantPool.map_bare_reread (p : ConstantPool) :
    p.reread.slots.map (Option.map Constant.bare) = p.slots.map (Option.map Constant.bare) := by
  have hslot : Option.map Constant.bare ∘ Option.map Constant.reread =
      Option.map Constant.bare := by
    funext slot
    cases slot with
    | none => rfl
    | some c => simp [Constant.bare_reread]
  rw [ConstantPool.reread, Array.map_map, hslot]

/-! ### Decoding against a pool that was read back -/

namespace Attribute

theorem parserAllWith_congr (decode : String → Bytes → Except Fault AttributeBody)
    {p q : ConstantPool} (h : ∀ i, p.utf8 i = q.utf8 i) (owner : String) :
    parserAllWith decode p owner = parserAllWith decode q owner := by
  simp only [parserAllWith, parserWith, h]

/-- Attributes are decoded by the strings of a pool and nothing else of it. -/
theorem decodeWithin_congr {p q : ConstantPool} (h : ∀ i, p.utf8 i = q.utf8 i) (depth : Nat) :
    decodeWithin p depth = decodeWithin q depth := by
  induction depth with
  | zero =>
    funext name info
    rfl
  | succ depth ih =>
    funext name info
    simp only [decodeWithin, codeParserWith, ih, parserAllWith_congr _ h]

theorem decode_reread (p : ConstantPool) : decode p.reread = decode p := by
  funext name info
  rw [decode, decode, decodeWithin_congr p.utf8_reread]

/-! ### Attributes and members read back -/

theorem rawReader_reads (a : Attribute) (h : a.info.length < 4294967296) :
    Reads rawReader a.encode (a.nameIndex, a.info) := by
  have hlen : (UInt32.ofNat a.info.length).toNat = a.info.length :=
    UInt32.toNat_ofNat_of_lt' h
  rw [encode, List.append_assoc]
  refine (Reader.u2_reads _).bind ((Reader.u4_reads _).bind ?_)
  rw [hlen]
  exact (Reader.take_reads _).answer (Reads.of_pure _)

theorem reads_parserWith {decode : String → Bytes → Except Fault AttributeBody} {p : ConstantPool}
    {a : Attribute} (hlength : a.info.length < 4294967296)
    (hname : p.utf8 a.nameIndex = .ok a.name) (hbody : decode a.name a.info = .ok a.body) :
    Reads (parserWith decode p) a.encode a := by
  obtain ⟨nameIndex, name, info, body⟩ := a
  refine (Parser.reads_reading "attribute" (rawReader_reads _ hlength)).answer ?_
  refine (Parser.reads_within _ (Parser.reads_ofExcept hname)).answer ?_
  exact (Parser.reads_ofExcept hbody).answer (Reads.of_pure _)

theorem parserWith_reads {p : ConstantPool} {a : Attribute} (h : a.Readable p) :
    ∃ b, Reads (parserWith (decode p.reread) p.reread) a.encode b ∧ b.content = a.content := by
  obtain ⟨name, body, hname, hbody⟩ := h.decodes
  rw [← decode_reread] at hbody
  exact ⟨_, reads_parserWith (a := ⟨a.nameIndex, name, a.info, body⟩) h.length_lt
    ((p.utf8_reread _).trans hname) hbody, rfl⟩

theorem parserAll_reads {p : ConstantPool} {as : List Attribute} (h : AllReadable p as)
    (owner : String) :
    ∃ bs, bs.map content = as.map content ∧ Reads (parserAll p.reread owner) (encodeAll as) bs := by
  obtain ⟨bs, hmap, hbs⟩ := Parser.items_reads
    (fun i => Parser.within s!"{owner} attribute {i}" (parserWith (decode p.reread) p.reread))
    encode content content as fun a ha => by
      obtain ⟨b, hb, hcontent⟩ := parserWith_reads (h.each a ha)
      exact ⟨b, fun i => Parser.reads_within _ hb, hcontent⟩
  refine ⟨bs, hmap, ?_⟩
  refine (Parser.reads_reading _ (Reader.u2_reads _)).bind ?_
  rw [Bytes.toNat_count h.length_le]
  exact hbs

end Attribute

theorem memberHead_reads (flags nameIndex descriptorIndex : UInt16) :
    Reads memberHead (Bytes.ofU2 flags ++ Bytes.ofU2 nameIndex ++ Bytes.ofU2 descriptorIndex)
      (flags, nameIndex, descriptorIndex) := by
  rw [List.append_assoc]
  exact (Reader.u2_reads _).bind ((Reader.u2_reads _).bind
    ((Reader.u2_reads _).answer (Reads.of_pure _)))

theorem memberParser_reads {α : Type} (kind : String) {p : ConstantPool}
    (make : UInt16 → UInt16 → UInt16 → List Attribute → String → String → α)
    (flags nameIndex descriptorIndex : UInt16) (attributes : List Attribute)
    (h : MemberReadable p nameIndex descriptorIndex attributes) :
    ∃ name descriptor bs, bs.map Attribute.content = attributes.map Attribute.content ∧
      Reads (memberParser kind p.reread make)
        (encodeMember flags nameIndex descriptorIndex attributes)
        (make flags nameIndex descriptorIndex bs name descriptor) := by
  obtain ⟨name, hname⟩ := h.name
  obtain ⟨descriptor, hdescriptor⟩ := h.descriptor
  obtain ⟨bs, hmap, hbs⟩ := Attribute.parserAll_reads h.attributes (kind ++ " " ++ name)
  refine ⟨name, descriptor, bs, hmap, ?_⟩
  refine (Parser.reads_reading _ (memberHead_reads _ _ _)).bind ?_
  refine (Parser.reads_within _
    (Parser.reads_ofExcept ((p.utf8_reread _).trans hname))).after ?_
  refine (Parser.reads_within _
    (Parser.reads_ofExcept ((p.utf8_reread _).trans hdescriptor))).after ?_
  exact hbs.answer (Reads.of_pure _)

theorem Field.parser_reads {p : ConstantPool} {f : Field}
    (h : MemberReadable p f.nameIndex f.descriptorIndex f.attributes) :
    ∃ g, Reads (Field.parser p.reread) f.encode g ∧ g.content = f.content := by
  obtain ⟨name, descriptor, bs, hmap, hread⟩ :=
    memberParser_reads "field" Field.mk f.flags f.nameIndex f.descriptorIndex f.attributes h
  exact ⟨_, hread, by simp [Field.content, hmap]⟩

theorem Method.parser_reads {p : ConstantPool} {m : Method}
    (h : MemberReadable p m.nameIndex m.descriptorIndex m.attributes) :
    ∃ n, Reads (Method.parser p.reread) m.encode n ∧ n.content = m.content := by
  obtain ⟨name, descriptor, bs, hmap, hread⟩ :=
    memberParser_reads "method" Method.mk m.flags m.nameIndex m.descriptorIndex m.attributes h
  exact ⟨_, hread, by simp [Method.content, hmap]⟩

/-! ### Class files read back -/

namespace ClassFile

theorem magicParser_reads : Reads magicParser (Bytes.ofU4 magic) () :=
  (Parser.reads_reading "magic" (Reader.u4_reads magic)).answer (Reads.of_pure ())

theorem head_reads (d : Head) :
    Reads Head.reader (Bytes.ofU2 d.flags ++ Bytes.ofU2 d.thisClass ++ Bytes.ofU2 d.superClass ++
      Bytes.ofU2 d.interfaceCount) d := by
  rw [List.append_assoc, List.append_assoc]
  exact (Reader.u2_reads _).bind ((Reader.u2_reads _).bind ((Reader.u2_reads _).bind
    ((Reader.u2_reads _).answer (Reads.of_pure _))))

theorem superNameParser_reads {p : ConstantPool} {index : UInt16}
    (h : index ≠ 0 → ∃ n, p.className index = .ok n) :
    ∃ name, Reads (superNameParser p.reread index) [] name := by
  unfold superNameParser
  split
  · exact ⟨"", Reads.of_pure ""⟩
  · rename_i hindex
    obtain ⟨n, hn⟩ := h hindex
    exact ⟨n, Parser.reads_within _ (Parser.reads_ofExcept ((p.className_reread _).trans hn))⟩

theorem interfaceParser_reads {p : ConstantPool} {index : UInt16}
    (h : ∃ n, p.className index = .ok n) :
    ∃ x, (∀ i, Reads (interfaceParser p.reread i) (Bytes.ofU2 index) x) ∧ x.1 = index := by
  obtain ⟨n, hn⟩ := h
  refine ⟨(index, n), fun i => ?_, rfl⟩
  refine (Parser.reads_reading "interfaces" (Reader.u2_reads index)).answer ?_
  exact (Parser.reads_within _
    (Parser.reads_ofExcept ((p.className_reread _).trans hn))).answer (Reads.of_pure _)

theorem Readable.parser_reads {c : ClassFile} (h : c.Readable) :
    ∃ data d, c.encode = .ok data ∧ Reads parser data d ∧ SameContent c d := by
  obtain ⟨poolBytes, hencode, hpool⟩ := h.pool.encode_reads
  obtain ⟨name, hname⟩ := h.thisClass
  obtain ⟨superName, hsuper⟩ := superNameParser_reads h.superClass
  obtain ⟨interfaces, hinterfaces, hreadInterfaces⟩ := Parser.items_reads
    (interfaceParser c.pool.reread) Bytes.ofU2 (·.1) id c.interfaces
    fun i hi => interfaceParser_reads (h.interfaces i hi)
  obtain ⟨fields, hfields, hreadFields⟩ := Parser.items_reads
    (fun i => Parser.within s!"failed to read field {i}" (Field.parser c.pool.reread))
    Field.encode Field.content Field.content c.fields fun f hf => by
      obtain ⟨g, hg, hcontent⟩ := Field.parser_reads (h.fields f hf)
      exact ⟨g, fun i => Parser.reads_within _ hg, hcontent⟩
  obtain ⟨methods, hmethods, hreadMethods⟩ := Parser.items_reads
    (fun i => Parser.within s!"failed to read method {i}" (Method.parser c.pool.reread))
    Method.encode Method.content Method.content c.methods fun m hm => by
      obtain ⟨n, hn, hcontent⟩ := Method.parser_reads (h.methods m hm)
      exact ⟨n, fun i => Parser.reads_within _ hn, hcontent⟩
  obtain ⟨attributes, hattributes, hreadAttributes⟩ :=
    Attribute.parserAll_reads h.attributes "class attributes"
  -- The reader learns the number of items from the count that was written.
  rw [← Bytes.toNat_count h.interfaces_le] at hreadInterfaces
  rw [← Bytes.toNat_count h.fields_le] at hreadFields
  rw [← Bytes.toNat_count h.methods_le] at hreadMethods
  let d : ClassFile :=
    ⟨c.minor, c.major, c.pool.reread, c.flags, c.thisClass, c.superClass, interfaces.map (·.1),
      fields, methods, attributes, name, superName, interfaces.map (·.2)⟩
  have hread : Reads parser
      (Bytes.ofU4 magic ++ ((Bytes.ofU2 c.minor ++ Bytes.ofU2 c.major) ++ (poolBytes ++
        ((Bytes.ofU2 c.flags ++ Bytes.ofU2 c.thisClass ++ Bytes.ofU2 c.superClass ++
          Bytes.ofU2 (UInt16.ofNat c.interfaces.length)) ++
        (c.interfaces.flatMap Bytes.ofU2 ++
        (Bytes.ofU2 (UInt16.ofNat c.fields.length) ++ (c.fields.flatMap Field.encode ++
        (Bytes.ofU2 (UInt16.ofNat c.methods.length) ++ (c.methods.flatMap Method.encode ++
          Attribute.encodeAll c.attributes))))))))) d := by
    refine magicParser_reads.bind ?_
    refine (Parser.reads_reading "version" (Constant.readPair_reads _ _)).bind ?_
    refine hpool.bind ?_
    refine (Parser.reads_reading "class header" (head_reads ⟨_, _, _, _⟩)).bind ?_
    refine (Parser.reads_within "this_class"
      (Parser.reads_ofExcept ((c.pool.className_reread _).trans hname))).after ?_
    refine hsuper.after ?_
    refine hreadInterfaces.bind ?_
    refine (Parser.reads_reading "fields count" (Reader.u2_reads _)).bind ?_
    refine hreadFields.bind ?_
    refine (Parser.reads_reading "methods count" (Reader.u2_reads _)).bind ?_
    refine hreadMethods.bind ?_
    exact hreadAttributes.answer (Reads.of_pure _)
  refine ⟨_, d, by simp only [encode, hencode]; rfl, ?_, ?_⟩
  · simpa only [List.append_assoc] using hread
  · exact ⟨rfl, rfl, c.pool.map_bare_reread.symm, rfl, rfl, rfl, by simpa using hinterfaces.symm,
      hfields.symm, hmethods.symm, hattributes.symm⟩

/-- A class file that can be written and read again is written, and the bytes are accepted as a
class file with the same content. -/
theorem parse_encode (c : ClassFile) (h : c.Readable) :
    ∃ data d, c.encode = .ok data ∧ parse data = .ok d ∧ SameContent c d := by
  obtain ⟨data, d, hencode, hread, hsame⟩ := h.parser_reads
  refine ⟨data, d, hencode, ?_, hsame⟩
  have hparser := Parser.eq_ok_of_reads hread []
  rw [List.append_nil] at hparser
  rw [parse, hparser]

/-- A class with one method. One of its strings remembers bytes that no longer stand for it, another
has a character outside the basic plane, and a `long` stands in the last slot. -/
def stale : ClassFile where
  minor := 0
  major := 52
  pool := ⟨#[none, some (.classRef 2), some (.utf8 "A" none), some (.utf8 "\u0000𝄞" (some [66])),
    some (.utf8 "()V" none), some (.utf8 "Code" none), some (.double 1), none, some (.long 2)]⟩
  flags := 0x21
  thisClass := 1
  superClass := 0
  interfaces := [1]
  fields := []
  methods := [{
    flags := 8
    nameIndex := 3
    descriptorIndex := 4
    attributes := [⟨5, "", [0, 0, 0, 0, 0, 0, 0, 1, 0xB1, 0, 0, 0, 0], .generic⟩] }]
  attributes := []

theorem stale_readable : stale.Readable where
  pool := {
    count_le := by decide
    zero := by decide
    gap := by decide
    fits := by simp [stale, Constant.Fits, Constant.utf8Bytes]; decide }
  thisClass := ⟨_, rfl⟩
  superClass := fun h => absurd rfl h
  interfaces_le := by decide
  interfaces := by
    intro i hi
    cases List.mem_singleton.mp hi
    exact ⟨_, rfl⟩
  fields_le := by decide
  fields := fun f hf => absurd hf List.not_mem_nil
  methods_le := by decide
  methods := by
    intro m hm
    cases List.mem_singleton.mp hm
    refine ⟨⟨_, rfl⟩, ⟨_, rfl⟩, by decide, fun a ha => ?_⟩
    cases List.mem_singleton.mp ha
    exact ⟨by decide, _, _, rfl, rfl⟩
  attributes := ⟨by decide, fun a ha => absurd ha List.not_mem_nil⟩

theorem parse_encode_stale :
    stale.Readable ∧
      ∃ data d, stale.encode = .ok data ∧ parse data = .ok d ∧ SameContent stale d :=
  ⟨stale_readable, parse_encode stale stale_readable⟩

end ClassFile

end Jvm
