import Jvm.ClassFile.Builder
import Jvm.Proofs.ClassFile.Rereading
import Jvm.Proofs.ClassFile.StackMapCodec

/-!
# Structured attributes read back

A `Codec` is a reader together with the writer of its format and the values that the format has
room for: those values are read back, and nothing else is accepted than what is written for them.
Counted lists, exception tables, bootstrap methods, nested attributes and method bodies are such
codecs, each made of those of its parts, so the bytes of an attribute and what they decode to
determine each other.
-/

namespace Jvm

/-! ### Readers that are codecs -/

/-- Reads what `write` gives for the values with property `P`, and accepts nothing else. -/
structure Codec {m : Type → Type} [Monad m] {α : Type} (p : StateT Bytes m α) (P : α → Prop)
    (write : α → Bytes) : Prop where
  reads {a : α} : P a → Reads p (write a) a
  exact {s rest : Bytes} {a : α} : p s = pure (a, rest) → P a ∧ s = write a ++ rest

theorem Reader.u2_codec : Codec u2 (fun _ => True) Bytes.ofU2 where
  reads _ := u2_reads _
  exact h := ⟨trivial, u2_exact _ _ _ h⟩

namespace Parser

variable {α : Type} {P : α → Prop} {write : α → Bytes}

theorem ofReader_codec (short : Fault) {r : Reader α} (h : Codec r P write) :
    Codec (ofReader short r) P write where
  reads ha := reads_ofReader short (h.reads ha)
  exact hs := h.exact (ofReader_eq_ok hs)

theorem within_codec (label : String) {p : Parser α} (h : Codec p P write) :
    Codec (within label p) P write where
  reads ha := reads_within label (h.reads ha)
  exact hs := h.exact (within_eq_ok hs)

theorem items_codec {item : Nat → Parser α} (h : ∀ i, Codec (item i) P write) (n : Nat) :
    Codec (items n item) (fun as => as.length = n ∧ ∀ a ∈ as, P a) (·.flatMap write) where
  reads := by
    rintro as ⟨rfl, has⟩
    exact list_reads fun a ha i => (h i).reads (has a ha)
  exact hs := by
    have hforall := items_forall (fun i _ _ _ hi => ((h i).exact hi).1) hs
    obtain ⟨hlength, hbytes⟩ := items_exact (fun i _ _ _ hi => ((h i).exact hi).2) hs
    exact ⟨⟨hlength, hforall⟩, hbytes⟩

end Parser

/-! ### Counted lists -/

/-- The number of items in two bytes, modulo 65536, and the items. -/
def Bytes.counted {α : Type} (write : α → Bytes) (as : List α) : Bytes :=
  ofU2 (UInt16.ofNat as.length) ++ as.flatMap write

namespace Reader

variable {α : Type} {P : α → Prop} {write : α → Bytes} {item : Reader α}

theorem itemsOnto_reads (h : Codec item P write) {as : List α} (has : ∀ a ∈ as, P a)
    (acc : List α) :
    Reads (itemsOnto item as.length acc) (as.flatMap write) (acc.reverse ++ as) := by
  induction as generalizing acc with
  | nil =>
    rw [List.append_nil]
    exact Reads.of_pure acc.reverse
  | cons a as ih =>
    obtain ⟨ha, has⟩ := List.forall_mem_cons.mp has
    have hrest := ih has (a :: acc)
    rw [List.reverse_cons, List.append_assoc, List.singleton_append] at hrest
    rw [List.length_cons, itemsOnto_succ, List.flatMap_cons]
    exact (h.reads ha).bind hrest

theorem itemsOnto_exact (h : Codec item P write) (n : Nat) {acc as : List α} {s rest : Bytes}
    (hs : itemsOnto item n acc s = some (as, rest)) :
    ∃ new, as = acc.reverse ++ new ∧ new.length = n ∧ (∀ a ∈ new, P a) ∧
      s = new.flatMap write ++ rest := by
  induction n generalizing acc s with
  | zero =>
    cases hs
    exact ⟨[], (List.append_nil _).symm, rfl, List.forall_mem_nil _, rfl⟩
  | succ n ih =>
    rw [itemsOnto_succ] at hs
    obtain ⟨a, mid, ha, hs⟩ := bind_eq_some hs
    obtain ⟨new, has, hlength, hnew, hmid⟩ := ih hs
    obtain ⟨hPa, hbytes⟩ := h.exact ha
    refine ⟨a :: new, ?_, by rw [List.length_cons, hlength], List.forall_mem_cons.mpr ⟨hPa, hnew⟩,
      ?_⟩
    · rw [has, List.reverse_cons, List.append_assoc, List.singleton_append]
    · rw [hbytes, hmid, List.flatMap_cons, List.append_assoc]

theorem counted_codec (h : Codec item P write) :
    Codec (counted item) (fun as => as.length ≤ 65535 ∧ ∀ a ∈ as, P a) (Bytes.counted write) where
  reads := by
    rintro as ⟨hlength, has⟩
    refine (u2_reads _).bind ?_
    rw [Bytes.toNat_count hlength]
    exact itemsOnto_reads h has []
  exact hs := by
    obtain ⟨count, mid, hcount, hs⟩ := bind_eq_some hs
    obtain ⟨new, rfl, hlength, hnew, hmid⟩ := itemsOnto_exact h _ hs
    have hlt := count.toNat_lt
    refine ⟨⟨by omega, hnew⟩, ?_⟩
    rw [u2_exact _ count mid hcount, hmid, Bytes.counted, hlength, UInt16.ofNat_toNat,
      List.append_assoc]

end Reader

/-! ### Parts of attributes -/

theorem ExceptionHandler.codec : Codec reader (fun _ => True) encode where
  reads {h} _ := by
    simp only [encode, List.append_assoc]
    exact (Reader.u2_reads _).bind ((Reader.u2_reads _).bind ((Reader.u2_reads _).bind
      ((Reader.u2_reads _).answer (Reads.of_pure h))))
  exact hs := by
    obtain ⟨start, r1, h1, hs⟩ := Reader.bind_eq_some hs
    obtain ⟨stop, r2, h2, hs⟩ := Reader.bind_eq_some hs
    obtain ⟨handler, r3, h3, hs⟩ := Reader.bind_eq_some hs
    obtain ⟨catchType, r4, h4, hs⟩ := Reader.bind_eq_some hs
    cases hs
    refine ⟨trivial, ?_⟩
    rw [Reader.u2_exact _ _ _ h1, Reader.u2_exact _ _ _ h2, Reader.u2_exact _ _ _ h3,
      Reader.u2_exact _ _ _ h4]
    simp only [encode, List.append_assoc]

theorem BootstrapMethod.codec : Codec reader (fun m => m.arguments.length ≤ 65535) encode where
  reads {m} hm := by
    have harguments := Reader.counted_codec Reader.u2_codec |>.reads ⟨hm, fun _ _ => trivial⟩
    rw [encode, List.append_assoc]
    exact (Reader.u2_reads _).bind (harguments.answer (Reads.of_pure m))
  exact hs := by
    obtain ⟨reference, r1, h1, hs⟩ := Reader.bind_eq_some hs
    obtain ⟨arguments, r2, h2, hs⟩ := Reader.bind_eq_some hs
    cases hs
    obtain ⟨⟨hlength, -⟩, hr1⟩ := (Reader.counted_codec Reader.u2_codec).exact h2
    refine ⟨hlength, ?_⟩
    rw [Reader.u2_exact _ _ _ h1, hr1]
    simp only [encode, Bytes.counted, List.append_assoc]

namespace Code

/-- A body and an exception table whose lengths fit into their fields. -/
structure Head.Fits (d : Head) : Prop where
  bytes_lt : d.bytes.length < 4294967296
  handlers_le : d.handlers.length ≤ 65535

def Head.encode (d : Head) : Bytes :=
  Bytes.ofU2 d.maxStack ++ Bytes.ofU2 d.maxLocals ++ Bytes.ofU4 (UInt32.ofNat d.bytes.length) ++
    d.bytes ++ Bytes.counted ExceptionHandler.encode d.handlers

def head (c : Code) : Head := ⟨c.maxStack, c.maxLocals, c.bytes, c.handlers⟩

theorem Head.codec : Codec reader Fits encode where
  reads {d} hd := by
    have hwidth : (UInt32.ofNat d.bytes.length).toNat = d.bytes.length :=
      UInt32.toNat_ofNat_of_lt' hd.bytes_lt
    have hhandlers := Reader.counted_codec ExceptionHandler.codec |>.reads
      ⟨hd.handlers_le, fun _ _ => trivial⟩
    simp only [encode, List.append_assoc]
    refine (Reader.u2_reads _).bind ((Reader.u2_reads _).bind ((Reader.u4_reads _).bind ?_))
    rw [hwidth]
    exact (Reader.take_reads _).bind (hhandlers.answer (Reads.of_pure d))
  exact hs := by
    obtain ⟨maxStack, r1, h1, hs⟩ := Reader.bind_eq_some hs
    obtain ⟨maxLocals, r2, h2, hs⟩ := Reader.bind_eq_some hs
    obtain ⟨length, r3, h3, hs⟩ := Reader.bind_eq_some hs
    obtain ⟨bytes, r4, h4, hs⟩ := Reader.bind_eq_some hs
    obtain ⟨handlers, r5, h5, hs⟩ := Reader.bind_eq_some hs
    cases hs
    obtain ⟨hr3, hlength⟩ := Reader.take_eq_some h4
    obtain ⟨⟨hhandlers, -⟩, hr4⟩ := (Reader.counted_codec ExceptionHandler.codec).exact h5
    have hlt := length.toNat_lt
    refine ⟨⟨by show bytes.length < _; omega, hhandlers⟩, ?_⟩
    rw [Reader.u2_exact _ _ _ h1, Reader.u2_exact _ _ _ h2, Reader.u4_exact _ _ _ h3, hr3, hr4]
    simp only [encode, hlength, UInt32.ofNat_toNat, List.append_assoc]

theorem encode_eq (c : Code) : c.encode = c.head.encode ++ Attribute.encodeAll c.attributes := by
  simp only [encode, Head.encode, head, Bytes.counted, List.append_assoc]

theorem make_head (c : Code) :
    make c.head.maxStack c.head.maxLocals c.head.bytes c.head.handlers c.attributes = c := by
  obtain ⟨maxStack, maxLocals, bytes, handlers, attributes, listing, rfl⟩ := c
  rfl

end Code

/-! ### Attributes inside a method body -/

namespace Attribute

/-- An attribute whose length can be written, with the name that its index stands for and the body
that its bytes decode to. -/
structure Decodes (pool : ConstantPool) (a : Attribute) : Prop where
  length_lt : a.info.length < 4294967296
  name : pool.utf8 a.nameIndex = .ok a.name
  body : decode pool a.name a.info = .ok a.body

theorem rawReader_lt {s rest info : Bytes} {nameIndex : UInt16}
    (h : rawReader s = some ((nameIndex, info), rest)) : info.length < 4294967296 := by
  obtain ⟨index, r1, -, h⟩ := Reader.bind_eq_some h
  obtain ⟨length, r2, -, h⟩ := Reader.bind_eq_some h
  obtain ⟨bytes, r3, hbytes, h⟩ := Reader.bind_eq_some h
  cases h
  rw [(Reader.take_eq_some hbytes).2]
  exact length.toNat_lt

theorem codec (pool : ConstantPool) : Codec (parserWith (decode pool) pool) (Decodes pool) encode where
  reads ha := reads_parserWith ha.length_lt ha.name ha.body
  exact hs := by
    obtain ⟨hname, hbody, -⟩ := parserWith_eq_ok hs
    have hbytes := parserWith_exact _ _ _ _ _ hs
    obtain ⟨⟨nameIndex, info⟩, r1, hraw, hs⟩ := Parser.bind_eq_ok hs
    obtain ⟨name, r2, -, hs⟩ := Parser.bind_eq_ok hs
    obtain ⟨body, r3, -, hs⟩ := Parser.bind_eq_ok hs
    cases hs
    exact ⟨⟨rawReader_lt (Parser.ofReader_eq_ok hraw), hname, hbody⟩, hbytes⟩

theorem all_codec (pool : ConstantPool) (owner : String) :
    Codec (parserAllWith (decode pool) pool owner)
      (fun as => as.length ≤ 65535 ∧ ∀ a ∈ as, a.Decodes pool) encodeAll where
  reads := by
    rintro as ⟨hlength, has⟩
    refine (Parser.reads_reading _ (Reader.u2_reads _)).bind ?_
    rw [Bytes.toNat_count hlength]
    exact (Parser.items_codec (fun i => Parser.within_codec _ (codec pool)) _).reads ⟨rfl, has⟩
  exact hs := by
    have hbytes := parserAllWith_exact _ _ _ _ _ _ hs
    obtain ⟨count, mid, -, hs⟩ := Parser.bind_eq_ok hs
    obtain ⟨⟨hlength, has⟩, -⟩ :=
      (Parser.items_codec (fun i => Parser.within_codec _ (codec pool)) _).exact hs
    have hlt := count.toNat_lt
    exact ⟨⟨by omega, has⟩, hbytes⟩

end Attribute

/-- A method body whose lengths and counts fit into their fields and whose attributes decode. -/
structure Code.Decodes (pool : ConstantPool) (c : Code) : Prop where
  bytes_lt : c.bytes.length < 4294967296
  handlers_le : c.handlers.length ≤ 65535
  attributes_le : c.attributes.length ≤ 65535
  attributes : ∀ a ∈ c.attributes, a.Decodes pool

theorem Code.codec (pool : ConstantPool) :
    Codec (Attribute.codeParserWith (Attribute.decode pool) pool) (Decodes pool) encode where
  reads {c} hc := by
    have hattributes := Parser.within_codec "nested" (Attribute.all_codec pool "Code")
    rw [encode_eq]
    refine (Parser.reads_reading "Code" (Head.codec.reads ⟨hc.bytes_lt, hc.handlers_le⟩)).bind ?_
    refine (hattributes.reads ⟨hc.attributes_le, hc.attributes⟩).answer ?_
    rw [make_head]
    exact Reads.of_pure c
  exact hs := by
    obtain ⟨d, r1, hd, hs⟩ := Parser.bind_eq_ok hs
    obtain ⟨attributes, r2, hattributes, hs⟩ := Parser.bind_eq_ok hs
    cases hs
    obtain ⟨hfits, hbytes⟩ := Head.codec.exact (Parser.ofReader_eq_ok hd)
    obtain ⟨⟨hlength, hdecodes⟩, hr1⟩ :=
      (Attribute.all_codec pool "Code").exact (Parser.within_eq_ok hattributes)
    refine ⟨⟨hfits.bytes_lt, hfits.handlers_le, hlength, hdecodes⟩, ?_⟩
    rw [hbytes, hr1, encode_eq, List.append_assoc]
    rfl

/-! ### Whole attributes -/

namespace Attribute

variable (pool : ConstantPool)

/-- When all bytes of an attribute belong to a codec, they are what is written for its value. -/
theorem whole_iff {α : Type} {P : α → Prop} {write : α → Bytes} {p : Parser α}
    (h : Codec p P write) (name : String) (f : α → AttributeBody) (info : Bytes)
    (body : AttributeBody) :
    whole name (f <$> p) info = .ok body ↔ ∃ a, body = f a ∧ P a ∧ info = write a := by
  constructor
  · intro hbody
    obtain ⟨a, ha, rfl⟩ := Parser.map_eq_ok (whole_eq_ok hbody)
    obtain ⟨hP, hinfo⟩ := h.exact ha
    rw [List.append_nil] at hinfo
    exact ⟨a, rfl, hP, hinfo⟩
  · rintro ⟨a, rfl, hP, rfl⟩
    exact whole_eq (Parser.reads_map f (h.reads hP))

theorem decode_constantValue_iff (info : Bytes) (body : AttributeBody) :
    decode pool "ConstantValue" info = .ok body ↔
      ∃ index, body = .constantValue index ∧ info = Bytes.ofU2 index := by
  have hcodec := Parser.ofReader_codec (short "ConstantValue") Reader.u2_codec
  rw [decode, decodeWithin, if_pos rfl, whole_iff hcodec]
  simp only [true_and]

theorem decode_code_iff (info : Bytes) (body : AttributeBody) :
    decode pool "Code" info = .ok body ↔
      ∃ c : Code, body = .code c ∧ c.Decodes pool ∧ info = c.encode := by
  rw [decode_code, whole_iff (Code.codec pool)]

theorem decode_exceptions_iff (info : Bytes) (body : AttributeBody) :
    decode pool "Exceptions" info = .ok body ↔
      ∃ classes : List UInt16, body = .exceptions classes ∧ classes.length ≤ 65535 ∧
        info = Bytes.counted Bytes.ofU2 classes := by
  have hcodec := Parser.ofReader_codec (short "Exceptions") (Reader.counted_codec Reader.u2_codec)
  rw [decode, decodeWithin, if_neg (by decide), if_neg (by decide), if_neg (by decide), if_pos rfl,
    whole_iff hcodec]
  simp only [implies_true, and_true]

theorem decode_bootstrapMethods_iff (info : Bytes) (body : AttributeBody) :
    decode pool "BootstrapMethods" info = .ok body ↔
      ∃ methods : List BootstrapMethod, body = .bootstrapMethods methods ∧
        (methods.length ≤ 65535 ∧ ∀ m ∈ methods, m.arguments.length ≤ 65535) ∧
        info = Bytes.counted BootstrapMethod.encode methods := by
  have hcodec := Parser.ofReader_codec (short "BootstrapMethods")
    (Reader.counted_codec BootstrapMethod.codec)
  rw [decode, decodeWithin, if_neg (by decide), if_neg (by decide), if_neg (by decide),
    if_neg (by decide), if_pos rfl, whole_iff hcodec]

theorem decode_constantValue (index : UInt16) :
    decode pool "ConstantValue" (Bytes.ofU2 index) = .ok (.constantValue index) :=
  (decode_constantValue_iff pool _ _).mpr ⟨index, rfl, rfl⟩

theorem encodeCode_eq (maxStack maxLocals : UInt16) (bytes : Bytes) :
    Builder.encodeCode maxStack maxLocals bytes =
      (Code.make maxStack maxLocals bytes [] []).encode := by
  simp [Builder.encodeCode, Code.encode, Code.make, encodeAll, Bytes.ofU2]

theorem decode_encodeCode_iff (maxStack maxLocals : UInt16) (bytes : Bytes) :
    decode pool "Code" (Builder.encodeCode maxStack maxLocals bytes) =
      .ok (.code (Code.make maxStack maxLocals bytes [] [])) ↔ bytes.length < 4294967296 := by
  rw [decode_code_iff]
  constructor
  · rintro ⟨c, hbody, hc, -⟩
    obtain rfl := AttributeBody.code.inj hbody
    exact hc.bytes_lt
  · intro hbytes
    refine ⟨_, rfl, ?_, encodeCode_eq maxStack maxLocals bytes⟩
    exact ⟨hbytes, Nat.zero_le _, Nat.zero_le _, List.forall_mem_nil _⟩

/-- The bytes of a structured attribute are accepted exactly when they are the binary form of what
they decode to: a method body whose lengths and counts fit into their fields and whose attributes
decode, counted lists of at most 65535 items, or one index. A method body without handlers and
attributes is such a form as soon as the length of its code fits. -/
theorem structured_codec (pool : ConstantPool) :
    (∀ info body, decode pool "Code" info = .ok body ↔
      ∃ c : Code, body = .code c ∧ c.Decodes pool ∧ info = c.encode) ∧
    (∀ info body, decode pool "Exceptions" info = .ok body ↔
      ∃ classes : List UInt16, body = .exceptions classes ∧ classes.length ≤ 65535 ∧
        info = Bytes.counted Bytes.ofU2 classes) ∧
    (∀ info body, decode pool "BootstrapMethods" info = .ok body ↔
      ∃ methods : List BootstrapMethod, body = .bootstrapMethods methods ∧
        (methods.length ≤ 65535 ∧ ∀ m ∈ methods, m.arguments.length ≤ 65535) ∧
        info = Bytes.counted BootstrapMethod.encode methods) ∧
    (∀ info body, decode pool "ConstantValue" info = .ok body ↔
      ∃ index, body = .constantValue index ∧ info = Bytes.ofU2 index) ∧
    ∀ maxStack maxLocals bytes,
      decode pool "Code" (Builder.encodeCode maxStack maxLocals bytes) =
        .ok (.code (Code.make maxStack maxLocals bytes [] [])) ↔ bytes.length < 4294967296 :=
  ⟨decode_code_iff pool, decode_exceptions_iff pool, decode_bootstrapMethods_iff pool,
    decode_constantValue_iff pool, decode_encodeCode_iff pool⟩

example : decode ⟨#[none]⟩ "BootstrapMethods" [0, 1, 0, 9, 0, 1, 0, 10] =
    .ok (.bootstrapMethods [⟨9, [10]⟩]) := rfl

end Attribute

end Jvm
