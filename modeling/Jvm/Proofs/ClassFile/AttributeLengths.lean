import Jvm.Proofs.ClassFile.AttributeCodec
import Jvm.Proofs.ClassFile.Rejection

/-!
# Attributes of the wrong length

The length of an attribute is written next to its bytes, so it can disagree with what the format of
the attribute asks for. Left-over bytes are always a malformed attribute. Missing bytes are one too,
except inside a method body: its readers take the end of their bytes for the end of the class file.

Both kinds of parser are `Delimited`, each with its own way to say that the input has ended.
-/

namespace Jvm

/-! ### Stack maps -/

namespace StackMap

theorem reading_delimited {α : Type} {r : Reader α} (h : Delimited .missing r) :
    Delimited (.fault short) (reading r) :=
  Parser.ofReader_delimited short h

theorem typeParser_delimited : Delimited (.fault short) typeParser := by
  refine (reading_delimited Reader.u1_delimited).bind fun code => ?_
  split
  case h_8 | h_9 => exact (reading_delimited Reader.u2_delimited).bind fun _ => .of_pure _
  case h_10 => exact Parser.fail_delimited _
  all_goals exact .of_pure _

theorem typesParser_delimited (n : Nat) : Delimited (.fault short) (typesParser n) :=
  Parser.items_delimited (fun _ => typeParser_delimited) n

/-- Every range of frame types has a body of its own, which ends where the frame does. -/
theorem bodyParser_delimited (n : Nat) : Delimited (.fault short) (bodyParser n) := by
  have htype {β : Type} (f : VerificationType → β) :
      Delimited (.fault short) (typeParser >>= fun item => pure (f item)) :=
    typeParser_delimited.bind fun _ => .of_pure _
  unfold bodyParser
  split
  · exact .of_pure _
  split
  · exact htype _
  split
  · exact Parser.fail_delimited _
  refine (reading_delimited Reader.u2_delimited).bind fun delta => ?_
  split
  · exact htype _
  split
  · exact .of_pure _
  split
  · exact .of_pure _
  split
  · exact (typesParser_delimited _).bind fun _ => .of_pure _
  · refine (reading_delimited Reader.u2_delimited).bind fun slotCount => ?_
    refine (typesParser_delimited _).bind fun slots => ?_
    refine (reading_delimited Reader.u2_delimited).bind fun stackCount => ?_
    exact (typesParser_delimited _).bind fun stack => .of_pure _

theorem frameParser_delimited : Delimited (.fault short) frameParser := by
  rw [frameParser_eq]
  exact (reading_delimited Reader.u1_delimited).bind fun type => bodyParser_delimited type.toNat

theorem parser_delimited : Delimited (.fault short) parser :=
  (reading_delimited Reader.u2_delimited).bind fun _ =>
    Parser.items_delimited (fun _ => frameParser_delimited) _

end StackMap

/-! ### The other formats -/

theorem Reader.counted_delimited {α : Type} {item : Reader α} (hitem : Delimited .missing item) :
    Delimited .missing (counted item) :=
  u2_delimited.bind fun n => itemsOnto_delimited hitem n.toNat []

theorem BootstrapMethod.reader_delimited : Delimited .missing reader :=
  Reader.u2_delimited.bind fun reference =>
    (Reader.counted_delimited Reader.u2_delimited).bind fun arguments =>
      Delimited.of_pure (BootstrapMethod.mk reference arguments)

theorem Code.headReader_delimited : Delimited .missing Head.reader :=
  Reader.u2_delimited.bind fun maxStack => Reader.u2_delimited.bind fun maxLocals =>
    Reader.u4_delimited.bind fun length => (Reader.take_delimited length.toNat).bind fun bytes =>
      (Reader.counted_delimited ExceptionHandler.reader_delimited).bind fun handlers =>
        Delimited.of_pure (Head.mk maxStack maxLocals bytes handlers)

namespace Attribute

theorem codeParserWith_delimited (decode : String → Bytes → Except Fault AttributeBody)
    (pool : ConstantPool) : Delimited .truncation (codeParserWith decode pool) := by
  refine (Parser.reading_delimited _ Code.headReader_delimited).bind fun head => ?_
  refine (Parser.within_delimited _ (parserAllWith_delimited decode pool _)).bind fun _ => ?_
  exact Delimited.of_pure _

/-! ### Lengths that are wrong -/

theorem whole_of_error {name : String} {p : Parser AttributeBody} {info : Bytes} {f : Fault}
    (h : p info = .error f) : whole name p info = .error f := by
  rw [whole, h]

/-- What runs out on the bytes of an attribute runs out on every proper beginning of an attribute
that it accepts, and leaves over whatever is added. -/
theorem whole_lengths {e : EndOfInput (Except Fault)} {name : String} {p : Parser AttributeBody}
    (hp : Delimited e p) {info : Bytes} {body : AttributeBody} (h : whole name p info = .ok body) :
    (∀ front, front <+: info → front ≠ info → e.ended (p front)) ∧
      ∀ more, more ≠ [] → whole name p (info ++ more) = .error (trailing name) := by
  obtain ⟨bytes, hbytes, hends⟩ := hp info body [] (whole_eq_ok h)
  rw [List.append_nil] at hbytes
  subst hbytes
  refine ⟨hends.cut, fun more hmore => ?_⟩
  obtain ⟨x, xs, rfl⟩ := List.exists_cons_of_ne_nil hmore
  rw [whole, Parser.eq_ok_of_reads hends.reads (x :: xs)]

def structuredNames : List String :=
  ["ConstantValue", "Code", "StackMapTable", "Exceptions", "BootstrapMethods"]

/-- The parser that `decode` runs for one of the interpreted names other than that of a method
body. -/
theorem decode_eq_whole {name : String} (hname : name ∈ structuredNames) (hcode : name ≠ "Code")
    (pool : ConstantPool) :
    ∃ p : Parser AttributeBody, Delimited (.fault (short name)) p ∧
      ∀ info, decode pool name info = whole name p info := by
  have hmap {α : Type} {p : Parser α} (f : α → AttributeBody)
      (hp : Delimited (.fault (short name)) p) : Delimited (.fault (short name)) (f <$> p) :=
    hp.bind fun a => .of_pure (f a)
  have hread {α : Type} {r : Reader α} (f : α → AttributeBody) (hr : Delimited .missing r) :
      Delimited (.fault (short name)) (f <$> Parser.ofReader (short name) r) :=
    hmap f (Parser.ofReader_delimited _ hr)
  simp only [structuredNames, List.mem_cons, List.not_mem_nil, or_false] at hname
  rcases hname with rfl | rfl | rfl | rfl | rfl
  · exact ⟨_, hread .constantValue Reader.u2_delimited, fun info => rfl⟩
  · exact absurd rfl hcode
  · exact ⟨_, hmap .stackMapTable StackMap.parser_delimited, fun info => rfl⟩
  · exact ⟨_, hread .exceptions (Reader.counted_delimited Reader.u2_delimited), fun info => rfl⟩
  · exact ⟨_, hread .bootstrapMethods (Reader.counted_delimited BootstrapMethod.reader_delimited),
      fun info => rfl⟩

/-- A proper beginning of an attribute is malformed, but that of a method body counts as the end of
the class file; additional bytes are malformed in all of them. Outside method bodies nothing but a
malformed attribute is reported, whatever the bytes are. -/
theorem decode_lengths (pool : ConstantPool) (name : String) (hname : name ∈ structuredNames)
    (info : Bytes) (body : AttributeBody) (h : decode pool name info = .ok body) :
    (∀ front, front <+: info → front ≠ info →
      if name = "Code" then ∃ f, decode pool name front = .error f ∧ f.IsTruncation
      else decode pool name front = .error (short name)) ∧
    (∀ more, more ≠ [] → decode pool name (info ++ more) = .error (trailing name)) ∧
    (name ≠ "Code" → ∀ bytes f, decode pool name bytes = .error f →
      f.kind = .format ∧ f.cause? = some .malformedAttribute) := by
  by_cases hcode : name = "Code"
  · subst hcode
    rw [decode_code] at h
    have hp : Delimited .truncation (AttributeBody.code <$> codeParserWith (decode pool) pool) :=
      (codeParserWith_delimited (decode pool) pool).bind fun c => Delimited.of_pure _
    obtain ⟨hcut, hmore⟩ := whole_lengths hp h
    refine ⟨fun front hfront hne => ?_, fun more hne => ?_, fun hne => absurd rfl hne⟩
    · obtain ⟨f, hf, htruncation⟩ := hcut front hfront hne
      rw [if_pos rfl, decode_code]
      exact ⟨f, whole_of_error hf, htruncation⟩
    · rw [decode_code]
      exact hmore more hne
  · obtain ⟨p, hp, hdecode⟩ := decode_eq_whole hname hcode pool
    rw [hdecode] at h
    obtain ⟨hcut, hmore⟩ := whole_lengths hp h
    refine ⟨fun front hfront hne => ?_, fun more hne => ?_, fun _ bytes f hf => ?_⟩
    · rw [if_neg hcode, hdecode]
      exact whole_of_error (hcut front hfront hne)
    · rw [hdecode]
      exact hmore more hne
    · exact raises_decodeWithin_of_ne (F := fun f => f.kind = .format ∧
        f.cause? = some .malformedAttribute) (fun _ => ⟨rfl, rfl⟩) hcode pool _ bytes f hf

/-- One bootstrap method with one argument, cut off before its last byte and with one byte more. -/
theorem decode_lengths_bootstrapMethods :
    decode ⟨#[none]⟩ "BootstrapMethods" [0, 1, 0, 9, 0, 1, 0, 10] =
      .ok (.bootstrapMethods [⟨9, [10]⟩]) ∧
    decode ⟨#[none]⟩ "BootstrapMethods" [0, 1, 0, 9, 0, 1, 0] =
      .error (short "BootstrapMethods") ∧
    decode ⟨#[none]⟩ "BootstrapMethods" [0, 1, 0, 9, 0, 1, 0, 10, 0] =
      .error (trailing "BootstrapMethods") := by
  have hlengths := decode_lengths ⟨#[none]⟩ "BootstrapMethods" (by decide)
    [0, 1, 0, 9, 0, 1, 0, 10] (.bootstrapMethods [⟨9, [10]⟩]) rfl
  obtain ⟨hcut, hmore, -⟩ := hlengths
  exact ⟨rfl, hcut [0, 1, 0, 9, 0, 1, 0] ⟨[10], rfl⟩ (by decide), hmore [0] (by decide)⟩

/-- The body `iconst_1, ireturn` without the last byte of the number of its attributes is reported
as a truncated class file. -/
theorem decode_code_cut :
    (∃ body, decode ⟨#[none]⟩ "Code" [0, 1, 0, 0, 0, 0, 0, 2, 4, 172, 0, 0, 0, 0] = .ok body) ∧
    ∃ f, decode ⟨#[none]⟩ "Code" [0, 1, 0, 0, 0, 0, 0, 2, 4, 172, 0, 0, 0] = .error f ∧
      f.cause? = some .truncated ∧ f.cause? ≠ some .malformedAttribute :=
  ⟨⟨_, rfl⟩, _, rfl, rfl, by decide⟩

end Attribute

end Jvm
