import Jvm.ClassFile.Parser
import Jvm.Proofs.ClassFile.RoundTrip
import Jvm.Proofs.Faults

/-!
# Where a class file ends

What is accepted as a class file can neither be cut off nor go on. A reader is `Delimited` when the
bytes that it takes are its own: it takes them in front of any rest, and it runs out of input on
every shorter beginning of them. No check that stands between two reads can fail before the end of
the input is noticed, since the same check has passed on the same bytes.
-/

namespace Jvm

/-- The classification of a class file that ends too early. -/
def Fault.IsTruncation (f : Fault) : Prop := f.kind = .format ∧ f.cause? = some .truncated

/-- How a computation says that its input has ended. Everything after that is given up, and a
sequence succeeds only if both of its parts do. -/
structure EndOfInput (m : Type → Type) [Monad m] where
  ended {α : Type} : m α → Prop
  pure_inj {α : Type} {a b : α} : (pure a : m α) = pure b → a = b
  ended_bind {α β : Type} {x : m α} (f : α → m β) : ended x → ended (x >>= f)
  bind_eq_pure {α β : Type} {x : m α} {f : α → m β} {b : β} :
    x >>= f = pure b → ∃ a, x = pure a ∧ f a = pure b

namespace EndOfInput

/-- A reader has nothing to give. -/
def missing : EndOfInput Option where
  ended x := x = none
  pure_inj h := Option.some.inj h
  ended_bind f h := by rw [h]; rfl
  bind_eq_pure h := Option.bind_eq_some_iff.mp h

theorem exists_of_bind {α β : Type} {x : Except Fault α} {f : α → Except Fault β} {b : β}
    (h : x >>= f = pure b) : ∃ a, x = pure a ∧ f a = pure b :=
  Fault.bind_eq_ok.mp h

/-- The class file is truncated. -/
def truncation : EndOfInput (Except Fault) where
  ended x := ∃ f, x = .error f ∧ f.IsTruncation
  pure_inj h := Except.ok.inj h
  ended_bind g h := by
    obtain ⟨f, hx, hf⟩ := h
    exact ⟨f, by rw [hx]; rfl, hf⟩
  bind_eq_pure := exists_of_bind

/-- There is one fault for it. -/
def fault (short : Fault) : EndOfInput (Except Fault) where
  ended x := x = .error short
  pure_inj h := Except.ok.inj h
  ended_bind f h := congrArg (Except.bind · f) h
  bind_eq_pure := exists_of_bind

end EndOfInput

/-- Takes `bytes` off the front of every input, and notices when they are cut off. -/
structure Ends {m : Type → Type} [Monad m] (e : EndOfInput m) {α : Type} (p : StateT Bytes m α)
    (bytes : Bytes) (a : α) : Prop where
  reads : Reads p bytes a
  cut : ∀ front, front <+: bytes → front ≠ bytes → e.ended (p front)

/-- The bytes that are taken stand by themselves, whatever follows them. -/
def Delimited {m : Type → Type} [Monad m] (e : EndOfInput m) {α : Type} (p : StateT Bytes m α) :
    Prop :=
  ∀ s a rest, p s = pure (a, rest) → ∃ bytes, s = bytes ++ rest ∧ Ends e p bytes a

/-- A proper beginning of two pieces ends within the first one, or it is the first one and a proper
beginning of the second. -/
theorem cut_append {α : Type} {front xs ys : List α} (h : front <+: xs ++ ys)
    (hne : front ≠ xs ++ ys) :
    (front <+: xs ∧ front ≠ xs) ∨ ∃ part, front = xs ++ part ∧ part <+: ys ∧ part ≠ ys := by
  rcases Nat.lt_or_ge front.length xs.length with hlt | hge
  · have hpre := List.prefix_of_prefix_length_le h (List.prefix_append xs ys) (by omega)
    refine .inl ⟨hpre, fun heq => ?_⟩
    rw [heq] at hlt
    omega
  · obtain ⟨part, rfl⟩ :=
      List.prefix_of_prefix_length_le (List.prefix_append xs ys) h (by omega)
    exact .inr ⟨part, rfl, (List.prefix_append_right_inj xs).mp h, fun heq => hne (by rw [heq])⟩

theorem Ends.bind {m : Type → Type} [Monad m] [LawfulMonad m] {e : EndOfInput m} {α β : Type}
    {p : StateT Bytes m α} {f : α → StateT Bytes m β} {b₁ b₂ : Bytes} {a : α} {c : β}
    (hp : Ends e p b₁ a) (hf : Ends e (f a) b₂ c) : Ends e (p >>= f) (b₁ ++ b₂) c where
  reads := hp.reads.bind hf.reads
  cut front hfront hne := by
    show e.ended (p front >>= fun x => f x.1 x.2)
    rcases cut_append hfront hne with ⟨hpre, hne₁⟩ | ⟨part, rfl, hpre, hne₂⟩
    · exact e.ended_bind _ (hp.cut front hpre hne₁)
    · rw [hp.reads part, pure_bind]
      exact hf.cut part hpre hne₂

namespace Delimited

variable {m : Type → Type} [Monad m] {e : EndOfInput m} {α β : Type}

theorem of_length {p : StateT Bytes m α}
    (h : ∀ s a rest, p s = pure (a, rest) → ∃ bytes, s = bytes ++ rest ∧ Reads p bytes a ∧
      ∀ front : Bytes, front.length < bytes.length → e.ended (p front)) : Delimited e p := by
  intro s a rest hs
  obtain ⟨bytes, hbytes, hreads, hshort⟩ := h s a rest hs
  refine ⟨bytes, hbytes, hreads, fun front hfront hne => hshort front ?_⟩
  have hle := hfront.length_le
  have hlen : front.length ≠ bytes.length := fun heq => hne (hfront.eq_of_length heq)
  omega

theorem of_pure (a : α) : Delimited e (pure a : StateT Bytes m α) := by
  refine of_length fun s b rest hs => ?_
  have heq : (a, s) = (b, rest) := e.pure_inj hs
  cases heq
  exact ⟨[], rfl, Reads.of_pure a, fun _ h => absurd h (Nat.not_lt_zero _)⟩

theorem bind [LawfulMonad m] {p : StateT Bytes m α} {f : α → StateT Bytes m β}
    (hp : Delimited e p) (hf : ∀ a, Delimited e (f a)) : Delimited e (p >>= f) := by
  intro s c rest hs
  obtain ⟨⟨a, mid⟩, hps, hfs⟩ := e.bind_eq_pure hs
  obtain ⟨b₁, rfl, hp₁⟩ := hp s a mid hps
  obtain ⟨b₂, rfl, hf₂⟩ := hf a mid c rest hfs
  exact ⟨b₁ ++ b₂, (List.append_assoc ..).symm, hp₁.bind hf₂⟩

theorem length_le {p : StateT Bytes m α} (hp : Delimited e p) {s rest : Bytes} {a : α}
    (h : p s = pure (a, rest)) : rest.length ≤ s.length := by
  obtain ⟨bytes, hs, -⟩ := hp s a rest h
  rw [hs, List.length_append]
  omega

end Delimited

/-! ### Words and payloads -/

namespace Reader

theorem u1_delimited : Delimited .missing u1 := by
  refine Delimited.of_length fun s a rest hs => ⟨[a], u1_exact s a rest hs, u1_reads a, ?_⟩
  intro front hfront
  have hnil : front = [] := List.eq_nil_of_length_eq_zero (by simpa using hfront)
  rw [hnil]
  rfl

theorem u2_delimited : Delimited .missing u2 := by
  refine Delimited.of_length fun s w rest hs =>
    ⟨Bytes.ofU2 w, u2_exact s w rest hs, u2_reads w, ?_⟩
  intro front hfront
  match front, hfront with
  | [], _ | [_], _ => rfl

theorem u4_delimited : Delimited .missing u4 := by
  refine Delimited.of_length fun s w rest hs =>
    ⟨Bytes.ofU4 w, u4_exact s w rest hs, u4_reads w, ?_⟩
  intro front hfront
  match front, hfront with
  | [], _ | [_], _ | [_, _], _ | [_, _, _], _ => rfl

theorem take_delimited (n : Nat) : Delimited .missing (take n) := by
  refine Delimited.of_length fun s bytes rest hs => ?_
  obtain ⟨hbytes, rfl⟩ := take_eq_some hs
  refine ⟨bytes, hbytes, take_reads bytes, fun front hfront => ?_⟩
  have hshort : (front.take bytes.length).length ≠ bytes.length := by
    rw [List.length_take]
    omega
  exact if_neg hshort

end Reader

namespace Parser

variable {α : Type}

theorem fail_delimited {e : EndOfInput (Except Fault)} (f : Fault) :
    Delimited e (fail f : Parser α) := by
  intro s a rest hs
  cases hs

theorem reading_delimited (what : String) {r : Reader α} (h : Delimited .missing r) :
    Delimited .truncation (reading what r) := by
  intro s a rest hs
  obtain ⟨bytes, hbytes, hends⟩ := h s a rest (ofReader_eq_ok hs)
  refine ⟨bytes, hbytes, reads_reading what hends.reads, fun front hfront hne => ?_⟩
  have hnone : r front = none := hends.cut front hfront hne
  exact ⟨truncated what, by rw [reading, ofReader, hnone], rfl, rfl⟩

theorem ofReader_delimited (short : Fault) {r : Reader α} (h : Delimited .missing r) :
    Delimited (.fault short) (ofReader short r) := by
  intro s a rest hs
  obtain ⟨bytes, hbytes, hends⟩ := h s a rest (ofReader_eq_ok hs)
  refine ⟨bytes, hbytes, reads_ofReader short hends.reads, fun front hfront hne => ?_⟩
  have hnone : r front = none := hends.cut front hfront hne
  show ofReader short r front = .error short
  rw [ofReader, hnone]

theorem ofExcept_delimited (x : Except Fault α) : Delimited .truncation (ofExcept x) := by
  refine Delimited.of_length fun s a rest hs => ?_
  obtain ⟨he, hrest⟩ := ofExcept_eq_ok hs
  exact ⟨[], hrest, reads_ofExcept he, fun _ h => absurd h (Nat.not_lt_zero _)⟩

theorem within_delimited (label : String) {p : Parser α} (h : Delimited .truncation p) :
    Delimited .truncation (within label p) := by
  intro s a rest hs
  obtain ⟨bytes, hbytes, hends⟩ := h s a rest (within_eq_ok hs)
  refine ⟨bytes, hbytes, reads_within label hends.reads, fun front hfront hne => ?_⟩
  obtain ⟨f, hf, hkind, hcause⟩ := hends.cut front hfront hne
  exact ⟨.context label f, by rw [within, hf], hkind, hcause⟩

theorem itemsOnto_succ (item : Nat → Parser α) (n i : Nat) (acc : List α) :
    itemsOnto item (n + 1) i acc = item i >>= fun a => itemsOnto item n (i + 1) (a :: acc) := by
  funext s
  show itemsOnto item (n + 1) i acc s =
    Except.bind (item i s) fun x => itemsOnto item n (i + 1) (x.1 :: acc) x.2
  rw [itemsOnto]
  cases item i s <;> rfl

theorem itemsOnto_delimited {e : EndOfInput (Except Fault)} {item : Nat → Parser α}
    (hitem : ∀ i, Delimited e (item i)) (n i : Nat) (acc : List α) :
    Delimited e (itemsOnto item n i acc) := by
  induction n generalizing i acc with
  | zero => exact Delimited.of_pure acc.reverse
  | succ n ih =>
    rw [itemsOnto_succ]
    exact (hitem i).bind fun a => ih (i + 1) (a :: acc)

theorem items_delimited {e : EndOfInput (Except Fault)} {item : Nat → Parser α}
    (hitem : ∀ i, Delimited e (item i)) (n : Nat) : Delimited e (items n item) :=
  itemsOnto_delimited hitem n 0 []

end Parser

/-! ### The constant pool -/

namespace Constant

theorem readPair_delimited : Delimited .missing readPair :=
  Reader.u2_delimited.bind fun i => Reader.u2_delimited.bind fun j => Delimited.of_pure (i, j)

theorem readPayload_delimited (t : ConstantTag) : Delimited .missing (readPayload t) := by
  cases t with
  | utf8 =>
    exact Reader.u2_delimited.bind fun n => (Reader.take_delimited n.toNat).bind fun bytes =>
      Delimited.of_pure _
  | integer | float => exact Reader.u4_delimited.bind fun w => Delimited.of_pure _
  | long | double =>
    exact (Reader.u4_delimited.bind fun high => Reader.u4_delimited.bind fun low =>
      Delimited.of_pure (Bytes.joinU8 high low)).bind fun w => Delimited.of_pure _
  | classRef | string | methodType | module | package =>
    exact Reader.u2_delimited.bind fun i => Delimited.of_pure _
  | fieldref | methodref | interfaceMethodref | nameAndType | dynamic | invokeDynamic =>
    exact readPair_delimited.bind fun p => Delimited.of_pure _
  | methodHandle =>
    exact Reader.u1_delimited.bind fun kind => Reader.u2_delimited.bind fun i =>
      Delimited.of_pure _

theorem parser_delimited : Delimited .truncation parser := by
  refine (Parser.reading_delimited _ Reader.u1_delimited).bind fun code => ?_
  cases ConstantTag.ofCode? code with
  | none => exact Parser.fail_delimited _
  | some t => exact Parser.reading_delimited _ (readPayload_delimited t)

end Constant

namespace ConstantPool

theorem slotsOnto_succ (n i : Nat) (acc : List (Option Constant)) :
    slotsOnto (n + 1) i acc =
      Parser.within s!"failed to read constant pool entry {i}" Constant.parser >>= fun c =>
        if c.isWide then
          match n with
          | 0 => pure (some c :: acc).reverse
          | m + 1 => slotsOnto m (i + 2) (none :: some c :: acc)
        else slotsOnto n (i + 1) (some c :: acc) := by
  funext s
  show slotsOnto (n + 1) i acc s = Except.bind
    (Parser.within s!"failed to read constant pool entry {i}" Constant.parser s) _
  rw [slotsOnto, Parser.within]
  cases Constant.parser s with
  | error f => rfl
  | ok x =>
    obtain ⟨c, rest⟩ := x
    simp only [Except.bind]
    cases c.isWide with
    | false => rfl
    | true => cases n <;> rfl

theorem slotsOnto_delimited (n i : Nat) (acc : List (Option Constant)) :
    Delimited .truncation (slotsOnto n i acc) := by
  -- A wide entry uses up two slots at once, so the induction is on every smaller count.
  induction n using Nat.strongRecOn generalizing i acc with
  | ind n ih =>
    cases n with
    | zero => exact Delimited.of_pure acc.reverse
    | succ n =>
      rw [slotsOnto_succ]
      refine (Parser.within_delimited _ Constant.parser_delimited).bind fun c => ?_
      split
      · cases n with
        | zero => exact Delimited.of_pure _
        | succ n => exact ih n (by omega) (i + 2) _
      · exact ih n (by omega) (i + 1) _

theorem parser_delimited : Delimited .truncation parser := by
  refine (Parser.reading_delimited _ Reader.u2_delimited).bind fun count => ?_
  split
  · exact Parser.fail_delimited _
  · exact (slotsOnto_delimited _ 1 []).bind fun slots => Delimited.of_pure _

end ConstantPool

/-! ### Attributes and members -/

namespace Attribute

variable (decode : String → Bytes → Except Fault AttributeBody) (pool : ConstantPool)

theorem rawReader_delimited : Delimited .missing rawReader :=
  Reader.u2_delimited.bind fun nameIndex => Reader.u4_delimited.bind fun length =>
    (Reader.take_delimited length.toNat).bind fun info => Delimited.of_pure (nameIndex, info)

/-- Decoding takes no further bytes: it works on the bytes of the attribute alone. -/
theorem parserWith_delimited : Delimited .truncation (parserWith decode pool) := by
  refine (Parser.reading_delimited _ rawReader_delimited).bind fun ⟨nameIndex, info⟩ => ?_
  refine (Parser.within_delimited _ (Parser.ofExcept_delimited _)).bind fun name => ?_
  exact (Parser.ofExcept_delimited _).bind fun body => Delimited.of_pure _

theorem parserAllWith_delimited (owner : String) :
    Delimited .truncation (parserAllWith decode pool owner) := by
  refine (Parser.reading_delimited _ Reader.u2_delimited).bind fun count => ?_
  exact Parser.items_delimited
    (fun i => Parser.within_delimited _ (parserWith_delimited decode pool)) _

end Attribute

theorem memberHead_delimited : Delimited .missing memberHead :=
  Reader.u2_delimited.bind fun flags => Reader.u2_delimited.bind fun nameIndex =>
    Reader.u2_delimited.bind fun descriptorIndex =>
      Delimited.of_pure (flags, nameIndex, descriptorIndex)

theorem memberParser_delimited {α : Type} (kind : String) (pool : ConstantPool)
    (make : UInt16 → UInt16 → UInt16 → List Attribute → String → String → α) :
    Delimited .truncation (memberParser kind pool make) := by
  refine (Parser.reading_delimited _ memberHead_delimited).bind fun ⟨flags, i, j⟩ => ?_
  refine (Parser.within_delimited _ (Parser.ofExcept_delimited _)).bind fun name => ?_
  refine (Parser.within_delimited _ (Parser.ofExcept_delimited _)).bind fun descriptor => ?_
  exact (Attribute.parserAllWith_delimited _ pool _).bind fun attributes => Delimited.of_pure _

/-! ### The class file -/

namespace ClassFile

theorem magicParser_delimited : Delimited .truncation magicParser := by
  refine (Parser.reading_delimited _ Reader.u4_delimited).bind fun found => ?_
  split
  · exact Delimited.of_pure ()
  · exact Parser.fail_delimited _

theorem headReader_delimited : Delimited .missing Head.reader :=
  Reader.u2_delimited.bind fun flags => Reader.u2_delimited.bind fun thisClass =>
    Reader.u2_delimited.bind fun superClass => Reader.u2_delimited.bind fun interfaceCount =>
      Delimited.of_pure (Head.mk flags thisClass superClass interfaceCount)

theorem interfaceParser_delimited (pool : ConstantPool) (i : Nat) :
    Delimited .truncation (interfaceParser pool i) := by
  refine (Parser.reading_delimited _ Reader.u2_delimited).bind fun index => ?_
  exact (Parser.within_delimited _ (Parser.ofExcept_delimited _)).bind fun name =>
    Delimited.of_pure (index, name)

theorem superNameParser_delimited (pool : ConstantPool) (index : UInt16) :
    Delimited .truncation (superNameParser pool index) := by
  unfold superNameParser
  split
  · exact Delimited.of_pure ""
  · exact Parser.within_delimited _ (Parser.ofExcept_delimited _)

theorem parser_delimited : Delimited .truncation parser := by
  refine magicParser_delimited.bind fun _ => ?_
  refine (Parser.reading_delimited _ Constant.readPair_delimited).bind fun ⟨minor, major⟩ => ?_
  refine ConstantPool.parser_delimited.bind fun pool => ?_
  refine (Parser.reading_delimited _ headReader_delimited).bind fun head => ?_
  refine (Parser.within_delimited _ (Parser.ofExcept_delimited _)).bind fun name => ?_
  refine (superNameParser_delimited pool head.superClass).bind fun superName => ?_
  refine (Parser.items_delimited (interfaceParser_delimited pool) _).bind fun interfaces => ?_
  refine (Parser.reading_delimited _ Reader.u2_delimited).bind fun fieldCount => ?_
  have hfield := fun i : Nat => Parser.within_delimited s!"failed to read field {i}"
    (memberParser_delimited "field" pool Field.mk)
  refine (Parser.items_delimited hfield _).bind fun fields => ?_
  refine (Parser.reading_delimited _ Reader.u2_delimited).bind fun methodCount => ?_
  have hmethod := fun i : Nat => Parser.within_delimited s!"failed to read method {i}"
    (memberParser_delimited "method" pool Method.mk)
  refine (Parser.items_delimited hmethod _).bind fun methods => ?_
  exact (Attribute.parserAllWith_delimited _ pool _).bind fun attributes => Delimited.of_pure _

theorem parse_eq_ok {data : Bytes} {c : ClassFile} (h : parse data = .ok c) :
    parser data = .ok (c, []) := by
  unfold parse at h
  split at h
  · cases h
  · rename_i file hfile
    cases h
    exact hfile
  · cases h

/-- An accepted class file ends where its bytes end: it is truncated as soon as anything is missing
at its end, and whatever is added there is left over. -/
theorem parse_ends (data : Bytes) (c : ClassFile) (h : parse data = .ok c) :
    (∀ front, front <+: data → front ≠ data →
      ∃ f, parse front = .error f ∧ f.kind = .format ∧ f.cause? = some .truncated) ∧
    (∀ more, more ≠ [] →
      ∃ f, parse (data ++ more) = .error f ∧ f.kind = .format ∧ f.cause? = some .trailingData) := by
  obtain ⟨bytes, hbytes, hends⟩ := parser_delimited data c [] (parse_eq_ok h)
  rw [List.append_nil] at hbytes
  subst hbytes
  refine ⟨fun front hfront hne => ?_, fun more hmore => ?_⟩
  · obtain ⟨f, hf, hkind, hcause⟩ := hends.cut front hfront hne
    exact ⟨f, by rw [parse, hf], hkind, hcause⟩
  · obtain ⟨x, xs, rfl⟩ := List.exists_cons_of_ne_nil hmore
    have hrest := Parser.eq_ok_of_reads hends.reads (x :: xs)
    exact ⟨_, by rw [parse, hrest], rfl, rfl⟩

/-- Cut off inside the attribute that its code holds, the class file is truncated; with one byte
more, that byte is left over. -/
theorem parse_ends_unusual :
    ∃ c, parse unusual = .ok c ∧
      (∃ f, parse (unusual.take 90) = .error f ∧ f.kind = .format ∧ f.cause? = some .truncated) ∧
      (∃ f, parse (unusual ++ [0]) = .error f ∧ f.kind = .format ∧
        f.cause? = some .trailingData) := by
  have hcut : unusual.take 90 ≠ unusual := by decide
  have hends := parse_ends unusual _ rfl
  exact ⟨_, rfl, hends.1 _ (List.take_prefix 90 unusual) hcut, hends.2 [0] (by decide)⟩

end ClassFile

end Jvm
