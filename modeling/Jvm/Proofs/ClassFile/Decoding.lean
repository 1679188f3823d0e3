import Jvm.Proofs.ClassFile.EndOfInput

/-!
# Decoding attributes inside attributes

Decoding a method body decodes the attributes inside it, and these can be method bodies again.
`decodeBy` is one pass of this recursion, with a parameter for what the calls inside answer, and
`decodedIn` lists these calls, also when the whole fails in the end. Each is on an attribute that is
at least 18 bytes shorter: ten bytes stand before the attributes of a method body, two are their
count and six open each of them. So the bound on the nesting is never met, and the attributes of a
method body are decoded by `decode` itself.
-/

namespace Jvm

namespace Parser

variable {α β : Type}

theorem map_eq_ok {f : α → β} {p : Parser α} {s rest : Bytes} {b : β}
    (h : (f <$> p) s = .ok (b, rest)) : ∃ a, p s = .ok (a, rest) ∧ f a = b := by
  obtain ⟨a, mid, hp, h⟩ := bind_eq_ok (p := p) (f := fun a => pure (f a)) h
  cases h
  exact ⟨a, hp, rfl⟩

theorem eq_ok_of_lookup {label : String} {e : Except Fault α} {s rest : Bytes} {a : α}
    (h : within label (ofExcept e) s = .ok (a, rest)) : e = .ok a :=
  (ofExcept_eq_ok (within_eq_ok h)).1

theorem bind_agree {p : Parser α} {f g : α → Parser β} {s : Bytes}
    (h : ∀ a mid, p s = .ok (a, mid) → f a mid = g a mid) : (p >>= f) s = (p >>= g) s := by
  show Except.bind (p s) (fun x => f x.1 x.2) = Except.bind (p s) (fun x => g x.1 x.2)
  cases hp : p s with
  | error e => rfl
  | ok x => exact h x.1 x.2 hp

theorem mem_itemsOnto {e : EndOfInput (Except Fault)} {item : Nat → Parser α}
    (hitem : ∀ i, Delimited e (item i)) (n i : Nat) (acc as : List α) (s rest : Bytes)
    (h : itemsOnto item n i acc s = .ok (as, rest)) (a : α) (ha : a ∈ as) :
    a ∈ acc ∨ ∃ j s' rest', s'.length ≤ s.length ∧ item j s' = .ok (a, rest') := by
  induction n generalizing i acc s with
  | zero =>
    cases h
    exact .inl (List.mem_reverse.mp ha)
  | succ n ih =>
    rw [itemsOnto_succ] at h
    obtain ⟨b, mid, hb, h⟩ := bind_eq_ok h
    have hmid : mid.length ≤ s.length := (hitem i).length_le hb
    rcases ih (i + 1) (b :: acc) mid h with hacc | ⟨j, s', rest', hlen, hj⟩
    · rcases List.mem_cons.mp hacc with rfl | hacc
      · exact .inr ⟨i, s, mid, Nat.le_refl _, hb⟩
      · exact .inl hacc
    · exact .inr ⟨j, s', rest', Nat.le_trans hlen hmid, hj⟩

theorem mem_items {e : EndOfInput (Except Fault)} {item : Nat → Parser α}
    (hitem : ∀ i, Delimited e (item i)) {n : Nat} {as : List α} {s rest : Bytes}
    (h : items n item s = .ok (as, rest)) {a : α} (ha : a ∈ as) :
    ∃ j s' rest', s'.length ≤ s.length ∧ item j s' = .ok (a, rest') := by
  rcases mem_itemsOnto hitem n 0 [] as s rest h a ha with hnil | hread
  · exact absurd hnil List.not_mem_nil
  · exact hread

end Parser

/-! ### The bytes before the attributes of a method body -/

theorem Reader.itemsOnto_succ {α : Type} (item : Reader α) (n : Nat) (acc : List α) :
    itemsOnto item (n + 1) acc = item >>= fun a => itemsOnto item n (a :: acc) := by
  funext s
  show itemsOnto item (n + 1) acc s =
    Option.bind (item s) fun x => itemsOnto item n (x.1 :: acc) x.2
  rw [itemsOnto]
  cases item s <;> rfl

theorem Reader.itemsOnto_delimited {α : Type} {item : Reader α} (hitem : Delimited .missing item)
    (n : Nat) (acc : List α) : Delimited .missing (itemsOnto item n acc) := by
  induction n generalizing acc with
  | zero => exact Delimited.of_pure acc.reverse
  | succ n ih =>
    rw [itemsOnto_succ]
    exact hitem.bind fun a => ih (a :: acc)

theorem ExceptionHandler.reader_delimited : Delimited .missing reader :=
  Reader.u2_delimited.bind fun start => Reader.u2_delimited.bind fun stop =>
    Reader.u2_delimited.bind fun handler => Reader.u2_delimited.bind fun catchType =>
      Delimited.of_pure (ExceptionHandler.mk start stop handler catchType)

theorem Code.headReader_length {s rest : Bytes} {head : Code.Head}
    (h : Code.Head.reader s = some (head, rest)) : rest.length + 10 ≤ s.length := by
  obtain ⟨maxStack, r1, h1, h⟩ := Reader.bind_eq_some h
  obtain ⟨maxLocals, r2, h2, h⟩ := Reader.bind_eq_some h
  obtain ⟨length, r3, h3, h⟩ := Reader.bind_eq_some h
  obtain ⟨bytes, r4, h4, h⟩ := Reader.bind_eq_some h
  obtain ⟨handlers, r5, h5, h⟩ := Reader.bind_eq_some h
  obtain ⟨count, r6, h6, h5⟩ := Reader.bind_eq_some h5
  cases h
  rw [Reader.u2_exact s maxStack r1 h1, Reader.u2_exact r1 maxLocals r2 h2,
    Reader.u4_exact r2 length r3 h3, (Reader.take_eq_some h4).1, Reader.u2_exact r4 count r6 h6]
  have hrows : rest.length ≤ r6.length :=
    (Reader.itemsOnto_delimited ExceptionHandler.reader_delimited _ _).length_le h5
  simp only [List.length_append, Bytes.length_ofU2, Bytes.length_ofU4]
  omega

namespace Attribute

section

variable {decode decode' : String → Bytes → Except Fault AttributeBody} {pool : ConstantPool}

theorem length_encode (a : Attribute) : a.encode.length = a.info.length + 6 := by
  simp [encode]
  omega

theorem parserWith_eq_ok {s rest : Bytes} {a : Attribute}
    (h : parserWith decode pool s = .ok (a, rest)) :
    pool.utf8 a.nameIndex = .ok a.name ∧ decode a.name a.info = .ok a.body ∧
      a.info.length + 6 ≤ s.length := by
  have hlen : a.info.length + 6 ≤ s.length := by
    rw [parserWith_exact decode pool s a rest h, List.length_append, length_encode]
    omega
  obtain ⟨⟨nameIndex, info⟩, r1, -, h⟩ := Parser.bind_eq_ok h
  obtain ⟨name, r2, hname, h⟩ := Parser.bind_eq_ok h
  obtain ⟨body, r3, hbody, h⟩ := Parser.bind_eq_ok h
  cases h
  exact ⟨Parser.eq_ok_of_lookup hname, (Parser.ofExcept_eq_ok hbody).1, hlen⟩

theorem mem_parserAllWith {owner : String} {s rest : Bytes} {as : List Attribute}
    (h : parserAllWith decode pool owner s = .ok (as, rest)) {a : Attribute} (ha : a ∈ as) :
    pool.utf8 a.nameIndex = .ok a.name ∧ decode a.name a.info = .ok a.body ∧
      a.info.length + 8 ≤ s.length := by
  obtain ⟨count, mid, hcount, h⟩ := Parser.bind_eq_ok h
  have hs := Reader.u2_exact s count mid (Parser.ofReader_eq_ok hcount)
  obtain ⟨j, s', rest', hlen, hj⟩ := Parser.mem_items
    (fun i => Parser.within_delimited _ (parserWith_delimited decode pool)) h ha
  obtain ⟨hname, hbody, ha6⟩ := parserWith_eq_ok (Parser.within_eq_ok hj)
  refine ⟨hname, hbody, ?_⟩
  rw [hs, List.length_append, Bytes.length_ofU2]
  omega

theorem mem_codeParserWith {s rest : Bytes} {code : Code}
    (h : codeParserWith decode pool s = .ok (code, rest)) {a : Attribute}
    (ha : a ∈ code.attributes) :
    pool.utf8 a.nameIndex = .ok a.name ∧ decode a.name a.info = .ok a.body ∧
      a.info.length + 18 ≤ s.length := by
  obtain ⟨head, r1, hhead, h⟩ := Parser.bind_eq_ok h
  obtain ⟨attributes, r2, hattributes, h⟩ := Parser.bind_eq_ok h
  cases h
  have hr1 := Code.headReader_length (Parser.ofReader_eq_ok hhead)
  obtain ⟨hname, hbody, ha8⟩ := mem_parserAllWith (Parser.within_eq_ok hattributes) ha
  exact ⟨hname, hbody, by omega⟩

end

/-! ### The calls inside a call -/

/-- An attribute that is still to be decoded: its name and its bytes. -/
structure Raw where
  name : String
  info : Bytes
  deriving Repr, DecidableEq

def raw (a : Attribute) : Raw := ⟨a.name, a.info⟩

/-- Reads the next attribute up to the point where it is decoded. -/
def Raw.reader (pool : ConstantPool) : Reader Raw := fun s =>
  match rawReader s with
  | none => none
  | some ((nameIndex, info), rest) =>
    match pool.utf8 nameIndex with
    | .error _ => none
    | .ok name => some (⟨name, info⟩, rest)

/-- Reads a method body up to its first attribute and answers how many there are. -/
def codeCount : Reader UInt16 := do
  let _ ← Code.Head.reader
  Reader.u2

section

variable (nested : String → Bytes → Except Fault AttributeBody) (pool : ConstantPool)

/-- The attributes that are decoded among the next `n`, in order, when `nested` decodes them. The
first one that cannot be read or decoded is the end of it. -/
def decodedAmong : Nat → Bytes → List Raw
  | 0, _ => []
  | n + 1, s =>
    match Raw.reader pool s with
    | none => []
    | some (a, rest) =>
      a :: match nested a.name a.info with
        | .error _ => []
        | .ok _ => decodedAmong n rest

/-- The attributes that are decoded in the course of decoding `a`, when `nested` decodes them. -/
def decodedIn (a : Raw) : List Raw :=
  if a.name = "Code" then
    match codeCount a.info with
    | none => []
    | some (count, rest) => decodedAmong nested pool count.toNat rest
  else []

/-- Decodes an attribute, with `nested` for the attributes inside a method body. All others are
decoded without a look inside. -/
def decodeBy (a : Raw) : Except Fault AttributeBody :=
  if a.name = "Code" then whole "Code" (.code <$> codeParserWith nested pool) a.info
  else decodeWithin pool 1 a.name a.info

end

/-! ### One attribute among others -/

theorem parserWith_apply (nested : String → Bytes → Except Fault AttributeBody)
    (pool : ConstantPool) (s : Bytes) :
    parserWith nested pool s = match rawReader s with
      | none => .error (Parser.truncated "attribute")
      | some ((nameIndex, info), rest) =>
        match pool.utf8 nameIndex with
        | .error f => .error (.context "attribute name" f)
        | .ok name =>
          match nested name info with
          | .error f => .error f
          | .ok body => .ok (⟨nameIndex, name, info, body⟩, rest) := by
  show Except.bind (Parser.ofReader (Parser.truncated "attribute") rawReader s) _ = _
  rw [Parser.ofReader]
  cases hraw : rawReader s with
  | none => rfl
  | some x =>
    obtain ⟨⟨nameIndex, info⟩, rest⟩ := x
    show Except.bind (Parser.within _ (Parser.ofExcept (pool.utf8 nameIndex)) rest) _ = _
    dsimp only
    cases pool.utf8 nameIndex with
    | error f => rfl
    | ok name =>
      show Except.bind (Parser.ofExcept (nested name info) rest) _ = _
      dsimp only
      cases nested name info <;> rfl

/-- An attribute fails before it is decoded, or what it decodes to decides about it. -/
theorem parserWith_cases (pool : ConstantPool) (s : Bytes) :
    (Raw.reader pool s = none ∧ ∃ f, ∀ nested, parserWith nested pool s = .error f) ∨
    ∃ a rest nameIndex, Raw.reader pool s = some (a, rest) ∧
      ∀ nested, parserWith nested pool s = match nested a.name a.info with
        | .error f => .error f
        | .ok body => .ok (⟨nameIndex, a.name, a.info, body⟩, rest) := by
  simp only [parserWith_apply, Raw.reader]
  cases rawReader s with
  | none => exact .inl ⟨rfl, _, fun _ => rfl⟩
  | some x =>
    obtain ⟨⟨nameIndex, info⟩, rest⟩ := x
    dsimp only
    cases pool.utf8 nameIndex with
    | error f => exact .inl ⟨rfl, _, fun _ => rfl⟩
    | ok name => exact .inr ⟨⟨name, info⟩, rest, nameIndex, rfl, fun _ => rfl⟩

theorem Raw.reader_length {pool : ConstantPool} {s rest : Bytes} {a : Raw}
    (h : Raw.reader pool s = some (a, rest)) : a.info.length + rest.length + 6 = s.length := by
  unfold Raw.reader at h
  split at h
  · cases h
  · rename_i nameIndex info rest' hraw
    split at h
    · cases h
    · cases h
      rw [rawReader_eq_some hraw]
      simp only [List.length_append, Bytes.length_ofU2, Bytes.length_ofU4]
      omega

/-! ### The attributes of a method body -/

section

variable {nested other : String → Bytes → Except Fault AttributeBody} {pool : ConstantPool}
  {n : Nat} {s rest : Bytes} {a : Raw}

theorem decodedAmong_of_none (h : Raw.reader pool s = none) :
    decodedAmong nested pool n s = [] := by
  cases n with
  | zero => rfl
  | succ n => rw [decodedAmong, h]

theorem decodedAmong_of_error {f : Fault} (h : Raw.reader pool s = some (a, rest))
    (hbody : nested a.name a.info = .error f) : decodedAmong nested pool (n + 1) s = [a] := by
  rw [decodedAmong, h]
  dsimp only
  rw [hbody]

theorem decodedAmong_of_ok {body : AttributeBody} (h : Raw.reader pool s = some (a, rest))
    (hbody : nested a.name a.info = .ok body) :
    decodedAmong nested pool (n + 1) s = a :: decodedAmong nested pool n rest := by
  rw [decodedAmong, h]
  dsimp only
  rw [hbody]

theorem mem_decodedAmong (h : a ∈ decodedAmong nested pool n s) :
    a.info.length + 6 ≤ s.length := by
  induction n generalizing s with
  | zero => cases h
  | succ n ih =>
    cases hreader : Raw.reader pool s with
    | none =>
      rw [decodedAmong_of_none hreader] at h
      cases h
    | some x =>
      obtain ⟨b, rest⟩ := x
      have hlength := Raw.reader_length hreader
      cases hbody : nested b.name b.info with
      | error f =>
        rw [decodedAmong_of_error hreader hbody] at h
        obtain rfl := List.mem_singleton.mp h
        omega
      | ok body =>
        rw [decodedAmong_of_ok hreader hbody] at h
        rcases List.mem_cons.mp h with rfl | h
        · omega
        · have hrest := ih h
          omega

/-- Attributes are read alike by decoders that agree on those that are decoded. -/
theorem itemsOnto_congr (label : Nat → String) (i : Nat) (acc : List Attribute)
    (h : ∀ a ∈ decodedAmong nested pool n s, other a.name a.info = nested a.name a.info) :
    Parser.itemsOnto (fun i => Parser.within (label i) (parserWith other pool)) n i acc s =
      Parser.itemsOnto (fun i => Parser.within (label i) (parserWith nested pool)) n i acc s := by
  induction n generalizing i acc s with
  | zero => rfl
  | succ n ih =>
    rw [Parser.itemsOnto, Parser.itemsOnto, Parser.within, Parser.within]
    rcases parserWith_cases pool s with ⟨-, f, hfails⟩ | ⟨a, rest, nameIndex, hreader, hreads⟩
    · rw [hfails, hfails]
    · rw [hreads, hreads]
      cases hbody : nested a.name a.info with
      | error f =>
        rw [decodedAmong_of_error hreader hbody] at h
        rw [h a (List.mem_singleton_self a), hbody]
      | ok body =>
        rw [decodedAmong_of_ok hreader hbody] at h
        obtain ⟨ha, hrest⟩ := List.forall_mem_cons.mp h
        rw [ha, hbody]
        exact ih (i + 1) _ hrest

theorem map_raw_of_itemsOnto {label : Nat → String} {i : Nat} {acc as : List Attribute}
    (h : Parser.itemsOnto (fun i => Parser.within (label i) (parserWith nested pool)) n i acc s =
      .ok (as, rest)) :
    as.map raw = acc.reverse.map raw ++ decodedAmong nested pool n s := by
  induction n generalizing i acc s with
  | zero =>
    cases h
    rw [decodedAmong, List.append_nil]
  | succ n ih =>
    rw [Parser.itemsOnto, Parser.within] at h
    rcases parserWith_cases pool s with ⟨-, f, hfails⟩ | ⟨a, mid, nameIndex, hreader, hreads⟩
    · rw [hfails] at h
      cases h
    · rw [hreads] at h
      cases hbody : nested a.name a.info with
      | error f =>
        rw [hbody] at h
        cases h
      | ok body =>
        rw [hbody] at h
        rw [decodedAmong_of_ok hreader hbody, ih h, List.reverse_cons, List.map_append,
          List.append_assoc]
        rfl

/-! ### Method bodies -/

theorem codeCount_eq_some {info mid rest : Bytes} {head : Code.Head} {count : UInt16}
    (hhead : Code.Head.reader info = some (head, mid))
    (hcount : Reader.u2 mid = some (count, rest)) : codeCount info = some (count, rest) := by
  show (Code.Head.reader info).bind (fun x => Reader.u2 x.2) = _
  rw [hhead]
  exact hcount

theorem codeCount_length {info rest : Bytes} {count : UInt16}
    (h : codeCount info = some (count, rest)) : rest.length + 12 ≤ info.length := by
  obtain ⟨head, mid, hhead, hcount⟩ := Reader.bind_eq_some h
  have hmid := Code.headReader_length hhead
  rw [Reader.u2_exact mid count rest hcount, List.length_append, Bytes.length_ofU2] at hmid
  omega

theorem decodedIn_code {info rest : Bytes} {count : UInt16}
    (h : codeCount info = some (count, rest)) :
    decodedIn nested pool ⟨"Code", info⟩ = decodedAmong nested pool count.toNat rest := by
  rw [decodedIn, if_pos rfl, h]

/-- Ten bytes stand before the attributes of a method body, two are their count and six open each
of them. -/
theorem mem_decodedIn {b : Raw} (h : b ∈ decodedIn nested pool a) :
    b.info.length + 18 ≤ a.info.length := by
  unfold decodedIn at h
  split at h
  · split at h
    · cases h
    · rename_i count rest hcount
      have hrest := codeCount_length hcount
      have hb := mem_decodedAmong h
      omega
  · cases h

theorem whole_congr {p q : Parser AttributeBody} {info : Bytes} (h : p info = q info)
    (name : String) : whole name p info = whole name q info := by
  rw [whole, whole, h]

theorem codeParserWith_congr {info : Bytes}
    (h : ∀ b ∈ decodedIn nested pool ⟨"Code", info⟩, other b.name b.info = nested b.name b.info) :
    codeParserWith other pool info = codeParserWith nested pool info := by
  refine Parser.bind_agree fun head mid hhead => ?_
  have hattributes :
      parserAllWith other pool "Code" mid = parserAllWith nested pool "Code" mid := by
    refine Parser.bind_agree fun count rest hcount => itemsOnto_congr _ 0 [] ?_
    rwa [decodedIn_code (codeCount_eq_some (Parser.ofReader_eq_ok hhead)
      (Parser.ofReader_eq_ok hcount))] at h
  show Except.bind (Parser.within "nested" (parserAllWith other pool "Code") mid) _ =
    Except.bind (Parser.within "nested" (parserAllWith nested pool "Code") mid) _
  rw [Parser.within, Parser.within, hattributes]

/-- The outcome of decoding an attribute hangs on nothing but the attributes decoded on the way. -/
theorem decodeBy_congr
    (h : ∀ b ∈ decodedIn nested pool a, other b.name b.info = nested b.name b.info) :
    decodeBy other pool a = decodeBy nested pool a := by
  obtain ⟨name, info⟩ := a
  by_cases hname : name = "Code"
  · subst hname
    rw [decodeBy, decodeBy, if_pos rfl, if_pos rfl]
    refine whole_congr ?_ "Code"
    show Except.bind (codeParserWith other pool info) _ =
      Except.bind (codeParserWith nested pool info) _
    rw [codeParserWith_congr h]
  · rw [decodeBy, decodeBy, if_neg hname, if_neg hname]

end

/-! ### One decoder for every depth -/

theorem whole_eq_ok {name : String} {p : Parser AttributeBody} {info : Bytes}
    {body : AttributeBody} (h : whole name p info = .ok body) : p info = .ok (body, []) := by
  unfold whole at h
  split at h
  · cases h
  · rename_i hp
    cases h
    exact hp
  · cases h

theorem whole_eq {name : String} {p : Parser AttributeBody} {info : Bytes} {body : AttributeBody}
    (h : Reads p info body) : whole name p info = .ok body := by
  have hread := Parser.eq_ok_of_reads h []
  rw [List.append_nil] at hread
  rw [whole, hread]

theorem decodeWithin_succ_of_ne (pool : ConstantPool) (depth : Nat) {name : String}
    (h : name ≠ "Code") (info : Bytes) :
    decodeWithin pool (depth + 1) name info = decodeWithin pool 1 name info := by
  simp only [decodeWithin, if_neg h]

theorem decodeWithin_succ (pool : ConstantPool) (depth : Nat) (name : String) (info : Bytes) :
    decodeWithin pool (depth + 1) name info =
      decodeBy (decodeWithin pool depth) pool ⟨name, info⟩ := by
  by_cases h : name = "Code"
  · subst h
    rw [decodeBy, if_pos rfl, decodeWithin, if_neg (by decide), if_pos rfl]
  · rw [decodeBy, if_neg h, decodeWithin_succ_of_ne pool depth h]

/-- The bound on the nesting does not matter once it exceeds an eighteenth of the bytes. -/
theorem decodeWithin_stable (pool : ConstantPool) (d d' : Nat) (name : String) (info : Bytes)
    (h : info.length / 18 < d) (h' : info.length / 18 < d') :
    decodeWithin pool d name info = decodeWithin pool d' name info := by
  -- Both bounds go down by one at each method body, and the bytes by 18.
  induction d generalizing d' name info with
  | zero => omega
  | succ d ih =>
    cases d' with
    | zero => omega
    | succ d' =>
      rw [decodeWithin_succ, decodeWithin_succ]
      refine decodeBy_congr fun b hb => ?_
      have hlength : b.info.length + 18 ≤ info.length := mem_decodedIn hb
      exact ih d' b.name b.info (by omega) (by omega)

theorem decodeWithin_eq_decode {pool : ConstantPool} {d : Nat} {info : Bytes}
    (h : info.length / 18 < d) (name : String) :
    decodeWithin pool d name info = decode pool name info :=
  decodeWithin_stable pool d (info.length + 1) name info h (by omega)

theorem decode_eq_decodeBy (pool : ConstantPool) (a : Raw) :
    decode pool a.name a.info = decodeBy (decode pool) pool a := by
  rw [decode, decodeWithin_succ]
  refine (decodeBy_congr fun b hb => ?_).symm
  have hlength : b.info.length + 18 ≤ a.info.length := mem_decodedIn hb
  exact (decodeWithin_eq_decode (by omega) b.name).symm

theorem decode_code (pool : ConstantPool) (info : Bytes) :
    decode pool "Code" info = whole "Code" (.code <$> codeParserWith (decode pool) pool) info := by
  rw [decode_eq_decodeBy pool ⟨"Code", info⟩, decodeBy, if_pos rfl]

theorem codeParserWith_of_decodeWithin {pool : ConstantPool} {d : Nat} {name : String}
    {info : Bytes} {code : Code} (h : decodeWithin pool (d + 1) name info = .ok (.code code)) :
    name = "Code" ∧ codeParserWith (decodeWithin pool d) pool info = .ok (code, []) := by
  unfold decodeWithin at h
  split at h
  · obtain ⟨i, -, hbody⟩ := Parser.map_eq_ok (whole_eq_ok h)
    cases hbody
  split at h
  · rename_i hname
    obtain ⟨code', hcode, hbody⟩ := Parser.map_eq_ok (whole_eq_ok h)
    cases hbody
    exact ⟨hname, hcode⟩
  split at h
  · obtain ⟨frames, -, hbody⟩ := Parser.map_eq_ok (whole_eq_ok h)
    cases hbody
  split at h
  · obtain ⟨classes, -, hbody⟩ := Parser.map_eq_ok (whole_eq_ok h)
    cases hbody
  split at h
  · obtain ⟨methods, -, hbody⟩ := Parser.map_eq_ok (whole_eq_ok h)
    cases hbody
  · cases h

/-- What decodes to a method body holds attributes that are at least 18 bytes shorter, each with the
name that its index stands for and the body that its own bytes decode to. -/
theorem mem_code_of_decode {pool : ConstantPool} {name : String} {info : Bytes} {code : Code}
    (h : decode pool name info = .ok (.code code)) {a : Attribute} (ha : a ∈ code.attributes) :
    pool.utf8 a.nameIndex = .ok a.name ∧ decode pool a.name a.info = .ok a.body ∧
      a.info.length + 18 ≤ info.length := by
  obtain ⟨hname, hbody, hlen⟩ := mem_codeParserWith (codeParserWith_of_decodeWithin h).2 ha
  rw [decodeWithin_eq_decode (by omega)] at hbody
  exact ⟨hname, hbody, hlen⟩

theorem decodedIn_of_decode {pool : ConstantPool} {a : Raw} {code : Code}
    (h : decode pool a.name a.info = .ok (.code code)) :
    decodedIn (decode pool) pool a = code.attributes.map raw := by
  obtain ⟨name, info⟩ := a
  obtain ⟨rfl, -⟩ := codeParserWith_of_decodeWithin h
  rw [decode_code] at h
  obtain ⟨code', hcode, hbody⟩ := Parser.map_eq_ok (whole_eq_ok h)
  cases hbody
  obtain ⟨head, mid, hhead, hcode⟩ := Parser.bind_eq_ok hcode
  obtain ⟨attributes, rest, hattributes, hcode⟩ := Parser.bind_eq_ok hcode
  cases hcode
  obtain ⟨count, rest', hcount, hitems⟩ := Parser.bind_eq_ok (Parser.within_eq_ok hattributes)
  rw [decodedIn_code (codeCount_eq_some (Parser.ofReader_eq_ok hhead)
    (Parser.ofReader_eq_ok hcount))]
  exact (map_raw_of_itemsOnto hitems).symm

end Attribute

end Jvm
