import Jvm.Proofs.ClassFile.Decoding

/-!
# Accepted class files are resolved

Everything that a class file keeps beside its indices and raw bytes is what the finished constant
pool gives for them: the names of the class, its superclass, its interfaces and its members, and the
name and body of every attribute, however deep it stands inside method bodies. The pool itself has
the declared number of slots, and the empty ones are slot 0 and the slots after wide entries.
-/

namespace Jvm

/-! ### Pools that were read -/

namespace Constant

theorem fits_of_readPayload {t : ConstantTag} {s rest : Bytes} {c : Constant}
    (h : readPayload t s = some (c, rest)) : c.Fits := by
  have htag := (readPayload_exact t s rest c h).1
  cases c with
  | utf8 value raw =>
    have ht : t = .utf8 := htag.symm
    subst ht
    obtain ⟨n, mid, -, h⟩ := Reader.bind_eq_some h
    obtain ⟨bytes, mid', hbytes, h⟩ := Reader.bind_eq_some h
    have hlen := (Reader.take_eq_some hbytes).2
    have hn := n.toNat_lt
    cases h
    rw [Fits, utf8Bytes, if_pos rfl]
    omega
  | _ => trivial

theorem parser_fits {s rest : Bytes} {c : Constant} (h : parser s = .ok (c, rest)) :
    c.Fits := by
  obtain ⟨code, mid, -, h⟩ := Parser.bind_eq_ok h
  cases ht : ConstantTag.ofCode? code with
  | none =>
    simp only [ht] at h
    cases h
  | some t =>
    simp only [ht] at h
    exact fits_of_readPayload (Parser.ofReader_eq_ok h)

end Constant

namespace ConstantPool

theorem slotsOnto_fits (n i : Nat) (acc out : List (Option Constant)) (s rest : Bytes)
    (h : slotsOnto n i acc s = .ok (out, rest)) (hacc : ∀ c, some c ∈ acc → c.Fits) (c : Constant)
    (hc : some c ∈ out) : c.Fits := by
  induction n using Nat.strongRecOn generalizing i acc s with
  | ind n ih =>
    cases n with
    | zero =>
      cases h
      exact hacc c (List.mem_reverse.mp hc)
    | succ n =>
      rw [slotsOnto_succ] at h
      obtain ⟨d, mid, hd, h⟩ := Parser.bind_eq_ok h
      have hfits : d.Fits := Constant.parser_fits (Parser.within_eq_ok hd)
      have hcons : ∀ c, some c ∈ some d :: acc → c.Fits := by
        intro e he
        rcases List.mem_cons.mp he with heq | hmem
        · cases heq
          exact hfits
        · exact hacc e hmem
      split at h
      · cases n with
        | zero =>
          cases h
          exact hcons c (List.mem_reverse.mp hc)
        | succ n =>
          exact ih n (by omega) (i + 2) (none :: some d :: acc) mid h (by simpa using hcons)
      · exact ih n (by omega) (i + 1) (some d :: acc) mid h hcons

/-- Empty slots are those after wide entries, as long as no wide entry stands before the first. -/
theorem Spaced.gap {slots : List (Option Constant)} (h : Spaced slots) (before : Option Constant)
    (hbefore : before.any Constant.isWide = false) (i : Nat) (hi : i < slots.length) :
    slots[i]? = some none ↔ (before :: slots)[i]?.join.any Constant.isWide = true := by
  induction h generalizing before i with
  | nil => exact absurd hi (Nat.not_lt_zero i)
  | @narrow c rest hc hrest ih =>
    cases i with
    | zero => simp [hbefore]
    | succ i => simpa using ih (some c) hc i (by simpa using hi)
  | @wide c rest hc hrest ih =>
    -- Behind the empty slot of a wide entry it starts afresh, with no entry before.
    match i with
    | 0 => simp [hbefore]
    | 1 => simp [hc]
    | i + 2 => simpa using ih none rfl i (by simpa using hi)
  | @last c hc =>
    have hzero : i = 0 := by simpa using hi
    simp [hzero, hbefore]

/-- A pool that was read has the declared number of slots and the form of a pool in a class file. -/
theorem parser_wellFormed {s rest : Bytes} {p : ConstantPool} (h : parser s = .ok (p, rest)) :
    p.WellFormed ∧ ∃ declared more, s = Bytes.ofU2 declared ++ more ∧ p.count = declared.toNat := by
  obtain ⟨count, mid, hcount, h⟩ := Parser.bind_eq_ok h
  have hs := Reader.u2_exact s count mid (Parser.ofReader_eq_ok hcount)
  split at h
  · cases h
  rename_i hzero
  obtain ⟨slots, mid', hslots, h⟩ := Parser.bind_eq_ok h
  cases h
  obtain ⟨new, hnew, hlen, hspaced, -⟩ := slotsOnto_exact _ _ _ _ _ _ hslots
  have hnew' : slots = new := by simpa using hnew
  subst hnew'
  have hpos : count.toNat ≠ 0 := fun h0 => hzero (UInt16.toNat_inj.mp h0)
  have hsize : ConstantPool.count ⟨(none :: slots).toArray⟩ = count.toNat := by
    rw [ConstantPool.count, List.size_toArray, List.length_cons, hlen]
    omega
  have hlt := count.toNat_lt
  refine ⟨⟨by omega, by simp, fun i hi hne => ?_, fun c hc => ?_⟩, count, mid, hs, hsize⟩
  · obtain ⟨i, rfl⟩ := Nat.exists_eq_succ_of_ne_zero hne
    have hi' : i < slots.length := by omega
    simpa [wideAt] using hspaced.gap none rfl i hi'
  · have hmem : some c ∈ slots := by simpa using hc
    exact slotsOnto_fits _ _ _ _ _ _ hslots (by simp) c hmem

theorem usable_iff (p : ConstantPool) (index : UInt16) :
    p.usable index = true ↔ ∃ c, p.entry index = .ok c := by
  have hcount : p.count ≤ index.toNat → p.slot? index = none := by
    intro hle
    rw [slot?, Array.getElem?_eq_none hle]
    rfl
  unfold usable entry
  split
  · rename_i hout
    have hunusable : ¬((index ≠ 0 && (p.slot? index).isSome) = true) := by
      rcases hout with hzero | hle
      · simp [hzero]
      · simp [hcount hle]
    constructor
    · exact fun h => absurd h hunusable
    · rintro ⟨c, hc⟩
      cases hc
  · rename_i hin
    have hne : index ≠ 0 := fun hzero => hin (.inl hzero)
    cases p.slot? index <;> simp [hne]

end ConstantPool

/-! ### Attributes and members that were read -/

namespace Attribute

/-- An attribute that has the name its index stands for and the body its bytes decode to, and so
have all attributes inside of it. -/
inductive Resolved (pool : ConstantPool) : Attribute → Prop
  | intro {a : Attribute} (name : pool.utf8 a.nameIndex = .ok a.name)
      (body : decode pool a.name a.info = .ok a.body)
      (nested : ∀ code, a.body = .code code → ∀ b ∈ code.attributes, Resolved pool b) :
      Resolved pool a

theorem resolved_of_decode {pool : ConstantPool} (a : Attribute)
    (hname : pool.utf8 a.nameIndex = .ok a.name) (hbody : decode pool a.name a.info = .ok a.body) :
    a.Resolved pool := by
  -- The attributes inside are shorter, whatever depth they stand at.
  induction hn : a.info.length using Nat.strongRecOn generalizing a with
  | ind n ih =>
    refine .intro hname hbody fun code hcode b hb => ?_
    rw [hcode] at hbody
    obtain ⟨hbname, hbbody, hlen⟩ := mem_code_of_decode hbody hb
    exact ih b.info.length (by omega) b hbname hbbody rfl

theorem resolved_of_parserAll {pool : ConstantPool} {owner : String} {s rest : Bytes}
    {as : List Attribute} (h : parserAll pool owner s = .ok (as, rest)) :
    ∀ a ∈ as, a.Resolved pool := by
  intro a ha
  obtain ⟨hname, hbody, -⟩ := mem_parserAllWith h ha
  exact resolved_of_decode a hname hbody

end Attribute

/-- A field or method whose name and descriptor are what their indices stand for and whose
attributes are resolved. -/
structure MemberResolved (pool : ConstantPool) (nameIndex descriptorIndex : UInt16)
    (attributes : List Attribute) (name descriptor : String) : Prop where
  name : pool.utf8 nameIndex = .ok name
  descriptor : pool.utf8 descriptorIndex = .ok descriptor
  attributes : ∀ a ∈ attributes, a.Resolved pool

theorem memberParser_resolved {α : Type} {kind : String} {pool : ConstantPool}
    {make : UInt16 → UInt16 → UInt16 → List Attribute → String → String → α} {s rest : Bytes}
    {a : α} (h : memberParser kind pool make s = .ok (a, rest)) :
    ∃ flags nameIndex descriptorIndex attributes name descriptor,
      a = make flags nameIndex descriptorIndex attributes name descriptor ∧
        MemberResolved pool nameIndex descriptorIndex attributes name descriptor := by
  obtain ⟨⟨flags, nameIndex, descriptorIndex⟩, r1, -, h⟩ := Parser.bind_eq_ok h
  obtain ⟨name, r2, hname, h⟩ := Parser.bind_eq_ok h
  obtain ⟨descriptor, r3, hdescriptor, h⟩ := Parser.bind_eq_ok h
  obtain ⟨attributes, r4, hattributes, h⟩ := Parser.bind_eq_ok h
  cases h
  exact ⟨flags, nameIndex, descriptorIndex, attributes, name, descriptor, rfl,
    Parser.eq_ok_of_lookup hname, Parser.eq_ok_of_lookup hdescriptor,
    Attribute.resolved_of_parserAll hattributes⟩

theorem mem_members_resolved {α : Type} {kind : String} {pool : ConstantPool}
    {make : UInt16 → UInt16 → UInt16 → List Attribute → String → String → α}
    {label : Nat → String} {n : Nat} {s rest : Bytes} {as : List α}
    (h : Parser.items n (fun i => Parser.within (label i) (memberParser kind pool make)) s =
      .ok (as, rest)) {a : α} (ha : a ∈ as) :
    ∃ flags nameIndex descriptorIndex attributes name descriptor,
      a = make flags nameIndex descriptorIndex attributes name descriptor ∧
        MemberResolved pool nameIndex descriptorIndex attributes name descriptor := by
  have hdelimited := memberParser_delimited kind pool make
  obtain ⟨i, s', rest', -, hi⟩ :=
    Parser.mem_items (fun i => Parser.within_delimited (label i) hdelimited) h ha
  exact memberParser_resolved (Parser.within_eq_ok hi)

/-! ### Class files that were read -/

namespace ClassFile

/-- The number of slots that a class file declares for its pool, after magic and versions. -/
def declaredCount? (data : Bytes) : Option UInt16 := (Reader.u2 (data.drop 8)).map (·.1)

theorem declaredCount?_head (minor major declared : UInt16) (more : Bytes) :
    declaredCount? (Bytes.ofU4 magic ++ (Bytes.ofU2 minor ++ Bytes.ofU2 major) ++
      (Bytes.ofU2 declared ++ more)) = some declared := by
  have hlen : (Bytes.ofU4 magic ++ (Bytes.ofU2 minor ++ Bytes.ofU2 major)).length = 8 := rfl
  have hread : Reader.u2 (Bytes.ofU2 declared ++ more) = some (declared, more) :=
    Reader.u2_reads declared more
  rw [declaredCount?, List.drop_left' hlen, hread]
  rfl

/-- A class file that agrees with its own constant pool, and the pool with the bytes it was read
from. -/
structure Resolved (data : Bytes) (c : ClassFile) : Prop where
  pool : c.pool.WellFormed
  count : ∃ declared, declaredCount? data = some declared ∧ c.pool.count = declared.toNat
  usable : ∀ index, c.pool.usable index = true ↔ ∃ entry, c.pool.entry index = .ok entry
  name : c.pool.className c.thisClass = .ok c.name
  superName : c.superClass ≠ 0 → c.pool.className c.superClass = .ok c.superName
  noSuperName : c.superClass = 0 → c.superName = ""
  interfaceNames : c.interfaces.map c.pool.className = c.interfaceNames.map Except.ok
  fields : ∀ f ∈ c.fields,
    MemberResolved c.pool f.nameIndex f.descriptorIndex f.attributes f.name f.descriptor
  methods : ∀ m ∈ c.methods,
    MemberResolved c.pool m.nameIndex m.descriptorIndex m.attributes m.name m.descriptor
  attributes : ∀ a ∈ c.attributes, a.Resolved c.pool

theorem superNameParser_resolved {pool : ConstantPool} {index : UInt16} {s rest : Bytes}
    {name : String} (h : superNameParser pool index s = .ok (name, rest)) :
    (index ≠ 0 → pool.className index = .ok name) ∧ (index = 0 → name = "") := by
  unfold superNameParser at h
  split at h
  · rename_i hzero
    cases h
    exact ⟨fun hne => absurd hzero hne, fun _ => rfl⟩
  · rename_i hne
    exact ⟨fun _ => Parser.eq_ok_of_lookup h, fun hzero => absurd hzero hne⟩

theorem interfaceParser_resolved {pool : ConstantPool} {i : Nat} {s rest : Bytes}
    {x : UInt16 × String} (h : interfaceParser pool i s = .ok (x, rest)) :
    pool.className x.1 = .ok x.2 := by
  obtain ⟨index, r1, -, h⟩ := Parser.bind_eq_ok h
  obtain ⟨name, r2, hname, h⟩ := Parser.bind_eq_ok h
  cases h
  exact Parser.eq_ok_of_lookup hname

theorem parser_resolved {data rest : Bytes} {c : ClassFile} (h : parser data = .ok (c, rest)) :
    c.Resolved data := by
  obtain ⟨⟨⟩, r1, hmagic, h⟩ := Parser.bind_eq_ok h
  obtain ⟨⟨minor, major⟩, r2, hversion, h⟩ := Parser.bind_eq_ok h
  obtain ⟨pool, r3, hpool, h⟩ := Parser.bind_eq_ok h
  obtain ⟨head, r4, -, h⟩ := Parser.bind_eq_ok h
  obtain ⟨name, r5, hname, h⟩ := Parser.bind_eq_ok h
  obtain ⟨superName, r6, hsuper, h⟩ := Parser.bind_eq_ok h
  obtain ⟨interfaces, r7, hinterfaces, h⟩ := Parser.bind_eq_ok h
  obtain ⟨fieldCount, r8, -, h⟩ := Parser.bind_eq_ok h
  obtain ⟨fields, r9, hfields, h⟩ := Parser.bind_eq_ok h
  obtain ⟨methodCount, r10, -, h⟩ := Parser.bind_eq_ok h
  obtain ⟨methods, r11, hmethods, h⟩ := Parser.bind_eq_ok h
  obtain ⟨attributes, r12, hattributes, h⟩ := Parser.bind_eq_ok h
  cases h
  obtain ⟨hwf, declared, more, hr2, hcount⟩ := ConstantPool.parser_wellFormed hpool
  obtain ⟨hsuper₁, hsuper₂⟩ := superNameParser_resolved hsuper
  have hdata : data = Bytes.ofU4 magic ++ (Bytes.ofU2 minor ++ Bytes.ofU2 major) ++
      (Bytes.ofU2 declared ++ more) := by
    rw [magicParser_eq_ok hmagic, Constant.readPair_exact _ _ _ (Parser.ofReader_eq_ok hversion),
      hr2]
    simp
  have hdeclared : declaredCount? data = some declared := by
    rw [hdata]
    exact declaredCount?_head minor major declared more
  exact {
    pool := hwf
    count := ⟨declared, hdeclared, hcount⟩
    usable := pool.usable_iff
    name := Parser.eq_ok_of_lookup hname
    superName := hsuper₁
    noSuperName := hsuper₂
    interfaceNames := by
      rw [List.map_map, List.map_map]
      refine List.map_congr_left fun x hx => ?_
      obtain ⟨i, s', rest', -, hi⟩ :=
        Parser.mem_items (interfaceParser_delimited pool) hinterfaces hx
      exact interfaceParser_resolved hi
    fields := fun f hf => by
      obtain ⟨flags, i, j, as, n, d, rfl, hresolved⟩ := mem_members_resolved hfields hf
      exact hresolved
    methods := fun m hm => by
      obtain ⟨flags, i, j, as, n, d, rfl, hresolved⟩ := mem_members_resolved hmethods hm
      exact hresolved
    attributes := Attribute.resolved_of_parserAll hattributes }

/-- Every name and every decoded attribute of an accepted class file is what the constant pool
gives for the index and the bytes beside it. -/
theorem parse_resolved (data : Bytes) (c : ClassFile) (h : parse data = .ok c) :
    c.Resolved data :=
  parser_resolved (parse_eq_ok h)

/-- The class file with an attribute inside its code and a `long` in its last slot. -/
theorem parse_resolved_unusual : ∃ c, parse unusual = .ok c ∧ c.Resolved unusual :=
  ⟨_, rfl, parse_resolved unusual _ rfl⟩

end ClassFile

end Jvm
