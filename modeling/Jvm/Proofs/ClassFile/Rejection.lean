import Jvm.Proofs.ClassFile.Resolved
import Jvm.Proofs.Faults

/-!
# How class files are rejected

A byte string that is no class file is rejected because its format is wrong, because an index names
no entry of the constant pool, or because the entry is not of the kind that is needed. Every such
fault has a cause of its class, with one exception: a pool that declares no slots, not even slot 0,
is an invalid index in a fault of format.
-/

namespace Jvm

def ClassFile.kinds : List FaultKind := [.format, .index, .typeMismatch]

variable {F : Fault → Prop} {α β : Type}

theorem Parser.bind_eq_error {p : Parser α} {g : α → Parser β} {s : Bytes} {f : Fault}
    (h : (p >>= g) s = .error f) :
    p s = .error f ∨ ∃ a mid, p s = .ok (a, mid) ∧ g a mid = .error f := by
  change (Except.bind (p s) fun x => g x.1 x.2) = .error f at h
  cases hp : p s with
  | error e =>
    rw [hp] at h
    cases h
    exact .inl rfl
  | ok x =>
    rw [hp] at h
    exact .inr ⟨x.1, x.2, rfl, h⟩

section

variable (hF : Fault.Family ClassFile.kinds F)

include hF

theorem Parser.Raises.reading (what : String) (r : Reader α) :
    Parser.Raises F (Parser.reading what r) :=
  .ofReader (hF.of _ (by decide) (by decide)) r

theorem Parser.Raises.lookup {label : String} {e : Except Fault α} (he : Jvm.Raises F e) :
    Parser.Raises F (Parser.within label (Parser.ofExcept e)) :=
  .within hF (.ofExcept he)

theorem ConstantPool.raises_names (pool : ConstantPool) (index : UInt16) :
    Raises F (pool.utf8 index) ∧ Raises F (pool.className index) := by
  have hlookups : Fault.Family [.index, .typeMismatch] F := hF.mono (by decide)
  exact ⟨pool.raises_utf8 hlookups index, pool.raises_className hlookups index⟩

/-! ### The constant pool -/

theorem Constant.raises_parser : Constant.parser.Raises F := by
  refine (Parser.Raises.reading hF _ _).bind fun code => ?_
  split
  · exact .reading hF _ _
  · exact .fail (hF.of _ (by decide) (by decide))

theorem ConstantPool.raises_slotsOnto (n i : Nat) (acc : List (Option Constant)) :
    (slotsOnto n i acc).Raises F := by
  intro s
  induction n using Nat.strongRecOn generalizing i acc s with
  | _ n ih =>
    cases n with
    | zero => exact .ok _
    | succ n =>
      unfold slotsOnto
      split
      · rename_i f hf
        exact .error (hF.context _ (Constant.raises_parser hF s f hf))
      · split
        · cases n with
          | zero => exact .ok _
          | succ m => exact ih m (by omega) _ _ _
        · exact ih n (by omega) _ _ _

/-- A pool is rejected for its entries, or because it declares no slots. -/
theorem ConstantPool.parser_eq_error {s : Bytes} {f : Fault}
    (h : ConstantPool.parser s = .error f) :
    F f ∨ f = .of .format .invalidConstantIndex "constant_pool_count is 0" ∧
      ∃ rest, Reader.u2 s = some (0, rest) := by
  rcases Parser.bind_eq_error h with hshort | ⟨count, mid, hcount, hrest⟩
  · exact .inl (Parser.Raises.reading hF _ _ s f hshort)
  · split at hrest
    · rename_i hzero
      subst hzero
      cases hrest
      exact .inr ⟨rfl, mid, Parser.ofReader_eq_ok hcount⟩
    · have hslots : (slotsOnto (count.toNat - 1) 1 [] >>= fun slots =>
          pure (ConstantPool.mk (none :: slots).toArray)).Raises F :=
        (raises_slotsOnto hF _ _ _).bind fun _ => .pure _
      exact .inl (hslots mid f hrest)

end

/-! ### Attributes -/

section

variable (hmalformed : ∀ detail, F (.of .format .malformedAttribute detail))

include hmalformed

theorem StackMap.raises_reading (r : Reader α) : (StackMap.reading r).Raises F :=
  .ofReader (hmalformed _) r

theorem StackMap.raises_typeParser : StackMap.typeParser.Raises F := by
  refine (raises_reading hmalformed _).bind fun code => ?_
  split
  case h_8 | h_9 => exact (raises_reading hmalformed _).bind fun _ => .pure _
  case h_10 => exact .fail (hmalformed _)
  all_goals exact .pure _

theorem StackMap.raises_typesParser (n : Nat) : (StackMap.typesParser n).Raises F :=
  .items (fun _ => raises_typeParser hmalformed) n

theorem StackMap.raises_frameParser : StackMap.frameParser.Raises F := by
  refine (raises_reading hmalformed _).bind fun frameType => ?_
  dsimp only
  split
  · exact .pure _
  · split
    · exact (raises_typeParser hmalformed).bind fun _ => .pure _
    · split
      · exact .fail (hmalformed _)
      · refine (raises_reading hmalformed _).bind fun delta => ?_
        split
        · exact (raises_typeParser hmalformed).bind fun _ => .pure _
        · split
          · exact .pure _
          · split
            · exact .pure _
            · split
              · exact (raises_typesParser hmalformed _).bind fun _ => .pure _
              · refine (raises_reading hmalformed _).bind fun _ => ?_
                refine (raises_typesParser hmalformed _).bind fun _ => ?_
                refine (raises_reading hmalformed _).bind fun _ => ?_
                exact (raises_typesParser hmalformed _).bind fun _ => .pure _

theorem StackMap.raises_parser : StackMap.parser.Raises F :=
  (raises_reading hmalformed _).bind fun _ => .items (fun _ => raises_frameParser hmalformed) _

theorem Attribute.raises_whole {name : String} {p : Parser AttributeBody} (hp : p.Raises F)
    (info : Bytes) : Raises F (whole name p info) := by
  unfold whole
  split
  · rename_i f hf
    exact .error (hp info f hf)
  · exact .ok _
  · exact .error (hmalformed _)

/-- Apart from a method body, an attribute fails to decode only because it is malformed. -/
theorem Attribute.raises_decodeWithin_of_ne {name : String} (hname : name ≠ "Code")
    (pool : ConstantPool) (depth : Nat) (info : Bytes) :
    Raises F (decodeWithin pool depth name info) := by
  have hshort {γ : Type} (r : Reader γ) : (Parser.ofReader (short name) r).Raises F :=
    .ofReader (hmalformed _) r
  cases depth with
  | zero => exact .error (hmalformed _)
  | succ depth =>
    rw [decodeWithin, if_neg hname]
    split
    · exact raises_whole hmalformed (.map (hshort _)) info
    · split
      · exact raises_whole hmalformed (.map (StackMap.raises_parser hmalformed)) info
      · split
        · exact raises_whole hmalformed (.map (hshort _)) info
        · split
          · exact raises_whole hmalformed (.map (hshort _)) info
          · exact .ok _

end

section

variable (hF : Fault.Family ClassFile.kinds F)

include hF

theorem Attribute.raises_parserAllWith {decode : String → Bytes → Except Fault AttributeBody}
    (hdecode : ∀ name info, Raises F (decode name info)) (pool : ConstantPool) (owner : String) :
    (parserAllWith decode pool owner).Raises F := by
  refine (Parser.Raises.reading hF _ _).bind fun count => .items (fun i => .within hF ?_) _
  refine (Parser.Raises.reading hF _ _).bind fun ⟨nameIndex, info⟩ => ?_
  refine (Parser.Raises.lookup hF (pool.raises_names hF nameIndex).1).bind fun name => ?_
  exact (Parser.Raises.ofExcept (hdecode name info)).bind fun body => .pure _

theorem Attribute.raises_decodeWithin (pool : ConstantPool) (depth : Nat) (name : String)
    (info : Bytes) : Raises F (decodeWithin pool depth name info) := by
  have hmalformed (detail : String) : F (.of .format .malformedAttribute detail) :=
    hF.of detail (by decide) (by decide)
  induction depth generalizing name info with
  | zero => exact .error (hmalformed _)
  | succ depth ih =>
    by_cases hname : name = "Code"
    · have hcode : (codeParserWith (decodeWithin pool depth) pool).Raises F := by
        refine (Parser.Raises.reading hF _ _).bind fun head => ?_
        refine (Parser.Raises.within hF ?_).bind fun attributes => .pure _
        exact raises_parserAllWith hF ih pool _
      rw [hname, decodeWithin, if_neg (by decide), if_pos rfl]
      exact raises_whole hmalformed (.map hcode) info
    · exact raises_decodeWithin_of_ne hmalformed hname pool (depth + 1) info

theorem Attribute.raises_parserAll (pool : ConstantPool) (owner : String) :
    (parserAll pool owner).Raises F :=
  raises_parserAllWith hF (fun _ _ => raises_decodeWithin hF pool _ _ _) pool owner

/-! ### Class files -/

theorem raises_memberParser (kind : String) (pool : ConstantPool)
    (make : UInt16 → UInt16 → UInt16 → List Attribute → String → String → α) :
    (memberParser kind pool make).Raises F := by
  refine (Parser.Raises.reading hF _ _).bind fun ⟨flags, nameIndex, descriptorIndex⟩ => ?_
  refine (Parser.Raises.lookup hF (pool.raises_names hF nameIndex).1).bind fun name => ?_
  refine (Parser.Raises.lookup hF (pool.raises_names hF descriptorIndex).1).bind fun _ => ?_
  exact (Attribute.raises_parserAll hF pool _).bind fun attributes => .pure _

theorem ClassFile.raises_magicParser : magicParser.Raises F := by
  refine (Parser.Raises.reading hF _ _).bind fun found => ?_
  split
  · exact .pure ()
  · exact .fail (hF.of _ (by decide) (by decide))

theorem ClassFile.raises_superNameParser (pool : ConstantPool) (index : UInt16) :
    (superNameParser pool index).Raises F := by
  unfold superNameParser
  split
  · exact .pure ""
  · exact .lookup hF (pool.raises_names hF index).2

theorem ClassFile.raises_interfaceParser (pool : ConstantPool) (i : Nat) :
    (interfaceParser pool i).Raises F := by
  refine (Parser.Raises.reading hF _ _).bind fun index => ?_
  exact (Parser.Raises.lookup hF (pool.raises_names hF index).2).bind fun name => .pure _

/-- A class file is rejected for a fault in `F`, or because its pool declares no slots. -/
theorem ClassFile.parser_eq_error {data : Bytes} {f : Fault} (h : parser data = .error f) :
    F f ∨ f = .of .format .invalidConstantIndex "constant_pool_count is 0" ∧
      declaredCount? data = some 0 := by
  rcases Parser.bind_eq_error h with hbad | ⟨⟨⟩, r1, hmagic, h⟩
  · exact .inl (raises_magicParser hF data f hbad)
  rcases Parser.bind_eq_error h with hbad | ⟨⟨minor, major⟩, r2, hversion, h⟩
  · exact .inl (Parser.Raises.reading hF _ _ r1 f hbad)
  rcases Parser.bind_eq_error h with hbad | ⟨pool, r3, hpool, h⟩
  · refine (ConstantPool.parser_eq_error hF hbad).imp_right fun ⟨hf, rest, hcount⟩ => ⟨hf, ?_⟩
    have hdata : data = Bytes.ofU4 magic ++ (Bytes.ofU2 minor ++ Bytes.ofU2 major) ++
        (Bytes.ofU2 0 ++ rest) := by
      rw [magicParser_eq_ok hmagic, Constant.readPair_exact _ _ _ (Parser.ofReader_eq_ok hversion),
        Reader.u2_exact _ _ _ hcount]
      simp
    rw [hdata]
    exact declaredCount?_head minor major 0 rest
  · -- With a pool at hand, no more than look-ups can fail.
    refine .inl (Parser.Raises.bind (Parser.Raises.reading hF _ _) (fun head => ?_) r3 f h)
    refine (Parser.Raises.lookup hF (pool.raises_names hF _).2).bind fun name => ?_
    refine (raises_superNameParser hF pool _).bind fun superName => ?_
    refine (Parser.Raises.items (raises_interfaceParser hF pool) _).bind fun interfaces => ?_
    refine (Parser.Raises.reading hF _ _).bind fun fieldCount => ?_
    refine (Parser.Raises.items (fun i => ?_) _).bind fun fields => ?_
    · exact .within hF (raises_memberParser hF _ pool _)
    refine (Parser.Raises.reading hF _ _).bind fun methodCount => ?_
    refine (Parser.Raises.items (fun i => ?_) _).bind fun methods => ?_
    · exact .within hF (raises_memberParser hF _ pool _)
    exact (Attribute.raises_parserAll hF pool _).bind fun attributes => .pure _

end

/-- A fault of one of the given classes with a cause of its class, or, where there is a pool without
slots, the fault of such a pool. -/
def Fault.Sorted (kinds : List FaultKind) (noSlots : Prop) (f : Fault) : Prop :=
  f.Among kinds ∨ f.kind = .format ∧ f.cause? = some .invalidConstantIndex ∧ noSlots

theorem Fault.Sorted.family (kinds : List FaultKind) (noSlots : Prop) :
    Fault.Family kinds (Fault.Sorted kinds noSlots) where
  context label hf := hf.imp_left ((Fault.Among.family kinds).context label)
  of detail hk hc := .inl ((Fault.Among.family kinds).of detail hk hc)

theorem Fault.Sorted.mono {kinds kinds' : List FaultKind} {noSlots noSlots' : Prop} {f : Fault}
    (h : f.Sorted kinds noSlots) (hsub : kinds ⊆ kinds') (himp : noSlots → noSlots') :
    f.Sorted kinds' noSlots' := by
  rcases h with hamong | ⟨hkind, hcause, hnone⟩
  · exact .inl (hamong.mono hsub)
  · exact .inr ⟨hkind, hcause, himp hnone⟩

theorem ClassFile.parse_sorted {data : Bytes} {f : Fault} (h : parse data = .error f) :
    f.Sorted kinds (declaredCount? data = some 0) := by
  have hF := Fault.Sorted.family kinds (declaredCount? data = some 0)
  unfold parse at h
  split at h
  · rename_i g hparser
    cases h
    rcases parser_eq_error hF hparser with hsorted | ⟨rfl, hzero⟩
    · exact hsorted
    · exact .inr ⟨rfl, rfl, hzero⟩
  · cases h
  · cases h
    exact hF.of _ (by decide) (by decide)

end Jvm
