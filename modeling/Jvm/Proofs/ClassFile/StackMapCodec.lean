import Jvm.Proofs.ClassFile.Decoding

/-!
# Stack maps read back

The frames of a stack map are told apart by their first byte, and the two lists of a full frame by
their counts. Every reader of the format takes exactly what is written for its answer, so a table
and its bytes determine each other. `Refuses` is the third relation between a parser and bytes: the
parser fails on whatever starts with them. Like the other two it is carried from the parts of the
format to the whole, from a tag that does not exist to the table that holds it.
-/

namespace Jvm

/-! ### Lists, and inputs that are refused -/

namespace Parser

variable {α : Type}

theorem list_reads {item : Nat → Parser α} {write : α → Bytes} {as : List α}
    (hitem : ∀ a ∈ as, ∀ i, Reads (item i) (write a) a) :
    Reads (items as.length item) (as.flatMap write) as := by
  obtain ⟨bs, hmap, hbs⟩ := items_reads item write id id as fun a ha => ⟨a, hitem a ha, rfl⟩
  rw [List.map_id, List.map_id] at hmap
  rwa [hmap] at hbs

theorem itemsOnto_forall {item : Nat → Parser α} {P : α → Prop}
    (hitem : ∀ i s a rest, item i s = .ok (a, rest) → P a) (n i : Nat) {acc as : List α}
    {s rest : Bytes} (hacc : ∀ a ∈ acc, P a) (h : itemsOnto item n i acc s = .ok (as, rest)) :
    ∀ a ∈ as, P a := by
  induction n generalizing i acc s with
  | zero =>
    cases h
    exact fun a ha => hacc a (List.mem_reverse.mp ha)
  | succ n ih =>
    rw [itemsOnto_succ] at h
    obtain ⟨a, mid, ha, h⟩ := bind_eq_ok h
    exact ih (i + 1) (List.forall_mem_cons.mpr ⟨hitem i s a mid ha, hacc⟩) h

theorem items_forall {item : Nat → Parser α} {P : α → Prop}
    (hitem : ∀ i s a rest, item i s = .ok (a, rest) → P a) {n : Nat} {as : List α}
    {s rest : Bytes} (h : items n item s = .ok (as, rest)) : ∀ a ∈ as, P a :=
  itemsOnto_forall hitem n 0 (fun _ ha => absurd ha List.not_mem_nil) h

/-- Fails with `f` on every input that starts with `bytes`. -/
def Refuses (p : Parser α) (bytes : Bytes) (f : Fault) : Prop :=
  ∀ rest, p (bytes ++ rest) = .error f

namespace Refuses

variable {β : Type} {p : Parser α} {g : α → Parser β} {bytes b₁ b₂ : Bytes} {a : α} {f : Fault}

theorem bind (h : p.Refuses bytes f) : (p >>= g).Refuses bytes f := by
  intro rest
  show Except.bind (p (bytes ++ rest)) (fun x => g x.1 x.2) = .error f
  rw [h rest]
  rfl

theorem after (hp : Reads p b₁ a) (hg : (g a).Refuses b₂ f) : (p >>= g).Refuses (b₁ ++ b₂) f := by
  intro rest
  show Except.bind (p (b₁ ++ b₂ ++ rest)) (fun x => g x.1 x.2) = .error f
  rw [List.append_assoc, eq_ok_of_reads hp]
  exact hg rest

end Refuses

theorem items_refuses {item : Nat → Parser α} {write : α → Bytes} {as : List α} {n : Nat}
    {bytes : Bytes} {f : Fault} (hitem : ∀ a ∈ as, ∀ i, Reads (item i) (write a) a)
    (hlength : as.length < n) (hnext : ∀ i, (item i).Refuses bytes f) :
    (items n item).Refuses (as.flatMap write ++ bytes) f := by
  suffices honto : ∀ i acc, (itemsOnto item n i acc).Refuses (as.flatMap write ++ bytes) f from
    honto 0 []
  induction as generalizing n with
  | nil =>
    intro i acc
    obtain ⟨m, rfl⟩ := Nat.exists_eq_add_one.mpr hlength
    rw [itemsOnto_succ]
    exact (hnext i).bind
  | cons a as ih =>
    intro i acc
    obtain ⟨m, rfl⟩ := Nat.exists_eq_add_one.mpr (Nat.zero_lt_of_lt hlength)
    rw [itemsOnto_succ, List.flatMap_cons, List.append_assoc]
    refine .after (hitem a List.mem_cons_self i) ?_
    exact ih (fun b hb => hitem b (List.mem_cons_of_mem _ hb)) (Nat.lt_of_succ_lt_succ hlength) _ _

end Parser

/-! ### Verification types -/

namespace StackMap

variable {α : Type}

theorem reads_reading {r : Reader α} {bytes : Bytes} {a : α} (h : Reads r bytes a) :
    Reads (reading r) bytes a := Parser.reads_ofReader short h

theorem typeParser_reads (t : VerificationType) : Reads typeParser t.encode t := by
  cases t with
  | object i | uninitialized i =>
    show Reads typeParser ([_] ++ Bytes.ofU2 i) _
    refine (reads_reading (Reader.u1_reads _)).bind ?_
    exact (reads_reading (Reader.u2_reads i)).answer (Reads.of_pure _)
  | _ => exact (reads_reading (Reader.u1_reads _)).answer (Reads.of_pure _)

theorem typeParser_exact : Exact typeParser VerificationType.encode := by
  intro s t rest h
  obtain ⟨code, mid, hcode, h⟩ := Parser.bind_eq_ok h
  rw [Reader.u1_exact s code mid (Parser.ofReader_eq_ok hcode), ← UInt8.ofNat_toNat (x := code)]
  generalize code.toNat = n at h
  match n, h with
  | 0, h | 1, h | 2, h | 3, h | 4, h | 5, h | 6, h =>
    cases h
    rfl
  | 7, h | 8, h =>
    obtain ⟨i, mid', hi, h⟩ := Parser.bind_eq_ok h
    cases h
    rw [Reader.u2_exact mid i rest (Parser.ofReader_eq_ok hi)]
    rfl
  | n + 9, h => cases h

def badTag (code : UInt8) : Fault :=
  .of .format .malformedAttribute ("verification type tag " ++ toString code.toNat)

theorem typeParser_refuses {code : UInt8} (hcode : 8 < code.toNat) :
    typeParser.Refuses [code] (badTag code) := by
  show typeParser.Refuses ([code] ++ []) _
  refine .after (reads_reading (Reader.u1_reads code)) ?_
  unfold badTag
  generalize code.toNat = n at hcode
  match n, hcode with
  | n + 9, _ =>
    intro rest
    rfl

theorem typesParser_reads (ts : List VerificationType) :
    Reads (typesParser ts.length) (ts.flatMap VerificationType.encode) ts :=
  Parser.list_reads fun t _ _ => typeParser_reads t

theorem typesParser_exact {n : Nat} {ts : List VerificationType} {s rest : Bytes}
    (h : typesParser n s = .ok (ts, rest)) :
    ts.length = n ∧ s = ts.flatMap VerificationType.encode ++ rest :=
  Parser.items_exact (fun _ => typeParser_exact) h

theorem typesParser_refuses {ts : List VerificationType} {n : Nat} {code : UInt8}
    (hlength : ts.length < n) (hcode : 8 < code.toNat) :
    (typesParser n).Refuses (ts.flatMap VerificationType.encode ++ [code]) (badTag code) :=
  Parser.items_refuses (fun t _ _ => typeParser_reads t) hlength fun _ => typeParser_refuses hcode

end StackMap

/-! ### Frames -/

theorem Bytes.toNat_byte {n : Nat} (h : n < 256) : (UInt8.ofNat n).toNat = n :=
  UInt8.toNat_ofNat_of_lt' h

namespace StackMapFrame

/-- An appending frame adds one to three locals, and the lists of a full frame have lengths that fit
into two bytes. -/
def WellFormed : StackMapFrame → Prop
  | append _ added => 1 ≤ added.length ∧ added.length ≤ 3
  | full _ slots stack => slots.length ≤ 65535 ∧ stack.length ≤ 65535
  | _ => True

theorem frameType_same (d : Fin 64) : (same d).frameType.toNat = d :=
  Bytes.toNat_byte (by omega)

theorem frameType_sameWithItem (d : Fin 64) (item : VerificationType) :
    (sameWithItem d item).frameType.toNat = 64 + d :=
  Bytes.toNat_byte (by omega)

theorem frameType_chop (n : Fin 3) (d : UInt16) : (chop n d).frameType.toNat = 250 - n :=
  Bytes.toNat_byte (by omega)

theorem frameType_append {added : List VerificationType} (h : added.length ≤ 3) (d : UInt16) :
    (append d added).frameType.toNat = 251 + added.length :=
  Bytes.toNat_byte (by omega)

end StackMapFrame

namespace StackMap

/-- What follows the type byte of a frame, for each range of types. -/
def bodyParser (n : Nat) : Parser StackMapFrame :=
  if n ≤ 63 then return .same ⟨n % 64, Nat.mod_lt n (by decide)⟩
  else if n ≤ 127 then
    return .sameWithItem ⟨(n - 64) % 64, Nat.mod_lt (n - 64) (by decide)⟩ (← typeParser)
  else if n < 247 then
    Parser.fail
      (.of .format .malformedAttribute ("reserved stack map frame type " ++ toString n))
  else do
    let delta ← reading Reader.u2
    if n = 247 then return .sameWithItemExtended delta (← typeParser)
    else if n ≤ 250 then return .chop ⟨(250 - n) % 3, Nat.mod_lt (250 - n) (by decide)⟩ delta
    else if n = 251 then return .sameExtended delta
    else if n ≤ 254 then return .append delta (← typesParser (n - 251))
    else
      let slotCount ← reading Reader.u2
      let slots ← typesParser slotCount.toNat
      let stackCount ← reading Reader.u2
      let stack ← typesParser stackCount.toNat
      return .full delta slots stack

theorem frameParser_eq :
    frameParser = reading Reader.u1 >>= fun type => bodyParser type.toNat := rfl

section

variable {n : Nat}

theorem body_same (hmost : n ≤ 63) : bodyParser n = pure (.same (Fin.ofNat 64 n)) := if_pos hmost

theorem body_sameWithItem (hleast : 64 ≤ n) (hmost : n ≤ 127) :
    bodyParser n = typeParser >>= fun item => pure (.sameWithItem (Fin.ofNat 64 (n - 64)) item) := by
  rw [bodyParser, if_neg (by omega), if_pos hmost]
  rfl

theorem body_reserved (hleast : 128 ≤ n) (hmost : n ≤ 246) :
    bodyParser n = Parser.fail
      (.of .format .malformedAttribute ("reserved stack map frame type " ++ toString n)) := by
  rw [bodyParser, if_neg (by omega), if_neg (by omega), if_pos (by omega)]

theorem body_chop (hleast : 248 ≤ n) (hmost : n ≤ 250) :
    bodyParser n =
      reading Reader.u2 >>= fun delta => pure (.chop (Fin.ofNat 3 (250 - n)) delta) := by
  rw [bodyParser, if_neg (by omega), if_neg (by omega), if_neg (by omega)]
  simp only [if_neg (show ¬ n = 247 by omega), if_pos hmost]
  rfl

theorem body_append (hleast : 252 ≤ n) (hmost : n ≤ 254) :
    bodyParser n = reading Reader.u2 >>= fun delta =>
      typesParser (n - 251) >>= fun added => pure (.append delta added) := by
  rw [bodyParser, if_neg (by omega), if_neg (by omega), if_neg (by omega)]
  simp only [if_neg (show ¬ n = 247 by omega), if_neg (show ¬ n ≤ 250 by omega),
    if_neg (show ¬ n = 251 by omega), if_pos hmost]

end

theorem reads_frame {type : UInt8} {bytes : Bytes} {f : StackMapFrame}
    (h : Reads (bodyParser type.toNat) bytes f) : Reads frameParser (type :: bytes) f := by
  rw [frameParser_eq]
  exact (reads_reading (Reader.u1_reads type)).bind h

theorem frameParser_reads {f : StackMapFrame} (hf : f.WellFormed) :
    Reads frameParser f.encode f := by
  cases f with
  | same d =>
    refine reads_frame ?_
    rw [StackMapFrame.frameType_same, body_same (by omega), Fin.ofNat_val_eq_self]
    exact Reads.of_pure _
  | sameWithItem d item =>
    refine reads_frame ?_
    rw [StackMapFrame.frameType_sameWithItem, body_sameWithItem (by omega) (by omega),
      Nat.add_sub_cancel_left, Fin.ofNat_val_eq_self]
    exact (typeParser_reads item).answer (Reads.of_pure _)
  | sameWithItemExtended d item =>
    refine reads_frame ((reads_reading (Reader.u2_reads d)).bind ?_)
    exact (typeParser_reads item).answer (Reads.of_pure _)
  | chop n d =>
    refine reads_frame ?_
    rw [StackMapFrame.frameType_chop, body_chop (by omega) (by omega),
      Nat.sub_sub_self (by omega), Fin.ofNat_val_eq_self]
    exact (reads_reading (Reader.u2_reads d)).answer (Reads.of_pure _)
  | sameExtended d =>
    exact reads_frame ((reads_reading (Reader.u2_reads d)).answer (Reads.of_pure _))
  | append d added =>
    obtain ⟨hleast, hmost⟩ := hf
    refine reads_frame ?_
    rw [StackMapFrame.frameType_append hmost, body_append (by omega) (by omega),
      Nat.add_sub_cancel_left]
    refine (reads_reading (Reader.u2_reads d)).bind ?_
    exact (typesParser_reads added).answer (Reads.of_pure _)
  | full d slots stack =>
    obtain ⟨hslots, hstack⟩ := hf
    have hn : (UInt16.ofNat slots.length).toNat = slots.length := Bytes.toNat_count hslots
    have hm : (UInt16.ofNat stack.length).toNat = stack.length := Bytes.toNat_count hstack
    refine reads_frame ?_
    simp only [List.append_assoc]
    refine (reads_reading (Reader.u2_reads d)).bind ((reads_reading (Reader.u2_reads _)).bind ?_)
    rw [hn]
    refine (typesParser_reads slots).bind ((reads_reading (Reader.u2_reads _)).bind ?_)
    rw [hm]
    exact (typesParser_reads stack).answer (Reads.of_pure _)

theorem bodyParser_exact {n : Nat} {f : StackMapFrame} {s rest : Bytes} (hn : n < 256)
    (h : bodyParser n s = .ok (f, rest)) :
    f.WellFormed ∧ UInt8.ofNat n :: s = f.encode ++ rest := by
  -- One case for each range of types, in the order in which they are told apart.
  rcases Nat.lt_or_ge n 64 with hlt | hge
  · rw [body_same (by omega)] at h
    cases h
    have hd : (Fin.ofNat 64 n).val = n := Nat.mod_eq_of_lt hlt
    refine ⟨trivial, ?_⟩
    simp only [StackMapFrame.encode, StackMapFrame.frameType, hd, List.cons_append, List.nil_append]
  rcases Nat.lt_or_ge n 128 with hlt | hge
  · rw [body_sameWithItem hge (by omega)] at h
    obtain ⟨item, r1, hitem, h⟩ := Parser.bind_eq_ok h
    cases h
    have hd : 64 + (Fin.ofNat 64 (n - 64)).val = n := by
      rw [Fin.val_ofNat, Nat.mod_eq_of_lt (by omega)]
      omega
    refine ⟨trivial, ?_⟩
    rw [typeParser_exact s item rest hitem, StackMapFrame.encode, StackMapFrame.frameType, hd]
    rfl
  rcases Nat.lt_or_ge n 247 with hlt | hge
  · rw [body_reserved hge (by omega)] at h
    cases h
  rcases Nat.eq_or_lt_of_le hge with rfl | hgt
  · obtain ⟨delta, r1, hdelta, h⟩ := Parser.bind_eq_ok h
    obtain ⟨item, r2, hitem, h⟩ := Parser.bind_eq_ok h
    cases h
    refine ⟨trivial, ?_⟩
    rw [Reader.u2_exact s delta r1 (Parser.ofReader_eq_ok hdelta),
      typeParser_exact r1 item rest hitem]
    rfl
  rcases Nat.lt_or_ge n 251 with hlt | hge
  · rw [body_chop hgt (by omega)] at h
    obtain ⟨delta, r1, hdelta, h⟩ := Parser.bind_eq_ok h
    cases h
    have hcount : 250 - (Fin.ofNat 3 (250 - n)).val = n := by
      rw [Fin.val_ofNat, Nat.mod_eq_of_lt (by omega)]
      omega
    refine ⟨trivial, ?_⟩
    rw [Reader.u2_exact s delta rest (Parser.ofReader_eq_ok hdelta)]
    simp only [StackMapFrame.encode, StackMapFrame.frameType, hcount, List.cons_append]
  rcases Nat.eq_or_lt_of_le hge with rfl | hgt
  · obtain ⟨delta, r1, hdelta, h⟩ := Parser.bind_eq_ok h
    cases h
    refine ⟨trivial, ?_⟩
    rw [Reader.u2_exact s delta rest (Parser.ofReader_eq_ok hdelta)]
    rfl
  rcases Nat.lt_or_ge n 255 with hlt | hge
  · rw [body_append hgt (by omega)] at h
    obtain ⟨delta, r1, hdelta, h⟩ := Parser.bind_eq_ok h
    obtain ⟨added, r2, hadded, h⟩ := Parser.bind_eq_ok h
    cases h
    obtain ⟨hlength, hr1⟩ := typesParser_exact hadded
    obtain rfl : n = 251 + added.length := by omega
    refine ⟨⟨by omega, by omega⟩, ?_⟩
    rw [Reader.u2_exact s delta r1 (Parser.ofReader_eq_ok hdelta), hr1]
    simp only [StackMapFrame.encode, StackMapFrame.frameType, List.cons_append, List.append_assoc]
  · obtain rfl : n = 255 := by omega
    obtain ⟨delta, r1, hdelta, h⟩ := Parser.bind_eq_ok h
    obtain ⟨slotCount, r2, hslotCount, h⟩ := Parser.bind_eq_ok h
    obtain ⟨slots, r3, hslots, h⟩ := Parser.bind_eq_ok h
    obtain ⟨stackCount, r4, hstackCount, h⟩ := Parser.bind_eq_ok h
    obtain ⟨stack, r5, hstack, h⟩ := Parser.bind_eq_ok h
    cases h
    obtain ⟨hslotsLength, hr2⟩ := typesParser_exact hslots
    obtain ⟨hstackLength, hr4⟩ := typesParser_exact hstack
    have hslotsLt := slotCount.toNat_lt
    have hstackLt := stackCount.toNat_lt
    refine ⟨⟨by omega, by omega⟩, ?_⟩
    rw [Reader.u2_exact s delta r1 (Parser.ofReader_eq_ok hdelta),
      Reader.u2_exact r1 slotCount r2 (Parser.ofReader_eq_ok hslotCount), hr2,
      Reader.u2_exact r3 stackCount r4 (Parser.ofReader_eq_ok hstackCount), hr4]
    simp [StackMapFrame.encode, StackMapFrame.frameType, hslotsLength, hstackLength]

/-- Whatever is accepted as a frame is well formed and is what is written for it. -/
theorem frameParser_exact {f : StackMapFrame} {s rest : Bytes}
    (h : frameParser s = .ok (f, rest)) : f.WellFormed ∧ s = f.encode ++ rest := by
  rw [frameParser_eq] at h
  obtain ⟨type, mid, htype, h⟩ := Parser.bind_eq_ok h
  obtain ⟨hf, hbytes⟩ := bodyParser_exact type.toNat_lt h
  rw [UInt8.ofNat_toNat] at hbytes
  exact ⟨hf, (Reader.u1_exact s type mid (Parser.ofReader_eq_ok htype)).trans hbytes⟩

theorem refuses_frame {type : UInt8} {bytes : Bytes} {f : Fault}
    (h : (bodyParser type.toNat).Refuses bytes f) : frameParser.Refuses (type :: bytes) f := by
  rw [frameParser_eq]
  exact .after (reads_reading (Reader.u1_reads type)) h

def reservedType (type : UInt8) : Fault :=
  .of .format .malformedAttribute ("reserved stack map frame type " ++ toString type.toNat)

theorem frameParser_refuses_reserved {type : UInt8} (hleast : 128 ≤ type.toNat)
    (hmost : type.toNat ≤ 246) : frameParser.Refuses [type] (reservedType type) := by
  refine @refuses_frame type [] _ fun rest => ?_
  rw [body_reserved hleast hmost]
  rfl

/-- The bytes of a frame up to a place where a verification type stands. -/
inductive BeforeType : Bytes → Prop where
  | item (d : Fin 64) : BeforeType [UInt8.ofNat (64 + d)]
  | itemExtended (delta : UInt16) : BeforeType (247 :: Bytes.ofU2 delta)
  | added (type : UInt8) (delta : UInt16) (before : List VerificationType)
    (hleast : 252 ≤ type.toNat) (hmost : type.toNat ≤ 254)
    (hbefore : before.length < type.toNat - 251) :
    BeforeType (type :: Bytes.ofU2 delta ++ before.flatMap VerificationType.encode)
  | slot (delta count : UInt16) (before : List VerificationType)
    (hbefore : before.length < count.toNat) :
    BeforeType (255 :: Bytes.ofU2 delta ++ Bytes.ofU2 count ++
      before.flatMap VerificationType.encode)
  | stack (delta slotCount count : UInt16) (slots before : List VerificationType)
    (hslots : slots.length = slotCount.toNat) (hbefore : before.length < count.toNat) :
    BeforeType (255 :: Bytes.ofU2 delta ++ Bytes.ofU2 slotCount ++
      slots.flatMap VerificationType.encode ++ Bytes.ofU2 count ++
      before.flatMap VerificationType.encode)

theorem frameParser_refuses_tag {front : Bytes} {code : UInt8} (hfront : BeforeType front)
    (hcode : 8 < code.toNat) : frameParser.Refuses (front ++ [code]) (badTag code) := by
  cases hfront with
  | item d =>
    have hn : (UInt8.ofNat (64 + d.val)).toNat = 64 + d.val := Bytes.toNat_byte (by omega)
    refine refuses_frame ?_
    rw [hn, body_sameWithItem (by omega) (by omega)]
    exact (typeParser_refuses hcode).bind
  | itemExtended delta =>
    refine refuses_frame (.after (reads_reading (Reader.u2_reads delta)) ?_)
    exact (typeParser_refuses hcode).bind
  | added type delta before hleast hmost hbefore =>
    simp only [List.cons_append, List.append_assoc]
    refine refuses_frame ?_
    rw [body_append hleast hmost]
    refine .after (reads_reading (Reader.u2_reads delta)) ?_
    exact (typesParser_refuses hbefore hcode).bind
  | slot delta count before hbefore =>
    simp only [List.cons_append, List.append_assoc]
    refine refuses_frame ?_
    refine .after (reads_reading (Reader.u2_reads delta)) ?_
    refine .after (reads_reading (Reader.u2_reads count)) ?_
    exact (typesParser_refuses hbefore hcode).bind
  | stack delta slotCount count slots before hslots hbefore =>
    simp only [List.cons_append, List.append_assoc]
    refine refuses_frame ?_
    refine .after (reads_reading (Reader.u2_reads delta)) ?_
    refine .after (reads_reading (Reader.u2_reads slotCount)) ?_
    rw [← hslots]
    refine .after (typesParser_reads slots) ?_
    refine .after (reads_reading (Reader.u2_reads count)) ?_
    exact (typesParser_refuses hbefore hcode).bind

/-! ### Tables -/

theorem parser_reads {frames : List StackMapFrame} (hlength : frames.length ≤ 65535)
    (hframes : ∀ f ∈ frames, f.WellFormed) : Reads parser (encode frames) frames := by
  refine (reads_reading (Reader.u2_reads _)).bind ?_
  rw [Bytes.toNat_count hlength]
  exact Parser.list_reads fun f hf _ => frameParser_reads (hframes f hf)

theorem parser_exact {frames : List StackMapFrame} {s rest : Bytes}
    (h : parser s = .ok (frames, rest)) :
    frames.length ≤ 65535 ∧ (∀ f ∈ frames, f.WellFormed) ∧ s = encode frames ++ rest := by
  obtain ⟨count, mid, hcount, h⟩ := Parser.bind_eq_ok h
  have hframes := Parser.items_forall (fun _ _ _ _ hf => (frameParser_exact hf).1) h
  obtain ⟨hlength, hmid⟩ := Parser.items_exact
    (fun _ _ _ _ hf => (frameParser_exact hf).2) h
  have hlt := count.toNat_lt
  refine ⟨by omega, hframes, ?_⟩
  rw [Reader.u2_exact s count mid (Parser.ofReader_eq_ok hcount), hmid, encode, hlength,
    UInt16.ofNat_toNat, List.append_assoc]

theorem parser_refuses {count : UInt16} {before : List StackMapFrame} {bytes : Bytes} {f : Fault}
    (hcount : before.length < count.toNat) (hbefore : ∀ f ∈ before, f.WellFormed)
    (hnext : frameParser.Refuses bytes f) :
    parser.Refuses (Bytes.ofU2 count ++ (before.flatMap StackMapFrame.encode ++ bytes)) f := by
  refine .after (reads_reading (Reader.u2_reads count)) ?_
  exact Parser.items_refuses (fun f hf _ => frameParser_reads (hbefore f hf)) hcount fun _ => hnext

end StackMap

/-! ### The format -/

/-- What the format has for frames: type byte, number of the kind, offset delta, number of locals
removed, locals listed and stack items listed. -/
inductive StackMapFrame.Layout :
    Nat → Nat → Nat → Nat → List VerificationType → List VerificationType → Prop where
  | same {type : Nat} (hmost : type ≤ 63) : Layout type 0 type 0 [] []
  | sameWithItem {type : Nat} (hleast : 64 ≤ type) (hmost : type ≤ 127) (item : VerificationType) :
    Layout type 1 (type - 64) 0 [] [item]
  | sameWithItemExtended {delta : Nat} (hdelta : delta ≤ 65535) (item : VerificationType) :
    Layout 247 2 delta 0 [] [item]
  | chop {type delta : Nat} (hleast : 248 ≤ type) (hmost : type ≤ 250) (hdelta : delta ≤ 65535) :
    Layout type 3 delta (251 - type) [] []
  | sameExtended {delta : Nat} (hdelta : delta ≤ 65535) : Layout 251 4 delta 0 [] []
  | append {type delta : Nat} {added : List VerificationType} (hleast : 252 ≤ type)
    (hmost : type ≤ 254) (hdelta : delta ≤ 65535) (hadded : added.length = type - 251) :
    Layout type 5 delta 0 added []
  | full {delta : Nat} {slots stack : List VerificationType} (hdelta : delta ≤ 65535)
    (hslots : slots.length ≤ 65535) (hstack : stack.length ≤ 65535) :
    Layout 255 6 delta 0 slots stack

namespace StackMapFrame

structure Shows (f : StackMapFrame) (type kind delta chopped : Nat)
    (slots stack : List VerificationType) : Prop where
  type : f.frameType.toNat = type
  kind : f.kind = kind
  delta : f.offsetDelta.toNat = delta
  chopped : f.chopped = chopped
  slots : f.slots = slots
  stack : f.stack = stack

theorem WellFormed.layout {f : StackMapFrame} (hf : f.WellFormed) :
    Layout f.frameType.toNat f.kind f.offsetDelta.toNat f.chopped f.slots f.stack := by
  have hdelta : ∀ d : UInt16, d.toNat ≤ 65535 := fun d => Nat.le_of_lt_succ d.toNat_lt
  cases f with
  | same d =>
    have hshown : (offsetDelta (.same d)).toNat = d.val := Bytes.toNat_count (by omega)
    rw [frameType_same, hshown]
    exact .same (by omega)
  | sameWithItem d item =>
    have hshown : (offsetDelta (.sameWithItem d item)).toNat = 64 + d.val - 64 :=
      (Bytes.toNat_count (by omega)).trans (Nat.add_sub_cancel_left ..).symm
    rw [frameType_sameWithItem, hshown]
    exact .sameWithItem (by omega) (by omega) item
  | sameWithItemExtended d item => exact .sameWithItemExtended (hdelta d) item
  | chop n d =>
    have hchopped : chopped (.chop n d) = 251 - (250 - n.val) := by
      show n.val + 1 = _
      omega
    rw [frameType_chop, hchopped]
    exact .chop (by omega) (by omega) (hdelta d)
  | sameExtended d => exact .sameExtended (hdelta d)
  | append d added =>
    obtain ⟨hleast, hmost⟩ := hf
    rw [frameType_append hmost]
    exact .append (by omega) (by omega) (hdelta d) (Nat.add_sub_cancel_left ..).symm
  | full d slots stack => exact .full (hdelta d) hf.1 hf.2

theorem Layout.exists_frame {type kind delta chopped : Nat} {slots stack : List VerificationType}
    (h : Layout type kind delta chopped slots stack) :
    ∃ f : StackMapFrame, f.WellFormed ∧ f.Shows type kind delta chopped slots stack := by
  cases h with
  | same hmost =>
    exact ⟨.same ⟨type, by omega⟩, trivial, Bytes.toNat_byte (by omega), rfl,
      Bytes.toNat_count (by omega), rfl, rfl, rfl⟩
  | sameWithItem hleast hmost item =>
    have htype : 64 + (type - 64) = type := by omega
    refine ⟨.sameWithItem ⟨type - 64, by omega⟩ item, trivial, ?_, rfl,
      Bytes.toNat_count (by omega), rfl, rfl, rfl⟩
    simp only [frameType, htype]
    exact Bytes.toNat_byte (by omega)
  | sameWithItemExtended hdelta item =>
    exact ⟨.sameWithItemExtended (UInt16.ofNat delta) item, trivial, rfl, rfl,
      Bytes.toNat_count hdelta, rfl, rfl, rfl⟩
  | chop hleast hmost hdelta =>
    have htype : 250 - (250 - type) = type := by omega
    refine ⟨.chop ⟨250 - type, by omega⟩ (UInt16.ofNat delta), trivial, ?_, rfl,
      Bytes.toNat_count hdelta, ?_, rfl, rfl⟩
    · simp only [frameType, htype]
      exact Bytes.toNat_byte (by omega)
    · show 250 - type + 1 = 251 - type
      omega
  | sameExtended hdelta =>
    exact ⟨.sameExtended (UInt16.ofNat delta), trivial, rfl, rfl, Bytes.toNat_count hdelta, rfl,
      rfl, rfl⟩
  | append hleast hmost hdelta hadded =>
    have htype : 251 + slots.length = type := by omega
    refine ⟨.append (UInt16.ofNat delta) slots, ⟨by omega, by omega⟩, ?_, rfl,
      Bytes.toNat_count hdelta, rfl, rfl, rfl⟩
    simp only [frameType, htype]
    exact Bytes.toNat_byte (by omega)
  | full hdelta hslots hstack =>
    exact ⟨.full (UInt16.ofNat delta) slots stack, ⟨hslots, hstack⟩, rfl, rfl,
      Bytes.toNat_count hdelta, rfl, rfl, rfl⟩

end StackMapFrame

/-! ### Attributes -/

namespace Attribute

theorem decode_stackMapTable (pool : ConstantPool) (info : Bytes) :
    decode pool "StackMapTable" info =
      whole "StackMapTable" (.stackMapTable <$> StackMap.parser) info := by
  rw [decode, decodeWithin, if_neg (by decide), if_neg (by decide), if_pos rfl]

/-- A stack map is refused for a frame that is, after some that were read. -/
theorem decode_stackMapTable_refuses (pool : ConstantPool) {count : UInt16}
    {before : List StackMapFrame} {bytes : Bytes} {f : Fault}
    (hcount : before.length < count.toNat) (hbefore : ∀ f ∈ before, f.WellFormed)
    (hnext : StackMap.frameParser.Refuses bytes f) (rest : Bytes) :
    decode pool "StackMapTable"
      (Bytes.ofU2 count ++ (before.flatMap StackMapFrame.encode ++ bytes) ++ rest) =
        .error f := by
  have hparser := (StackMap.parser_refuses hcount hbefore hnext).bind
    (g := fun frames => pure (AttributeBody.stackMapTable frames))
  rw [decode_stackMapTable, whole, map_eq_pure_bind, hparser rest]

/-- Tables of up to 65535 well-formed frames are read back from their binary form, and nothing
else is accepted than the binary form of such a table. The well-formed frames are those of the
format, each with the kind, the offset delta and the number of removed locals that its type stands
for. Wherever in a table a frame of a reserved type stands, or a verification type with a tag above
8, the table is refused. -/
theorem stackMapTable_codec (pool : ConstantPool) :
    (∀ frames : List StackMapFrame, frames.length ≤ 65535 → (∀ f ∈ frames, f.WellFormed) →
      decode pool "StackMapTable" (StackMap.encode frames) = .ok (.stackMapTable frames)) ∧
    (∀ info body, decode pool "StackMapTable" info = .ok body →
      ∃ frames, body = .stackMapTable frames ∧ frames.length ≤ 65535 ∧
        (∀ f ∈ frames, f.WellFormed) ∧ info = StackMap.encode frames) ∧
    (∀ type kind delta chopped slots stack,
      StackMapFrame.Layout type kind delta chopped slots stack ↔
        ∃ f : StackMapFrame, f.WellFormed ∧ f.Shows type kind delta chopped slots stack) ∧
    (∀ (count : UInt16) (before : List StackMapFrame) (rest : Bytes),
      before.length < count.toNat → (∀ f ∈ before, f.WellFormed) →
        (∀ type : UInt8, 128 ≤ type.toNat → type.toNat ≤ 246 →
          decode pool "StackMapTable"
            (Bytes.ofU2 count ++ (before.flatMap StackMapFrame.encode ++ [type]) ++ rest) =
              .error (StackMap.reservedType type)) ∧
        (∀ front code, StackMap.BeforeType front → 8 < code.toNat →
          decode pool "StackMapTable"
            (Bytes.ofU2 count ++ (before.flatMap StackMapFrame.encode ++ (front ++ [code])) ++
              rest) = .error (StackMap.badTag code))) := by
  refine ⟨fun frames hlength hframes => ?_, fun info body h => ?_, fun type kind delta chopped
    slots stack => ⟨StackMapFrame.Layout.exists_frame, ?_⟩, fun count before rest hcount hbefore =>
      ⟨fun type hleast hmost => ?_, fun front code hfront hcode => ?_⟩⟩
  · have hreads : Reads (AttributeBody.stackMapTable <$> StackMap.parser) (StackMap.encode frames)
        (.stackMapTable frames) := by
      rw [map_eq_pure_bind]
      exact (StackMap.parser_reads hlength hframes).answer (Reads.of_pure _)
    have hinfo := Parser.eq_ok_of_reads hreads []
    rw [List.append_nil] at hinfo
    rw [decode_stackMapTable, whole, hinfo]
  · rw [decode_stackMapTable] at h
    obtain ⟨frames, hparser, rfl⟩ := Parser.map_eq_ok (whole_eq_ok h)
    obtain ⟨hlength, hframes, hinfo⟩ := StackMap.parser_exact hparser
    rw [List.append_nil] at hinfo
    exact ⟨frames, rfl, hlength, hframes, hinfo⟩
  · rintro ⟨f, hf, rfl, rfl, rfl, rfl, rfl, rfl⟩
    exact hf.layout
  · exact decode_stackMapTable_refuses pool hcount hbefore
      (StackMap.frameParser_refuses_reserved hleast hmost) rest
  · exact decode_stackMapTable_refuses pool hcount hbefore
      (StackMap.frameParser_refuses_tag hfront hcode) rest

/-- A table of two frames, one that goes on with a reserved type, and one whose second local has no
type. -/
theorem stackMapTable_codec_sample :
    let pool : ConstantPool := ⟨#[none]⟩
    decode pool "StackMapTable" [0, 2, 5, 67, 7, 0, 9] =
      .ok (.stackMapTable [.same 5, .sameWithItem 3 (.object 9)]) ∧
    decode pool "StackMapTable" [0, 2, 5, 200, 0] = .error (StackMap.reservedType 200) ∧
    decode pool "StackMapTable" [0, 2, 5, 253, 0, 1, 4, 9, 0] = .error (StackMap.badTag 9) := by
  intro pool
  obtain ⟨hreads, -, -, hrefused⟩ := stackMapTable_codec pool
  have hbefore : ∀ f ∈ [StackMapFrame.same 5], f.WellFormed :=
    List.forall_mem_singleton.mpr trivial
  obtain ⟨htypes, htags⟩ := hrefused 2 [.same 5] [0] (by decide) hbefore
  have htable : StackMap.encode [.same 5, .sameWithItem 3 (.object 9)] = [0, 2, 5, 67, 7, 0, 9] :=
    rfl
  have hreserved : Bytes.ofU2 2 ++ ([StackMapFrame.same 5].flatMap StackMapFrame.encode ++ [200]) ++
      [0] = [0, 2, 5, 200, 0] := rfl
  have htagged : Bytes.ofU2 2 ++ ([StackMapFrame.same 5].flatMap StackMapFrame.encode ++
      (253 :: Bytes.ofU2 1 ++ [VerificationType.long].flatMap VerificationType.encode ++ [9])) ++
      [0] = [0, 2, 5, 253, 0, 1, 4, 9, 0] := rfl
  rw [← htable, ← hreserved, ← htagged]
  refine ⟨hreads _ (by decide) ?_, htypes 200 (by decide) (by decide), htags _ 9 ?_ (by decide)⟩
  · exact List.forall_mem_cons.mpr ⟨trivial, List.forall_mem_singleton.mpr trivial⟩
  · exact .added 253 1 [.long] (by decide) (by decide) (by decide)

end Attribute

end Jvm
