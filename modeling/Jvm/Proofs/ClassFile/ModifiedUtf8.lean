import Jvm.Text.ModifiedUtf8

/-!
# Modified UTF-8 reads back

Decoding the encoding of a string gives the string. The two layers are inverted one after the other:
the bytes of a code unit are read back to the unit whatever follows them, and the units of a
character are read back to the character whatever follows them. Neither layer needs to know where
the text ends. An encoding keeps clear of the zero byte and of all bytes from 0xF0 on.
-/

namespace Jvm.Text.ModifiedUtf8

/-! ### Marks of lead and following bytes -/

theorem lead_one (a : UInt8) (ha : a.toNat < 128) :
    a &&& 0xE0 ≠ 0xC0 ∧ a &&& 0xF0 ≠ 0xE0 := by
  have key : ∀ x : Fin 128, UInt8.ofNat x.val &&& 0xE0 ≠ 0xC0 ∧
      UInt8.ofNat x.val &&& 0xF0 ≠ 0xE0 := by decide
  simpa using key ⟨a.toNat, ha⟩

theorem lead_two (a : UInt8) (ha : a.toNat < 32) :
    (a ||| 0xC0) &&& 0xE0 = 0xC0 ∧ (a ||| 0xC0) &&& 0x1F = a := by
  have key : ∀ x : Fin 32, (UInt8.ofNat x.val ||| 0xC0) &&& 0xE0 = 0xC0 ∧
      (UInt8.ofNat x.val ||| 0xC0) &&& 0x1F = UInt8.ofNat x.val := by decide
  simpa using key ⟨a.toNat, ha⟩

theorem lead_three (a : UInt8) (ha : a.toNat < 16) :
    (a ||| 0xE0) &&& 0xE0 ≠ 0xC0 ∧ (a ||| 0xE0) &&& 0xF0 = 0xE0 ∧
      (a ||| 0xE0) &&& 0x0F = a := by
  have key : ∀ x : Fin 16, (UInt8.ofNat x.val ||| 0xE0) &&& 0xE0 ≠ 0xC0 ∧
      (UInt8.ofNat x.val ||| 0xE0) &&& 0xF0 = 0xE0 ∧
      (UInt8.ofNat x.val ||| 0xE0) &&& 0x0F = UInt8.ofNat x.val := by decide
  simpa using key ⟨a.toNat, ha⟩

theorem following (a : UInt8) (ha : a.toNat < 64) : (a ||| 0x80) &&& 0x3F = a := by
  have key : ∀ x : Fin 64, (UInt8.ofNat x.val ||| 0x80) &&& 0x3F = UInt8.ofNat x.val := by decide
  simpa using key ⟨a.toNat, ha⟩

/-! ### Sequences by their lead byte -/

theorem unitsOfBytes_one (a : UInt8) (rest : List UInt8) (h2 : a &&& 0xE0 ≠ 0xC0)
    (h3 : a &&& 0xF0 ≠ 0xE0) : unitsOfBytes (a :: rest) = a.toUInt16 :: unitsOfBytes rest := by
  match rest with
  | [] => rfl
  | [b] => simp [unitsOfBytes, h2]
  | b :: c :: rest => rw [unitsOfBytes, if_neg h2, if_neg h3]

theorem unitsOfBytes_two (a b : UInt8) (rest : List UInt8) (h2 : a &&& 0xE0 = 0xC0) :
    unitsOfBytes (a :: b :: rest) =
      ((a &&& 0x1F).toUInt16 <<< 6 ||| (b &&& 0x3F).toUInt16) :: unitsOfBytes rest := by
  match rest with
  | [] => simp [unitsOfBytes, h2]
  | c :: rest => rw [unitsOfBytes, if_pos h2]

theorem unitsOfBytes_three (a b c : UInt8) (rest : List UInt8) (h2 : a &&& 0xE0 ≠ 0xC0)
    (h3 : a &&& 0xF0 = 0xE0) :
    unitsOfBytes (a :: b :: c :: rest) =
      ((a &&& 0x0F).toUInt16 <<< 12 ||| (b &&& 0x3F).toUInt16 <<< 6 ||| (c &&& 0x3F).toUInt16) ::
        unitsOfBytes rest := by
  rw [unitsOfBytes, if_neg h2, if_pos h3]

/-! ### Six-bit groups of a unit -/

theorem toNat_low (u : UInt16) : (u &&& 0x3F).toUInt8.toNat = u.toNat % 64 := by
  have hm := Nat.and_two_pow_sub_one_eq_mod u.toNat 6
  rw [UInt16.toNat_toUInt8, UInt16.toNat_and, show (0x3F : UInt16).toNat = 2 ^ 6 - 1 from rfl, hm]
  omega

theorem toNat_middle (u : UInt16) : (u >>> 6 &&& 0x3F).toUInt8.toNat = u.toNat / 64 % 64 := by
  rw [toNat_low, UInt16.toNat_shiftRight, Nat.shiftRight_eq_div_pow,
    show (6 : UInt16).toNat % 16 = 6 from rfl]

theorem toNat_high (u : UInt16) : (u >>> 12).toUInt8.toNat = u.toNat / 4096 := by
  have hu := u.toNat_lt
  rw [UInt16.toNat_toUInt8, UInt16.toNat_shiftRight, Nat.shiftRight_eq_div_pow,
    show (12 : UInt16).toNat % 16 = 12 from rfl]
  omega

theorem toNat_rest (u : UInt16) (hu : u.toNat < 2048) :
    (u >>> 6).toUInt8.toNat = u.toNat / 64 := by
  rw [UInt16.toNat_toUInt8, UInt16.toNat_shiftRight, Nat.shiftRight_eq_div_pow,
    show (6 : UInt16).toNat % 16 = 6 from rfl]
  omega

theorem toNat_group (x : UInt8) (hx : x.toNat < 64) :
    (x.toUInt16 <<< 6).toNat = 64 * x.toNat := by
  rw [UInt16.toNat_shiftLeft, UInt8.toNat_toUInt16, Nat.shiftLeft_eq,
    show (6 : UInt16).toNat % 16 = 6 from rfl]
  omega

theorem join_two (u : UInt16) (hu : u.toNat < 2048) :
    (u >>> 6).toUInt8.toUInt16 <<< 6 ||| (u &&& 0x3F).toUInt8.toUInt16 = u := by
  have hlow : u.toNat % 64 < 2 ^ 6 := by omega
  have hor := Nat.two_pow_add_eq_or_of_lt hlow (u.toNat / 64)
  have hrest := toNat_rest u hu
  apply UInt16.toNat_inj.mp
  rw [UInt16.toNat_or, toNat_group _ (by omega), hrest, UInt8.toNat_toUInt16, toNat_low,
    show 64 * (u.toNat / 64) = 2 ^ 6 * (u.toNat / 64) from rfl, ← hor]
  omega

theorem join_three (u : UInt16) :
    (u >>> 12).toUInt8.toUInt16 <<< 12 ||| (u >>> 6 &&& 0x3F).toUInt8.toUInt16 <<< 6 |||
      (u &&& 0x3F).toUInt8.toUInt16 = u := by
  have hu := u.toNat_lt
  have hhigh := toNat_high u
  have hmiddle := toNat_middle u
  have h1 := Nat.two_pow_add_eq_or_of_lt (i := 12) (b := 64 * (u.toNat / 64 % 64)) (by omega)
    (u.toNat / 4096)
  have h2 := Nat.two_pow_add_eq_or_of_lt (i := 6) (b := u.toNat % 64) (by omega) (u.toNat / 64)
  have e1 : 2 ^ 12 * (u.toNat / 4096) + 64 * (u.toNat / 64 % 64) = 2 ^ 6 * (u.toNat / 64) := by
    omega
  have htop : ((u >>> 12).toUInt8.toUInt16 <<< 12).toNat = 2 ^ 12 * (u.toNat / 4096) := by
    rw [UInt16.toNat_shiftLeft, UInt8.toNat_toUInt16, Nat.shiftLeft_eq, hhigh,
      show (12 : UInt16).toNat % 16 = 12 from rfl]
    omega
  apply UInt16.toNat_inj.mp
  rw [UInt16.toNat_or, UInt16.toNat_or, htop, toNat_group _ (by omega), hmiddle,
    UInt8.toNat_toUInt16, toNat_low, ← h1, e1, ← h2]
  omega

/-! ### Units read back -/

theorem unitsOfBytes_bytesOfUnit (u : UInt16) (rest : List UInt8) :
    unitsOfBytes (bytesOfUnit u ++ rest) = u :: unitsOfBytes rest := by
  have hu := u.toNat_lt
  unfold bytesOfUnit
  split
  · rename_i h
    have hlt : u.toNat < 128 := UInt16.lt_iff_toNat_lt.mp h.2
    have hbyte : u.toUInt8.toNat = u.toNat := by
      rw [UInt16.toNat_toUInt8]
      omega
    have hunit : u.toUInt8.toUInt16 = u := by
      apply UInt16.toNat_inj.mp
      rw [UInt8.toNat_toUInt16, hbyte]
    obtain ⟨h2, h3⟩ := lead_one u.toUInt8 (by omega)
    show unitsOfBytes (u.toUInt8 :: rest) = u :: unitsOfBytes rest
    rw [unitsOfBytes_one _ _ h2 h3, hunit]
  · split
    · rename_i h
      have hlt : u.toNat < 2048 := UInt16.lt_iff_toNat_lt.mp h
      have hrest := toNat_rest u hlt
      have hlow := toNat_low u
      obtain ⟨h2, hlead⟩ := lead_two (u >>> 6).toUInt8 (by omega)
      have hnext := following (u &&& 0x3F).toUInt8 (by omega)
      show unitsOfBytes (((u >>> 6).toUInt8 ||| 0xC0) :: ((u &&& 0x3F).toUInt8 ||| 0x80) :: rest) =
        u :: unitsOfBytes rest
      rw [unitsOfBytes_two _ _ _ h2, hlead, hnext, join_two u hlt]
    · have hhigh := toNat_high u
      have hmiddle := toNat_middle u
      have hlow := toNat_low u
      obtain ⟨h2, h3, hlead⟩ := lead_three (u >>> 12).toUInt8 (by omega)
      have hnext := following (u >>> 6 &&& 0x3F).toUInt8 (by omega)
      have hlast := following (u &&& 0x3F).toUInt8 (by omega)
      show unitsOfBytes (((u >>> 12).toUInt8 ||| 0xE0) :: ((u >>> 6 &&& 0x3F).toUInt8 ||| 0x80) ::
        ((u &&& 0x3F).toUInt8 ||| 0x80) :: rest) = u :: unitsOfBytes rest
      rw [unitsOfBytes_three _ _ _ _ h2 h3, hlead, hnext, hlast, join_three]

theorem unitsOfBytes_flatMap (units : List UInt16) :
    unitsOfBytes (units.flatMap bytesOfUnit) = units := by
  induction units with
  | nil => rfl
  | cons u units ih => rw [List.flatMap_cons, unitsOfBytes_bytesOfUnit, ih]

/-! ### Characters read back -/

theorem isHigh_iff (u : UInt16) : isHigh u = true ↔ 0xD800 ≤ u.toNat ∧ u.toNat < 0xDC00 := by
  simp [isHigh, UInt16.le_iff_toNat_le, UInt16.lt_iff_toNat_lt]

theorem isLow_iff (u : UInt16) : isLow u = true ↔ 0xDC00 ≤ u.toNat ∧ u.toNat < 0xE000 := by
  simp [isLow, UInt16.le_iff_toNat_le, UInt16.lt_iff_toNat_lt]

theorem char_range (c : Char) : c.toNat < 0xD800 ∨ 0xDFFF < c.toNat ∧ c.toNat < 0x110000 :=
  c.valid

theorem charsOfUnits_cons (u : UInt16) (rest : List UInt16) (h : isHigh u = false) :
    charsOfUnits (u :: rest) = charOfUnit u :: charsOfUnits rest := by
  match rest with
  | [] => rfl
  | v :: rest => simp [charsOfUnits, h]

theorem charsOfUnits_unitsOfChar (c : Char) (rest : List UInt16) :
    charsOfUnits (unitsOfChar c ++ rest) = c :: charsOfUnits rest := by
  have hc := char_range c
  unfold unitsOfChar
  split
  · rename_i h
    have hu : (UInt16.ofNat c.toNat).toNat = c.toNat := UInt16.toNat_ofNat_of_lt' h
    have hhigh : isHigh (UInt16.ofNat c.toNat) = false := by
      rw [Bool.eq_false_iff, ne_eq, isHigh_iff, hu]
      omega
    have hlow : isLow (UInt16.ofNat c.toNat) = false := by
      rw [Bool.eq_false_iff, ne_eq, isLow_iff, hu]
      omega
    have hchar : charOfUnit (UInt16.ofNat c.toNat) = c := by
      simp [charOfUnit, hhigh, hlow, hu, Char.ofNat_toNat]
    show charsOfUnits (UInt16.ofNat c.toNat :: rest) = c :: charsOfUnits rest
    rw [charsOfUnits_cons _ _ hhigh, hchar]
  · rename_i h
    have hh : (UInt16.ofNat (0xD800 + (c.toNat - 0x10000) / 0x400)).toNat =
        0xD800 + (c.toNat - 0x10000) / 0x400 :=
      UInt16.toNat_ofNat_of_lt' (show _ < 0x10000 by omega)
    have hl : (UInt16.ofNat (0xDC00 + (c.toNat - 0x10000) % 0x400)).toNat =
        0xDC00 + (c.toNat - 0x10000) % 0x400 :=
      UInt16.toNat_ofNat_of_lt' (show _ < 0x10000 by omega)
    have hhigh := (isHigh_iff _).mpr (by rw [hh]; omega)
    have hlow := (isLow_iff _).mpr (by rw [hl]; omega)
    have hchar : charOfPair (UInt16.ofNat (0xD800 + (c.toNat - 0x10000) / 0x400))
        (UInt16.ofNat (0xDC00 + (c.toNat - 0x10000) % 0x400)) = c := by
      have hsum : 0x10000 + (0xD800 + (c.toNat - 0x10000) / 0x400 - 0xD800) * 0x400 +
          (0xDC00 + (c.toNat - 0x10000) % 0x400 - 0xDC00) = c.toNat := by omega
      rw [charOfPair, hh, hl, hsum, Char.ofNat_toNat]
    show charsOfUnits (UInt16.ofNat (0xD800 + (c.toNat - 0x10000) / 0x400) ::
      UInt16.ofNat (0xDC00 + (c.toNat - 0x10000) % 0x400) :: rest) = c :: charsOfUnits rest
    rw [charsOfUnits, hhigh, hlow, hchar]
    rfl

theorem charsOfUnits_flatMap (chars : List Char) :
    charsOfUnits (chars.flatMap unitsOfChar) = chars := by
  induction chars with
  | nil => rfl
  | cons c chars ih => rw [List.flatMap_cons, charsOfUnits_unitsOfChar, ih]

theorem decode_encode (s : String) : decode (encode s) = s := by
  rw [decode, encode, unitsOfBytes_flatMap, charsOfUnits_flatMap, String.ofList_toList]

/-! ### Bytes that do not occur -/

theorem marked_range (a mark : UInt8)
    (h : mark = 0x80 ∧ a.toNat < 64 ∨ mark = 0xC0 ∧ a.toNat < 32 ∨ mark = 0xE0 ∧ a.toNat < 16) :
    a ||| mark ≠ 0 ∧ a ||| mark < 0xF0 := by
  have key : ∀ x : Fin 64, ∀ m ∈ [(0x80 : UInt8), 0xC0, 0xE0],
      m = 0x80 ∨ m = 0xC0 ∧ x.val < 32 ∨ m = 0xE0 ∧ x.val < 16 →
      UInt8.ofNat x.val ||| m ≠ 0 ∧ UInt8.ofNat x.val ||| m < 0xF0 := by decide +kernel
  have ha : a.toNat < 64 := by omega
  have hmark := key ⟨a.toNat, ha⟩ mark (by grind) (by grind)
  simpa using hmark

theorem bytesOfUnit_range (u : UInt16) : ∀ b ∈ bytesOfUnit u, b ≠ 0 ∧ b < 0xF0 := by
  have hlow := toNat_low u
  unfold bytesOfUnit
  split
  · rename_i h
    have hlt : u.toNat < 128 := UInt16.lt_iff_toNat_lt.mp h.2
    have hne : u.toNat ≠ 0 := fun hzero => h.1 (UInt16.toNat_inj.mp hzero)
    have hbyte : u.toUInt8.toNat = u.toNat := by
      rw [UInt16.toNat_toUInt8]
      omega
    refine List.forall_mem_singleton.mpr ⟨fun hzero => hne ?_, UInt8.lt_iff_toNat_lt.mpr ?_⟩
    · rw [← hbyte, hzero]
      rfl
    · rw [hbyte]
      exact Nat.lt_trans hlt (by decide)
  · have hlast : (u &&& 0x3F).toUInt8.toNat < 64 := by omega
    split
    · rename_i h
      have hlt : u.toNat < 2048 := UInt16.lt_iff_toNat_lt.mp h
      have hrest := toNat_rest u hlt
      refine List.forall_mem_cons.mpr ⟨marked_range _ _ (.inr (.inl ⟨rfl, ?_⟩)),
        List.forall_mem_singleton.mpr (marked_range _ _ (.inl ⟨rfl, hlast⟩))⟩
      omega
    · have hu := u.toNat_lt
      have hhigh := toNat_high u
      have hmiddle := toNat_middle u
      refine List.forall_mem_cons.mpr ⟨marked_range _ _ (.inr (.inr ⟨rfl, ?_⟩)),
        List.forall_mem_cons.mpr ⟨marked_range _ _ (.inl ⟨rfl, ?_⟩),
          List.forall_mem_singleton.mpr (marked_range _ _ (.inl ⟨rfl, hlast⟩))⟩⟩
      · omega
      · omega

theorem encode_range (s : String) : ∀ b ∈ encode s, b ≠ 0 ∧ b < 0xF0 := by
  intro b hb
  obtain ⟨u, -, hu⟩ := List.mem_flatMap.mp hb
  exact bytesOfUnit_range u b hu

end Jvm.Text.ModifiedUtf8
