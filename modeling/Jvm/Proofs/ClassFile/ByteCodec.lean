import Jvm.Bytes

/-!
# Reading what was written

Big-endian words read back to what they were written from, and two relations between a reader and
bytes. `Reads p bytes a` says that `p` takes `bytes` off the front of every input and answers `a`.
`Exact p write` says that whatever `p` accepts is what `write` gives for its answer, followed by
the rest. Both hold of readers and parsers alike, and both are carried from the parts of a format
to the whole.
-/

namespace Jvm

/-! ### Words as numbers -/

namespace Bytes

theorem toNat_toU2 (a b : UInt8) : (toU2 a b).toNat = a.toNat * 256 + b.toNat := by
  have ha := a.toNat_lt
  have hb := b.toNat_lt
  have hor := Nat.two_pow_add_eq_or_of_lt (i := 8) hb a.toNat
  have hs : a.toNat * 2 ^ ((8 : UInt16).toNat % 16) % 2 ^ 16 = 2 ^ 8 * a.toNat := by
    rw [show (8 : UInt16).toNat % 16 = 8 from rfl]
    omega
  simp only [toU2, UInt16.toNat_or, UInt16.toNat_shiftLeft, UInt8.toNat_toUInt16,
    Nat.shiftLeft_eq]
  rw [hs, ← hor]
  omega

theorem toNat_byte_shiftLeft (x : UInt8) (k : UInt32) (hk : k.toNat ≤ 24) :
    (x.toUInt32 <<< k).toNat = x.toNat <<< k.toNat := by
  have hx := x.toNat_lt
  have hp : 2 ^ k.toNat ≤ 2 ^ 24 := Nat.pow_le_pow_right (by omega) hk
  have hm : x.toNat * 2 ^ k.toNat < 2 ^ 32 := by
    calc x.toNat * 2 ^ k.toNat ≤ 255 * 2 ^ 24 := Nat.mul_le_mul (by omega) hp
      _ < 2 ^ 32 := by omega
  rw [UInt32.toNat_shiftLeft, UInt8.toNat_toUInt32, Nat.shiftLeft_eq, Nat.shiftLeft_eq,
    Nat.mod_eq_of_lt (show k.toNat < 32 by omega), Nat.mod_eq_of_lt hm]

theorem toNat_toU4 (a b c d : UInt8) :
    (toU4 a b c d).toNat = ((a.toNat * 256 + b.toNat) * 256 + c.toNat) * 256 + d.toNat := by
  have hb := b.toNat_lt
  have hc := c.toNat_lt
  have hd := d.toNat_lt
  -- Each byte lies below the ones before it, so every bitwise or is a sum.
  have h1 := Nat.two_pow_add_eq_or_of_lt (i := 24) (b := b.toNat * 2 ^ 16) (by omega) a.toNat
  have h2 := Nat.two_pow_add_eq_or_of_lt (i := 16) (b := c.toNat * 2 ^ 8) (by omega)
    (a.toNat * 256 + b.toNat)
  have h3 := Nat.two_pow_add_eq_or_of_lt (i := 8) hd
    ((a.toNat * 256 + b.toNat) * 256 + c.toNat)
  have e1 : 2 ^ 24 * a.toNat + b.toNat * 2 ^ 16 = 2 ^ 16 * (a.toNat * 256 + b.toNat) := by omega
  have e2 : 2 ^ 16 * (a.toNat * 256 + b.toNat) + c.toNat * 2 ^ 8 =
      2 ^ 8 * ((a.toNat * 256 + b.toNat) * 256 + c.toNat) := by omega
  rw [toU4, UInt32.toNat_or, UInt32.toNat_or, UInt32.toNat_or,
    toNat_byte_shiftLeft a 24 (by decide), toNat_byte_shiftLeft b 16 (by decide),
    toNat_byte_shiftLeft c 8 (by decide), UInt8.toNat_toUInt32]
  rw [show (24 : UInt32).toNat = 24 from rfl, show (16 : UInt32).toNat = 16 from rfl,
    show (8 : UInt32).toNat = 8 from rfl, Nat.shiftLeft_eq, Nat.shiftLeft_eq, Nat.shiftLeft_eq]
  rw [Nat.mul_comm a.toNat, ← h1, e1, ← h2, e2, ← h3]
  omega

theorem toNat_joinU8 (high low : UInt32) :
    (joinU8 high low).toNat = high.toNat * 4294967296 + low.toNat := by
  have hh := high.toNat_lt
  have hl := low.toNat_lt
  have hor := Nat.two_pow_add_eq_or_of_lt (i := 32) hl high.toNat
  have hs : high.toNat * 2 ^ ((32 : UInt64).toNat % 64) % 2 ^ 64 = 2 ^ 32 * high.toNat := by
    rw [show (32 : UInt64).toNat % 64 = 32 from rfl]
    omega
  simp only [joinU8, UInt64.toNat_or, UInt64.toNat_shiftLeft, UInt32.toNat_toUInt64,
    Nat.shiftLeft_eq]
  rw [hs, ← hor]
  omega

/-! ### Words and their bytes -/

theorem ofU2_toU2 (a b : UInt8) : ofU2 (toU2 a b) = [a, b] := by
  have ha := a.toNat_lt
  have hb := b.toNat_lt
  have hw := toNat_toU2 a b
  have h1 : (toU2 a b >>> 8).toUInt8 = a := by
    apply UInt8.toNat_inj.mp
    rw [UInt16.toNat_toUInt8, UInt16.toNat_shiftRight, hw, Nat.shiftRight_eq_div_pow,
      show (8 : UInt16).toNat % 16 = 8 from rfl]
    omega
  have h2 : (toU2 a b).toUInt8 = b := by
    apply UInt8.toNat_inj.mp
    rw [UInt16.toNat_toUInt8, hw]
    omega
  rw [ofU2, h1, h2]

theorem toU2_ofU2 (w : UInt16) : toU2 (w >>> 8).toUInt8 w.toUInt8 = w := by
  have hw := w.toNat_lt
  apply UInt16.toNat_inj.mp
  rw [toNat_toU2, UInt16.toNat_toUInt8, UInt16.toNat_toUInt8, UInt16.toNat_shiftRight,
    Nat.shiftRight_eq_div_pow, show (8 : UInt16).toNat % 16 = 8 from rfl]
  omega

theorem toNat_count {n : Nat} (h : n ≤ 65535) : (UInt16.ofNat n).toNat = n :=
  UInt16.toNat_ofNat_of_lt' (Nat.lt_succ_of_le h)

theorem toNat_word_byte (w k : UInt32) (hk : k.toNat < 32) :
    (w >>> k).toUInt8.toNat = (w.toNat >>> k.toNat) % 256 := by
  rw [UInt32.toNat_toUInt8, UInt32.toNat_shiftRight, Nat.mod_eq_of_lt hk]

theorem ofU4_toU4 (a b c d : UInt8) : ofU4 (toU4 a b c d) = [a, b, c, d] := by
  have ha := a.toNat_lt
  have hb := b.toNat_lt
  have hc := c.toNat_lt
  have hd := d.toNat_lt
  have hw := toNat_toU4 a b c d
  have h1 : (toU4 a b c d >>> 24).toUInt8 = a := by
    apply UInt8.toNat_inj.mp
    rw [toNat_word_byte _ 24 (by decide), hw, show (24 : UInt32).toNat = 24 from rfl,
      Nat.shiftRight_eq_div_pow]
    omega
  have h2 : (toU4 a b c d >>> 16).toUInt8 = b := by
    apply UInt8.toNat_inj.mp
    rw [toNat_word_byte _ 16 (by decide), hw, show (16 : UInt32).toNat = 16 from rfl,
      Nat.shiftRight_eq_div_pow]
    omega
  have h3 : (toU4 a b c d >>> 8).toUInt8 = c := by
    apply UInt8.toNat_inj.mp
    rw [toNat_word_byte _ 8 (by decide), hw, show (8 : UInt32).toNat = 8 from rfl,
      Nat.shiftRight_eq_div_pow]
    omega
  have h4 : (toU4 a b c d).toUInt8 = d := by
    apply UInt8.toNat_inj.mp
    rw [UInt32.toNat_toUInt8, hw]
    omega
  rw [ofU4, h1, h2, h3, h4]

theorem toU4_ofU4 (w : UInt32) :
    toU4 (w >>> 24).toUInt8 (w >>> 16).toUInt8 (w >>> 8).toUInt8 w.toUInt8 = w := by
  have hw := w.toNat_lt
  apply UInt32.toNat_inj.mp
  rw [toNat_toU4, toNat_word_byte w 24 (by decide), toNat_word_byte w 16 (by decide),
    toNat_word_byte w 8 (by decide), UInt32.toNat_toUInt8,
    show (24 : UInt32).toNat = 24 from rfl, show (16 : UInt32).toNat = 16 from rfl,
    show (8 : UInt32).toNat = 8 from rfl]
  simp only [Nat.shiftRight_eq_div_pow]
  omega

theorem ofU8_joinU8 (high low : UInt32) : ofU8 (joinU8 high low) = ofU4 high ++ ofU4 low := by
  have hh := high.toNat_lt
  have hl := low.toNat_lt
  have hw := toNat_joinU8 high low
  have h1 : (joinU8 high low >>> 32).toUInt32 = high := by
    apply UInt32.toNat_inj.mp
    rw [UInt64.toNat_toUInt32, UInt64.toNat_shiftRight, hw, Nat.shiftRight_eq_div_pow,
      show (32 : UInt64).toNat % 64 = 32 from rfl]
    omega
  have h2 : (joinU8 high low).toUInt32 = low := by
    apply UInt32.toNat_inj.mp
    rw [UInt64.toNat_toUInt32, hw]
    omega
  rw [ofU8, h1, h2]

theorem joinU8_halves (w : UInt64) : joinU8 (w >>> 32).toUInt32 w.toUInt32 = w := by
  have hw := w.toNat_lt
  apply UInt64.toNat_inj.mp
  rw [toNat_joinU8, UInt64.toNat_toUInt32, UInt64.toNat_toUInt32, UInt64.toNat_shiftRight,
    Nat.shiftRight_eq_div_pow, show (32 : UInt64).toNat % 64 = 32 from rfl]
  omega

end Bytes

/-! ### Reading exact bytes -/

/-- Takes `bytes` off the front of every input and answers `a`. -/
def Reads {m : Type → Type} [Monad m] {α : Type} (p : StateT Bytes m α) (bytes : Bytes) (a : α) :
    Prop :=
  ∀ rest, p (bytes ++ rest) = pure (a, rest)

/-- Accepts only what `write` gives for the answer, followed by the rest. -/
def Exact {m : Type → Type} [Monad m] {α : Type} (p : StateT Bytes m α) (write : α → Bytes) :
    Prop :=
  ∀ s a rest, p s = pure (a, rest) → s = write a ++ rest

namespace Reads

variable {m : Type → Type} [Monad m] {α β : Type}

theorem of_pure (a : α) : Reads (pure a : StateT Bytes m α) [] a := by
  intro rest
  rfl

theorem bind [LawfulMonad m] {p : StateT Bytes m α} {f : α → StateT Bytes m β} {b₁ b₂ : Bytes}
    {a : α} {c : β} (hp : Reads p b₁ a) (hf : Reads (f a) b₂ c) :
    Reads (p >>= f) (b₁ ++ b₂) c := by
  intro rest
  show (p (b₁ ++ b₂ ++ rest) >>= fun x => f x.1 x.2) = pure (c, rest)
  rw [List.append_assoc, hp (b₂ ++ rest), pure_bind]
  exact hf rest

theorem answer [LawfulMonad m] {p : StateT Bytes m α} {f : α → StateT Bytes m β} {bytes : Bytes}
    {a : α} {c : β} (hp : Reads p bytes a) (hf : Reads (f a) [] c) : Reads (p >>= f) bytes c := by
  have h := hp.bind hf
  rwa [List.append_nil] at h

theorem after [LawfulMonad m] {p : StateT Bytes m α} {f : α → StateT Bytes m β} {bytes : Bytes}
    {a : α} {c : β} (hp : Reads p [] a) (hf : Reads (f a) bytes c) : Reads (p >>= f) bytes c :=
  hp.bind hf

end Reads

namespace Reader

variable {α β : Type}

theorem bind_eq_some {r : Reader α} {f : α → Reader β} {s rest : Bytes} {b : β}
    (h : (r >>= f) s = some (b, rest)) :
    ∃ a mid, r s = some (a, mid) ∧ f a mid = some (b, rest) := by
  obtain ⟨⟨a, mid⟩, hr, hf⟩ := Option.bind_eq_some_iff.mp h
  exact ⟨a, mid, hr, hf⟩

theorem u1_exact : Exact u1 fun a => [a] := by
  intro s a rest h
  cases s with
  | nil => cases h
  | cons x xs =>
    cases h
    rfl

theorem u2_exact : Exact u2 Bytes.ofU2 := by
  intro s w rest h
  match s, h with
  | a :: b :: xs, h =>
    cases h
    rw [Bytes.ofU2_toU2]
    rfl

theorem u4_exact : Exact u4 Bytes.ofU4 := by
  intro s w rest h
  match s, h with
  | a :: b :: c :: d :: xs, h =>
    cases h
    rw [Bytes.ofU4_toU4]
    rfl

theorem u8_exact : Exact u8 Bytes.ofU8 := by
  intro s w rest h
  obtain ⟨high, mid, h1, h⟩ := bind_eq_some h
  obtain ⟨low, mid', h2, h⟩ := bind_eq_some h
  cases h
  rw [u4_exact s high mid h1, u4_exact mid low rest h2, Bytes.ofU8_joinU8, List.append_assoc]

theorem u1_reads (a : UInt8) : Reads u1 [a] a := fun _ => rfl

theorem u2_reads (w : UInt16) : Reads u2 (Bytes.ofU2 w) w := by
  intro rest
  show some (Bytes.toU2 (w >>> 8).toUInt8 w.toUInt8, rest) = some (w, rest)
  rw [Bytes.toU2_ofU2]

theorem u4_reads (w : UInt32) : Reads u4 (Bytes.ofU4 w) w := by
  intro rest
  show some (Bytes.toU4 (w >>> 24).toUInt8 (w >>> 16).toUInt8 (w >>> 8).toUInt8 w.toUInt8, rest) =
    some (w, rest)
  rw [Bytes.toU4_ofU4]

theorem u8_reads (w : UInt64) : Reads u8 (Bytes.ofU8 w) w := by
  have h : Reads u8 (Bytes.ofU4 (w >>> 32).toUInt32 ++ (Bytes.ofU4 w.toUInt32 ++ []))
      (Bytes.joinU8 (w >>> 32).toUInt32 w.toUInt32) :=
    (u4_reads _).bind ((u4_reads _).bind (Reads.of_pure _))
  rw [Bytes.joinU8_halves, List.append_nil] at h
  exact h

theorem take_eq_some {n : Nat} {s taken rest : Bytes} (h : take n s = some (taken, rest)) :
    s = taken ++ rest ∧ taken.length = n := by
  dsimp only [take] at h
  split at h
  · rename_i hn
    cases h
    exact ⟨(List.take_append_drop n s).symm, hn⟩
  · cases h

theorem take_reads (bytes : Bytes) : Reads (take bytes.length) bytes bytes := by
  intro rest
  show take bytes.length (bytes ++ rest) = some (bytes, rest)
  simp [take]

end Reader

namespace Parser

variable {α β γ : Type}

theorem bind_eq_ok {p : Parser α} {f : α → Parser β} {s rest : Bytes} {b : β}
    (h : (p >>= f) s = .ok (b, rest)) :
    ∃ a mid, p s = .ok (a, mid) ∧ f a mid = .ok (b, rest) := by
  change (Except.bind (p s) fun x => f x.1 x.2) = .ok (b, rest) at h
  cases hp : p s with
  | error e =>
    rw [hp] at h
    cases h
  | ok x =>
    rw [hp] at h
    exact ⟨x.1, x.2, rfl, h⟩

theorem ofReader_eq_ok {short : Fault} {r : Reader α} {s rest : Bytes} {a : α}
    (h : ofReader short r s = .ok (a, rest)) : r s = some (a, rest) := by
  unfold ofReader at h
  split at h
  · rename_i x hx
    cases h
    exact hx
  · cases h

theorem ofExcept_eq_ok {e : Except Fault α} {s rest : Bytes} {a : α}
    (h : ofExcept e s = .ok (a, rest)) : e = .ok a ∧ s = rest := by
  unfold ofExcept at h
  split at h
  · cases h
    exact ⟨rfl, rfl⟩
  · cases h

theorem within_eq_ok {label : String} {p : Parser α} {s rest : Bytes} {a : α}
    (h : within label p s = .ok (a, rest)) : p s = .ok (a, rest) := by
  unfold within at h
  split at h
  · rename_i x hx
    cases h
    exact hx
  · cases h

theorem reads_ofReader (short : Fault) {r : Reader α} {bytes : Bytes} {a : α}
    (h : Reads r bytes a) : Reads (ofReader short r) bytes a := by
  intro rest
  have hr : r (bytes ++ rest) = some (a, rest) := h rest
  show ofReader short r (bytes ++ rest) = .ok (a, rest)
  rw [ofReader, hr]

theorem reads_reading (what : String) {r : Reader α} {bytes : Bytes} {a : α}
    (h : Reads r bytes a) : Reads (reading what r) bytes a := reads_ofReader _ h

theorem reads_ofExcept {e : Except Fault α} {a : α} (h : e = .ok a) : Reads (ofExcept e) [] a := by
  intro rest
  rw [h]
  rfl

theorem eq_ok_of_reads {p : Parser α} {bytes : Bytes} {a : α} (h : Reads p bytes a)
    (rest : Bytes) : p (bytes ++ rest) = .ok (a, rest) := h rest

theorem reads_within (label : String) {p : Parser α} {bytes : Bytes} {a : α}
    (h : Reads p bytes a) : Reads (within label p) bytes a := by
  intro rest
  show within label p (bytes ++ rest) = .ok (a, rest)
  rw [within, eq_ok_of_reads h rest]

theorem reads_map (f : α → β) {p : Parser α} {bytes : Bytes} {a : α} (h : Reads p bytes a) :
    Reads (f <$> p) bytes (f a) :=
  h.answer (f := fun a => pure (f a)) (Reads.of_pure (f a))

/-! ### Lists of items -/

theorem itemsOnto_exact {item : Nat → Parser α} {write : α → Bytes}
    (hitem : ∀ i, Exact (item i) write) (n i : Nat) (acc as : List α) (s rest : Bytes)
    (h : itemsOnto item n i acc s = .ok (as, rest)) :
    ∃ new, as = acc.reverse ++ new ∧ new.length = n ∧ s = new.flatMap write ++ rest := by
  induction n generalizing i acc s with
  | zero =>
    cases h
    exact ⟨[], by simp, rfl, rfl⟩
  | succ n ih =>
    unfold itemsOnto at h
    split at h
    · cases h
    · rename_i a mid ha
      obtain ⟨new, has, hlen, hmid⟩ := ih (i + 1) (a :: acc) mid h
      refine ⟨a :: new, by simp [has], by simp [hlen], ?_⟩
      rw [hitem i s a mid ha, hmid, List.flatMap_cons, List.append_assoc]

/-- A list read item by item is the items that were written, and as many as were asked for. -/
theorem items_exact {item : Nat → Parser α} {write : α → Bytes}
    (hitem : ∀ i, Exact (item i) write) {n : Nat} {as : List α} {s rest : Bytes}
    (h : items n item s = .ok (as, rest)) : as.length = n ∧ s = as.flatMap write ++ rest := by
  obtain ⟨new, has, hlen, hs⟩ := itemsOnto_exact hitem n 0 [] as s rest h
  have hnew : as = new := by simpa using has
  subst hnew
  exact ⟨hlen, hs⟩

theorem itemsOnto_reads (item : Nat → Parser α) (write : β → Bytes) (view : α → γ) (shown : β → γ)
    (bs : List β) (hitem : ∀ b ∈ bs, ∃ a, (∀ i, Reads (item i) (write b) a) ∧ view a = shown b) :
    ∃ as, as.map view = bs.map shown ∧
      ∀ i acc, Reads (itemsOnto item bs.length i acc) (bs.flatMap write) (acc.reverse ++ as) := by
  induction bs with
  | nil =>
    refine ⟨[], rfl, fun i acc rest => ?_⟩
    show Except.ok (acc.reverse, [] ++ rest) = Except.ok (acc.reverse ++ [], rest)
    simp
  | cons b bs ih =>
    obtain ⟨a, ha, hv⟩ := hitem b (List.mem_cons_self ..)
    obtain ⟨as, hmap, has⟩ := ih fun x hx => hitem x (List.mem_cons_of_mem _ hx)
    refine ⟨a :: as, by simp [hv, hmap], fun i acc rest => ?_⟩
    have hfirst := eq_ok_of_reads (ha i) (bs.flatMap write ++ rest)
    have hrest := has (i + 1) (a :: acc) rest
    rw [List.flatMap_cons, List.append_assoc, List.length_cons, itemsOnto, hfirst]
    simpa using hrest

/-- When every item is read back to something that looks the same, so is the list. -/
theorem items_reads (item : Nat → Parser α) (write : β → Bytes) (view : α → γ) (shown : β → γ)
    (bs : List β) (hitem : ∀ b ∈ bs, ∃ a, (∀ i, Reads (item i) (write b) a) ∧ view a = shown b) :
    ∃ as, as.map view = bs.map shown ∧
      Reads (items bs.length item) (bs.flatMap write) as := by
  obtain ⟨as, hmap, has⟩ := itemsOnto_reads item write view shown bs hitem
  exact ⟨as, hmap, has 0 []⟩

end Parser

end Jvm
