import Mathlib.Data.List.Chain
import Jvm.Proofs.ClassFile.AttributeCodec

/-!
# How deep attributes are nested

A `Run` follows the decoder call by call: it is a finite tree, with a run for each attribute that is
decoded inside another one. It does not mention the bound that `decodeWithin` counts down. Each call
inside is on an attribute that is at least 18 bytes shorter, so every attribute has a run whose
depth is bounded by its length, and there are attributes of which no run is less deep.
-/

namespace Jvm.Attribute

/-- Decoding `a` ends with the answer `r` after calls nested at most `depth` deep, the one on `a`
included: whatever is decoded on the way has a run of its own, with the answer that `nested` gives
for it. -/
inductive Run (pool : ConstantPool) : Nat → Raw → Except Fault AttributeBody → Prop where
  | intro {depth : Nat} {a : Raw} (nested : String → Bytes → Except Fault AttributeBody)
    (inside : ∀ b ∈ decodedIn nested pool a, Run pool depth b (nested b.name b.info)) :
    Run pool (depth + 1) a (decodeBy nested pool a)

/-! ### Runs -/

section

variable {pool : ConstantPool} {a : Raw} {depth : Nat}

/-- Every attribute has a run, at any depth that exceeds an eighteenth of its length. -/
theorem run_decode (h : a.info.length / 18 < depth) :
    Run pool depth a (decode pool a.name a.info) := by
  induction depth generalizing a with
  | zero => omega
  | succ depth ih =>
    rw [decode_eq_decodeBy]
    refine .intro (decode pool) fun b hb => ih ?_
    have hlength := mem_decodedIn hb
    omega

/-- Runs have no other answer than the decoder. So nothing that is decoded on the way is left out of
a run, since its answer could be any then. -/
theorem Run.answer {r : Except Fault AttributeBody} (h : Run pool depth a r) :
    r = decode pool a.name a.info := by
  induction h with
  | @intro depth a nested inside ih =>
    rw [decode_eq_decodeBy]
    exact (decodeBy_congr fun b hb => (ih b hb).symm).symm

theorem wellFounded_decodedIn (nested : String → Bytes → Except Fault AttributeBody)
    (pool : ConstantPool) : WellFounded fun b a => b ∈ decodedIn nested pool a := by
  refine Subrelation.wf (fun {b a} hb => ?_) (measure fun a : Raw => a.info.length).wf
  have hlength := mem_decodedIn hb
  show b.info.length < a.info.length
  omega

/-- A path into the attributes inside an attribute takes 18 bytes a step. -/
theorem path_length (path : List Raw)
    (h : (a :: path).IsChain fun outer inner => inner ∈ decodedIn (decode pool) pool outer) :
    path.length ≤ a.info.length / 18 := by
  induction path generalizing a with
  | nil => exact Nat.zero_le _
  | cons b path ih =>
    obtain ⟨hb, hpath⟩ := List.isChain_cons_cons.mp h
    have hlength := mem_decodedIn hb
    have hrest := ih hpath
    rw [List.length_cons]
    omega

end

/-- Decoding an attribute ends, after calls nested at most one deeper than an eighteenth of its
length, and no run answers anything but what the decoder does. The reason is that everything decoded
inside an attribute is at least 18 bytes shorter, whether it is accepted or not; in an accepted
method body these are its attributes. So calls inside calls are well-founded, and a path of
attributes each of which is decoded inside the one before, method bodies or not, has no more members
than that bound. -/
theorem decode_nesting (pool : ConstantPool) (a : Raw) :
    Run pool (a.info.length / 18 + 1) a (decode pool a.name a.info) ∧
    (∀ depth r, Run pool depth a r → r = decode pool a.name a.info) ∧
    (∀ nested, ∀ b ∈ decodedIn nested pool a, b.info.length + 18 ≤ a.info.length) ∧
    (∀ code, decode pool a.name a.info = .ok (.code code) →
      decodedIn (decode pool) pool a = code.attributes.map raw) ∧
    (∀ nested, WellFounded fun inner outer => inner ∈ decodedIn nested pool outer) ∧
    ∀ path, ((a :: path).IsChain fun outer inner => inner ∈ decodedIn (decode pool) pool outer) →
      (a :: path).length ≤ a.info.length / 18 + 1 := by
  refine ⟨run_decode (Nat.lt_succ_self _), fun _ _ => Run.answer, fun _ _ => mem_decodedIn,
    fun _ => decodedIn_of_decode, fun nested => wellFounded_decodedIn nested pool,
    fun path hpath => ?_⟩
  exact Nat.succ_le_succ (path_length path hpath)

/-- A method body of 30 bytes whose only attribute is a method body of twelve is decoded two levels
deep. -/
theorem decode_nesting_twice :
    let pool : ConstantPool := ⟨#[none, some (.utf8 "Code" none)]⟩
    let inner : Raw := ⟨"Code", List.replicate 12 0⟩
    let outer : Raw :=
      ⟨"Code", [0, 0, 0, 0, 0, 0, 0, 0, 0, 0, 0, 1, 0, 1, 0, 0, 0, 12] ++ inner.info⟩
    Run pool 2 outer (decode pool "Code" outer.info) ∧
    (∃ code, decode pool "Code" outer.info = .ok (.code code) ∧
      code.attributes.map raw = [inner]) ∧
    decodedIn (decode pool) pool outer = [inner] ∧ inner.info.length + 18 ≤ outer.info.length ∧
    [outer, inner].length ≤ 2 := by
  intro pool inner outer
  obtain ⟨hrun, -, hshorter, haccepted, -, hpath⟩ := decode_nesting pool outer
  have hbound : outer.info.length / 18 + 1 = 2 := by simp [outer, inner]
  rw [hbound] at hrun hpath
  obtain ⟨code, hdecode, hattributes⟩ : ∃ code, decode pool "Code" outer.info = .ok (.code code) ∧
      code.attributes.map raw = [inner] := ⟨_, rfl, rfl⟩
  have hinside : decodedIn (decode pool) pool outer = [inner] :=
    (haccepted code hdecode).trans hattributes
  have hmem : inner ∈ decodedIn (decode pool) pool outer := by
    rw [hinside]
    exact List.mem_singleton_self inner
  exact ⟨hrun, ⟨code, hdecode, hattributes⟩, hinside, hshorter _ inner hmem,
    hpath [inner] (.cons_cons hmem (.singleton inner))⟩

/-! ### Attributes that meet the bound -/

/-- Method bodies without code, one inside the other: each holds the next one as its only attribute,
and the innermost has no bytes at all. The constant at `index` names them. -/
def nest (index : UInt16) : Nat → Bytes
  | 0 => []
  | n + 1 => Code.Head.encode ⟨0, 0, [], []⟩ ++ encodeAll [⟨index, "Code", nest index n, .generic⟩]

theorem length_nest (index : UInt16) (n : Nat) : (nest index n).length = 18 * n := by
  induction n with
  | zero => rfl
  | succ n ih =>
    rw [nest, List.length_append, encodeAll, List.flatMap_singleton, List.length_append,
      length_encode, Bytes.length_ofU2]
    show 10 + (2 + ((nest index n).length + 6)) = 18 * (n + 1)
    omega

theorem Raw.reader_reads {pool : ConstantPool} {a : Attribute}
    (hlength : a.info.length < 4294967296) (hname : pool.utf8 a.nameIndex = .ok a.name) :
    Reads (Raw.reader pool) a.encode a.raw := by
  intro rest
  have hraw : rawReader (a.encode ++ rest) = some ((a.nameIndex, a.info), rest) :=
    rawReader_reads a hlength rest
  rw [Raw.reader, hraw]
  dsimp only
  rw [hname]
  rfl

theorem decodedIn_nest {nested : String → Bytes → Except Fault AttributeBody} {pool : ConstantPool}
    {index : UInt16} (hname : pool.utf8 index = .ok "Code") {n : Nat} (hn : 18 * n < 4294967296) :
    decodedIn nested pool ⟨"Code", nest index (n + 1)⟩ = [⟨"Code", nest index n⟩] := by
  have hhead : Code.Head.reader (nest index (n + 1)) = _ :=
    Code.Head.codec.reads ⟨by decide, by decide⟩ _
  have hcount := codeCount_eq_some hhead (Reader.u2_reads 1 _)
  have hlength := length_nest index n
  have hreader := Raw.reader_reads (a := ⟨index, "Code", nest index n, .generic⟩)
    (show (nest index n).length < _ by omega) hname []
  rw [decodedIn_code hcount]
  cases hbody : nested "Code" (nest index n) with
  | error f => exact decodedAmong_of_error hreader hbody
  | ok body => exact decodedAmong_of_ok hreader hbody

/-- The bound is met at every multiple of 18 bytes: the innermost of these bodies is cut off, but it
takes a call to find out. -/
theorem Run.lt_depth_of_nest {pool : ConstantPool} {index : UInt16}
    (hname : pool.utf8 index = .ok "Code") {n depth : Nat} (hn : 18 * n < 4294967296)
    {r : Except Fault AttributeBody} (h : Run pool depth ⟨"Code", nest index n⟩ r) :
    (nest index n).length / 18 < depth := by
  rw [length_nest, Nat.mul_div_cancel_left n (by decide)]
  induction n generalizing depth r with
  | zero =>
    cases h
    exact Nat.succ_pos _
  | succ n ih =>
    cases h with
    | intro nested inside =>
      rw [decodedIn_nest hname (by omega)] at inside
      have hinner := ih (by omega) (inside _ (List.mem_singleton_self _))
      omega

end Jvm.Attribute
