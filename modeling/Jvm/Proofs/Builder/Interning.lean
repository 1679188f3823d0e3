import Mathlib
import Jvm.ClassFile.Builder
import Jvm.Proofs.Texts

/-!
# Asking for constants

A builder keeps one entry for each key. A constant is asked for after the constants that it is made
of, so asking for it is a sequence of single steps, each of which finds its parts in the table and
appends at most one entry (`ask_eq`). The key of a constant that is no reference gives the constant
away; the texts of the others are run together, and two of them can share a key.
-/

namespace Jvm

/-! ### The slots of an entry -/

def Constant.slots (c : Constant) : List (Option Constant) :=
  if c.isWide then [some c, none] else [some c]

theorem Constant.slots_eq (c : Constant) :
    c.isWide = false ∧ c.slots = [some c] ∨ c.isWide = true ∧ c.slots = [some c, none] := by
  unfold slots
  cases c.isWide <;> simp

theorem Constant.eq_zero_of_slots {c k : Constant} {n : Nat} (h : c.slots[n]?.join = some k) :
    n = 0 := by
  rcases c.slots_eq with ⟨-, hc⟩ | ⟨-, hc⟩ <;> rw [hc] at h
  · cases n with
    | zero => rfl
    | succ n => simp at h
  · cases n with
    | zero => rfl
    | succ n => cases n <;> simp at h

namespace Builder

/-! ### Constants by what they stand for -/

inductive Wanted where
  | utf8 (s : String)
  | class_ (name : String)
  | string (s : String)
  | integer (v : Int32)
  | float (bits : UInt32)
  | long (v : Int64)
  | double (bits : UInt64)
  | nameAndType (name descriptor : String)
  | fieldref (r : MemberRef)
  | methodref (r : MemberRef)
  | interfaceMethodref (r : MemberRef)
  deriving DecidableEq

namespace Wanted

def ask : Wanted → Interning
  | .utf8 s => Builder.utf8 s
  | .class_ name => Builder.class_ name
  | .string s => Builder.string s
  | .integer v => Builder.integer v
  | .float bits => Builder.float bits
  | .long v => Builder.long v
  | .double bits => Builder.double bits
  | .nameAndType name descriptor => Builder.nameAndType name descriptor
  | .fieldref r => Builder.fieldref r
  | .methodref r => Builder.methodref r
  | .interfaceMethodref r => Builder.interfaceMethodref r

def tag : Wanted → ConstantTag
  | .utf8 _ => .utf8
  | .class_ _ => .classRef
  | .string _ => .string
  | .integer _ => .integer
  | .float _ => .float
  | .long _ => .long
  | .double _ => .double
  | .nameAndType .. => .nameAndType
  | .fieldref _ => .fieldref
  | .methodref _ => .methodref
  | .interfaceMethodref _ => .interfaceMethodref

def word : Wanted → String
  | .utf8 _ => "utf8"
  | .class_ _ => "class"
  | .string _ => "string"
  | .integer _ => "int"
  | .float _ => "float"
  | .long _ => "long"
  | .double _ => "double"
  | .nameAndType .. => "nat"
  | .fieldref _ => "field"
  | .methodref _ => "method"
  | .interfaceMethodref _ => "imethod"

def text : Wanted → String
  | .utf8 s | .class_ s | .string s => s
  | .integer v => toString v.toInt
  | .long v => toString v.toInt
  | .float bits => Text.Hex.lower 1 bits.toNat
  | .double bits => Text.Hex.lower 1 bits.toNat
  | .nameAndType name descriptor => name ++ ":" ++ descriptor
  | .fieldref r => r.className ++ "." ++ r.name ++ ":" ++ r.descriptor
  | .methodref r | .interfaceMethodref r => r.text

def key (w : Wanted) : String := w.word ++ ":" ++ w.text

def parts : Wanted → List Wanted
  | .class_ s | .string s => [.utf8 s]
  | .nameAndType name descriptor => [.utf8 name, .utf8 descriptor]
  | .fieldref r | .methodref r | .interfaceMethodref r =>
    [.class_ r.className, .nameAndType r.name r.descriptor]
  | _ => []

def entry (index : Wanted → UInt16) : Wanted → Constant
  | .utf8 s => .utf8 s none
  | .class_ name => .classRef (index (.utf8 name))
  | .string s => .string (index (.utf8 s))
  | .integer v => .integer v
  | .float bits => .float bits
  | .long v => .long v
  | .double bits => .double bits
  | .nameAndType name descriptor =>
    .nameAndType (index (.utf8 name)) (index (.utf8 descriptor))
  | .fieldref r =>
    .fieldref (index (.class_ r.className)) (index (.nameAndType r.name r.descriptor))
  | .methodref r =>
    .methodref (index (.class_ r.className)) (index (.nameAndType r.name r.descriptor))
  | .interfaceMethodref r =>
    .interfaceMethodref (index (.class_ r.className)) (index (.nameAndType r.name r.descriptor))

/-- A constant after its parts, and those after their own. -/
def steps (w : Wanted) : List Wanted := (w.parts.flatMap fun v => v.parts ++ [v]) ++ [w]

/-- Whether the key gives the constant away: the texts of the others are run together. -/
def isPlain : Wanted → Bool
  | .nameAndType .. | .fieldref _ | .methodref _ | .interfaceMethodref _ => false
  | _ => true

@[simp] theorem tag_entry (w : Wanted) (index : Wanted → UInt16) : (w.entry index).tag = w.tag := by
  cases w <;> rfl

theorem mem_steps (w : Wanted) : w ∈ w.steps := List.mem_append_right _ (List.mem_singleton_self w)

theorem entry_congr {w : Wanted} {f g : Wanted → UInt16} (h : ∀ v ∈ w.parts, f v = g v) :
    w.entry f = w.entry g := by
  cases w <;> simp_all [parts, entry]

/-! ### Keys -/

theorem colon_not_mem_word (w : Wanted) : ':' ∉ w.word.toList := by
  cases w <;> simp [word]

def words : List (String × ConstantTag) :=
  [("utf8", .utf8), ("class", .classRef), ("string", .string), ("int", .integer),
    ("float", .float), ("long", .long), ("double", .double), ("nat", .nameAndType),
    ("field", .fieldref), ("method", .methodref), ("imethod", .interfaceMethodref)]

theorem lookup_word (w : Wanted) : words.lookup w.word = some w.tag := by
  cases w <;> rfl

theorem tag_eq_of_word {w v : Wanted} (h : w.word = v.word) : w.tag = v.tag := by
  have hw := w.lookup_word
  rw [h, v.lookup_word] at hw
  exact (Option.some.inj hw).symm

theorem key_eq_iff {w v : Wanted} : w.key = v.key ↔ w.word = v.word ∧ w.text = v.text := by
  have hlist : ∀ u : Wanted, u.key.toList = u.word.toList ++ ':' :: u.text.toList := by
    intro u
    simp [key]
  constructor
  · intro h
    have happ := (hlist w).symm.trans ((congrArg String.toList h).trans (hlist v))
    obtain ⟨hword, htext⟩ := Text.append_separator_inj w.colon_not_mem_word v.colon_not_mem_word happ
    exact ⟨String.toList_injective hword, String.toList_injective htext⟩
  · rintro ⟨hword, htext⟩
    rw [key, key, hword, htext]

theorem tag_eq_of_key {w v : Wanted} (h : w.key = v.key) : w.tag = v.tag :=
  tag_eq_of_word (key_eq_iff.mp h).1

/-- A key belongs to one constant, unless it runs several texts together. -/
theorem eq_of_key {w v : Wanted} (hw : w.isPlain) (h : w.key = v.key) : w = v := by
  have htext := (key_eq_iff.mp h).2
  have htag := tag_eq_of_key h
  cases w with
  | utf8 s | class_ s | string s =>
    cases v <;> cases htag
    exact congrArg _ htext
  | integer x =>
    cases v <;> cases htag
    exact congrArg _ (Int32.toInt_inj.mp (Int.repr_injective htext))
  | long x =>
    cases v <;> cases htag
    exact congrArg _ (Int64.toInt_inj.mp (Int.repr_injective htext))
  | float x =>
    cases v <;> cases htag
    exact congrArg _ (UInt32.toNat_inj.mp (Text.Hex.lower_injective htext))
  | double x =>
    cases v <;> cases htag
    exact congrArg _ (UInt64.toNat_inj.mp (Text.Hex.lower_injective htext))
  | nameAndType | fieldref | methodref | interfaceMethodref => cases hw

end Wanted

/-! ### Single steps -/

variable {b : Builder} {w v : Wanted}

def pool (b : Builder) : ConstantPool := ⟨b.slots⟩

def Knows (b : Builder) (w : Wanted) : Prop := (b.interned.lookup w.key).isSome

def indexOf (b : Builder) (w : Wanted) : UInt16 := (b.interned.lookup w.key).getD 0

/-- Adds the entry of a constant whose parts are known, unless there is one under its key. -/
def add (b : Builder) (w : Wanted) : Builder := (intern w.key (w.entry b.indexOf) b).2

/-- All that a step can do: nothing if the key is known, and otherwise append the entry with the
slots that it takes and keep the old number of slots as its index. -/
theorem add_cases (b : Builder) (w : Wanted) :
    (b.Knows w ∧ b.add w = b) ∨
      (b.interned.lookup w.key = none ∧
        b.add w = { b with
          slots := b.slots ++ (w.entry b.indexOf).slots.toArray
          interned := (w.key, UInt16.ofNat b.slots.size) :: b.interned }) := by
  unfold add intern Knows
  cases hkey : b.interned.lookup w.key with
  | some i => exact .inl ⟨rfl, rfl⟩
  | none =>
    refine .inr ⟨rfl, ?_⟩
    dsimp only [Constant.slots]
    split
    · rw [Array.push_eq_append, Array.push_eq_append, Array.append_assoc]
      rfl
    · rw [Array.push_eq_append]

theorem intern_eq (b : Builder) (w : Wanted) :
    intern w.key (w.entry b.indexOf) b = ((b.add w).indexOf w, b.add w) := by
  unfold add indexOf intern
  cases hkey : b.interned.lookup w.key with
  | some i => simp [hkey]
  | none => simp

theorem lookup_add (hv : b.Knows v) (w : Wanted) :
    (b.add w).interned.lookup v.key = b.interned.lookup v.key := by
  rcases add_cases b w with ⟨-, heq⟩ | ⟨hnew, heq⟩
  · rw [heq]
  · have hne : v.key ≠ w.key := by
      intro h
      rw [Knows, h, hnew] at hv
      cases hv
    rw [heq, List.lookup_cons, beq_false_of_ne hne]

theorem knows_add (hv : b.Knows v) (w : Wanted) : (b.add w).Knows v := by
  rwa [Knows, lookup_add hv]

theorem knows_add_self (b : Builder) (w : Wanted) : (b.add w).Knows w := by
  rcases add_cases b w with ⟨hknown, heq⟩ | ⟨hnew, heq⟩
  · rwa [heq]
  · rw [heq, Knows]
    simp

theorem indexOf_add (hv : b.Knows v) (w : Wanted) : (b.add w).indexOf v = b.indexOf v := by
  rw [indexOf, indexOf, lookup_add hv]

theorem knows_foldl (hv : b.Knows v) (ws : List Wanted) : (ws.foldl add b).Knows v := by
  induction ws generalizing b with
  | nil => exact hv
  | cons w ws ih => exact ih (knows_add hv w)

theorem knows_of_mem {ws : List Wanted} (hw : w ∈ ws) (b : Builder) : (ws.foldl add b).Knows w := by
  induction ws generalizing b with
  | nil => cases hw
  | cons v ws ih =>
    rcases List.mem_cons.mp hw with rfl | hw
    · exact knows_foldl (knows_add_self b w) ws
    · exact ih hw (b.add v)

theorem knows_steps (w : Wanted) (b : Builder) : (w.steps.foldl add b).Knows w :=
  knows_of_mem (Wanted.mem_steps w) b

theorem lookup_foldl (hv : b.Knows v) (ws : List Wanted) :
    (ws.foldl add b).interned.lookup v.key = b.interned.lookup v.key := by
  induction ws generalizing b with
  | nil => rfl
  | cons w ws ih => rw [List.foldl_cons, ih (knows_add hv w), lookup_add hv]

theorem indexOf_foldl (hv : b.Knows v) (ws : List Wanted) :
    (ws.foldl add b).indexOf v = b.indexOf v := by
  rw [indexOf, indexOf, lookup_foldl hv]

/-! ### Asking in steps -/

theorem bind_apply (m : Interning) (f : UInt16 → Interning) (b : Builder) :
    (m >>= f) b = f (m b).1 (m b).2 := rfl

theorem utf8_eq (s : String) (b : Builder) :
    Builder.utf8 s b = ((b.add (.utf8 s)).indexOf (.utf8 s), b.add (.utf8 s)) :=
  intern_eq b (.utf8 s)

theorem class_eq (name : String) (b : Builder) :
    Builder.class_ name b = (((Wanted.class_ name).steps.foldl add b).indexOf (.class_ name),
      (Wanted.class_ name).steps.foldl add b) := by
  rw [Builder.class_, bind_apply, utf8_eq]
  exact intern_eq (b.add (.utf8 name)) (.class_ name)

theorem string_eq (s : String) (b : Builder) :
    Builder.string s b = (((Wanted.string s).steps.foldl add b).indexOf (.string s),
      (Wanted.string s).steps.foldl add b) := by
  rw [Builder.string, bind_apply, utf8_eq]
  exact intern_eq (b.add (.utf8 s)) (.string s)

theorem nameAndType_eq (name descriptor : String) (b : Builder) :
    Builder.nameAndType name descriptor b =
      (((Wanted.nameAndType name descriptor).steps.foldl add b).indexOf
        (.nameAndType name descriptor), (Wanted.nameAndType name descriptor).steps.foldl add b) := by
  have hkey : "nat:" ++ name ++ ":" ++ descriptor = (Wanted.nameAndType name descriptor).key := by
    simp [Wanted.key, Wanted.word, Wanted.text, String.append_assoc]
  rw [Builder.nameAndType, hkey, bind_apply, bind_apply, utf8_eq, utf8_eq,
    ← indexOf_add (knows_add_self b (.utf8 name)) (.utf8 descriptor)]
  exact intern_eq ((b.add (.utf8 name)).add (.utf8 descriptor)) (.nameAndType name descriptor)

theorem member_eq {r : MemberRef} {w : Wanted} {make : UInt16 → UInt16 → Constant}
    (hparts : w.parts = [.class_ r.className, .nameAndType r.name r.descriptor])
    (hentry : ∀ index, w.entry index =
      make (index (.class_ r.className)) (index (.nameAndType r.name r.descriptor)))
    (b : Builder) :
    (do
      let i ← Builder.class_ r.className
      let j ← Builder.nameAndType r.name r.descriptor
      intern w.key (make i j) : Interning) b =
      ((w.steps.foldl add b).indexOf w, w.steps.foldl add b) := by
  let classSteps := (Wanted.class_ r.className).steps
  let typeSteps := (Wanted.nameAndType r.name r.descriptor).steps
  have hknown : (classSteps.foldl add b).Knows (.class_ r.className) := knows_add_self _ _
  have hsteps : w.steps = classSteps ++ typeSteps ++ [w] := by
    rw [Wanted.steps, hparts]
    rfl
  rw [bind_apply, bind_apply, class_eq, nameAndType_eq, ← indexOf_foldl hknown typeSteps,
    ← hentry, intern_eq, hsteps, List.foldl_append, List.foldl_append]
  rfl

/-- To ask for a constant is to go through its steps, and the answer is the index that is then kept
for it. -/
theorem ask_eq (w : Wanted) (b : Builder) :
    w.ask b = ((w.steps.foldl add b).indexOf w, w.steps.foldl add b) := by
  cases w with
  | utf8 s => exact utf8_eq s b
  | class_ name => exact class_eq name b
  | string s => exact string_eq s b
  | integer v => exact intern_eq b (.integer v)
  | float bits => exact intern_eq b (.float bits)
  | long v => exact intern_eq b (.long v)
  | double bits => exact intern_eq b (.double bits)
  | nameAndType name descriptor => exact nameAndType_eq name descriptor b
  | fieldref r =>
    have hkey : "field:" ++ r.className ++ "." ++ r.name ++ ":" ++ r.descriptor =
        (Wanted.fieldref r).key := by
      simp [Wanted.key, Wanted.word, Wanted.text, String.append_assoc]
    rw [Wanted.ask, Builder.fieldref, hkey]
    exact member_eq rfl (fun _ => rfl) b
  | methodref r => exact member_eq (w := .methodref r) rfl (fun _ => rfl) b
  | interfaceMethodref r => exact member_eq (w := .interfaceMethodref r) rfl (fun _ => rfl) b

end Builder

end Jvm
