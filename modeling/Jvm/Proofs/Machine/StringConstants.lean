import Jvm.Proofs.Machine.CanonicalStrings
import Jvm.Proofs.Machine.FieldLayout

/-!
# String constants

A load of a string constant gives the canonical object of its content, in whatever class it stands,
and so do the arguments of a program; the table of canonical strings has the same object for the
content from then on. A static field that starts with a string constant starts with an object of its
own, which is the same as the one that the field started with and as no other, though others have its
content.
-/

namespace Jvm

open Effect

/-! ### Where string constants come from -/

theorem ConstantPool.string_eq_ok {p : ConstantPool} {index : UInt16} {content : String} :
    p.string index = .ok content ↔
      ∃ i, p.entry index = .ok (.string i) ∧ p.utf8 i = .ok content := by
  have hbind : ∀ {α β : Type} (a : α) (k : α → Except Fault β),
      ((Except.ok a : Except Fault α) >>= k) = k a := fun _ _ => rfl
  unfold string entryAs
  cases hentry : p.entry index with
  | error f => exact ⟨nofun, fun ⟨i, hi, _⟩ => nomatch hi⟩
  | ok c =>
    rw [hbind]
    cases c with
    | string i =>
      rw [hbind]
      refine ⟨fun h => ⟨i, rfl, h⟩, fun ⟨j, hj, h⟩ => ?_⟩
      cases hj
      exact h
    | _ => exact ⟨nofun, fun ⟨i, hi, _⟩ => nomatch hi⟩

theorem Environment.execute_loadString (env : Environment) (depth : Nat) {i : Instruction}
    {s : Scene} {content : String} (hop : i.opcode = .ldc ∨ i.opcode = .ldcW)
    (h : s.frame.pool.string i.index = .ok content) :
    ∃ r w', env.execute depth i s = (.ok .next, ⟨s.frame.pushed (.reference r), w'⟩) ∧
      World.Interned content s.world r w' := by
  obtain ⟨k, hentry, hcontent⟩ := ConstantPool.string_eq_ok.mp h
  have hload : env.execute depth i = Exec.loadConstant i.index := by
    unfold execute
    rcases hop with hop | hop <;> rw [hop]
  obtain ⟨r, w', hintern, hspec⟩ := World.intern_spec content s.world
  refine ⟨r, w', ?_, hspec⟩
  simp only [hload, Exec.loadConstant, bind_apply, Exec.pool, Effect.ofExcept, hentry, hcontent,
    Scene.onWorld, Effect.zoom, hintern]
  rfl

theorem Runtime.entryArguments_strings {r : MemberRef} {arguments : List String} {w w' : World}
    {values : List Value} (h : entryArguments r arguments w = (.ok values, w')) :
    values = [] ∨ ∃ k, values = [.reference (.array k)] ∧ w'.HasStrings k arguments := by
  rcases entryArguments_outcome h with ⟨-, ⟨f, hfails⟩ | hnone⟩ | ⟨strings, u, hall, heq, rfl⟩
  · cases hfails
  · cases hnone
    exact .inl rfl
  · cases heq
    exact .inr ⟨_, rfl, World.hasStrings_newArray hall⟩

theorem Class.staticInitial_string {file : ClassFile} {slot : Nat} {f : Field} {content : String}
    (hconstant : f.constantValue ≠ 0) (hkind : Kind.ofDescriptor? f.descriptor = some .reference)
    (hcontent : file.pool.string f.constantValue = .ok content) :
    staticInitial file slot f = .ok (.reference (.string content (.staticField file.name slot))) := by
  unfold staticInitial
  dsimp only
  rw [if_neg hconstant, hkind, hcontent]
  rfl

theorem Loader.ensure_string (l : Loader) {a : MethodArea} {name n : String} {e : LoadedClass}
    {slot : Nat} {f : Field} {content : String} (hnew : a.entry? n = none)
    (he : MethodArea.entry? (l.ensure name a).2 n = some e)
    (hf : (Class.staticFields e.cls.file)[slot]? = some f) (hconstant : f.constantValue ≠ 0)
    (hkind : Kind.ofDescriptor? f.descriptor = some .reference)
    (hcontent : e.cls.file.pool.string f.constantValue = .ok content) :
    e.statics[slot]? = some (.reference (.string content (.staticField n slot))) := by
  rcases l.ensure_source name he with hbefore | ⟨hfresh, hsource⟩
  · rw [hnew] at hbefore
    cases hbefore
  · obtain ⟨initial, hinitial, hget⟩ := Class.staticInitialsFrom_getElem? hfresh.statics hf
    rw [Nat.zero_add, Class.staticInitial_string hconstant hkind hcontent] at hinitial
    cases hinitial
    rw [hget, classFile_name hsource]

/-! ### Initial values of static fields -/

/-- A string that is the initial value of a static field has the content that the class file of the
field gives it. -/
def Value.Genuine (l : Loader) : Value → Prop
  | .reference (.string content (.staticField name slot)) =>
    ∃ file f, l.classFile name = .ok file ∧ (Class.staticFields file)[slot]? = some f ∧
      file.pool.string f.constantValue = .ok content
  | _ => True

theorem Value.Plain.genuine {v : Value} (h : v.Plain) (l : Loader) : v.Genuine l := by
  unfold Genuine
  split
  · cases h
  · trivial

theorem Value.persistent_genuine (l : Loader) : Persistent fun _ => Genuine l where
  mono _ _ h := h
  plain _ _ h := h.genuine l
  object _ := trivial
  array _ := trivial

/-- Only loading makes initial values of static fields, and it takes their contents from the class
files. -/
theorem Environment.upholds_genuine {env : Environment}
    (hn : env.NativesHold fun _ => Value.Genuine env.loader) :
    env.Upholds fun _ => Value.Genuine env.loader where
  persistent := Value.persistent_genuine env.loader
  initial _ file slot f v hfile hf hv := by
    rcases Class.staticInitial_cases hv with hplain | ⟨content, hcontent, rfl⟩
    · exact hplain.genuine _
    · exact ⟨file, f, hfile, hf, hcontent⟩
  natives := hn

theorem Value.Genuine.content_eq {l : Loader} {a b name : String} {slot : Nat}
    (ha : Genuine l (.reference (.string a (.staticField name slot))))
    (hb : Genuine l (.reference (.string b (.staticField name slot)))) : a = b := by
  obtain ⟨file, f, hfile, hf, hcontent⟩ := ha
  obtain ⟨file', f', hfile', hf', hcontent'⟩ := hb
  rw [hfile] at hfile'
  cases hfile'
  rw [hf] at hf'
  cases hf'
  rw [hcontent] at hcontent'
  cases hcontent'
  rfl

/-! ### Comparing -/

/-- The string constants of a content: its canonical object, and objects that static fields start
with. -/
inductive World.Constant (w : World) (content : String) : Reference → Prop where
  | canonical {r : Reference} (h : w.canonical? content = some r) : Constant w content r
  | initial (name : String) (slot : Nat) :
    Constant w content (.string content (.staticField name slot))

theorem World.canonical?_ne_initial (w : World) (c content name : String) (slot : Nat) :
    w.canonical? c ≠ some (.string content (.staticField name slot)) := by
  intro h
  obtain ⟨serial, -, heq⟩ := canonical?_eq_some.mp h
  cases heq

theorem World.Constant.content_eq {w : World} {a b : String} {r : Reference} (ha : w.Constant a r)
    (hb : w.Constant b r) : a = b := by
  have hstring : ∀ {c}, w.Constant c r → ∃ origin, r = .string c origin := by
    rintro c (h | ⟨name, slot⟩)
    · obtain ⟨serial, -, rfl⟩ := canonical?_eq_some.mp h
      exact ⟨_, rfl⟩
    · exact ⟨_, rfl⟩
  obtain ⟨p, rfl⟩ := hstring ha
  obtain ⟨q, hq⟩ := hstring hb
  cases hq
  rfl

/-- Two string constants with the same origin have the same content, so the origin alone tells string
constants apart. -/
theorem World.Constant.content_of_origin {w : World} {l : Loader} {a b : String} {p : StringOrigin}
    (hw : w.Canonical) (ha : w.Constant a (.string a p)) (hb : w.Constant b (.string b p))
    (hr : Value.Genuine l (.reference (.string a p)))
    (hs : Value.Genuine l (.reference (.string b p))) : a = b := by
  cases ha with
  | canonical ha =>
    obtain ⟨serial, hserial, heq⟩ := canonical?_eq_some.mp ha
    cases heq
    cases hb with
    | canonical hb =>
      obtain ⟨serial', hserial', heq⟩ := canonical?_eq_some.mp hb
      cases heq
      exact hw.serial_inj hserial hserial'
  | initial name slot =>
    cases hb with
    | canonical hb => exact absurd hb (w.canonical?_ne_initial b b name slot)
    | initial => exact hr.content_eq hs

/-- Two string constants are one object if both are canonical and have the same content, or if both
are the initial value of one static field, and in no other case. -/
theorem World.Constant.eq_iff {w : World} {l : Loader} {a b : String} {r s : Reference}
    (ha : w.Constant a r) (hb : w.Constant b s) (hr : Value.Genuine l (.reference r))
    (hs : Value.Genuine l (.reference s)) :
    r = s ↔ (w.canonical? a = some r ∧ w.canonical? b = some s ∧ a = b) ∨
      ∃ name slot, r = .string a (.staticField name slot) ∧
        s = .string b (.staticField name slot) := by
  constructor
  · rintro rfl
    obtain rfl := ha.content_eq hb
    cases ha with
    | canonical h => exact .inl ⟨h, h, rfl⟩
    | initial name slot => exact .inr ⟨name, slot, rfl, rfl⟩
  · rintro (⟨hr, hs, rfl⟩ | ⟨name, slot, rfl, rfl⟩)
    · exact Option.some_inj.mp (hr.symm.trans hs)
    · rw [hr.content_eq hs]

theorem Exec.ifReferences_apply (equal : Bool) (i : Instruction) {f : Frame} (w : World)
    {a b : Reference} {rest : List Value}
    (hstack : f.stack = .reference b :: .reference a :: rest) :
    ifReferences equal i ⟨f, w⟩ =
      (.ok (branch (decide (a = b) == equal) i), ⟨{ f with stack := rest }, w⟩) := by
  have hsome : decide (some a = some b) = decide (a = b) := decide_eq_decide.mpr Option.some_inj
  obtain ⟨cls, method, code, resumePc, slots, stack, serial, observed⟩ := f
  cases hstack
  rw [← hsome]
  rfl

theorem Environment.execute_compare (env : Environment) (depth : Nat) {i : Instruction}
    {equal : Bool} (hop : i.opcode = .ifReferenceCompare equal) :
    env.execute depth i = Exec.ifReferences equal i := by
  unfold execute
  rw [hop]

/-- Let the registered natives not make up initial values of static fields, and the callers of runs
neither, and let the natives take nothing out of the table of canonical strings. Loads of string
constants in any class and the arguments of a program give canonical objects; a static field with a
string constant starts with an object of its own. Through all steps, runs and histories the table has
one object for each content and one content for each object, and whatever is canonical once stays so.
In every run, after whatever has been run before, two string constants that are compared count as
equal exactly if both are canonical and have the same content or both are the initial value of the
same static field; either way their contents are the same. Their contents need not be looked at for
this: string constants of one origin are one object. -/
theorem string_constants {env : Environment}
    (hn : env.NativesHold fun _ => Value.Genuine env.loader) (hi : env.NativesIntern) :
    (∀ depth (i : Instruction) (s : Scene) content, i.opcode = .ldc ∨ i.opcode = .ldcW →
      s.frame.pool.string i.index = .ok content →
        ∃ r w', env.execute depth i s = (.ok .next, ⟨s.frame.pushed (.reference r), w'⟩) ∧
          World.Interned content s.world r w') ∧
    (∀ r arguments w values w', Runtime.entryArguments r arguments w = (.ok values, w') →
      values = [] ∨ ∃ k, values = [.reference (.array k)] ∧ w'.HasStrings k arguments) ∧
    (∀ (a : MethodArea) name n e (slot : Nat) (f : Field) content, a.entry? n = none →
      MethodArea.entry? (env.loader.ensure name a).2 n = some e →
      (Class.staticFields e.cls.file)[slot]? = some f → f.constantValue ≠ 0 →
      Kind.ofDescriptor? f.descriptor = some .reference →
      e.cls.file.pool.string f.constantValue = .ok content →
        e.statics[slot]? = some (.reference (.string content (.staticField n slot)))) ∧
    (∀ A w, World.Reached env A w → w.Canonical ∧
      (∀ r arguments result w', Runtime.entryArguments r arguments w = (result, w') → w.Grows w') ∧
      ∀ r arguments u, Thread.RunState env r arguments ⟨[], w⟩ u → w.Grows u.world ∧
        ∀ base pc, u.world.Grows (Thread.step env base u pc).thread.world) ∧
    ∀ w r arguments i t u pc, World.Reached env (Value.Genuine env.loader) w →
      (∀ v ∈ arguments, v.Genuine env.loader) → Thread.RunCall env r arguments ⟨[], w⟩ i t →
      Thread.LoopState env i t u pc →
        ∀ f below (ins : Instruction) equal a ra b rb rest, u.frames = f :: below →
          ins.opcode = .ifReferenceCompare equal →
          f.stack = .reference rb :: .reference ra :: rest →
          u.world.Constant a ra → u.world.Constant b rb →
            ∃ same : Bool, env.execute u.depth ins ⟨f, u.world⟩ =
                (.ok (Exec.branch (same == equal) ins), ⟨{ f with stack := rest }, u.world⟩) ∧
              (same = true ↔
                (u.world.canonical? a = some ra ∧ u.world.canonical? b = some rb ∧ a = b) ∨
                ∃ name slot, ra = .string a (.staticField name slot) ∧
                  rb = .string b (.staticField name slot)) ∧
              (same = true → a = b) ∧
              ∀ p q, ra = .string a p → rb = .string b q → (same = true ↔ p = q) := by
  refine ⟨fun depth i s content => env.execute_loadString depth,
    fun r arguments w values w' => Runtime.entryArguments_strings,
    fun a name n e slot f content => env.loader.ensure_string, fun A w hw => ?_, ?_⟩
  · have hcanonical := hw.canonical hi
    refine ⟨hcanonical, fun r arguments result w' => Runtime.entryArguments_grows hcanonical,
      fun r arguments u hu => ?_⟩
    have hgrows : w.Grows u.world := hu.grows hi hcanonical
    exact ⟨hgrows, Thread.step_grows hi (.refl hgrows.canonical)⟩
  · intro w r arguments i t u pc hw harguments hcall hloop f below ins equal a ra b rb rest hframes
      hop hstack ha hb
    have hG := Environment.upholds_genuine hn
    have hworld : w.Holds _ (0, 0) := hw.holds hG fun _ _ hv => hv
    have hstate := Thread.RunState.looping hcall hloop
    have hu : u.Holds _ (0, 0) := hstate.holds hG (.idle hworld) harguments
    have hcanonical : u.world.Canonical := (hstate.grows hi (hw.canonical hi)).canonical
    have hvalues := (hu.frames f (by simp [hframes])).stack
    rw [hstack, List.forall_mem_cons, List.forall_mem_cons] at hvalues
    obtain ⟨hrb, hra, -⟩ := hvalues
    refine ⟨decide (ra = rb), ?_, ?_, fun hsame => ?_, ?_⟩
    · rw [env.execute_compare _ hop]
      exact Exec.ifReferences_apply equal ins u.world hstack
    · rw [decide_eq_true_iff]
      exact ha.eq_iff hb hra hrb
    · obtain rfl := of_decide_eq_true hsame
      exact ha.content_eq hb
    · rintro p q rfl rfl
      rw [decide_eq_true_iff]
      constructor
      · rintro ⟨⟩
        rfl
      · rintro rfl
        rw [World.Constant.content_of_origin hcanonical ha hb hra hrb]

/-- A class with a static field that starts with a string. Its method `f` compares the field with a
load of this string, and its method `g` compares two loads. -/
def constantsFile : ClassFile where
  minor := 0
  major := 52
  pool := ⟨#[none, some (.utf8 "A" none), some (.classRef 1), some (.utf8 "x" none),
    some (.string 3), some (.utf8 "Code" none), some (.utf8 "S" none),
    some (.utf8 "Ljava/lang/String;" none), some (.nameAndType 6 7), some (.fieldref 2 8),
    some (.utf8 "ConstantValue" none), some (.utf8 "f" none), some (.utf8 "g" none),
    some (.utf8 "()I" none)]⟩
  flags := 0x21
  thisClass := 2
  superClass := 0
  interfaces := []
  fields := [⟨0x19, 6, 7, [⟨10, "ConstantValue", [0, 4], .constantValue 4⟩], "S",
    "Ljava/lang/String;"⟩]
  methods := [
    ⟨9, 11, 13, [Thread.sampleBody 2 0
      [0xB2, 0, 9, 0x12, 4, 0xA5, 0, 5, 0x03, 0xAC, 0x04, 0xAC]], "f", "()I"⟩,
    ⟨9, 12, 13, [Thread.sampleBody 2 0
      [0x12, 4, 0x13, 0, 4, 0xA5, 0, 5, 0x03, 0xAC, 0x04, 0xAC]], "g", "()I"⟩]
  attributes := []
  name := "A"

def constantsEnvironment : Environment := ⟨⟨fun _ => .ok constantsFile, 1⟩, .standard, 3, false⟩

def constantsWorld : World :=
  { World.empty with
    area := ⟨[⟨⟨constantsFile, []⟩, [.reference (.string "x" (.staticField "A" 0))], true⟩]⟩
    heap := { Heap.empty with freshStrings := 1 }
    strings := [("x", 0)]
    calls := 1 }

theorem constants_ran :
    Thread.run constantsEnvironment 9 ⟨"A", "f", "()I"⟩ [] ⟨[], .empty⟩ =
      some (.ok (.int 0), ⟨[], constantsWorld⟩) :=
  rfl

-- `g` runs after `f` and comes to its comparison.
theorem constants_loaded :
    ∃ i t u f ins,
      Thread.RunCall constantsEnvironment ⟨"A", "g", "()I"⟩ [] ⟨[], constantsWorld⟩ i t ∧
      Thread.LoopState constantsEnvironment i t u 5 ∧ u.frames = [f] ∧
      f.code.at? 5 = some ins ∧ ins.opcode = .ifReferenceCompare true ∧
      f.stack = [.reference (.string "x" (.fresh 0)), .reference (.string "x" (.fresh 0))] ∧
      u.world.canonical? "x" = some (.string "x" (.fresh 0)) :=
  ⟨_, _, _, _, _, @Thread.RunCall.entry _ _ _ _ _ _ 1 _ _ rfl rfl rfl,
    .step (.step (.start rfl rfl) rfl) rfl, rfl, rfl, rfl, rfl, rfl⟩

-- `f` comes to its comparison.
theorem constants_read :
    ∃ i t u f ins,
      Thread.RunCall constantsEnvironment ⟨"A", "f", "()I"⟩ [] ⟨[], .empty⟩ i t ∧
      Thread.LoopState constantsEnvironment i t u 5 ∧ u.frames = [f] ∧
      f.code.at? 5 = some ins ∧ ins.opcode = .ifReferenceCompare true ∧
      f.stack = [.reference (.string "x" (.fresh 0)),
        .reference (.string "x" (.staticField "A" 0))] ∧
      u.world.canonical? "x" = some (.string "x" (.fresh 0)) ∧
      constantsEnvironment.execute 1 ins ⟨f, u.world⟩ =
        (.ok .next, ⟨{ f with stack := [] }, u.world⟩) :=
  ⟨_, _, _, _, _, @Thread.RunCall.entry _ _ _ _ _ _ 1 _ _ rfl rfl rfl,
    .step (.step (.start rfl rfl) rfl) rfl, rfl, rfl, rfl, rfl, rfl, rfl⟩

theorem constants_reached :
    World.Reached constantsEnvironment (Value.Genuine constantsEnvironment.loader) constantsWorld :=
  .ran .empty nofun constants_ran

-- The two loads are the same object, which is that of the run before, and what the field starts with
-- is another one.
theorem string_constants_compared :
    constantsEnvironment.NativesHold (fun _ => Value.Genuine constantsEnvironment.loader) ∧
      constantsEnvironment.NativesIntern ∧
      (∃ e, MethodArea.entry? (constantsEnvironment.loader.ensure "A" .empty).2 "A" = some e ∧
        e.statics[0]? = some (.reference (.string "x" (.staticField "A" 0)))) ∧
      (∃ i t u f ins,
        Thread.RunCall constantsEnvironment ⟨"A", "g", "()I"⟩ [] ⟨[], constantsWorld⟩ i t ∧
        Thread.LoopState constantsEnvironment i t u 5 ∧ constantsWorld.Grows u.world ∧
        constantsEnvironment.execute u.depth ins ⟨f, u.world⟩ =
          (.ok (.jump ins.target), ⟨{ f with stack := [] }, u.world⟩)) ∧
      ∃ i t u f ins,
        Thread.RunCall constantsEnvironment ⟨"A", "f", "()I"⟩ [] ⟨[], .empty⟩ i t ∧
        Thread.LoopState constantsEnvironment i t u 5 ∧
        constantsEnvironment.execute u.depth ins ⟨f, u.world⟩ =
          (.ok .next, ⟨{ f with stack := [] }, u.world⟩) := by
  have hn : constantsEnvironment.NativesHold
      (fun _ => Value.Genuine constantsEnvironment.loader) :=
    Environment.nativesHold_standard (Value.persistent_genuine _) rfl
  have hi : constantsEnvironment.NativesIntern := Environment.nativesIntern_standard rfl
  obtain ⟨-, -, hloads, hgrows, hcompare⟩ := string_constants hn hi
  refine ⟨hn, hi, ⟨_, rfl, ?_⟩, ?_, ?_⟩
  · exact hloads .empty "A" "A" _ 0 _ "x" rfl rfl rfl (by decide) rfl rfl
  · obtain ⟨i, t, u, f, ins, hcall, hloop, hframes, -, hop, hstack, hx⟩ := constants_loaded
    obtain ⟨-, -, hruns⟩ := hgrows _ _ constants_reached
    obtain ⟨same, hexec, hsame, -⟩ := hcompare _ _ [] i t u 5 constants_reached nofun hcall hloop f
      [] ins true "x" _ "x" _ [] hframes hop hstack (.canonical hx) (.canonical hx)
    rw [hsame.mpr (.inl ⟨hx, hx, rfl⟩)] at hexec
    exact ⟨i, t, u, f, ins, hcall, hloop, (hruns _ _ u (.looping hcall hloop)).1, hexec⟩
  · obtain ⟨i, t, u, f, ins, hcall, hloop, hframes, -, hop, hstack, hx, -⟩ := constants_read
    obtain ⟨same, hexec, hsame, -⟩ := hcompare _ _ [] i t u 5 .empty nofun hcall hloop f [] ins true
      "x" _ "x" _ [] hframes hop hstack (.initial "A" 0) (.canonical hx)
    have hother : same = false := by
      rw [← Bool.not_eq_true, hsame]
      rintro (⟨hfield, -⟩ | ⟨name, slot, -, hcanonical⟩)
      · exact u.world.canonical?_ne_initial _ _ _ _ hfield
      · cases hcanonical
    rw [hother] at hexec
    exact ⟨i, t, u, f, ins, hcall, hloop, hexec⟩

/-- The constant of the field and the constant that is loaded have the same content, and still `f`
finds them unequal. -/
theorem equal_constants_differ :
    (∃ i t u f ins ra rb,
      Thread.RunCall constantsEnvironment ⟨"A", "f", "()I"⟩ [] ⟨[], .empty⟩ i t ∧
      Thread.LoopState constantsEnvironment i t u 5 ∧ u.frames = [f] ∧
      f.code.at? 5 = some ins ∧ ins.opcode = .ifReferenceCompare true ∧
      f.stack = [.reference rb, .reference ra] ∧
      u.world.Constant "x" ra ∧ u.world.Constant "x" rb ∧
      constantsEnvironment.execute 1 ins ⟨f, u.world⟩ =
        (.ok .next, ⟨{ f with stack := [] }, u.world⟩)) ∧
    ∃ u, Thread.run constantsEnvironment 9 ⟨"A", "f", "()I"⟩ [] ⟨[], .empty⟩ =
      some (.ok (.int 0), u) := by
  obtain ⟨i, t, u, f, ins, hcall, hloop, hframes, hat, hop, hstack, hx, hexec⟩ := constants_read
  exact ⟨⟨i, t, u, f, ins, _, _, hcall, hloop, hframes, hat, hop, hstack, .initial "A" 0,
    .canonical hx, hexec⟩, _, constants_ran⟩

end Jvm
