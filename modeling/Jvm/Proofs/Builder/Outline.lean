import Jvm.Proofs.Builder.Requests

/-!
# What a class was asked to be

The outline of a class says in names and values what its file says in indices and bytes. Requests
add to an outline, and the builder keeps in step: at every time its indices and raw attributes are
those of the outline so far (`Follows`).
-/

namespace Jvm

/-! ### Outlines -/

structure FieldOutline where
  flags : UInt16
  name : String
  descriptor : String
  value : Option UInt16
  deriving DecidableEq

structure MethodOutline where
  flags : UInt16
  name : String
  descriptor : String
  code : Option (UInt16 × UInt16 × Bytes)
  deriving DecidableEq

/-- A class by its names, members and versions. The empty superclass name stands for none. -/
structure ClassOutline where
  name : String
  superName : String
  flags : UInt16
  major : UInt16
  minor : UInt16
  interfaces : List String
  fields : List FieldOutline
  methods : List MethodOutline
  deriving DecidableEq

def Field.outline (f : Field) : FieldOutline where
  flags := f.flags
  name := f.name
  descriptor := f.descriptor
  value := (Attribute.find? f.attributes "ConstantValue").bind Attribute.constantValue?

def Method.outline (m : Method) : MethodOutline where
  flags := m.flags
  name := m.name
  descriptor := m.descriptor
  code := m.code?.map fun c => (c.maxStack, c.maxLocals, c.bytes)

def ClassFile.outline (c : ClassFile) : ClassOutline where
  name := c.name
  superName := c.superName
  flags := c.flags
  major := c.major
  minor := c.minor
  interfaces := c.interfaceNames
  fields := c.fields.map Field.outline
  methods := c.methods.map Method.outline

/-- The outline after a request. A field with an initial value is static. -/
def ClassOutline.after (o : ClassOutline) : Builder.Request → ClassOutline
  | .constant _ | .classAttribute .. => o
  | .version major minor => { o with major, minor }
  | .implements names => { o with interfaces := o.interfaces ++ names }
  | .field flags name descriptor =>
    { o with fields := o.fields ++ [⟨flags, name, descriptor, none⟩] }
  | .constantField flags name descriptor value =>
    { o with fields := o.fields ++ [⟨flags ||| Access.staticBit, name, descriptor, some value⟩] }
  | .method flags name descriptor maxStack maxLocals code =>
    { o with
      methods := o.methods ++
        [⟨flags, name, descriptor, code.map fun bytes => (maxStack, maxLocals, bytes)⟩] }

def ClassOutline.new (name superName : String) (flags : UInt16) : ClassOutline where
  name := name
  superName := superName
  flags := flags
  major := 52
  minor := 0
  interfaces := []
  fields := []
  methods := []

/-- The outline that requests for a new class add up to. -/
def ClassOutline.requested (name superName : String) (flags : UInt16)
    (requests : List Builder.Request) : ClassOutline :=
  requests.foldl after (new name superName flags)

/-! ### Members with their attribute -/

/-- A field or method as it is written: with the bytes of at most one attribute, whose name is
`label`. -/
structure Member where
  flags : UInt16
  name : String
  descriptor : String
  label : String
  info : Option Bytes

namespace Member

open Builder

def wanted (m : Member) : List Wanted :=
  .utf8 m.name :: .utf8 m.descriptor :: m.info.toList.map fun _ => .utf8 m.label

def content (m : Member) (index : Wanted → UInt16) :
    UInt16 × UInt16 × UInt16 × List (UInt16 × Bytes) :=
  (m.flags, index (.utf8 m.name), index (.utf8 m.descriptor),
    m.info.toList.map fun info => (index (.utf8 m.label), info))

theorem content_congr {m : Member} {f g : Wanted → UInt16} (h : ∀ w ∈ m.wanted, f w = g w) :
    m.content f = m.content g := by
  have hname := h (.utf8 m.name) (by simp [wanted])
  have hdescriptor := h (.utf8 m.descriptor) (by simp [wanted])
  rw [content, content, hname, hdescriptor]
  cases hinfo : m.info with
  | none => rfl
  | some info => rw [h (.utf8 m.label) (by simp [wanted, hinfo])]

theorem content_wanted (m : Member) (b : Builder) :
    m.content (m.wanted.foldl add b).indexOf =
      (m.flags, (b.add (.utf8 m.name)).indexOf (.utf8 m.name),
        ((b.add (.utf8 m.name)).add (.utf8 m.descriptor)).indexOf (.utf8 m.descriptor),
        m.info.toList.map fun info => ((m.wanted.foldl add b).indexOf (.utf8 m.label), info)) := by
  have hname : (m.wanted.foldl add b).indexOf (.utf8 m.name) = _ :=
    indexOf_foldl (knows_add_self b _) (.utf8 m.descriptor :: _)
  have hdescriptor : (m.wanted.foldl add b).indexOf (.utf8 m.descriptor) = _ :=
    indexOf_foldl (knows_add_self (b.add (.utf8 m.name)) _) _
  rw [content, hname, hdescriptor]

end Member

def FieldOutline.member (f : FieldOutline) : Member :=
  ⟨f.flags, f.name, f.descriptor, "ConstantValue", f.value.map Bytes.ofU2⟩

def MethodOutline.member (m : MethodOutline) : Member :=
  ⟨m.flags, m.name, m.descriptor, "Code", m.code.map fun c => Builder.encodeCode c.1 c.2.1 c.2.2⟩

/-- The constants that stand for the names in an outline. -/
def ClassOutline.wanted (o : ClassOutline) : List Builder.Wanted :=
  Builder.opening o.name o.superName ++ o.interfaces.map .class_ ++
    o.fields.flatMap (fun f => f.member.wanted) ++ o.methods.flatMap (fun m => m.member.wanted)

namespace Builder

variable {b c : Builder} {o : ClassOutline}

/-! ### Builders that follow an outline -/

/-- A builder whose indices and attributes are those of an outline. -/
structure Follows (b : Builder) (o : ClassOutline) : Prop where
  known : ∀ w ∈ o.wanted, b.Knows w
  thisClass : b.thisClass = b.indexOf (.class_ o.name)
  superClass : b.superClass = if o.superName = "" then 0 else b.indexOf (.class_ o.superName)
  flags : b.flags = o.flags
  major : b.major = o.major
  minor : b.minor = o.minor
  interfaces : b.interfaces.toList = o.interfaces.map fun name => b.indexOf (.class_ name)
  fields : b.fields.toList.map Field.content = o.fields.map fun f => f.member.content b.indexOf
  methods : b.methods.toList.map Method.content = o.methods.map fun m => m.member.content b.indexOf
  attributes : b.attributes = #[]

/-- Builders that differ in their constants only. -/
def SameClass (b c : Builder) : Prop := c = { b with slots := c.slots, interned := c.interned }

theorem sameClass_add (b : Builder) (w : Wanted) : b.SameClass (b.add w) := by
  rcases add_cases b w with ⟨-, heq⟩ | ⟨-, heq⟩ <;> rw [SameClass, heq]

theorem sameClass_foldl (b : Builder) (ws : List Wanted) : b.SameClass (ws.foldl add b) := by
  induction ws generalizing b with
  | nil => rfl
  | cons w ws ih =>
    have hfirst := sameClass_add b w
    have hrest := ih (b.add w)
    rw [SameClass] at hfirst hrest ⊢
    rw [List.foldl_cons, hrest, hfirst]

namespace Follows

theorem extend (h : b.Follows o) (hext : b.Extends c) (hsame : b.SameClass c) : c.Follows o := by
  have hindex : ∀ w ∈ o.wanted, c.indexOf w = b.indexOf w :=
    fun w hw => hext.indexOf_eq (h.known w hw)
  have hclass : ∀ name ∈ o.interfaces, c.indexOf (.class_ name) = b.indexOf (.class_ name) :=
    fun name hname => hindex _ (by simp [ClassOutline.wanted, hname])
  have hfield : ∀ f ∈ o.fields, f.member.content c.indexOf = f.member.content b.indexOf := by
    refine fun f hf => Member.content_congr fun w hw => hindex w ?_
    exact List.mem_append_left _ (List.mem_append_right _ (List.mem_flatMap.mpr ⟨f, hf, hw⟩))
  have hmethod : ∀ m ∈ o.methods, m.member.content c.indexOf = m.member.content b.indexOf := by
    refine fun m hm => Member.content_congr fun w hw => hindex w ?_
    exact List.mem_append_right _ (List.mem_flatMap.mpr ⟨m, hm, hw⟩)
  have hthis : c.indexOf (.class_ o.name) = b.indexOf (.class_ o.name) :=
    hindex _ (by simp [ClassOutline.wanted, opening])
  exact {
    known := fun w hw => hext.knows (h.known w hw)
    thisClass := by rw [hthis, ← h.thisClass, hsame]
    superClass := by
      rw [show c.superClass = b.superClass by rw [hsame], h.superClass]
      split
      · rfl
      · rename_i hne
        exact (hindex _ (by simp [ClassOutline.wanted, opening, hne])).symm
    flags := by rw [hsame, h.flags]
    major := by rw [hsame, h.major]
    minor := by rw [hsame, h.minor]
    interfaces := by rw [List.map_congr_left hclass, ← h.interfaces, hsame]
    fields := by rw [List.map_congr_left hfield, ← h.fields, hsame]
    methods := by rw [List.map_congr_left hmethod, ← h.methods, hsame]
    attributes := by rw [hsame, h.attributes] }

theorem foldl (h : b.Follows o) (ws : List Wanted) : (ws.foldl add b).Follows o :=
  h.extend (extends_foldl b ws) (sameClass_foldl b ws)

/-! ### One request -/

theorem pushInterface (h : c.Follows o) {name : String} (hname : c.Knows (.class_ name)) :
    Follows { c with interfaces := c.interfaces.push (c.indexOf (.class_ name)) }
      { o with interfaces := o.interfaces ++ [name] } where
  known w hw := by
    simp only [ClassOutline.wanted, List.map_append, List.map_singleton, List.mem_append,
      List.mem_singleton] at hw
    rcases hw with (((hw | hw | rfl) | hw) | hw)
    · exact h.known w (by simp [ClassOutline.wanted, hw])
    · exact h.known w (by simp only [ClassOutline.wanted, List.mem_append, hw, or_true, true_or])
    · exact hname
    · exact h.known w (by simp only [ClassOutline.wanted, List.mem_append, hw, or_true, true_or])
    · exact h.known w (by simp only [ClassOutline.wanted, List.mem_append, hw, or_true])
  thisClass := h.thisClass
  superClass := h.superClass
  flags := h.flags
  major := h.major
  minor := h.minor
  interfaces := by
    rw [Array.toList_push, h.interfaces, List.map_append]
    rfl
  fields := h.fields
  methods := h.methods
  attributes := h.attributes

theorem pushField (h : c.Follows o) {f : FieldOutline} {g : Field}
    (hf : ∀ w ∈ f.member.wanted, c.Knows w) (hg : g.content = f.member.content c.indexOf) :
    Follows { c with fields := c.fields.push g } { o with fields := o.fields ++ [f] } where
  known w hw := by
    simp only [ClassOutline.wanted, List.flatMap_append, List.flatMap_singleton,
      List.mem_append] at hw
    rcases hw with ((hw | hw | hw) | hw)
    · exact h.known w (by simp only [ClassOutline.wanted, List.mem_append, hw, true_or])
    · exact h.known w (by simp only [ClassOutline.wanted, List.mem_append, hw, or_true, true_or])
    · exact hf w hw
    · exact h.known w (by simp only [ClassOutline.wanted, List.mem_append, hw, or_true])
  thisClass := h.thisClass
  superClass := h.superClass
  flags := h.flags
  major := h.major
  minor := h.minor
  interfaces := h.interfaces
  fields := by
    rw [Array.toList_push, List.map_append, h.fields, List.map_append, List.map_singleton, hg]
    rfl
  methods := h.methods
  attributes := h.attributes

theorem pushMethod (h : c.Follows o) {m : MethodOutline} {n : Method}
    (hm : ∀ w ∈ m.member.wanted, c.Knows w) (hn : n.content = m.member.content c.indexOf) :
    Follows { c with methods := c.methods.push n } { o with methods := o.methods ++ [m] } where
  known w hw := by
    simp only [ClassOutline.wanted, List.flatMap_append, List.flatMap_singleton,
      List.mem_append] at hw
    rcases hw with (hw | hw | hw)
    · exact h.known w (by simpa only [ClassOutline.wanted, List.mem_append] using .inl hw)
    · exact h.known w (by simp only [ClassOutline.wanted, List.mem_append, hw, or_true])
    · exact hm w hw
  thisClass := h.thisClass
  superClass := h.superClass
  flags := h.flags
  major := h.major
  minor := h.minor
  interfaces := h.interfaces
  fields := h.fields
  methods := by
    rw [Array.toList_push, List.map_append, h.methods, List.map_append, List.map_singleton, hn]
    rfl
  attributes := h.attributes

theorem implements (h : b.Follows o) (names : List String) :
    (b.implements names).Follows { o with interfaces := o.interfaces ++ names } := by
  rw [Builder.implements]
  induction names generalizing b o with
  | nil => simpa using h
  | cons name names ih =>
    have hfirst : (b.implementing name).Follows { o with interfaces := o.interfaces ++ [name] } := by
      simp only [implementing, class_eq]
      exact (h.foldl _).pushInterface (knows_steps (.class_ name) b)
    simpa using ih hfirst

/-- A request that is not for a raw attribute adds to the outline what it adds to the builder. -/
theorem perform (h : b.Follows o) {r : Request} (hr : r.isRaw = false) :
    (b.perform r).Follows (o.after r) := by
  cases r with
  | constant w =>
    rw [Builder.perform, ask_eq]
    exact h.foldl w.steps
  | version major minor =>
    exact { h with major := rfl, minor := rfl }
  | implements names => exact h.implements names
  | field flags name descriptor =>
    let f : FieldOutline := ⟨flags, name, descriptor, none⟩
    simp only [Builder.perform, Builder.field, utf8_eq]
    refine (h.foldl f.member.wanted).pushField (f := f) (fun w hw => knows_of_mem hw b) ?_
    rw [Member.content_wanted]
    rfl
  | constantField flags name descriptor value =>
    let f : FieldOutline := ⟨flags ||| Access.staticBit, name, descriptor, some value⟩
    simp only [Builder.perform, Builder.constantField, utf8_eq]
    refine (h.foldl f.member.wanted).pushField (f := f) (fun w hw => knows_of_mem hw b) ?_
    rw [Member.content_wanted]
    rfl
  | method flags name descriptor maxStack maxLocals code =>
    let m : MethodOutline :=
      ⟨flags, name, descriptor, code.map fun bytes => (maxStack, maxLocals, bytes)⟩
    cases code <;>
    · simp only [Builder.perform, Builder.method, utf8_eq]
      refine (h.foldl m.member.wanted).pushMethod (m := m) (fun w hw => knows_of_mem hw b) ?_
      rw [Member.content_wanted]
      rfl
  | classAttribute name info => cases hr

end Follows

/-! ### Assembled classes -/

theorem Follows.setSuper (h : c.Follows o) {superName : String} (hne : superName ≠ "")
    (hknown : c.Knows (.class_ superName)) :
    Follows { c with superClass := c.indexOf (.class_ superName) } { o with superName } where
  known w hw := by
    simp only [ClassOutline.wanted, opening, hne, if_false, List.append_assoc, List.cons_append,
      List.mem_cons, List.nil_append] at hw
    rcases hw with rfl | rfl | hw
    · exact h.known _ (by simp [ClassOutline.wanted, opening])
    · exact hknown
    · exact h.known w (by
        simpa only [ClassOutline.wanted, List.append_assoc] using List.mem_append_right _ hw)
  thisClass := h.thisClass
  superClass := by
    rw [if_neg hne]
    rfl
  flags := h.flags
  major := h.major
  minor := h.minor
  interfaces := h.interfaces
  fields := h.fields
  methods := h.methods
  attributes := h.attributes

theorem new_follows (name superName : String) (flags : UInt16) :
    (new name superName flags).Follows (.new name superName flags) := by
  let first := (Wanted.class_ name).steps.foldl add (empty flags)
  have hsame : first = { empty flags with slots := first.slots, interned := first.interned } :=
    sameClass_foldl (empty flags) (Wanted.class_ name).steps
  have hfirst : Follows { first with thisClass := first.indexOf (.class_ name) }
      (.new name "" flags) := {
    known := fun w hw => by
      rw [List.mem_singleton.mp hw]
      exact knows_steps (.class_ name) (empty flags)
    thisClass := rfl
    superClass := congrArg Builder.superClass hsame
    flags := congrArg Builder.flags hsame
    major := congrArg Builder.major hsame
    minor := congrArg Builder.minor hsame
    interfaces := congrArg (fun b => b.interfaces.toList) hsame
    fields := congrArg (fun b => b.fields.toList.map Field.content) hsame
    methods := congrArg (fun b => b.methods.toList.map Method.content) hsame
    attributes := congrArg Builder.attributes hsame }
  simp only [new, class_eq]
  split
  · rename_i hnone
    rw [hnone]
    exact hfirst
  · rename_i hne
    exact (hfirst.foldl _).setSuper hne (knows_steps (.class_ superName) _)

/-- The builder of an assembled class follows the outline of what was requested. -/
theorem assemble_follows (name superName : String) (flags : UInt16) {requests : List Request}
    (hraw : ∀ r ∈ requests, r.isRaw = false) :
    (assemble name superName flags requests).Follows
      (.requested name superName flags requests) := by
  have hfoldl : ∀ {b : Builder} {o : ClassOutline}, b.Follows o →
      (requests.foldl perform b).Follows (requests.foldl ClassOutline.after o) := by
    induction requests with
    | nil => exact id
    | cons r requests ih =>
      intro b o h
      exact ih (fun r' hr' => hraw r' (List.mem_cons_of_mem _ hr'))
        (h.perform (hraw r (List.mem_cons_self ..)))
  exact hfoldl (new_follows name superName flags)

end Builder

end Jvm
