import Jvm.Proofs.Builder.Records
import Jvm.Proofs.ClassFile.Rereading

/-!
# Requests to a builder

A class is assembled by a sequence of requests. Each of them asks for constants, in an order of its
own, and changes nothing else in the pool, so the pool of an assembled class is what the sequence of
all these constants leaves.
-/

namespace Jvm

namespace Builder

inductive Request where
  | constant (w : Wanted)
  | version (major minor : UInt16)
  | implements (names : List String)
  | field (flags : UInt16) (name descriptor : String)
  | constantField (flags : UInt16) (name descriptor : String) (value : UInt16)
  | method (flags : UInt16) (name descriptor : String) (maxStack maxLocals : UInt16)
    (code : Option Bytes)
  | classAttribute (name : String) (info : Bytes)
  deriving DecidableEq

def perform (b : Builder) : Request → Builder
  | .constant w => (w.ask b).2
  | .version major minor => b.version major minor
  | .implements names => b.implements names
  | .field flags name descriptor => b.field flags name descriptor
  | .constantField flags name descriptor value => b.constantField flags name descriptor value
  | .method flags name descriptor maxStack maxLocals code =>
    b.method flags name descriptor maxStack maxLocals code
  | .classAttribute name info => b.classAttribute name info

def Request.isRaw : Request → Bool
  | .classAttribute .. => true
  | _ => false

/-- A new class and the requests made for it, in this order. -/
def assemble (name superName : String) (flags : UInt16) (requests : List Request) : Builder :=
  requests.foldl perform (new name superName flags)

def Request.wanted : Request → List Wanted
  | .constant w => [w]
  | .version .. => []
  | .implements names => names.map .class_
  | .field _ name descriptor => [.utf8 name, .utf8 descriptor]
  | .constantField _ name descriptor _ => [.utf8 name, .utf8 descriptor, .utf8 "ConstantValue"]
  | .method _ name descriptor _ _ none => [.utf8 name, .utf8 descriptor]
  | .method _ name descriptor _ _ (some _) => [.utf8 name, .utf8 descriptor, .utf8 "Code"]
  | .classAttribute name _ => [.utf8 name]

def opening (name superName : String) : List Wanted :=
  .class_ name :: if superName = "" then [] else [.class_ superName]

/-- All constants that were asked for, each after its parts. -/
def history (name superName : String) (requests : List Request) : List Wanted :=
  (opening name superName ++ requests.flatMap Request.wanted).flatMap Wanted.steps

/-! ### The pool of an assembled class -/

variable {b : Builder} {name superName : String} {flags : UInt16}

theorem perform_samePool (b : Builder) (r : Request) :
    ((r.wanted.flatMap Wanted.steps).foldl add b).SamePool (b.perform r) := by
  cases r with
  | constant w =>
    rw [perform, ask_eq, Request.wanted, List.flatMap_singleton]
    exact .refl _
  | version major minor => exact ⟨rfl, rfl⟩
  | implements names =>
    -- Only the list of interfaces changes between one name and the next.
    rw [perform, implements, Request.wanted]
    induction names generalizing b with
    | nil => exact .refl b
    | cons name names ih =>
      have hfirst : ((Wanted.class_ name).steps.foldl add b).SamePool (b.implementing name) := by
        rw [implementing, class_eq]
        exact ⟨rfl, rfl⟩
      rw [List.map_cons, List.flatMap_cons, List.foldl_append, List.foldl_cons]
      exact (hfirst.foldl _).trans (ih (b.implementing name))
  | field flags name descriptor =>
    simp only [perform, field, utf8_eq]
    exact ⟨rfl, rfl⟩
  | constantField flags name descriptor value =>
    simp only [perform, constantField, utf8_eq]
    exact ⟨rfl, rfl⟩
  | method flags name descriptor maxStack maxLocals code =>
    cases code with
    | none =>
      simp only [perform, method, utf8_eq]
      exact ⟨rfl, rfl⟩
    | some bytes =>
      simp only [perform, method, utf8_eq]
      exact ⟨rfl, rfl⟩
  | classAttribute name info =>
    simp only [perform, classAttribute, utf8_eq]
    exact ⟨rfl, rfl⟩

theorem foldl_perform_samePool (b : Builder) (requests : List Request) :
    (((requests.flatMap Request.wanted).flatMap Wanted.steps).foldl add b).SamePool
      (requests.foldl perform b) := by
  induction requests generalizing b with
  | nil => exact .refl b
  | cons r requests ih =>
    rw [List.flatMap_cons, List.flatMap_append, List.foldl_append, List.foldl_cons]
    exact ((perform_samePool b r).foldl _).trans (ih (b.perform r))

theorem new_samePool (name superName : String) (flags : UInt16) :
    (((opening name superName).flatMap Wanted.steps).foldl add (empty flags)).SamePool
      (new name superName flags) := by
  have hthis : ∀ (c : Builder) i, c.SamePool { c with thisClass := i } := fun _ _ => ⟨rfl, rfl⟩
  have hsuper : ∀ (c : Builder) i, c.SamePool { c with superClass := i } := fun _ _ => ⟨rfl, rfl⟩
  simp only [new, class_eq, opening]
  split
  · rw [List.flatMap_singleton]
    exact hthis _ _
  · rw [List.flatMap_cons, List.flatMap_singleton, List.foldl_append]
    exact ((hthis _ _).foldl _).trans (hsuper _ _)

theorem assemble_samePool (name superName : String) (flags : UInt16) (requests : List Request) :
    ((history name superName requests).foldl add (empty flags)).SamePool
      (assemble name superName flags requests) := by
  rw [history, List.flatMap_append, List.foldl_append]
  exact ((new_samePool name superName flags).foldl _).trans
    (foldl_perform_samePool (new name superName flags) requests)

theorem assemble_append (before after : List Request) :
    assemble name superName flags (before ++ after) =
      after.foldl perform (assemble name superName flags before) := by
  rw [assemble, List.foldl_append, assemble]

theorem extends_foldl_perform (b : Builder) (requests : List Request) :
    b.Extends (requests.foldl perform b) :=
  (extends_foldl b _).trans (foldl_perform_samePool b requests).toExtends

theorem assemble_gapped (requests : List Request) :
    (assemble name superName flags requests).pool.Gapped := by
  rw [(assemble_samePool name superName flags requests).pool_eq]
  exact gapped_foldl (gapped_empty flags) _

theorem assemble_recorded {requests : List Request}
    (hcount : (assemble name superName flags requests).pool.count ≤ 65535) :
    Recorded (history name superName requests) (assemble name superName flags requests) := by
  have hsame := assemble_samePool name superName flags requests
  have hrecorded := (recorded_empty flags).foldl
    (closed_flatMap [] (opening name superName ++ requests.flatMap Request.wanted))
    (by rwa [hsame.pool_eq] at hcount)
  exact hrecorded.congr hsame

end Builder

end Jvm
