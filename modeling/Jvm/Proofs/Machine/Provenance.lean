import Jvm.Proofs.Machine.Resolving
import Jvm.Proofs.Machine.Starting

/-!
# Where classes come from

Whatever is done to a method area, the class under a name is the class that the loader has under
that name. So a name that can be loaded stands for one class, however much is loaded before it is
asked for.
-/

namespace Jvm

namespace Loader

variable {l : Loader} {name : String} {c : Class}

theorem Linkable.name_eq (h : l.Linkable name c) : c.name = name := by
  cases h with
  | root hfile | derived hfile => exact classFile_name hfile

theorem Linkable.exists_file (h : l.Linkable name c) : ∃ file, l.classFile name = .ok file := by
  cases h with
  | root hfile | derived hfile => exact ⟨_, hfile⟩

theorem Linkable.unique {c' : Class} (h : l.Linkable name c) (h' : l.Linkable name c') :
    c' = c := by
  induction h generalizing c' with
  | root hfile hsuper hstatics =>
    cases h' with
    | root hfile' hsuper' hstatics' =>
      cases hfile.symm.trans hfile'
      rfl
    | derived hfile' hsuper' hstatics' hparent' =>
      cases hfile.symm.trans hfile'
      exact absurd hsuper hsuper'
  | derived hfile hsuper hstatics hparent ih =>
    cases h' with
    | root hfile' hsuper' hstatics' =>
      cases hfile.symm.trans hfile'
      exact absurd hsuper' hsuper
    | derived hfile' hsuper' hstatics' hparent' =>
      cases hfile.symm.trans hfile'
      rw [ih hparent']

theorem Linkable.parent {p : Class} (h : l.Linkable name c) (hsuper : c.super? = some p) :
    l.Linkable p.name p := by
  cases h with
  | root hfile => cases hsuper
  | derived hfile hne hstatics hparent =>
    cases hsuper
    rw [hparent.name_eq]
    exact hparent

theorem linkable_of_ensure {a b : MethodArea} (ha : l.Sources a)
    (h : l.ensure name a = (.ok c, b)) : l.Linkable name c := by
  have hsources := l.ensure_sources name ha
  rw [h] at hsources
  exact hsources name c (ensure_class? h)

/-! ### Loading what can be loaded later -/

/-- With more classes loaded, a request still finds its way up, and the way ends no later. -/
theorem planFrom_covers {a a' : MethodArea} (hcovers : a'.Covers a) (hsources : l.Sources a')
    (fuel : Nat) {pending : List String} {plan : Plan}
    (hplan : l.planFrom a fuel pending name = .ok plan) (hc : l.Linkable name c) :
    ∃ plan' b, l.planFrom a' fuel pending name = .ok plan' ∧ plan'.define a' = (.ok c, b) := by
  induction fuel generalizing pending name plan c with
  | zero => cases hplan
  | succ fuel ih =>
    cases hclass' : a'.class? name with
    | some k =>
      obtain rfl := hc.unique (hsources name k hclass')
      refine ⟨.present k, a', ?_, rfl⟩
      simp only [planFrom, hclass']
    | none =>
      have hclass : a.class? name = none := by
        cases hold : a.class? name with
        | none => rfl
        | some k =>
          rw [hcovers hold] at hclass'
          cases hclass'
      simp only [planFrom, hclass] at hplan
      simp only [planFrom, hclass']
      split at hplan
      · cases hplan
      · rename_i hpending
        rw [if_neg hpending]
        cases hc with
        | root hfile hsuper hstatics =>
          simp only [hfile, hsuper, if_true]
          exact ⟨_, _, rfl, MethodArea.link_of_statics hstatics [] a'⟩
        | @derived _ file statics parent hfile hsuper hstatics hparent =>
          simp only [hfile, hsuper, if_false] at hplan ⊢
          split at hplan
          · cases hplan
          · rename_i parentPlan hparentPlan
            obtain ⟨plan', b, hplan', hdefine⟩ := ih hparentPlan hparent
            have hlink : (Plan.derived file plan').define a' =
                MethodArea.link file (parent.file :: parent.ancestors) b := by
              simp only [Plan.define, hdefine]
            rw [hplan']
            exact ⟨_, _, rfl, hlink.trans (MethodArea.link_of_statics hstatics _ b)⟩

/-- What can be loaded can still be loaded when more classes are, and is the same class. -/
theorem ensure_covers {a a' : MethodArea} (hcovers : a'.Covers a) (ha : l.Sources a)
    (ha' : l.Sources a') (h : (l.ensure name a).1 = .ok c) : (l.ensure name a').1 = .ok c := by
  have hc : l.Linkable name c := linkable_of_ensure ha (Prod.ext h rfl)
  cases hplan : l.plan a name with
  | error f =>
    simp only [ensure, hplan] at h
    cases h
  | ok plan =>
    obtain ⟨plan', b, hplan', hdefine⟩ := planFrom_covers hcovers ha' _ hplan hc
    have hensure : l.ensure name a' = (.ok c, b) := by
      simp only [ensure, Loader.plan, hplan', hdefine]
    rw [hensure]

end Loader

/-! ### Areas that evolve -/

namespace MethodArea

variable {env : Environment} {a b : MethodArea}

theorem Operation.sources (h : Operation env a b) (ha : a.Linked)
    (hsources : env.loader.Sources a) : env.loader.Sources b := by
  cases h with
  | load name => exact env.loader.ensure_sources name hsources
  | write hset =>
    obtain ⟨slot, -, rfl⟩ := setStatic_eq hset
    intro name c hclass
    rw [modify, class?_map a (cls_modified (cls_stored slot _))] at hclass
    exact hsources name c hclass
  | start hclass =>
    obtain ⟨front, r, -, hclaimed⟩ := env.initStep_claimed ha hclass
    obtain ⟨names, -, hb⟩ := hclaimed.marked
    intro name c hclass
    rw [hb, marked, class?_map a (cls_mark names)] at hclass
    exact hsources name c hclass

theorem Evolves.sources (h : Evolves env .empty a) : env.loader.Sources a := by
  induction h with
  | refl => exact .empty env.loader
  | tail hsteps hstep ih => exact hstep.sources (Evolves.linked hsteps .empty) ih

end MethodArea

end Jvm
