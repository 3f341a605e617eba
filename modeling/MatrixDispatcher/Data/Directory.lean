import Mathlib.Data.Option.Basic
import Mathlib.Logic.Function.Basic
import Mathlib.Tactic.Common

/-!
# Directories

A directory keeps values under primary names. A name can also be adopted by a primary name, and
then leads to its value; the first adoption stands. When a value is dropped, the names it has
adopted are forgotten with it, which is the invariant the structure carries.

* `Directory.lookup` — the value of a name: its own one, or else that of its owner.
* `Directory.add`, `Directory.adopt`, `Directory.modify`, `Directory.retain` — the operations.
* `Directory.Forgotten` — a name has lost one of its values and has gained no other since.
-/

/-- Values under primary names, and names that primary names have adopted. -/
structure Directory (K V : Type) where
  /-- The value that a primary name stands for. -/
  primary : K → Option V
  /-- The primary name that has adopted a name. -/
  owner : K → Option K
  /-- Only primary names in use own names. -/
  owner_live : ∀ e r, owner e = some r → (primary r).isSome = true

namespace Directory

variable {K V : Type}

@[ext] theorem ext {d d' : Directory K V} (hprimary : d.primary = d'.primary)
    (howner : d.owner = d'.owner) : d = d' := by
  cases d
  cases d'
  simp_all

/-- The directory without names. -/
def empty : Directory K V := ⟨fun _ => none, fun _ => none, fun _ _ h => by cases h⟩

/-- The value that a name leads to. -/
def lookup (d : Directory K V) (e : K) : Option V :=
  match d.primary e with
  | some v => some v
  | none => (d.owner e).bind d.primary

/-- Name `e` leads to the value of the primary name `r`, or would if it had none of its own. -/
def Names (d : Directory K V) (e r : K) : Prop :=
  (e = r ∧ (d.primary r).isSome = true) ∨ d.owner e = some r

/-- Change the values, not the names. -/
def modify (d : Directory K V) (f : K → V → V) : Directory K V where
  primary r := (d.primary r).map (f r)
  owner := d.owner
  owner_live e r h := by simpa using d.owner_live e r h

/-- Drop the values that `keep` does not hold for, with the names they own. -/
def retain (d : Directory K V) (keep : V → Bool) : Directory K V where
  primary r := (d.primary r).filter keep
  owner e := (d.owner e).filter fun r => ((d.primary r).filter keep).isSome
  owner_live e r h := by simpa using (Option.filter_eq_some_iff.mp h).2

section Update

variable [DecidableEq K]

/-- Put `v` under the primary name `r`. -/
def add (d : Directory K V) (r : K) (v : V) : Directory K V where
  primary := Function.update d.primary r (some v)
  owner := d.owner
  owner_live e r' h := by
    by_cases hr : r' = r
    · simp [hr]
    · simpa [hr] using d.owner_live e r' h

/-- The primary name `r` adopts `e`, unless `e` has an owner. -/
def adopt (d : Directory K V) (e r : K) (hr : (d.primary r).isSome = true) : Directory K V where
  primary := d.primary
  owner := if d.owner e = none then Function.update d.owner e (some r) else d.owner
  owner_live e' r' h := by
    split at h
    · by_cases he : e' = e
      · obtain rfl : r = r' := by simpa [he] using h
        exact hr
      · exact d.owner_live e' r' (by simpa [he] using h)
    · exact d.owner_live e' r' h

end Update

section

variable (d : Directory K V)

@[simp] theorem primary_retain (keep : V → Bool) (r : K) :
    (d.retain keep).primary r = (d.primary r).filter keep := rfl

theorem owner_retain (keep : V → Bool) (e : K) : (d.retain keep).owner e =
    (d.owner e).filter fun r => ((d.retain keep).primary r).isSome := rfl

variable [DecidableEq K]

theorem primary_add (r : K) (v : V) : (d.add r v).primary = Function.update d.primary r (some v) :=
  rfl

@[simp] theorem primary_adopt (e r : K) (hr : (d.primary r).isSome = true) :
    (d.adopt e r hr).primary = d.primary := rfl

theorem owner_adopt (e r : K) (hr : (d.primary r).isSome = true) : (d.adopt e r hr).owner =
    if d.owner e = none then Function.update d.owner e (some r) else d.owner := rfl

end

/-! ## Names that have lost a value -/

/-- Name `e` no longer leads to the value that `r` had in `d₀`, and has come to lead to no value
that it did not name there. -/
structure Forgotten (d₀ : Directory K V) (e r : K) (d : Directory K V) : Prop where
  primary : (d.primary e).isSome = true → (d₀.primary e).isSome = true ∧ e ≠ r
  owner : ∀ r', d.owner e = some r' → d₀.owner e = some r' ∧ r' ≠ r

variable {d₀ d : Directory K V} {e r : K}

/-- Dropping the value of `r` makes every name forget it. -/
theorem Forgotten.of_retain {keep : V → Bool} (hdrop : (d.retain keep).primary r = none) (e : K) :
    Forgotten d e r (d.retain keep) where
  primary h := by
    refine ⟨?_, ?_⟩
    · obtain ⟨v, hv⟩ := Option.isSome_iff_exists.mp h
      simp [(Option.filter_eq_some_iff.mp hv).1]
    · rintro rfl
      rw [hdrop] at h
      cases h
  owner r' h := by
    refine ⟨(Option.filter_eq_some_iff.mp h).1, ?_⟩
    rintro rfl
    have hlive := (d.retain keep).owner_live e r' h
    rw [hdrop] at hlive
    cases hlive

theorem Forgotten.modify (h : Forgotten d₀ e r d) (f : K → V → V) :
    Forgotten d₀ e r (d.modify f) :=
  ⟨fun hsome => h.primary (by simpa [Directory.modify] using hsome), h.owner⟩

theorem Forgotten.retain (h : Forgotten d₀ e r d) (keep : V → Bool) :
    Forgotten d₀ e r (d.retain keep) where
  primary hsome := by
    obtain ⟨v, hv⟩ := Option.isSome_iff_exists.mp hsome
    exact h.primary (by simp [(Option.filter_eq_some_iff.mp hv).1])
  owner r' hr' := h.owner r' (Option.filter_eq_some_iff.mp hr').1

theorem Forgotten.add [DecidableEq K] (h : Forgotten d₀ e r d) {e' : K} (he : e' ≠ e) (v : V) :
    Forgotten d₀ e r (d.add e' v) :=
  ⟨fun hsome => h.primary (by simpa [Directory.add, he.symm] using hsome), h.owner⟩

theorem Forgotten.adopt [DecidableEq K] (h : Forgotten d₀ e r d) {e' r' : K} (he : e' ≠ e)
    (hr' : (d.primary r').isSome = true) : Forgotten d₀ e r (d.adopt e' r' hr') where
  primary := h.primary
  owner r'' hr'' := by
    refine h.owner r'' ?_
    rw [Directory.adopt] at hr''
    split at hr''
    · simpa [he.symm] using hr''
    · exact hr''

/-- What a forgetful name still leads to is another value, which it named before. -/
theorem Forgotten.names_of_lookup (h : Forgotten d₀ e r d) {v : V} (hv : d.lookup e = some v) :
    ∃ r', d.primary r' = some v ∧ d₀.Names e r' ∧ r' ≠ r := by
  rw [lookup] at hv
  split at hv
  · next v' hprimary =>
    obtain ⟨hlive, hne⟩ := h.primary (by simp [hprimary])
    exact ⟨e, hprimary.trans hv, .inl ⟨rfl, hlive⟩, hne⟩
  · obtain ⟨r', howner, hprimary⟩ := Option.bind_eq_some_iff.mp hv
    obtain ⟨howner₀, hne⟩ := h.owner r' howner
    exact ⟨r', hprimary, .inr howner₀, hne⟩

end Directory
