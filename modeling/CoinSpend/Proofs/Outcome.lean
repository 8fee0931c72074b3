import Mathlib

/-!
# Computations that may fail

A sequence of steps succeeds exactly if each step does. Proofs take a computation apart with these
lemmas instead of unfolding the monad.

Results:
* `bind_eq_ok_iff`, `map_eq_ok_iff`, `mapError_eq_ok_iff`: what a successful computation consists
  of.
* `mapM_eq_ok_iff`, `mapM_eq_some_iff`, `exists_mapM_eq_ok_iff`: a list of computations succeeds if
  each member does.
* `mapM_eq_error_iff`: it fails with the error of the first member that does not.
* `exists_error_iff`, `eq_error_iff_of_faults`: what does not succeed fails.
* `FailsWith.bind`, `FailsWith.mapM`: the errors of a sequence are those of its steps.
-/

namespace CoinSpend

variable {ε α β : Type}

@[simp] theorem ok_bind (a : α) (f : α → Except ε β) : (Except.ok a >>= f) = f a := rfl

@[simp] theorem error_bind (e : ε) (f : α → Except ε β) : (Except.error e >>= f) = .error e := rfl

theorem bind_eq_ok_iff {x : Except ε α} {f : α → Except ε β} {b : β} :
    (x >>= f) = .ok b ↔ ∃ a, x = .ok a ∧ f a = .ok b := by
  cases x <;> simp

theorem map_eq_ok_iff {x : Except ε α} {f : α → β} {b : β} :
    x.map f = .ok b ↔ ∃ a, x = .ok a ∧ f a = b := by
  cases x <;> simp [Except.map]

theorem map_eq_error_iff {x : Except ε α} {f : α → β} {e : ε} :
    x.map f = .error e ↔ x = .error e := by
  cases x <;> simp [Except.map]

theorem mapError_eq_ok_iff {ε' : Type} {x : Except ε α} {f : ε → ε'} {a : α} :
    x.mapError f = .ok a ↔ x = .ok a := by
  cases x <;> simp [Except.mapError]

theorem exists_error_iff {x : Except ε α} : (∃ e, x = .error e) ↔ ¬ ∃ a, x = .ok a := by
  cases x <;> simp

/-- If a computation succeeds unless there is a fault, and each fault comes with its error, then it
fails exactly with the errors of its faults. -/
theorem eq_error_iff_of_faults {x : Except ε α} {Fault : ε → Prop} {e : ε}
    (hfault : ∀ {e}, Fault e → x = .error e) (hcases : (∃ a, x = .ok a) ∨ ∃ e, Fault e) :
    x = .error e ↔ Fault e := by
  refine ⟨fun h => ?_, hfault⟩
  rcases hcases with ⟨a, ha⟩ | ⟨e', he'⟩
  · cases h.symm.trans ha
  · cases h.symm.trans (hfault he')
    exact he'

theorem toOption_eq_some_iff {x : Except ε α} {a : α} : x.toOption = some a ↔ x = .ok a := by
  cases x <;> simp [Except.toOption]

theorem eq_ok_of_toOption {x : Except ε α} {a : α} (h : x.toOption = some a) : x = .ok a :=
  toOption_eq_some_iff.mp h

theorem exists_ok_of_length_toOption {x : Except ε (List α)} {n : ℕ}
    (h : x.toOption.map List.length = some n) : ∃ a, x = .ok a ∧ a.length = n := by
  cases x with
  | error e => simp [Except.toOption] at h
  | ok a => exact ⟨a, rfl, Option.some.inj h⟩

/-- What is made of the result of a computation does not decide whether there is one. -/
theorem exists_image_iff {p : α → Prop} {f : α → β} :
    (∃ b a, p a ∧ f a = b) ↔ ∃ a, p a := by
  constructor
  · rintro ⟨b, a, ha, -⟩
    exact ⟨a, ha⟩
  · rintro ⟨a, ha⟩
    exact ⟨f a, a, ha, rfl⟩

/-! ## Sorts of errors -/

/-- The computation fails with the given errors only. -/
def FailsWith (p : ε → Prop) (x : Except ε α) : Prop := ∀ e, x = .error e → p e

namespace FailsWith

variable {p : ε → Prop}

theorem ok (a : α) : FailsWith p (.ok a) := by
  intro e h
  cases h

theorem error {e : ε} (h : p e) : FailsWith p (.error e : Except ε α) := by
  rintro _ ⟨⟩
  exact h

theorem bind {x : Except ε α} {f : α → Except ε β} (hx : FailsWith p x)
    (hf : ∀ a, FailsWith p (f a)) : FailsWith p (x >>= f) := by
  cases x with
  | error e => exact error (hx e rfl)
  | ok a => exact hf a

end FailsWith

/-! ## Lists of computations -/

/-- Values that are related to others one by one are each related to one. -/
theorem exists_of_forall₂ {Rel : α → β → Prop} {as : List α} {bs : List β}
    (h : List.Forall₂ Rel as bs) : ∀ a ∈ as, ∃ b, Rel a b :=
  ((List.forall₂_and_left as bs).mp (h.imp fun _ b hab => ⟨⟨b, hab⟩, hab⟩)).1

theorem mapM_eq_ok_iff {f : α → Except ε β} {as : List α} {bs : List β} :
    as.mapM f = .ok bs ↔ List.Forall₂ (fun a b => f a = .ok b) as bs := by
  induction as generalizing bs with
  | nil => cases bs <;> simp [pure, Except.pure]
  | cons a as ih =>
    rw [List.mapM_cons, List.forall₂_cons_left_iff, bind_eq_ok_iff]
    constructor
    · rintro ⟨b, hb, h⟩
      obtain ⟨bs, hbs, h⟩ := bind_eq_ok_iff.mp h
      cases h
      exact ⟨b, bs, hb, ih.mp hbs, rfl⟩
    · rintro ⟨b, bs, hb, hbs, rfl⟩
      exact ⟨b, hb, bind_eq_ok_iff.mpr ⟨bs, ih.mpr hbs, rfl⟩⟩

theorem mapM_eq_some_iff {f : α → Option β} {as : List α} {bs : List β} :
    as.mapM f = some bs ↔ List.Forall₂ (fun a b => f a = some b) as bs := by
  induction as generalizing bs with
  | nil => cases bs <;> simp
  | cons a as ih =>
    rw [List.mapM_cons, List.forall₂_cons_left_iff]
    simp only [Option.bind_eq_bind, Option.bind_eq_some_iff, ih, Option.pure_def,
      Option.some.injEq]
    constructor
    · rintro ⟨b, hb, bs, hbs, rfl⟩
      exact ⟨b, bs, hb, hbs, rfl⟩
    · rintro ⟨b, bs, hb, hbs, rfl⟩
      exact ⟨b, hb, bs, hbs, rfl⟩

theorem exists_mapM_eq_ok_iff {f : α → Except ε β} {as : List α} :
    (∃ bs, as.mapM f = .ok bs) ↔ ∀ a ∈ as, ∃ b, f a = .ok b := by
  simp only [mapM_eq_ok_iff]
  induction as with
  | nil => simp
  | cons a as ih =>
    rw [List.forall_mem_cons, ← ih]
    constructor
    · rintro ⟨bs, h⟩
      obtain ⟨b, bs, hb, hbs, rfl⟩ := List.forall₂_cons_left_iff.mp h
      exact ⟨⟨b, hb⟩, ⟨bs, hbs⟩⟩
    · rintro ⟨⟨b, hb⟩, ⟨bs, hbs⟩⟩
      exact ⟨b :: bs, .cons hb hbs⟩

/-- A list of computations fails with the error of the first member that does. -/
theorem mapM_eq_error_iff {f : α → Except ε β} {as : List α} {e : ε} :
    as.mapM f = .error e ↔ ∃ before a after, as = before ++ a :: after ∧
      (∀ b ∈ before, ∃ c, f b = .ok c) ∧ f a = .error e := by
  induction as with
  | nil => simp [pure, Except.pure]
  | cons a as ih =>
    rw [List.mapM_cons]
    simp only [List.cons_eq_append_iff]
    cases ha : f a with
    | error e' =>
      rw [error_bind, Except.error.injEq]
      constructor
      · rintro rfl
        exact ⟨[], a, as, .inl ⟨rfl, rfl⟩, by simp, ha⟩
      · rintro ⟨_, _, after, ⟨rfl, hcons⟩ | ⟨before, rfl, rfl⟩, hbefore, he⟩
        · cases hcons
          exact Except.error.inj (ha.symm.trans he)
        · obtain ⟨c, hc⟩ := hbefore a List.mem_cons_self
          cases ha.symm.trans hc
    | ok c =>
      have htail : (as.mapM f >>= fun cs => pure (c :: cs)) = .error e ↔ as.mapM f = .error e := by
        cases as.mapM f <;> simp [pure, Except.pure]
      rw [ok_bind, htail, ih]
      constructor
      · rintro ⟨before, b, after, rfl, hbefore, he⟩
        exact ⟨a :: before, b, after, .inr ⟨before, rfl, rfl⟩,
          List.forall_mem_cons.mpr ⟨⟨c, ha⟩, hbefore⟩, he⟩
      · rintro ⟨_, b, after, ⟨rfl, hcons⟩ | ⟨before, rfl, rfl⟩, hbefore, he⟩
        · cases hcons
          cases ha.symm.trans he
        · exact ⟨before, b, after, rfl, (List.forall_mem_cons.mp hbefore).2, he⟩

theorem FailsWith.mapM {p : ε → Prop} {f : α → Except ε β} {as : List α}
    (h : ∀ a ∈ as, FailsWith p (f a)) : FailsWith p (as.mapM f) := by
  intro e he
  obtain ⟨before, a, after, rfl, -, ha⟩ := mapM_eq_error_iff.mp he
  exact h a List.mem_append_cons_self e ha

end CoinSpend
