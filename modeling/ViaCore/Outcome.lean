/-
Outcomes of fallible code that can panic.

A function that returns `Result<T, E>` can end in three ways: with a value, with an error that its
caller sees, or with a panic that unwinds past every caller.  `Outcome ε α` keeps the three apart.
A function that returns `Option<T>` is an `Outcome Unit T`, where `err ()` stands for `None`; the
early return `?` is the monadic bind.

* `Outcome.bind_eq_ok`, `Outcome.bind_eq_panic` — how a composition can return or panic;
* `Outcome.ofOption`, `Outcome.unwrap` — an option read with `?` and with `unwrap`;
* `Outcome.Returns` — the computation ends without a panic, with `Outcome.returns_bind_iff`;
* `Outcome.Ensures` — and its value has a property, with the rule `Outcome.Ensures.bind`.
-/
import Mathlib

/-- A value, an error or a panic. -/
inductive Outcome (ε α : Type) where
  | ok (a : α)
  | err (e : ε)
  | panic
  deriving DecidableEq

namespace Outcome

variable {ε α β : Type}

/-- Sequencing: errors and panics end the computation. -/
protected def bind (o : Outcome ε α) (f : α → Outcome ε β) : Outcome ε β :=
  match o with
  | ok a => f a
  | err e => err e
  | panic => panic

instance : Monad (Outcome ε) where
  pure := ok
  bind := Outcome.bind

instance : LawfulMonad (Outcome ε) :=
  LawfulMonad.mk' _
    (fun x => by cases x <;> rfl)
    (fun _ _ => rfl)
    (fun x _ _ => by cases x <;> rfl)

@[simp] theorem ok_bind (a : α) (f : α → Outcome ε β) : (ok a >>= f) = f a := rfl

@[simp] theorem err_bind (e : ε) (f : α → Outcome ε β) : (err e >>= f) = err e := rfl

@[simp] theorem panic_bind (f : α → Outcome ε β) : ((panic : Outcome ε α) >>= f) = panic := rfl

@[simp] theorem pure_eq_ok (a : α) : (pure a : Outcome ε α) = ok a := rfl

variable {o : Outcome ε α} {f : α → Outcome ε β}

theorem bind_eq_ok {b : β} : (o >>= f) = ok b ↔ ∃ a, o = ok a ∧ f a = ok b := by
  cases o with
  | ok a => simp
  | err e => simp
  | panic => simp

theorem bind_eq_panic : (o >>= f) = panic ↔ o = panic ∨ ∃ a, o = ok a ∧ f a = panic := by
  cases o with
  | ok a => simp
  | err e => simp
  | panic => simp

theorem length_mapM {f : α → Outcome ε β} {as : List α} {bs : List β}
    (h : as.mapM f = .ok bs) : bs.length = as.length := by
  induction as generalizing bs with
  | nil => cases h; rfl
  | cons a as ih =>
    rw [List.mapM_cons] at h
    obtain ⟨b, -, h⟩ := bind_eq_ok.1 h
    obtain ⟨bs', hbs', h⟩ := bind_eq_ok.1 h
    cases h
    rw [List.length_cons, List.length_cons, ih hbs']

def ofOption : Option α → Outcome Unit α
  | some a => ok a
  | none => err ()

@[simp] theorem ofOption_some (a : α) : ofOption (some a) = ok a := rfl

@[simp] theorem ofOption_none : ofOption (none : Option α) = err () := rfl

@[simp] theorem ofOption_ne_panic (o : Option α) : ofOption o ≠ panic := by
  cases o <;> simp [ofOption]

def unwrap : Option α → Outcome ε α
  | some a => ok a
  | none => panic

@[simp] theorem unwrap_some (a : α) : (unwrap (some a) : Outcome ε α) = ok a := rfl

theorem unwrap_eq_ok {o : Option α} {a : α} : (unwrap o : Outcome ε α) = ok a ↔ o = some a := by
  cases o <;> simp [unwrap]

def toOption : Outcome ε α → Option α
  | ok a => some a
  | _ => none

@[simp] theorem toOption_ok (a : α) : (ok a : Outcome ε α).toOption = some a := rfl

@[simp] theorem toOption_err (e : ε) : (err e : Outcome ε α).toOption = none := rfl

@[simp] theorem toOption_panic : (panic : Outcome ε α).toOption = none := rfl

theorem toOption_eq_some {a : α} : o.toOption = some a ↔ o = ok a := by
  cases o <;> simp

def Returns (o : Outcome ε α) : Prop := o ≠ panic

instance (o : Outcome ε α) : Decidable (Returns o) :=
  match o with
  | ok _ => isTrue (fun h => by cases h)
  | err _ => isTrue (fun h => by cases h)
  | panic => isFalse (fun h => h rfl)

theorem Returns.ok (a : α) : (Outcome.ok a : Outcome ε α).Returns := nofun

theorem Returns.err (e : ε) : (Outcome.err e : Outcome ε α).Returns := nofun

theorem returns_bind_iff : (o >>= f).Returns ↔ o.Returns ∧ ∀ a, o = .ok a → (f a).Returns := by
  rw [Returns, Ne, bind_eq_panic, not_or, not_exists]
  exact and_congr_right fun _ => forall_congr' fun a => not_and

theorem Returns.bind (ho : o.Returns) (hf : ∀ a, o = .ok a → (f a).Returns) : (o >>= f).Returns :=
  returns_bind_iff.2 ⟨ho, hf⟩

/-- The computation does not panic, and a value that it returns has the property. -/
def Ensures (o : Outcome ε α) (P : α → Prop) : Prop := o.Returns ∧ ∀ a, o = ok a → P a

namespace Ensures

variable {P P' : α → Prop} {Q : β → Prop}

theorem ok {a : α} (h : P a) : (Outcome.ok a : Outcome ε α).Ensures P :=
  ⟨nofun, fun _ ha => by cases ha; exact h⟩

theorem err {e : ε} : (Outcome.err e : Outcome ε α).Ensures P := ⟨nofun, nofun⟩

theorem mono (h : o.Ensures P) (hP : ∀ a, P a → P' a) : o.Ensures P' :=
  ⟨h.1, fun a ha => hP a (h.2 a ha)⟩

theorem with_eq (h : o.Ensures P) : o.Ensures fun a => o = Outcome.ok a ∧ P a :=
  ⟨h.1, fun a ha => ⟨ha, h.2 a ha⟩⟩

theorem bind (h : o.Ensures P) (hf : ∀ a, P a → (f a).Ensures Q) : (o >>= f).Ensures Q := by
  cases o with
  | ok a => exact hf a (h.2 a rfl)
  | err e => exact err
  | panic => exact absurd rfl h.1

end Ensures

theorem Returns.ensures (h : o.Returns) : o.Ensures fun a => o = .ok a := ⟨h, fun _ ha => ha⟩

end Outcome
