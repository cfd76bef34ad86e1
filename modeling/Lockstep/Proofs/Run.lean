import Lockstep.Machine.State

/-! Reading a computation on a machine off its result: what each step did, and a
relation that every step keeps. A computation without a result keeps any. -/
namespace Lockstep

theorem okBindInv {ε α β : Type} {x : Except ε α} {f : α → Except ε β} {b : β}
    (h : x >>= f = .ok b) : ∃ a, x = .ok a ∧ f a = .ok b := by
  cases x with
  | error e => cases h
  | ok a => exact ⟨a, rfl, h⟩

theorem okMapInv {ε α β : Type} {x : Except ε α} {f : α → β} {b : β} (h : x.map f = .ok b) :
    ∃ a, x = .ok a ∧ f a = b := by
  cases x with
  | error e => cases h
  | ok a => exact ⟨a, rfl, Except.ok.inj h⟩

namespace Run
variable {α β : Type} {m m' : Machine}

theorem pureBind (a : α) (f : α → Run β) : (pure a >>= f) m = f a m := rfl

theorem getBind (f : Machine → Run β) : (get >>= f) m = f m m := rfl

theorem setBind (m₁ : Machine) (f : PUnit → Run β) : (set m₁ >>= f) m = f ⟨⟩ m₁ := rfl

theorem modifyBind (g : Machine → Machine) (f : PUnit → Run β) :
    (modify g >>= f) m = f ⟨⟩ (g m) := rfl

theorem bindInv {x : Run α} {f : α → Run β} {b : β} (h : (x >>= f) m = some (b, m')) :
    ∃ a m₁, x m = some (a, m₁) ∧ f a m₁ = some (b, m') := by
  obtain ⟨⟨a, m₁⟩, first, rest⟩ := Option.bind_eq_some_iff.mp h
  exact ⟨a, m₁, first, rest⟩

theorem bindSome {x : Run α} {a : α} {m₁ : Machine} (h : x m = some (a, m₁)) (f : α → Run β) :
    (x >>= f) m = f a m₁ := by
  change (x m).bind _ = _
  rw [h]
  rfl

theorem bindNone {x : Run α} (h : x m = none) (f : α → Run β) : (x >>= f) m = none := by
  change (x m).bind _ = _
  rw [h]
  rfl

theorem bindCongr {x y : Run α} {f g : α → Run β} (first : x m = y m)
    (rest : ∀ a m', y m = some (a, m') → f a m' = g a m') : (x >>= f) m = (y >>= g) m := by
  cases ran : y m with
  | none => rw [bindNone (first.trans ran), bindNone ran]
  | some row => rw [bindSome (first.trans ran), bindSome ran, rest row.1 row.2 ran]

theorem pureInv {a b : α} (h : (pure a : Run α) m = some (b, m')) : a = b ∧ m = m' := by
  cases h
  exact ⟨rfl, rfl⟩

def Keeps (R : Machine → Machine → Prop) (x : Run α) (m : Machine) : Prop :=
  ∀ a m', x m = some (a, m') → R m m'

section
variable {R : Machine → Machine → Prop}

theorem keepsPure (refl : ∀ m, R m m) (a : α) : Keeps R (pure a) m := by
  intro b m' h
  obtain ⟨-, rfl⟩ := pureInv h
  exact refl m

theorem keepsGet {f : Machine → Run α} (h : Keeps R (f m) m) : Keeps R (get >>= f) m := h

theorem keepsModify {g : Machine → Machine} (h : R m (g m)) : Keeps R (modify g) m := by
  intro _ m' same
  cases same
  exact h

theorem keepsBind (trans : ∀ {a b c}, R a b → R b c → R a c) {x : Run α} {f : α → Run β}
    (first : Keeps R x m) (rest : ∀ a m₁, x m = some (a, m₁) → Keeps R (f a) m₁) :
    Keeps R (x >>= f) m := by
  intro b m' h
  obtain ⟨a, m₁, h₁, h₂⟩ := bindInv h
  exact trans (first a m₁ h₁) (rest a m₁ h₁ b m' h₂)

end

/-- What `x` does, `y` does as well, and a relation holds across it. -/
def Follows (R : Machine → Machine → Prop) (x y : Run α) (m : Machine) : Prop :=
  ∀ a m', x m = some (a, m') → y m = some (a, m') ∧ R m m'

section
variable {R : Machine → Machine → Prop}

theorem followsSame {x : Run α} (keeps : Keeps R x m) : Follows R x x m :=
  fun a m' h => ⟨h, keeps a m' h⟩

theorem followsGet {f g : Machine → Run α} (h : Follows R (f m) (g m) m) :
    Follows R (get >>= f) (get >>= g) m := h

theorem Follows.keeps {x y : Run α} (h : Follows R x y m) : Keeps R x m :=
  fun a m' ran => (h a m' ran).2

theorem followsBind (trans : ∀ {a b c}, R a b → R b c → R a c) {x y : Run α} {f g : α → Run β}
    (first : Follows R x y m) (rest : ∀ a m₁, Follows R (f a) (g a) m₁) :
    Follows R (x >>= f) (y >>= g) m := by
  intro b m' h
  obtain ⟨a, m₁, h₁, h₂⟩ := bindInv h
  obtain ⟨same, one⟩ := first a m₁ h₁
  obtain ⟨same', two⟩ := rest a m₁ b m' h₂
  exact ⟨Option.bind_eq_some_iff.mpr ⟨(a, m₁), same, same'⟩, trans one two⟩

end

end Run

end Lockstep
