import Lockstep.Machine.Slice
import Lockstep.Proofs.Rules

/-! Where callbacks are. A computation calls a script in a state if it cannot do without what the
script does there; a script that is called passes through states of its own, and so do those that
its commands call. What neither commands nor loans upset holds in all of them. -/
namespace Lockstep.Machine
open Bus (Width)

/-- Whether a computation from `m` on has `s` carried out in `m'`, where it comes to an end only if
that does. Other scripts do what they do, or nothing if they would not come back. -/
def Calls {α : Type} (x : Callback → Run α) (call : Callback) (m : Machine) (s : Script)
    (m' : Machine) : Prop :=
  ∃ without other : Callback, x without m = none ∧ (x other m).isSome = true ∧
    ∀ s₁ m₁, (s₁ = s → m₁ ≠ m') → without s₁ m₁ = other s₁ m₁ ∧
      (other s₁ m₁ = call s₁ m₁ ∨ call s₁ m₁ = none ∧ ∃ reply, other s₁ m₁ = some (reply, m₁))

/-- The states that a script passes through as it is carried out, from one command to the next: its
own, those inside its loans, and those of the scripts that its commands call. -/
inductive Reaches : (depth : Nat) → Script → Machine → Machine → Prop where
  | here {depth s m} : Reaches (depth + 1) s m m
  | later {depth command next m reply m₁ m'}
      (ran : Command.run (invoke depth) command m = some (reply, m₁))
      (rest : Reaches (depth + 1) (next reply) m₁ m') : Reaches (depth + 1) (.step command next) m m'
  | lent {depth id as body next m device m'} (taken : m.borrowable id as = .ok device)
      (inner : Reaches (depth + 1) body (m.setBusy id true) m') :
      Reaches (depth + 1) (.step (.borrow id as body) next) m m'
  | called {depth command next m s m₁ m'}
      (calls : Calls (fun call => Command.run call command) (invoke depth) m s m₁)
      (inner : Reaches depth s m₁ m') : Reaches (depth + 1) (.step command next) m m'

def Concur (P : Machine → Prop) {α : Type} (x y : Run α) (m : Machine) : Prop :=
  P m → x m = y m ∧ ∀ a m', x m = some (a, m') → P m'

structure Lasts (P : Machine → Prop) : Prop where
  touch : ∀ {a b}, Touch a b → P a → P b
  deed : ∀ {command a b}, Deed command a b → P a → P b
  lent : ∀ {m id d}, m.idle id = .ok d → P m →
    P (m.setBusy id true) ∧ ∀ m', P m' → P (m'.setBusy id false)

section
variable {P : Machine → Prop} {α β : Type} {m m' : Machine} {s : Script}

theorem concurBind {x y : Run α} {f g : α → Run β} (first : Concur P x y m)
    (rest : ∀ a m, Concur P (f a) (g a) m) : Concur P (x >>= f) (y >>= g) m := by
  intro holds
  obtain ⟨same, kept⟩ := first holds
  cases ran : x m with
  | none =>
    rw [ran] at same
    rw [Run.bindNone ran, Run.bindNone same.symm]
    exact ⟨rfl, fun _ _ h => by cases h⟩
  | some row =>
    rw [ran] at same
    rw [Run.bindSome ran, Run.bindSome same.symm]
    exact rest row.1 row.2 (kept row.1 row.2 ran)

theorem concurModify {g : Machine → Machine} (kept : P m → P (g m)) :
    Concur P (modify g : Run PUnit) (modify g) m := by
  refine fun holds => ⟨rfl, fun _ m' h => ?_⟩
  cases h
  exact kept holds

theorem concurBears (touch : ∀ {a b}, Touch a b → P a → P b) : Bears fun _ => Concur P where
  pure a holds := ⟨rfl, fun _ _ h => by cases h; exact holds⟩
  bind := concurBind
  get h := h
  touch {m g} touches := by
    refine concurModify fun holds => ?_
    generalize g m = m' at touches
    induction touches with
    | refl => exact holds
    | tail _ last ih => exact touch last ih

namespace Lasts
variable (lasts : Lasts P)
include lasts

theorem obeys : Obeys free fun _ => Concur P where
  toBears := concurBears lasts.touch
  fails _ := ⟨rfl, fun _ _ h => by cases h⟩
  plain plain holds := ⟨rfl, fun reply m' ran => lasts.deed (plainDeed plain _ reply m' ran) holds⟩
  barred _ h := h
  lend {α β m id d x y f g} idle inner rest := by
    intro holds
    obtain ⟨taken, back⟩ := lasts.lent idle holds
    refine concurBind (concurModify fun _ => taken) (fun _ m₁ => ?_) holds
    exact concurBind (inner m₁) fun a m₂ =>
      concurBind (concurModify (back m₂)) fun _ m₃ => rest a m₃

theorem invoke (depth : Nat) (s : Script) (m : Machine) :
    Concur P (Machine.invoke depth s) (Machine.invoke depth s) m := by
  have agree := lasts.obeys.invoke depth s m
  rwa [invokeFree] at agree

theorem command {call other : Callback} (calls : ∀ s m, Concur P (call s) (other s) m)
    (command : Command) (m : Machine) : Concur P (command.run call) (command.run other) m := by
  rw [← commandFree call]
  exact lasts.obeys.command calls command m

end Lasts

theorem Calls.holds {x : Callback → Run α} {call : Callback} (calls : Calls x call m s m')
    (agrees : ∀ one other : Callback, (∀ s m, Concur P (one s) (other s) m) →
      Concur P (x one) (x other) m)
    (keeps : ∀ s m, Concur P (call s) (call s) m) (holds : P m) : P m' := by
  obtain ⟨without, other, fails, goes, same⟩ := calls
  refine Classical.byContradiction fun upset => ?_
  -- the two callbacks part only where the script is called, and there `P` does not hold
  have agree : ∀ s₁ m₁, Concur P (without s₁) (other s₁) m₁ := fun s₁ m₁ holds₁ => by
    have away : s₁ = s → m₁ ≠ m' := fun _ here => upset (here ▸ holds₁)
    obtain ⟨alike, does | ⟨-, reply, idles⟩⟩ := same s₁ m₁ away
    · rw [alike, does]
      exact keeps s₁ m₁ holds₁
    · rw [alike, idles]
      refine ⟨rfl, fun _ _ h => ?_⟩
      cases h
      exact holds₁
  rw [← (agrees without other agree holds).1, fails] at goes
  cases goes

theorem Lasts.reaches (lasts : Lasts P) {depth : Nat} (reached : Reaches depth s m m') (holds : P m) :
    P m' := by
  induction reached with
  | here => exact holds
  | later ran rest ih => exact ih ((lasts.command (lasts.invoke _) _ _ holds).2 _ _ ran)
  | lent taken inner ih =>
    obtain ⟨d, idle, -⟩ := okBindInv taken
    exact ih (lasts.lent idle holds).1
  | called calls inner ih =>
    exact ih (calls.holds (fun one other agree => lasts.command agree _ _) (lasts.invoke _) holds)

end

section
variable {α : Type} {call : Callback} {m m' m₀ : Machine} {s : Script} {id : SpaceId}

theorem callsCongr {β : Type} {x : Callback → Run α} {y : Callback → Run β}
    (ends : ∀ call, (x call m).isSome = (y call m).isSome) :
    Calls x call m s m' ↔ Calls y call m s m' := by
  simp only [Calls, ← Option.not_isSome_iff_eq_none, ends]

theorem callsOnce {x : Callback → Run α} {script : Option Script}
    (ends : ∀ call, (x call m).isSome = script.elim true fun s => (call s m₀).isSome) :
    Calls x call m s m' ↔ script = some s ∧ m' = m₀ := by
  refine ⟨?_, ?_⟩
  · rintro ⟨without, other, fails, goes, same⟩
    have first := ends without
    have second := ends other
    rw [fails] at first
    rw [goes] at second
    cases script with
    | none => cases first
    | some s₀ =>
      refine Classical.byContradiction fun away => ?_
      obtain ⟨alike, -⟩ := same s₀ m₀ fun here there => away ⟨by rw [here], there.symm⟩
      rw [Option.elim_some, alike] at first
      rw [Option.elim_some, ← first] at second
      cases second
  · rintro ⟨rfl, rfl⟩
    classical
    refine ⟨fun s₁ m₁ => if s₁ = s ∧ m₁ = m' then none else call s₁ m₁,
      fun s₁ m₁ => if s₁ = s ∧ m₁ = m' then some (.ok, m₁) else call s₁ m₁, ?_, ?_, ?_⟩
    · rw [← Option.not_isSome_iff_eq_none, ends]
      simp
    · rw [ends]
      simp
    · intro s₁ m₁ away
      have other : ¬ (s₁ = s ∧ m₁ = m') := fun here => away here.1 here.2
      exact ⟨(if_neg other).trans (if_neg other).symm, .inl (if_neg other)⟩

def readScript? (m : Machine) (id : SpaceId) (address : Nat) : Option Script := do
  let space ← m.space? id
  let address := space.shape.wrap address
  let region := space.region address
  match region.handler with
  | .port p => if p.reads then some (p.onRead (address - region.origin) .byte) else none
  | _ => none

def writeScript? (m : Machine) (id : SpaceId) (address value : Nat) : Option Script := do
  let space ← m.space? id
  let address := space.shape.wrap address
  let region := space.region address
  match region.handler with
  | .port p => if p.writes then some (p.onWrite (address - region.origin) .byte value) else none
  | _ => none

theorem isSomeBind {β : Type} {x : Run α} {f : α → Run β} (ends : ∀ a m, (f a m).isSome = true)
    (m : Machine) : ((x >>= f) m).isSome = (x m).isSome := by
  cases ran : x m with
  | none =>
    rw [Run.bindNone ran]
    rfl
  | some row => rw [Run.bindSome ran, ends, Option.isSome_some]

theorem readCalls (address : Nat) : Calls (fun call => read call id address .byte) call m s m' ↔
    m.readScript? id address = some s ∧ m' = m := by
  refine callsOnce fun call => ?_
  have own : read call id address .byte = readRank call id 0 address := rfl
  rw [own]
  unfold readRank readScript?
  rw [Run.getBind]
  cases m.space? id with
  | none => rfl
  | some space =>
    simp only [Option.bind_eq_bind, Option.bind_some]
    generalize space.region (space.shape.wrap address) = region
    unfold readRegion
    rw [isSomeBind (fun value m => by cases value <;> rfl)]
    unfold readHandler
    cases region.handler with
    | ram | rom | bank | unmapped => rfl
    | port p =>
      dsimp only
      split
      · exact isSomeBind (fun _ _ => rfl) m
      · rfl

theorem commandReadCalls {route : Route} {address : Nat} (resolved : m.resolve route = .ok id) :
    Calls (fun call => Command.run call (.read route address .byte)) call m s m' ↔
      m.readScript? id address = some s ∧ m' = m := by
  rw [← readCalls]
  refine callsCongr fun call => ?_
  unfold Command.run onSpace
  rw [Run.getBind, resolved]
  exact isSomeBind (fun _ _ => rfl) m

theorem writeCalls (address value : Nat) :
    Calls (fun call => write call id address .byte value) call m s m' ↔
      m.writeScript? id address (value % Width.byte.size) = some s ∧
        m' = m.modifySpace id (·.drive (value % Width.byte.size)) := by
  refine callsOnce fun call => ?_
  have own : write call id address .byte value = writeRank call id 0 address value := rfl
  rw [own]
  unfold writeRank writeScript?
  rw [Run.getBind]
  cases m.space? id with
  | none => rfl
  | some space =>
    simp only [Option.bind_eq_bind, Option.bind_some]
    generalize space.region (space.shape.wrap address) = region
    unfold writeRegion
    rw [Run.modifyBind]
    unfold writeHandler
    cases region.handler with
    | ram | rom | unmapped => rfl
    | bank b =>
      dsimp only
      rw [Run.getBind]
      cases (m.modifySpace id (·.drive (value % Width.byte.size))).memory.bank? b with
      | none => rfl
      | some bank =>
        dsimp only
        split <;> rfl
    | port p =>
      dsimp only
      split
      · exact isSomeBind (f := fun _ => pure PUnit.unit) (fun _ _ => rfl) _
      · rfl

end

end Lockstep.Machine
