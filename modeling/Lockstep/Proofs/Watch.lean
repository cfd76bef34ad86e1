import Lockstep.Proofs.Run

/-! Runs with notes. A watched run does what a run does, and its notes stay when it has no result. -/
namespace Lockstep

def Watch (ω α : Type) : Type := Machine → List ω × Option (α × Machine)

namespace Watch
variable {ω ω' α β : Type}

def done (a : α) : Watch ω α := fun m => ([], some (a, m))

def next (w : Watch ω α) (f : α → Watch ω β) : Watch ω β := fun m =>
  match w m with
  | (notes, none) => (notes, none)
  | (notes, some (a, m)) => (notes ++ (f a m).1, (f a m).2)

instance : Monad (Watch ω) where
  pure := done
  bind := next

instance : LawfulMonad (Watch ω) := .mk' _
  (fun w => by
    funext m
    change next w (fun a => done a) m = w m
    unfold next
    rcases w m with ⟨notes, _ | ⟨a, m'⟩⟩
    · rfl
    · simp [done])
  (fun _ _ => rfl)
  (fun w g h => by
    funext m
    change next (next w g) h m = next w (fun a => next (g a) h) m
    unfold next
    rcases w m with ⟨notes, _ | ⟨a, m'⟩⟩
    · rfl
    · dsimp only
      rcases g a m' with ⟨notes', _ | ⟨b, m''⟩⟩
      · rfl
      · simp)

def of (x : Run α) : Watch ω α := fun m => ([], x m)

def jot (f : Machine → List ω) : Watch ω PUnit := fun m => (f m, some (⟨⟩, m))

def note (f : Machine → ω) : Watch ω PUnit := jot fun m => [f m]

def gather (f : List ω → ω') (w : Watch ω α) : Watch ω' α := fun m => ([f (w m).1], (w m).2)

def sift (f : ω → Option ω') (w : Watch ω α) : Watch ω' α := fun m =>
  ((w m).1.filterMap f, (w m).2)

def result (w : Watch ω α) : Run α := fun m => (w m).2

theorem getBind (g : Machine → Watch ω β) (m : Machine) : (of get >>= g) m = g m m := rfl

theorem setBind (m₁ : Machine) (g : PUnit → Watch ω β) (m : Machine) :
    (of (set m₁) >>= g) m = g ⟨⟩ m₁ := rfl

theorem modifyBind (change : Machine → Machine) (g : PUnit → Watch ω β) (m : Machine) :
    (of (modify change) >>= g) m = g ⟨⟩ (change m) := rfl

theorem ofPure (a : α) : (of (pure a) : Watch ω α) = pure a := rfl

theorem ofBind (x : Run α) (g : α → Run β) :
    (of (x >>= g) : Watch ω β) = of x >>= fun a => of (g a) := by
  funext m
  change ([], (x m).bind fun r => g r.1 r.2) = next (of x) (fun a => of (g a)) m
  unfold next of
  cases x m <;> rfl

theorem ofDiscard (x : Run α) : (of (discard x) : Watch ω PUnit) = discard (of x) :=
  ofBind x fun _ => (pure PUnit.unit : Run PUnit)

theorem bindDone {w : Watch ω α} {m m' : Machine} {a : α} (done : w m = ([], some (a, m')))
    (g : α → Watch ω β) : (w >>= g) m = g a m' := by
  change next w g m = g a m'
  unfold next
  rw [done]
  rfl

theorem bindNotes (w : Watch ω α) (f : α → Watch ω β) (m : Machine) :
    ((w >>= f) m).1 = (w m).1 ++ (w.result m).elim [] fun row => (f row.1 row.2).1 := by
  change (next w f m).1 = _ ++ ((w m).2).elim [] _
  unfold next
  split <;> rename_i same <;> simp [same]

theorem bindQuiet {w : Watch ω α} {g : α → Watch ω β} {m : Machine}
    (quiet : ∀ a m, (g a m).1 = []) : ((w >>= g) m).1 = (w m).1 := by
  rw [bindNotes]
  cases w.result m with
  | none => exact List.append_nil _
  | some row => exact (congrArg ((w m).1 ++ ·) (quiet row.1 row.2)).trans (List.append_nil _)

theorem bindInv {m m' : Machine} {w : Watch ω α} {f : α → Watch ω β} {notes : List ω} {b : β}
    (h : (w >>= f) m = (notes, some (b, m'))) : ∃ first a m₁ rest,
      w m = (first, some (a, m₁)) ∧ f a m₁ = (rest, some (b, m')) ∧ notes = first ++ rest := by
  change next w f m = _ at h
  unfold next at h
  rcases row : w m with ⟨first, _ | ⟨a, m₁⟩⟩
  · rw [row] at h
    cases h
  · rw [row] at h
    obtain ⟨notes', done⟩ := Prod.mk.inj h
    exact ⟨first, a, m₁, _, rfl, Prod.ext rfl done, notes'.symm⟩

theorem ofInv {m m' : Machine} {x : Run α} {notes : List ω} {a : α}
    (h : (of x : Watch ω α) m = (notes, some (a, m'))) : notes = [] ∧ x m = some (a, m') :=
  ⟨(Prod.mk.inj h).1.symm, (Prod.mk.inj h).2⟩

/-! What is left of a run when its notes are forgotten. -/

section
variable {x : Run α}

@[simp] theorem resultPure (a : α) : (pure a : Watch ω α).result = pure a := rfl

@[simp] theorem resultOf (x : Run α) : (of x : Watch ω α).result = x := rfl

@[simp] theorem resultGather (f : List ω → ω') (w : Watch ω α) : (w.gather f).result = w.result := rfl

@[simp] theorem resultBind (w : Watch ω α) (f : α → Watch ω β) :
    (w >>= f).result = w.result >>= fun a => (f a).result := by
  funext m
  change (next w f m).2 = ((w m).2).bind fun r => (f r.1 r.2).2
  unfold next
  split <;> rename_i same <;> rw [same] <;> rfl

@[simp] theorem resultJot (f : Machine → List ω) : (jot f).result = pure ⟨⟩ := rfl

@[simp] theorem resultIte (c : Prop) [Decidable c] (v w : Watch ω α) :
    (if c then v else w).result = if c then v.result else w.result := by
  split <;> rfl

theorem resultCongr {w : Watch ω α} (first : w.result = x) {f : α → Watch ω β}
    {g : α → Run β} (rest : ∀ a, (f a).result = g a) : (w >>= f).result = x >>= g := by
  rw [resultBind, first]
  exact bind_congr rest

theorem resultGet {f : Machine → Watch ω α} {g : Machine → Run α} (h : ∀ m, (f m).result = g m) :
    (of get >>= f).result = get >>= g :=
  resultCongr rfl h

theorem resultDiscard {w : Watch ω α} (first : w.result = x) : (discard w).result = discard x :=
  resultCongr first fun _ => rfl

theorem resultJotted {n : Machine → List ω} {g : PUnit → Watch ω α} (rest : (g ⟨⟩).result = x) :
    (jot n >>= g).result = x := by
  rw [resultBind, resultJot, pure_bind, rest]

theorem resultRan {w : Watch ω α} {m m' : Machine} {a : α} (same : w.result = x)
    (ran : x m = some (a, m')) : w m = ((w m).1, some (a, m')) := by
  rw [← same] at ran
  exact Prod.ext rfl ran

end

/-! Notes that are chosen among the notes of a run. -/

section
variable (f : ω → Option ω')

theorem siftBind (w : Watch ω α) (g : α → Watch ω β) :
    (w >>= g).sift f = w.sift f >>= fun a => (g a).sift f := by
  funext m
  change ((next w g m).1.filterMap f, (next w g m).2) =
    next (w.sift f) (fun a => (g a).sift f) m
  unfold next sift
  rcases w m with ⟨notes, _ | ⟨a, m'⟩⟩
  · rfl
  · simp

theorem siftIte (c : Prop) [Decidable c] (v w : Watch ω α) :
    (if c then v else w).sift f = if c then v.sift f else w.sift f := by
  split <;> rfl

end

/-! What holds of the notes and the result of a run from a machine. -/

def Ensures (w : Watch ω α) (m : Machine) (post : List ω → Option (α × Machine) → Prop) : Prop :=
  post (w m).1 (w m).2

section
variable {m : Machine} {post : List ω → Option (β × Machine) → Prop}

theorem ensuresMono {post' : List ω → Option (β × Machine) → Prop} {w : Watch ω β}
    (h : w.Ensures m post) (weaker : ∀ notes r, post notes r → post' notes r) :
    w.Ensures m post' :=
  weaker _ _ h

theorem ensuresRan {w : Watch ω β} {notes : List ω} {r : Option (β × Machine)}
    (ran : w m = (notes, r)) (h : w.Ensures m post) : post notes r := by
  rw [Ensures, ran] at h
  exact h

theorem ensuresBind {w : Watch ω α} {f : α → Watch ω β}
    (fails : (w m).2 = none → post (w m).1 none)
    (goes : ∀ a m', (w m).2 = some (a, m') →
      (f a).Ensures m' fun notes r => post ((w m).1 ++ notes) r) :
    (w >>= f).Ensures m post := by
  change post (next w f m).1 (next w f m).2
  unfold next
  rcases row : w m with ⟨notes, _ | ⟨a, m'⟩⟩
  · rw [row] at fails
    exact fails rfl
  · rw [row] at goes
    exact goes a m' rfl

theorem ensuresThen {mid : List ω → Option (α × Machine) → Prop} {w : Watch ω α} {f : α → Watch ω β}
    (first : w.Ensures m mid) (fails : ∀ notes, mid notes none → post notes none)
    (goes : ∀ notes a m', mid notes (some (a, m')) →
      (f a).Ensures m' fun rest r => post (notes ++ rest) r) :
    (w >>= f).Ensures m post := by
  unfold Ensures at first
  refine ensuresBind (fun none => ?_) fun a m' ran => ?_
  · rw [none] at first
    exact fails _ first
  · rw [ran] at first
    exact goes _ a m' first

theorem ensuresOf {x : Run α} {f : α → Watch ω β} (fails : x m = none → post [] none)
    (goes : ∀ a m', x m = some (a, m') → (f a).Ensures m' post) :
    (of x >>= f).Ensures m post :=
  ensuresBind fails goes

theorem ensuresGet {f : Machine → Watch ω β} (h : (f m).Ensures m post) :
    (of get >>= f).Ensures m post :=
  h

theorem ensuresJot {n : Machine → List ω} {f : PUnit → Watch ω β}
    (h : (f ⟨⟩).Ensures m fun notes r => post (n m ++ notes) r) :
    (jot n >>= f).Ensures m post :=
  h

theorem ensuresLast {n : Machine → List ω} (b : β) (h : post (n m) (some (b, m))) :
    (jot n >>= fun _ => pure b).Ensures m post := by
  refine ensuresJot ?_
  change post (n m ++ []) _
  rwa [List.append_nil]

theorem ensuresFirst {w : Watch ω α} {f : α → Watch ω β} {P : ω → Prop}
    (h : w.Ensures m fun notes _ => ∃ s rest, notes = s :: rest ∧ P s) :
    (w >>= f).Ensures m fun notes _ => ∃ s rest, notes = s :: rest ∧ P s := by
  refine ensuresThen h (fun _ first => first) fun _ a m' first => ?_
  obtain ⟨s, rest, same, holds⟩ := first
  exact ⟨s, rest ++ _, by rw [same, List.cons_append], holds⟩

end

end Watch

end Lockstep
