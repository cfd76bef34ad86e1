import Lockstep.Proofs.Deeds
import Lockstep.Proofs.Delivery

/-! Machines that keep to a rule. A rule bars commands, and a run that would carry out a barred
one has no result; otherwise it is the run without the rule. Every such run is made of steps,
and what all steps keep holds in every state that is reached, also inside callbacks. -/
namespace Lockstep

/-- Which command may be carried out in which state. -/
abbrev Rule := Machine → Command → Bool

namespace Machine

def obeying {α : Type} (rule : Rule) (command : Command) (x : Run α) : Run α := fun m =>
  if rule m command then x m else none

theorem obeyingInv {rule : Rule} {command : Command} {α : Type} {x : Run α} {a : α} {m m' : Machine}
    (ran : obeying rule command x m = some (a, m')) :
    rule m command = true ∧ x m = some (a, m') := by
  unfold obeying at ran
  split at ran
  · rename_i allowed
    exact ⟨allowed, ran⟩
  · cases ran

end Machine

open Machine in
mutual

def Command.runUnder (rule : Rule) (call : Callback) : Command → Run Reply
  | .borrow id as body => obeying rule (.borrow id as body) do
      match (← get).borrowable id as with
      | .error e => return .fault (.access e)
      | .ok device =>
          modify (·.setBusy id true)
          let inner ← Script.runUnder rule call body
          modify (·.setBusy id false)
          return .borrowed (if as.isSome then device.occupant else .any device.isUnit) inner
  | command => obeying rule command (Command.run call command)

def Script.runUnder (rule : Rule) (call : Callback) : Script → Run Reply
  | .done reply => return reply
  | .step command next => do
      let reply ← Command.runUnder rule call command
      Script.runUnder rule call (next reply)

end

namespace Machine

theorem runUnderLone {command : Command} (lone : ∀ id as body, command ≠ .borrow id as body)
    (rule : Rule) (call : Callback) :
    command.runUnder rule call = obeying rule command (command.run call) := by
  cases command with
  | borrow id as body => exact absurd rfl (lone id as body)
  | _ => unfold Command.runUnder; rfl

def invokeUnder (rule : Rule) : (depth : Nat) → Script → Run Reply
  | 0, _ => fun _ => none
  | depth + 1, script => script.runUnder rule (invokeUnder rule depth)

structure Minds (rule : Rule) (held : SpaceId → Prop)
    (Q : (α : Type) → Run α → Run α → Machine → Prop) : Prop extends Serves held Q where
  fails : ∀ {α : Type} {m : Machine}, Q α (fun _ => none) (fun _ => none) m
  plain : ∀ {command : Command} {call : Callback} {m : Machine}, command.isPlain = true →
    Q Reply (obeying rule command (command.run call)) (command.run call) m
  barred : ∀ {command : Command} {x y : Run Reply} {m : Machine}, command.isPlain = false →
    Q Reply x y m → Q Reply (obeying rule command x) y m
  lend : ∀ {α β : Type} {m : Machine} {id : DeviceId} {d : Device} {x y : Run α}
    {f g : α → Run β}, m.idle id = .ok d → (∀ m, Q α x y m) → (∀ a m, Q β (f a) (g a) m) → Q β
      (do
        modify (·.setBusy id true)
        let a ← x
        modify (·.setBusy id false)
        f a)
      (do
        modify (·.setBusy id true)
        let a ← y
        modify (·.setBusy id false)
        g a) m

structure Obeys (rule : Rule) (Q : (α : Type) → Run α → Run α → Machine → Prop) : Prop
    extends Bears Q, Minds rule (fun _ => True) Q

theorem plainSame {command : Command} (plain : command.isPlain = true) (call other : Callback) :
    command.run call = command.run other := by
  cases command with
  | read | write | borrow => cases plain
  | _ => unfold Command.run; rfl

namespace Minds
variable {rule : Rule} {held : SpaceId → Prop}
  {Q : (α : Type) → Run α → Run α → Machine → Prop} (minds : Minds rule held Q)
  {call other : Callback}
include minds

theorem onSpace {route : Route} {f g : SpaceId → Run Reply} {m : Machine}
    (h : ∀ id, Q Reply (f id) (g id) m) : Q Reply (onSpace route f) (onSpace route g) m := by
  refine minds.get ?_
  cases m.resolve route with
  | ok id => exact h id
  | error e => exact minds.pure _

mutual

theorem command (calls : ∀ s m, Q Reply (call s) (other s) m) (command : Command) (m : Machine) :
    Q Reply (command.runUnder rule call) (command.run other) m := by
  by_cases plain : command.isPlain = true
  · rw [runUnderLone (fun _ _ _ lent => by rw [lent] at plain; cases plain),
      plainSame plain call other]
    exact minds.plain plain
  · match command, plain with
    | .borrow id as body, _ =>
      unfold Command.runUnder Command.run
      refine minds.barred rfl (minds.get ?_)
      cases taken : m.borrowable id as with
      | error e => exact minds.pure _
      | ok device =>
        obtain ⟨d, idle, -⟩ := okBindInv taken
        exact minds.lend idle (script calls body) fun _ _ => minds.pure _
    | .read route address width, _ =>
      unfold Command.runUnder Command.run
      exact minds.barred rfl (minds.onSpace fun id =>
        minds.bind (minds.readRank calls id _ _ m) fun _ _ => minds.pure _)
    | .write route address width value, _ =>
      unfold Command.runUnder Command.run
      exact minds.barred rfl (minds.onSpace fun id =>
        minds.bind (minds.writeRank calls id _ _ _ m) fun _ _ => minds.pure _)

theorem script (calls : ∀ s m, Q Reply (call s) (other s) m) (s : Script) (m : Machine) :
    Q Reply (s.runUnder rule call) (s.run other) m := by
  match s with
  | .done reply =>
    unfold Script.runUnder Script.run
    exact minds.pure _
  | .step first next =>
    unfold Script.runUnder Script.run
    exact minds.bind (command calls first m) fun reply m => script calls (next reply) m

end

theorem invoke (depth : Nat) (s : Script) (m : Machine) :
    Q Reply (invokeUnder rule depth s) (invoke depth s) m := by
  induction depth generalizing s m with
  | zero => exact minds.fails
  | succ depth ih => exact minds.script ih s m

end Minds

/-- One step of a machine that keeps to a rule: a deed that is allowed, or what accesses, runs,
starts and resets do themselves. -/
inductive Step (rule : Rule) : Machine → Machine → Prop where
  | deed {m m' command} (allowed : rule m command = true) (deed : Deed command m m') :
      Step rule m m'
  | touch {m m'} (h : Touch m m') : Step rule m m'
  | tick {m m'} (h : Tick m m') : Step rule m m'
  | lend {m id d} (idle : m.idle id = .ok d) : Step rule m (m.setBusy id true)
  | giveBack {m} (id : DeviceId) : Step rule m (m.setBusy id false)
  | pop {m limit fired timers} (due : m.timers.popDue limit = some (fired, timers)) :
      Step rule m { m with timers }
  | wait {m limit} (none : m.timers.popDue limit = none) :
      Step rule m { m with timers := m.timers.setNow limit }

def Steps (rule : Rule) : Machine → Machine → Prop := Relation.ReflTransGen (Step rule)

section
variable {rule : Rule} {m m' : Machine}

theorem stepsCarries (rule : Rule) : Carries (Steps rule) where
  refl _ := .refl
  trans := Relation.ReflTransGen.trans
  touch h := .single (.touch h)
  tick h := .single (.tick h)
  lent {_ _ id _} idle inner := (inner.head (.lend idle)).tail (.giveBack id)

theorem Carries.obeys {R : Machine → Machine → Prop} (carries : Carries R)
    (deeds : ∀ {command : Command} {a b : Machine}, rule a command = true → Deed command a b →
      R a b) : Obeys rule fun _ => Run.Follows R where
  toBears := carries.bears
  fails _ _ h := by cases h
  plain {command call m} plain reply m' ran := by
    obtain ⟨allowed, ran⟩ := obeyingInv ran
    exact ⟨ran, deeds allowed (plainDeed plain m reply m' ran)⟩
  barred _ h reply m' ran := h reply m' (obeyingInv ran).2
  lend := carries.lend

theorem stepsObeys (rule : Rule) : Obeys rule fun _ => Run.Follows (Steps rule) :=
  (stepsCarries rule).obeys fun allowed deed => .single (.deed allowed deed)

theorem invokeDeeper {R : Machine → Machine → Prop} (obeys : Obeys rule fun _ => Run.Follows R)
    {depth deeper : Nat} (deep : depth ≤ deeper) (s : Script) (m : Machine) :
    Run.Follows R (invokeUnder rule depth s) (invoke deeper s) m := by
  induction depth generalizing deeper s m with
  | zero => exact fun _ _ h => by cases h
  | succ depth ih =>
    obtain ⟨deeper, rfl⟩ := Nat.exists_eq_add_one_of_ne_zero (Nat.ne_of_gt (Nat.zero_lt_of_lt deep))
    exact obeys.script (ih (Nat.le_of_succ_le_succ deep)) s m

def free : Rule := fun _ _ => true

theorem freeObeys : Obeys free fun _ x y m => x m = y m := by
  refine { pure := fun _ => rfl, bind := fun first rest => ?_, get := id, touch := fun _ => rfl,
           fails := rfl, plain := fun _ => rfl, barred := fun _ same => same,
           lend := fun _ inner rest => ?_ }
  · exact Run.bindCongr first fun a m _ => rest a m
  · exact Run.bindCongr rfl fun _ m _ => Run.bindCongr (inner m) fun a _ _ =>
      Run.bindCongr rfl fun _ m _ => rest a m

theorem commandFree (call : Callback) (command : Command) :
    command.runUnder free call = command.run call := by
  funext m
  exact freeObeys.command (fun _ _ => rfl) command m

theorem invokeFree (depth : Nat) : invokeUnder free depth = invoke depth := by
  funext s m
  exact freeObeys.invoke depth s m

theorem invokeSteps (rule : Rule) (depth : Nat) (s : Script) (m : Machine) :
    Run.Follows (Steps rule) (invokeUnder rule depth s) (invoke depth s) m :=
  (stepsObeys rule).invoke depth s m

theorem courseSteps {depth : Nat} {notices : List Notice}
    (course : Course (invokeUnder rule depth) m notices (some m')) :
    Course (invoke depth) m notices (some m') ∧ Steps rule m m' := by
  have calls := invokeSteps rule depth
  refine ⟨courseAlike (stepsCarries rule) calls course, ?_⟩
  refine course.keeps (.refl) (fun s reply steps ran => ?_) (fun name steps => ?_)
    (fun steps ran => ?_) fun target fuel steps ran => ?_
  · exact steps.trans (calls s _ reply _ ran).2
  · exact steps.tail (.tick (.sink name))
  · exact steps.trans ((stepsCarries rule).reset calls _ () _ ran).2
  · exact steps.trans ((stepsCarries rule).runUntil calls (fun due => .single (.pop due))
      (fun none => .single (.wait none)) target fuel _ () _ ran).2

theorem buildSteps {depth : Nat} {a : Assembly} {failed : Option ConfigError}
    (built : a.build (invokeUnder rule depth) = some (failed, m)) :
    a.build (invoke depth) = some (failed, m) ∧ Steps rule a.machine m :=
  (stepsCarries rule).start (invokeSteps rule depth) a.machine failed m built

end

end Machine

def Bus.Handler.Stands {κ : Type} (memory : Memory) : Bus.Handler κ → Prop
  | .ram block _ | .rom block _ => (memory.block? block).isSome
  | .bank id => (memory.bank? id).isSome
  | .port _ | .unmapped => True

namespace Machine

/-- The states of a machine that a host has put together and that keeps to a rule, between and
inside the calls of the host. No block is longer than a count can tell. -/
inductive Reachable (rule : Rule) : Machine → Prop where
  | new (config : Config) : Reachable rule { config }
  | device {a b : Assembly} {tag typeName clock parent device id}
      (before : Reachable rule a.machine)
      (added : a.addInstance tag typeName clock parent device = .ok (b, id)) :
      Reachable rule b.machine
  | space {m} (spec : SpaceSpec) (before : Reachable rule m) : Reachable rule (m.newSpace spec).1
  | block {m} (b : Memory.Block) (short : b.length < Word.largest) (before : Reachable rule m) :
      Reachable rule { m with memory := m.memory.putBlock b }
  | bank {m tag entries readOnly b memory}
      (made : m.memory.newBank tag entries readOnly = .ok b)
      (added : m.memory.addBank b = .ok memory) (before : Reachable rule m) :
      Reachable rule { m with memory }
  | looseBank {m tag entries readOnly b} (made : m.memory.newBank tag entries readOnly = .ok b)
      (before : Reachable rule m) : Reachable rule { m with memory := m.memory.addLoose b }
  | select {m bank index memory} (ok : m.memory.selectBank bank index = .ok memory)
      (before : Reachable rule m) : Reachable rule { m with memory }
  | map {m m' override id first last handler} (stands : handler.Stands m.memory)
      (ok : m.map override id first last handler = .ok m') (before : Reachable rule m) :
      Reachable rule m'
  | vectors {m} (index : Nat) (source : Option (Nat → Script)) (before : Reachable rule m) :
      Reachable rule (m.modifyUnit index fun p => { p with lines := { p.lines with source } })
  | step {m m'} (before : Reachable rule m) (step : Step rule m m') : Reachable rule m'

namespace Reachable
variable {rule : Rule} {m m' : Machine}

theorem steps (before : Reachable rule m) (steps : Steps rule m m') : Reachable rule m' := by
  induction steps with
  | refl => exact before
  | tail _ last ih => exact ih.step last

theorem course (before : Reachable rule m) {depth : Nat} {notices : List Notice}
    (course : Course (invokeUnder rule depth) m notices (some m')) : Reachable rule m' :=
  before.steps (courseSteps course).2

theorem built {a : Assembly} (before : Reachable rule a.machine) {depth : Nat}
    {failed : Option ConfigError}
    (built : a.build (invokeUnder rule depth) = some (failed, m)) : Reachable rule m :=
  before.steps (buildSteps built).2

end Reachable

end Machine

end Lockstep
