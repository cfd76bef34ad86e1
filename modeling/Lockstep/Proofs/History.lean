import Lockstep.Machine.Assembly
import Lockstep.Proofs.Passage

/-! Histories: a machine that has been assembled and built, and then runs, resets and host
calls in any order and number. A host call can be any sequence of acts, and so can what
a callback has done at any point inside it. -/
namespace Lockstep

/-- The assemblies that a host can put together. -/
inductive Assembled : Assembly → Prop where
  | new (config : Config) (registry : Registry) : Assembled (.new config registry)
  | registry {a : Assembly} (registry : Registry) : Assembled a → Assembled { a with registry }
  | memory {a : Assembly} (memory : Memory) :
      Assembled a → Assembled { a with machine := { a.machine with memory } }
  | addDevice {a : Assembly} (tag typeName : String) (clock : ClockRate)
      (parent : Option DeviceId) :
      Assembled a → Assembled (a.addDevice tag typeName clock parent).1
  | addInstance {a b : Assembly} {tag typeName clock parent device id} :
      Assembled a → a.addInstance tag typeName clock parent device = .ok (b, id) → Assembled b
  | vectors {a b : Assembly} {tag source} :
      Assembled a → a.setVectorSource tag source = .ok b → Assembled b
  | effect {a : Assembly} {m : Machine} :
      Assembled a → Machine.Effect a.machine m → Assembled { a with machine := m }

theorem Machine.Effect.entered (m : Machine) (entries : List Activity) :
    Machine.Effect m (m.enterAll entries) := by
  induction entries generalizing m with
  | nil => exact .refl m
  | cons entry rest ih => exact (Machine.Effect.act (.enter entry)).trans (ih (m.enter entry))

theorem Assembled.keeps {P : Machine → Prop} {a : Assembly} (h : Assembled a)
    (new : ∀ config : Config, P { config })
    (memory : ∀ {m : Machine} (memory : Memory), P m → P { m with memory })
    (effect : ∀ {m m' : Machine}, Machine.Effect m m' → P m → P m')
    (vectors : ∀ {m : Machine} (index : Nat) (source : Nat → Script), P m →
      P (m.modifyUnit index fun p => { p with lines := { p.lines with source := some source } }))
    (device : ∀ {a b : Assembly} {tag typeName clock parent device id}, Assembled a →
      P a.machine → a.addInstance tag typeName clock parent device = .ok (b, id) → P b.machine) :
    P a.machine := by
  induction h with
  | new config registry => exact new config
  | registry _ _ ih => exact ih
  | memory more _ ih => exact memory more ih
  | @addDevice a tag typeName clock parent before ih =>
    unfold Assembly.addDevice
    split
    · exact ih
    · rename_i full named
      dsimp only
      generalize a.registry.create typeName ⟨full, clock, parent⟩ = created
      have noted := Machine.Effect.entered a.machine created.1
      split
      · rename_i b id made
        obtain ⟨_, -, added⟩ := okBindInv made
        exact device (before.effect noted) (effect noted ih) added
      · exact effect noted ih
  | addInstance before added ih => exact device before ih added
  | vectors _ installed ih =>
    unfold Assembly.setVectorSource at installed
    split at installed
    · cases installed
      exact vectors _ _ ih
    · cases installed
  | effect _ acts ih => exact effect acts ih

def Built (call : Callback) (m : Machine) : Prop :=
  ∃ a, Assembled a ∧ a.build call = some (none, m)

/-- Events from a machine on, and the machine at the end if the last step has a result. -/
inductive History (call : Callback) (origin : Machine) : List Event → Option Machine → Prop where
  | start : History call origin [.rest origin] (some origin)
  | effect {events m m'} : History call origin events (some m) → Machine.Effect m m' →
      History call origin (events ++ [.rest m']) (some m')
  | reset {events m m'} : History call origin events (some m) →
      Machine.reset call m = some ((), m') → History call origin (events ++ [.rest m']) (some m')
  | run {events m} (target : Time) (fuel : Nat) : History call origin events (some m) →
      History call origin (events ++ (Machine.watchUntil call target fuel m).1)
        ((Machine.runUntil call target fuel m).map Prod.snd)

theorem History.script {depth : Nat} {origin m m' : Machine} {events : List Event} {reply : Reply}
    (h : History (Machine.invoke depth) origin events (some m)) (script : Script)
    (ran : Machine.invoke depth script m = some (reply, m')) :
    History (Machine.invoke depth) origin (events ++ [.rest m']) (some m') :=
  h.effect (Machine.invokeActs depth script m reply m' ran)

namespace Machine
variable {m m' : Machine}

structure Fresh (m : Machine) : Prop where
  idle : m.frame = none
  sound : m.timers.Sound
  clock : m.timers.now = .zero
  still : ∀ {i : Nat} {p : Processor}, m.units[i]? = some p → p.localTime = .zero

theorem freshKept (fresh : Fresh m) (kept : Kept m m') : Fresh m' := by
  have now : m.now = .zero := by
    unfold Machine.now
    rw [fresh.idle]
    exact fresh.clock
  refine ⟨kept.frame.trans fresh.idle, kept.sound fresh.sound, kept.clock.trans fresh.clock,
    fun found => ?_⟩
  obtain ⟨p, row, moved⟩ := kept.back found
  have within := moved.within
  rw [now, fresh.still row] at within
  exact Time.ext (Nat.le_zero.mp within)

theorem freshFair (fresh : Fresh m) : Fair m := by
  refine ⟨fresh.idle, fresh.sound, fun found _ => ?_, fun found => ?_⟩
  · rw [fresh.clock]
    exact Nat.zero_le _
  · rw [fresh.still found]
    exact Nat.zero_le _

theorem seatAdds (m : Machine) (device : Device) :
    ∃ spaces, (Assembly.seat m device).1 = { m with spaces } := by
  unfold Assembly.seat
  generalize Bus.SpaceKind.all.filterMap device.spaceOf? = specs
  generalize ({ device } : Seat) = seat
  induction specs generalizing m seat with
  | nil => exact ⟨m.spaces, rfl⟩
  | cons spec rest ih => exact ih (m.newSpace spec).1 _

theorem seatSame (m : Machine) (device : Device) :
    (Assembly.seat m device).1.frame = m.frame ∧ (Assembly.seat m device).1.timers = m.timers ∧
      (Assembly.seat m device).1.units = m.units := by
  obtain ⟨spaces, same⟩ := seatAdds m device
  rw [same]
  exact ⟨rfl, rfl, rfl⟩

theorem addInstanceInv {a b : Assembly} {tag typeName : String} {clock : ClockRate}
    {parent : Option DeviceId} {device : Device} {id : DeviceId}
    (added : a.addInstance tag typeName clock parent device = .ok (b, id)) : ∃ tree,
      (Assembly.seat a.machine device).1.tree.add tag typeName clock parent
        (Assembly.seat a.machine device).2 = .ok (tree, id) ∧
      b = { a with machine := { (Assembly.seat a.machine device).1 with
        tree
        units :=
          if device.isUnit then
            (Assembly.seat a.machine device).1.units.push (Assembly.processor id clock device)
          else (Assembly.seat a.machine device).1.units } } := by
  unfold Assembly.addInstance at added
  dsimp only at added
  by_cases unclocked : (device.isUnit && clock.isZero) = true
  · rw [if_pos unclocked] at added
    obtain ⟨_, -, added⟩ := okBindInv added
    cases added
  · rw [if_neg unclocked] at added
    obtain ⟨⟨tree, id⟩, placed, added⟩ := okBindInv (x := (Assembly.seat a.machine
      device).1.tree.add tag typeName clock parent (Assembly.seat a.machine device).2) added
    cases added
    exact ⟨tree, placed, rfl⟩

theorem unitAdded {a b : Assembly} {tag typeName : String} {clock : ClockRate}
    {parent : Option DeviceId} {device : Device} {id : DeviceId} {i : Nat} {p : Processor}
    (added : a.addInstance tag typeName clock parent device = .ok (b, id))
    (found : b.machine.units[i]? = some p) :
    a.machine.units[i]? = some p ∨ p = Assembly.processor id clock device := by
  obtain ⟨-, -, units⟩ := seatSame a.machine device
  obtain ⟨tree, -, rfl⟩ := addInstanceInv added
  dsimp only at found
  rw [units] at found
  split at found
  · rw [Array.getElem?_push] at found
    split at found
    · exact .inr (Option.some.inj found).symm
    · exact .inl found
  · exact .inl found

theorem freshInstance {a b : Assembly} {tag typeName : String} {clock : ClockRate}
    {parent : Option DeviceId} {device : Device} {id : DeviceId} (fresh : Fresh a.machine)
    (added : a.addInstance tag typeName clock parent device = .ok (b, id)) : Fresh b.machine := by
  have still : ∀ {i : Nat} {p : Processor}, b.machine.units[i]? = some p → p.localTime = .zero := by
    intro i p found
    rcases unitAdded added found with found | rfl
    · exact fresh.still found
    · rfl
  obtain ⟨frame, timers, -⟩ := seatSame a.machine device
  obtain ⟨tree, -, rfl⟩ := addInstanceInv added
  refine ⟨frame.trans fresh.idle, ?_, ?_, still⟩
  · dsimp only
    rw [timers]
    exact fresh.sound
  · dsimp only
    rw [timers]
    exact fresh.clock

theorem assembledFresh {a : Assembly} (h : Assembled a) : Fresh a.machine := by
  refine h.keeps (fun config => ?_) (fun memory fresh => ?_) (fun acts fresh => ?_)
    (fun index source fresh => ?_) fun _ => freshInstance
  · exact ⟨rfl, Timer.Queue.soundEmpty, rfl, fun h => by cases h⟩
  · exact ⟨fresh.idle, fresh.sound, fresh.clock, fresh.still⟩
  · exact freshKept fresh (effectKept acts)
  · exact freshKept fresh (.modifyUnit fun p _ => .still rfl rfl rfl rfl id)

theorem restartsKept {now : Time} (present : m.now = now) (indices : List Nat) :
    Kept m (indices.foldl (restartUnit now) m) := by
  induction indices generalizing m with
  | nil => exact .refl m
  | cons index rest ih =>
    have one := restartUnitKept m index
    rw [present] at one
    exact one.trans (ih (one.now.trans present))

section
variable {call : Callback} (calls : ∀ s m, Acts (call s) m)
include calls

theorem resetKept {u : Unit} (h : Machine.reset call m = some (u, m')) : Kept m m' := by
  unfold Machine.reset at h
  rw [Run.getBind] at h
  obtain ⟨_, m₁, devices, rest⟩ := Run.bindInv h
  cases rest
  exact (effectKept (resetDevicesActs calls _ m _ m₁ devices)).trans (restartsKept rfl _)

theorem startKept {failed : Option ConfigError} (ran : start call m = some (failed, m')) :
    Kept m m' := by
  unfold start at ran
  rw [Run.getBind] at ran
  obtain ⟨failed, m₁, hooks, ran⟩ := Run.bindInv ran
  have first := effectKept (startDevicesActs calls _ _ _ m₁ hooks)
  cases failed with
  | some e =>
    cases ran
    exact first
  | none =>
    dsimp only at ran
    rw [Run.modifyBind] at ran
    obtain ⟨u, m₂, reset, ran⟩ := Run.bindInv ran
    cases ran
    have frozen : Kept m₁ { m₁ with spaces := m₁.spaces.map (·.freeze) } :=
      .same rfl rfl rfl rfl rfl rfl
    exact (first.trans frozen).trans (resetKept calls reset)

theorem buildKept {a : Assembly} (started : a.build call = some (none, m)) : Kept a.machine m :=
  startKept calls started

theorem builtFair (built : Built call m) : Fair m := by
  obtain ⟨a, assembled, started⟩ := built
  exact freshFair (freshKept (assembledFresh assembled) (buildKept calls started))

theorem historyPassed {events : List Event} {r : Option Machine} (built : Built call m)
    (only : m.OnlyAcc8) (h : History call m events r) : Passed m events (r.map ((), ·)) := by
  have fair := builtFair calls built
  have step : ∀ {events : List Event} {a b : Machine}, Passed m events (some ((), a)) → Kept a b →
      Passed m (events ++ [.rest b]) (some ((), b)) := by
    intro events a b so kept
    obtain ⟨fair, -, -⟩ := so.ends () a rfl
    have fair' := fairKept fair kept
    exact so.append (Passed.after kept.toForward (Passed.event (.rest b) fair' trivial (.stop fair')))
  induction h with
  | start => exact Passed.event (.rest m) fair trivial (.stop fair)
  | effect _ acts ih => exact step ih (effectKept acts)
  | reset _ done ih => exact step ih (resetKept calls done)
  | @run events a target fuel _ ih =>
    obtain ⟨fair, forward, -⟩ := ih.ends () a rfl
    have ran := watchedPassed calls (untilWatched call target fuel a) fair (forward.acc8 only)
    cases result : runUntil call target fuel a with
    | none =>
      rw [result] at ran
      exact Passed.append ih ran
    | some row =>
      rw [result] at ran
      exact Passed.append ih ran

end

instance (m : Machine) : Decidable m.OnlyAcc8 :=
  decidable_of_iff (m.tree.nodes.all fun node => node.device.device.kind != .sequencer) <| by
    simp only [OnlyAcc8, classOf?, Tree.get?, Array.all_eq_true, bne_iff_ne]
    constructor
    · intro all id sequencer
      obtain ⟨node, found, kind⟩ := Option.map_eq_some_iff.mp sequencer
      obtain ⟨bound, rfl⟩ := Array.getElem?_eq_some_iff.mp found
      exact all _ bound kind
    · intro none i bound kind
      refine none ⟨i⟩ ?_
      rw [Array.getElem?_eq_getElem bound, Option.map_some, kind]

end Machine

def Assembly.extend (a : Assembly) (tag : String) (clock : ClockRate) (device : Device) :
    Assembly :=
  match a.addInstance tag "" clock none device with
  | .ok (b, _) => b
  | .error _ => a

theorem Assembled.extend {a : Assembly} (h : Assembled a) (tag : String) (clock : ClockRate)
    (device : Device) : Assembled (a.extend tag clock device) := by
  unfold Assembly.extend
  split
  · rename_i b id added
    exact h.addInstance added
  · exact h

def pair : Assembly :=
  (((Assembly.new { quantum := .ofMicros 10 } .builtin).extend "timer" ⟨0⟩ (.peripheral
    { name := "timer", start := fun id => .perform (.schedule id (.ofMicros 3) (.ofMicros 4) 0) })
    ).extend "left" (.ofMhz 1) (.acc8 (.new "left" { resetPc := some 0x200 }))).extend
      "right" (.ofMhz 2) (.acc8 (.new "right" { resetPc := some 0x200 }))

theorem pairAssembled : Assembled pair :=
  (((Assembled.new _ _).extend _ _ _).extend _ _ _).extend _ _ _

def pairBusy : Bool :=
  match pair.build (Machine.invoke 3) with
  | some (none, m) => decide m.OnlyAcc8 &&
      decide (10 < (Machine.watchUntil (Machine.invoke 3) (.ofMicros 12) 40 m).1.length)
  | _ => false

theorem pairRuns : ∃ m, Built (Machine.invoke 3) m ∧ m.OnlyAcc8 ∧
    ∃ events r, History (Machine.invoke 3) m events r ∧ 10 < events.length := by
  have runs : pairBusy = true := by decide +kernel
  unfold pairBusy at runs
  split at runs
  · rename_i m built
    obtain ⟨only, long⟩ := Bool.and_eq_true_iff.mp runs
    refine ⟨m, ⟨pair, pairAssembled, built⟩, of_decide_eq_true only, _, _,
      History.start.run (.ofMicros 12) 40, ?_⟩
    rw [List.length_append]
    have := of_decide_eq_true long
    omega
  · cases runs

end Lockstep
