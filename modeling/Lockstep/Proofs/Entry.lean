import Lockstep.Proofs.History
import Lockstep.Proofs.Lived
import Lockstep.Proofs.Machinery

/-! Processors with a fixed entry point. A reset gives one its entry at once, so that from the
first reset on it never has a vector to fetch, whatever commands, slices and resets follow. -/
namespace Lockstep

namespace Acc8

structure Direct (cpu : Acc8) : Prop where
  fixed : cpu.options.resetPc.isSome = true
  fetched : cpu.fetchResetVector = false

section
variable {cpu cpu' : Acc8} {m m' : Machine}

theorem directAlike (direct : cpu.Direct) (alike : Alike cpu cpu') : cpu'.Direct :=
  ⟨alike.1 ▸ direct.fixed, alike.2 ▸ direct.fetched⟩

theorem directReset (fixed : cpu.options.resetPc.isSome = true) : cpu.reset.Direct :=
  ⟨fixed, by simpa [reset] using fixed⟩

theorem directSet {id : RegisterId} {value : Nat} (direct : cpu.Direct)
    (ok : cpu.set id value = .ok cpu') : cpu'.Direct := by
  unfold set at ok
  repeat' split at ok
  all_goals cases ok
  all_goals first
    | exact ⟨direct.fixed, direct.fetched⟩
    | exact ⟨direct.fixed, rfl⟩

theorem pendingAlike (cpu : Acc8) (nmi irq : Bool) : Alike cpu (cpu.pending nmi irq).1 := by
  unfold pending
  split <;> exact ⟨rfl, rfl⟩

end

end Acc8

namespace Machine

def Direct (id : DeviceId) (m : Machine) : Prop := ∃ cpu, m.cpu? id = some cpu ∧ cpu.Direct

section
variable {a b m m' : Machine} {id other : DeviceId} {call : Callback} {cpu cpu' : Acc8}

theorem loopAlike {port : Acc8.Port Run} {unit bound : Nat}
    (ran : acc8Loop call unit port bound cpu m = some (cpu', m')) : Acc8.Alike cpu cpu' := by
  induction bound generalizing cpu m with
  | zero =>
    cases ran
    exact ⟨rfl, rfl⟩
  | succ bound ih =>
    unfold acc8Loop at ran
    rw [Run.getBind] at ran
    split at ran
    · cases ran
      exact ⟨rfl, rfl⟩
    · obtain ⟨_, m₁, -, ran⟩ := Run.bindInv ran
      rw [Run.getBind] at ran
      have first := Acc8.pendingAlike cpu (m₁.lineActive unit Acc8.nmiLine)
        (m₁.lineActive unit Acc8.irqLine)
      rcases taken : cpu.pending (m₁.lineActive unit Acc8.nmiLine)
        (m₁.lineActive unit Acc8.irqLine) with ⟨next, _ | line⟩
      all_goals
        rw [taken] at ran first
        dsimp only at ran first
      · split at ran
        · obtain ⟨_, _, -, ran⟩ := Run.bindInv ran
          cases ran
          exact first
        · obtain ⟨row, _, stepped, ran⟩ := Run.bindInv ran
          obtain ⟨_, _, -, ran⟩ := Run.bindInv ran
          have second := first.trans (Acc8.stepAlike stepped)
          split at ran
          · cases ran
            exact second
          · exact second.trans (ih ran)
      · obtain ⟨_, _, -, ran⟩ := Run.bindInv ran
        obtain ⟨_, _, entered, ran⟩ := Run.bindInv ran
        obtain ⟨_, _, -, ran⟩ := Run.bindInv ran
        have second := first.trans (Acc8.enterAlike entered)
        split at ran
        · cases ran
          exact second
        · exact second.trans (ih ran)

theorem runDirect {port : Acc8.Port Run} {unit cycles : Nat} {row : Acc8 × Nat}
    (direct : cpu.Direct) (ran : runAcc8 call unit cycles port cpu m = some (row, m')) :
    row.1.Direct := by
  unfold runAcc8 at ran
  dsimp only at ran
  split at ran
  · cases ran
    exact direct
  · obtain ⟨_, _, -, ran⟩ := Run.bindInv ran
    rw [if_neg (ne_true_of_eq_false direct.fetched), Run.pureBind] at ran
    obtain ⟨_, _, looped, ran⟩ := Run.bindInv ran
    cases ran
    refine Acc8.directAlike ?_ (loopAlike looped)
    split
    · exact ⟨direct.fixed, direct.fetched⟩
    · exact direct

theorem deviceDirect {unit cycles : Nat} {d : Device} {count : Nat} (direct : cpu.Direct)
    (ran : runDevice call unit cycles id (.acc8 cpu) m = some (some (d, count), m')) :
    ∃ cpu', d = .acc8 cpu' ∧ cpu'.Direct := by
  obtain ⟨_, cpu', program, io, same, rfl, runs⟩ | ⟨_, _, same, -⟩ := deviceInv ran
  · cases same
    exact ⟨cpu', rfl, runDirect direct runs⟩
  · cases same

theorem directSeat (seats : (b.seat? id).map Seat.device = (a.seat? id).map Seat.device)
    (direct : Direct id a) : Direct id b := by
  obtain ⟨cpu, found, direct⟩ := direct
  refine ⟨cpu, ?_, direct⟩
  rw [cpu?, seats]
  exact found

theorem directTree (tree : b.tree = a.tree) (direct : Direct id a) : Direct id b :=
  directSeat (by rw [seat?, seat?, tree]) direct

theorem directBusy {busy : Bool} (direct : Direct id m) : Direct id (m.setBusy other busy) :=
  directSeat (busySeen (fun _ => rfl) m other id) direct

theorem directPlaced {d : Device} (direct : Direct id m)
    (placed : other = id → ∀ cpu, m.cpu? id = some cpu → cpu.Direct →
      ∃ cpu', d = .acc8 cpu' ∧ cpu'.Direct) : Direct id (m.withDevice other d) := by
  by_cases here : id = other
  · obtain ⟨cpu, found, direct⟩ := direct
    obtain ⟨seat, row, device⟩ := cpuInv found
    obtain ⟨cpu', rfl, direct'⟩ := placed here.symm cpu found direct
    have after : (m.withDevice other (.acc8 cpu')).seat? id =
        some { seat with device := .acc8 cpu' } := by
      rw [withDevice, seatModify, if_pos here, row]
      rfl
    exact ⟨cpu', cpuFound after rfl, direct'⟩
  · refine directSeat ?_ direct
    rw [withDevice, seatModify, if_neg here]

theorem idleCpu {d : Device} (idle : m.idle id = .ok d) (found : m.cpu? id = some cpu) :
    d = .acc8 cpu := by
  obtain ⟨node, row, rfl, -⟩ := idleInv idle
  obtain ⟨seat, seated, device⟩ := cpuInv found
  rw [seat?, row, Option.map_some] at seated
  cases seated
  exact device

theorem cpuIdle (idle : m.idle id = .ok (.acc8 cpu)) : m.cpu? id = some cpu := by
  obtain ⟨node, row, device, -⟩ := idleInv idle
  have seat : m.seat? id = some node.device := by rw [seat?, row, Option.map_some]
  exact cpuFound seat device

theorem classCpu : m.classOf? id = some .acc8 ↔ ∃ cpu, m.cpu? id = some cpu := by
  unfold classOf? cpu? seat?
  cases m.tree.get? id with
  | none => simp
  | some node =>
    cases device : node.device.device <;> simp [device, Device.kind]

theorem enterAllTree (m : Machine) (entries : List Activity) : (m.enterAll entries).tree = m.tree := by
  induction entries generalizing m with
  | nil => rfl
  | cons entry rest ih => exact ih (m.enter entry)

theorem treeSteers : Steers fun a b => b.tree = a.tree where
  refl _ := rfl
  trans first rest := rest.trans first
  unit _ _ _ := rfl
  control _ := (traceSame ..).2.1

inductive Reseats (a b : Machine) : Prop where
  | same (tree : b.tree = a.tree)
  | busy (id : DeviceId) (busy : Bool) (tree : b.tree = (a.setBusy id busy).tree)
  | renew {id : DeviceId} {d : Device} (idle : a.idle id = .ok d)
      (tree : b.tree = (a.withDevice id d.resetUnit.1).tree)
  | write {id : DeviceId} {d d' : Device} {register : RegisterId} {value : Nat}
      (idle : a.idle id = .ok d) (ok : d.setRegister register value = .ok d')
      (tree : b.tree = (a.withDevice id d').tree)

theorem resetUnitReseats {index : Nat} (ok : m.resetUnit index = .ok m') : Reseats m m' := by
  rcases resetUnitInv ok with ⟨-, rfl⟩ | ⟨p, d, -, idle, rfl⟩
  · exact .same rfl
  · exact .renew idle (enterAllTree ..)

theorem Reseats.tree {c : Machine} (h : Reseats a b) (tree : c.tree = b.tree) : Reseats a c := by
  cases h with
  | same first => exact .same (tree.trans first)
  | busy id busy first => exact .busy id busy (tree.trans first)
  | renew idle first => exact .renew idle (tree.trans first)
  | write idle ok first => exact .write idle ok (tree.trans first)

theorem actReseats (h : Act a b) : Reseats a b := by
  cases h with
  | enter | count | sink | drive | countRead | countWrite | freeze | store | select | issue
  | newCell | setCell | allocateTimer | cancelTimer | removeTimer => exact .same rfl
  | map ok =>
    obtain rfl | ⟨_, _, -, rfl⟩ := mapInv ok
    · exact .same rfl
    · exact .same rfl
  | schedule => exact .same (treeSteers.cut ..)
  | adjustTimer id delay period =>
    refine .same ?_
    unfold adjustTimer
    dsimp only
    split
    · exact treeSteers.cut ..
    · rfl
  | requestYield | boostInterleave => exact .same (treeSteers.yield _)
  | suspend ok => exact .same (treeSteers.suspend ok)
  | resume ok => exact .same (treeSteers.resume ok)
  | driveLine ok => exact .same (treeSteers.driveLine ok)
  | driveReset ok =>
    rcases driveResetInv ok with ⟨-, ok⟩ | ⟨-, index, p, -, ⟨-, rfl⟩ | ⟨-, s, reset, ok⟩⟩
    · exact .same (treeSteers.suspend ok)
    · exact .same rfl
    · exact (resetUnitReseats reset).tree (treeSteers.resume ok)
  | setRegister ok =>
    obtain ⟨d, d', idle, written, rfl⟩ := setRegisterInv ok
    exact .write idle written rfl
  | hold => exact .busy _ true rfl
  | giveBack => exact .busy _ false rfl

theorem reseatsDirect (h : Reseats a b) (direct : Direct id a) : Direct id b := by
  cases h with
  | same tree => exact directTree tree direct
  | busy _ _ tree => exact directTree tree (directBusy direct)
  | renew idle tree =>
    refine directTree tree (directPlaced direct ?_)
    rintro rfl cpu found direct
    cases idleCpu idle found
    exact ⟨cpu.reset, rfl, Acc8.directReset direct.fixed⟩
  | write idle ok tree =>
    refine directTree tree (directPlaced direct ?_)
    rintro rfl cpu found direct
    cases idleCpu idle found
    obtain ⟨cpu', set, rfl⟩ := okMapInv ok
    exact ⟨cpu', rfl, Acc8.directSet direct set⟩

theorem effectDirect (h : Effect a b) : Direct id a → Direct id b :=
  h.lift (R := fun a b => Direct id a → Direct id b) (fun _ direct => direct)
    (fun first rest direct => rest (first direct)) fun act => reseatsDirect (actReseats act)

theorem restartDirect {now : Time} {index : Nat} (direct : Direct id m) :
    Direct id (restartUnit now m index) := by
  cases reset : m.resetUnit index with
  | error e =>
    rw [restartSkipped _ reset]
    exact direct
  | ok s =>
    rw [restartDone _ reset]
    exact directTree (a := s) rfl (reseatsDirect (resetUnitReseats reset) direct)

theorem restartsDirect {now : Time} {indices : List Nat} (direct : Direct id m) :
    Direct id (indices.foldl (restartUnit now) m) := by
  induction indices generalizing m with
  | nil => exact direct
  | cons index rest ih => exact ih (restartDirect direct)

def Restarted (id : DeviceId) (m : Machine) : Prop :=
  ∀ cpu, m.idle id = .ok (.acc8 cpu) → cpu.fetchResetVector = cpu.options.resetPc.isNone

theorem idleModify {f : Seat → Seat} {d : Device}
    (idle : ({ m with tree := m.tree.modify other f } : Machine).idle id = .ok d) :
    (id ≠ other ∧ m.idle id = .ok d) ∨ id = other ∧ ∃ seat, m.seat? id = some seat ∧
      (f seat).device = d ∧ (f seat).busy = false := by
  obtain ⟨node, row, rfl, free⟩ := idleInv idle
  have seat : ({ m with tree := m.tree.modify other f } : Machine).seat? id = some node.device := by
    rw [seat?, row, Option.map_some]
  rw [seatModify] at seat
  split at seat
  · rename_i here
    obtain ⟨old, found, moved⟩ := Option.map_eq_some_iff.mp seat
    exact .inr ⟨here, old, found, by rw [moved], by rw [moved]; exact free⟩
  · rename_i away
    exact .inl ⟨away, idleSeat seat free⟩

theorem idleTree (tree : b.tree = a.tree) : b.idle id = a.idle id := by
  rw [Machine.idle, Machine.idle, tree]

theorem restartIdle {now : Time} {index : Nat}
    (idle : (restartUnit now m index).idle id = .ok (.acc8 cpu)) :
    (m.idle id = .ok (.acc8 cpu) ∧ ∀ p, m.units[index]? = some p → p.device ≠ id) ∨
      ∃ old : Acc8, cpu = old.reset := by
  cases ok : m.resetUnit index with
  | error e =>
    rw [restartSkipped _ ok] at idle
    refine .inl ⟨idle, ?_⟩
    rintro p found rfl
    unfold resetUnit at ok
    rw [found] at ok
    dsimp only at idle ok
    rw [idle] at ok
    cases ok
  | ok m' =>
    rw [restartDone _ ok] at idle
    replace idle : m'.idle id = .ok (.acc8 cpu) := idle
    rcases resetUnitInv ok with ⟨none, rfl⟩ | ⟨p, d, found, taken, rfl⟩
    · refine .inl ⟨idle, fun p found => ?_⟩
      rw [none] at found
      cases found
    · replace idle := (idleTree (enterAllTree ..)).symm.trans idle
      rcases idleModify idle with ⟨away, idle⟩ | ⟨-, seat, -, device, -⟩
      · refine .inl ⟨idle, fun q row => ?_⟩
        rw [found] at row
        cases row
        exact Ne.symm away
      · cases d with
        | acc8 old =>
          cases device
          exact .inr ⟨old, rfl⟩
        | peripheral p => cases device
        | sequencer s =>
          unfold Device.resetUnit at device
          dsimp only at device
          split at device <;> cases device

theorem restartsIdle {now : Time} {indices : List Nat} {i : Nat} {p : Processor}
    (present : m.now = now) (found : m.units[i]? = some p)
    (done : i ∈ indices ∨ Restarted p.device m) :
    Restarted p.device (indices.foldl (restartUnit now) m) := by
  induction indices generalizing m p with
  | nil => exact done.resolve_left List.not_mem_nil
  | cons index rest ih =>
    have one := restartUnitKept m index
    rw [present] at one
    obtain ⟨q, row, kept⟩ := one.each found
    rw [← kept.device] at done ⊢
    refine ih (one.now.trans present) row (Classical.or_iff_not_imp_left.mpr fun later cpu idle => ?_)
    rcases restartIdle idle with ⟨idle, away⟩ | ⟨old, rfl⟩
    · rcases done with mem | done
      · rcases List.mem_cons.mp mem with rfl | mem
        · exact absurd kept.device.symm (away p found)
        · exact absurd mem later
      · exact done cpu idle
    · rfl

def StaysDirect (id : DeviceId) (a b : Machine) : Prop := Direct id a → Direct id b

theorem touchDirect (h : Touch a b) : StaysDirect id a b := by
  cases h with
  | unmapped kind address write => exact directTree (traceSame ..).2.1
  | drive | countRead | countWrite | store => exact directTree rfl

theorem pulseDirect (h : Pulse a b) : StaysDirect id a b := by
  cases h with
  | enter | count | publish | accept | charge => exact directTree rfl

theorem directPlays (id : DeviceId) : Plays fun _ => Run.Follows (StaysDirect id) :=
  playsFollows (fun _ direct => direct) (fun first rest direct => rest (first direct)) touchDirect
    pulseDirect

theorem builtDirect {i : Nat} {p : Processor} (built : Built call m) (found : m.units[i]? = some p)
    (idle : m.idle p.device = .ok (.acc8 cpu)) (fixed : cpu.options.resetPc.isSome = true) :
    Direct p.device m := by
  obtain ⟨a, -, started⟩ := built
  unfold Assembly.build start at started
  rw [Run.getBind] at started
  obtain ⟨failed, m₁, -, started⟩ := Run.bindInv started
  cases failed with
  | some e => cases started
  | none =>
    dsimp only at started
    rw [Run.modifyBind] at started
    obtain ⟨u, m₂, reset, started⟩ := Run.bindInv started
    cases started
    unfold Machine.reset at reset
    rw [Run.getBind] at reset
    obtain ⟨_, m₃, devices, reset⟩ := Run.bindInv reset
    cases reset
    obtain ⟨q, row, kept⟩ := (restartsKept rfl _).back found
    have listed : i ∈ List.range m₃.units.size :=
      List.mem_range.mpr (Array.getElem?_eq_some_iff.mp row).1
    have restarted := restartsIdle rfl row (.inl listed)
    rw [← kept.device] at restarted
    have fetched := restarted cpu idle
    refine ⟨cpu, cpuIdle idle, fixed, ?_⟩
    rw [fetched]
    simpa using fixed

section
variable (calls : ∀ s m, Acts (call s) m)
include calls

theorem grantDirect {unit cycles : Nat} :
    Run.Keeps (StaysDirect id) (grant call unit cycles other) m := by
  intro outcome m' ran direct
  rcases grantInv ran with ⟨-, rfl⟩ | ⟨device, out, m₁, idle, runs, placed⟩
  · exact direct
  have inner := ((directPlays id).runDevice (fun s m => Run.followsSame fun r m' h =>
    effectDirect (calls s m r m' h)) unit cycles other device _ out m₁ runs).2
  have back : Direct id (m₁.setBusy other false) := directBusy (inner (directBusy direct))
  rcases placed with ⟨-, -, rfl⟩ | ⟨device', count, -, rfl, rfl⟩
  · exact back
  · refine directPlaced back ?_
    rintro rfl cpu found direct'
    obtain ⟨cpu₀, row₀, first⟩ := direct
    cases idleCpu idle row₀
    exact deviceDirect first runs

theorem sliceDirect {unit : Nat} {target : Time} :
    Run.Keeps (StaysDirect id) (runSlice call unit target) m :=
  sliceKeeps (fun first rest direct => rest (first direct)) directTree fun _ _ _ => grantDirect calls

theorem resetDirect {u : Unit} (h : Machine.reset call m = some (u, m')) (direct : Direct id m) :
    Direct id m' := by
  unfold Machine.reset at h
  rw [Run.getBind] at h
  obtain ⟨_, m₁, devices, rest⟩ := Run.bindInv h
  cases rest
  exact restartsDirect (effectDirect (resetDevicesActs calls _ m _ m₁ devices) direct)

end

end

end Machine

end Lockstep
