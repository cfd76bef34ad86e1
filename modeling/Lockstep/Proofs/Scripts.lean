import Lockstep.Proofs.Deeds

/-! Every command is a sequence of acts, and so is every script, by recursion on both:
a borrowed device's script is the only one inside a command. The hooks of a start and
of a reset follow, since they only run scripts. -/
namespace Lockstep.Machine

theorem onSpaceActs {m : Machine} {route : Route} {f : SpaceId → Run Reply}
    (acts : ∀ id, Acts (f id) m) : Acts (onSpace route f) m :=
  keepsSpace (.refl m) fun id _ => acts id

theorem borrowableIdle {m : Machine} {id : DeviceId} {as : Option DeviceClass} {device : Device}
    (taken : m.borrowable id as = .ok device) : ∃ d, m.idle id = .ok d := by
  obtain ⟨d, idle, -⟩ := okBindInv taken
  exact ⟨d, idle⟩

theorem borrowActs {call : Callback} {body : Script}
    (inner : ∀ m, Acts (Script.run call body) m) (id : DeviceId) (as : Option DeviceClass)
    (m : Machine) : Acts (Command.run call (.borrow id as body)) m := by
  unfold Command.run
  refine Acts.get ?_
  cases taken : m.borrowable id as with
  | error e => exact Acts.pure _
  | ok device =>
    obtain ⟨d, idle⟩ := borrowableIdle taken
    refine Acts.bind (Acts.modify (.act (.hold idle))) fun _ m => ?_
    refine Acts.bind (inner m) fun _ m => ?_
    exact Acts.bind (Acts.modify (.act (.giveBack id))) fun _ _ => Acts.pure _

mutual

theorem commandActs {call : Callback} (calls : ∀ s m, Acts (call s) m) (command : Command)
    (m : Machine) : Acts (Command.run call command) m := by
  by_cases plain : command.isPlain = true
  · exact fun reply m' ran => deedEffect (plainDeed plain m reply m' ran)
  · match command, plain with
    | .borrow id as body, _ => exact borrowActs (scriptActs calls body) id as m
    | .read route address width, _ =>
      unfold Command.run
      exact onSpaceActs fun id => Acts.bind (readRankActs calls id _ _ m) fun _ _ => Acts.pure _
    | .write route address width value, _ =>
      unfold Command.run
      exact onSpaceActs fun id => Acts.bind (writeRankActs calls id _ _ _ m) fun _ _ => Acts.pure _

theorem scriptActs {call : Callback} (calls : ∀ s m, Acts (call s) m) :
    (script : Script) → (m : Machine) → Acts (Script.run call script) m
  | .done reply, m => by
      unfold Script.run
      exact Acts.pure _
  | .step command next, m => by
      unfold Script.run
      exact Acts.bind (commandActs calls command m) fun reply m => scriptActs calls (next reply) m

end

theorem invokeActs (depth : Nat) (script : Script) (m : Machine) : Acts (invoke depth script) m := by
  induction depth generalizing script m with
  | zero => intro _ _ h; cases h
  | succ depth ih => exact scriptActs ih script m

section
variable {call : Callback} (calls : ∀ s m, Acts (call s) m)
include calls

theorem startDevicesActs (ids : List DeviceId) (m : Machine) :
    Acts (startDevices call ids) m := by
  induction ids generalizing m with
  | nil => exact Acts.pure _
  | cons id rest ih =>
      refine Acts.get ?_
      cases idle : m.idle id with
      | error e => exact Acts.pure _
      | ok device =>
          refine Acts.bind (Acts.modify (.act (.hold idle))) fun _ m => ?_
          cases device
          case' peripheral p => refine Acts.bind (calls (p.start id) m) fun reply m => ?_
          case' acc8 => refine Acts.bind (Acts.pure Reply.ok) fun reply m => ?_
          case' sequencer => refine Acts.bind (Acts.pure Reply.ok) fun reply m => ?_
          all_goals
            refine Acts.bind (Acts.modify (.act (.giveBack id))) fun _ m => ?_
            split
            · exact Acts.pure _
            · exact ih m

theorem resetDevicesActs (ids : List DeviceId) (m : Machine) :
    Acts (resetDevices call ids) m := by
  induction ids generalizing m with
  | nil => exact Acts.pure _
  | cons id rest ih =>
      refine Acts.get ?_
      cases idle : m.idle id with
      | error e => exact ih m
      | ok device =>
          have back : ∀ m, Acts (do
              modify (·.setBusy id false)
              resetDevices call rest) m := fun m =>
            Acts.bind (Acts.modify (.act (.giveBack id))) fun _ m => ih m
          refine Acts.bind (Acts.modify (.act (.hold idle))) fun _ m => ?_
          cases device with
          | peripheral p => exact Acts.bind (Acts.discard (calls _ m)) fun _ m => back m
          | acc8 cpu => exact back m
          | sequencer s => exact back m

theorem dispatchActs (fired : Timer.Fired) (m : Machine) : Acts (dispatch call fired) m := by
  unfold dispatch
  refine Acts.bind (Acts.modify ((Effect.act (.count _)).trans (.traced ..))) fun _ m => ?_
  refine Acts.get ?_
  cases idle : m.idle fired.owner with
  | error e => exact Acts.pure _
  | ok device =>
      have back : ∀ m, Acts (modify (·.setBusy fired.owner false)) m := fun m =>
        Acts.modify (.act (.giveBack _))
      refine Acts.bind (Acts.modify (.act (.hold idle))) fun _ m => ?_
      cases device with
      | peripheral p => exact Acts.bind (Acts.discard (calls _ m)) fun _ m => back m
      | acc8 cpu => exact back m
      | sequencer s => exact back m

end

end Lockstep.Machine
