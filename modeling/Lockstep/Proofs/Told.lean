import Lockstep.Proofs.Cabling
import Lockstep.Proofs.Chronicle
import Lockstep.Proofs.Delivery

/-! What is told is what the machine does: without its marks, each telling is the run it tells of.
So whatever a host does with a machine has its chronicle. -/
namespace Lockstep

namespace Machine
open Watch (of jot resultCongr resultGet)
open Bus (Width Region)

section
variable {tell : Teller} {call : Callback} (told : ∀ s, (tell s).result = call s)
include told

theorem tellReadHandlerResult (order : Bus.ByteOrder) (region : Region Port) (address : Nat)
    (width : Width) : (tellReadHandler tell order region address width).result =
      readHandler call order region address width := by
  unfold tellReadHandler
  cases handler : region.handler with
  | port p =>
    simp only [readHandler, handler]
    split
    · exact resultCongr (told _) fun _ => rfl
    · rfl
  | ram | rom | bank | unmapped => simp only [Watch.resultOf, readHandler, handler]

theorem tellReadRegionResult (id : SpaceId) (space : Bus.Space Port) (region : Region Port)
    (address : Nat) (width : Width) : (tellReadRegion tell id space region address width).result =
      readRegion call id space region address width := by
  refine resultCongr (tellReadHandlerResult told _ _ _ _) fun value => ?_
  cases value <;> rfl

theorem tellWriteHandlerResult (id : SpaceId) (space : Bus.Space Port) (region : Region Port)
    (address : Nat) (width : Width) (value : Nat) :
    (tellWriteHandler tell id space region address width value).result =
      writeHandler call id space region address width value := by
  unfold tellWriteHandler
  cases handler : region.handler with
  | port p =>
    simp only [writeHandler, handler]
    split
    · exact resultCongr (told _) fun _ => rfl
    · rfl
  | ram | rom | bank | unmapped => simp only [Watch.resultOf, writeHandler, handler]

theorem tellWriteRegionResult (id : SpaceId) (space : Bus.Space Port) (region : Region Port)
    (address : Nat) (width : Width) (value : Nat) :
    (tellWriteRegion tell id space region address width value).result =
      writeRegion call id space region address width value :=
  resultCongr rfl fun _ => tellWriteHandlerResult told ..

theorem tellReadResult (id : SpaceId) (rank address : Nat) :
    (tellRead tell id rank address).result = readRank call id rank address := by
  induction rank generalizing address with
  | zero =>
    refine resultGet fun m => ?_
    cases m.space? id with
    | none => rfl
    | some space => exact tellReadRegionResult told ..
  | succ rank ih =>
    refine resultGet fun m => ?_
    cases m.space? id with
    | none => rfl
    | some space =>
      dsimp only
      split
      · exact resultCongr (ih _) fun _ => resultCongr (ih _) fun _ => rfl
      · exact tellReadRegionResult told ..

theorem tellWriteResult (id : SpaceId) (rank address value : Nat) :
    (tellWrite tell id rank address value).result = writeRank call id rank address value := by
  induction rank generalizing address value with
  | zero =>
    refine resultGet fun m => ?_
    cases m.space? id with
    | none => rfl
    | some space => exact tellWriteRegionResult told ..
  | succ rank ih =>
    refine resultGet fun m => ?_
    cases m.space? id with
    | none => rfl
    | some space =>
      dsimp only
      split
      · exact resultCongr (ih _ _) fun _ => ih _ _
      · exact tellWriteRegionResult told ..

theorem tellPortResult (program io : SpaceId) :
    (tellPort tell program io).result = acc8Port call program io := by
  unfold Acc8.Port.result tellPort acc8Port
  congr
  · exact funext fun a => resultCongr (tellReadResult told program 0 _) fun _ => rfl
  · exact funext fun a => funext fun v => tellWriteResult told program 0 _ _
  · exact funext fun a => resultCongr (tellReadResult told io 0 _) fun _ => rfl
  · exact funext fun a => funext fun v => tellWriteResult told io 0 _ _

theorem tellStepWorkResult (program io : SpaceId) (cpu : Acc8) :
    (cpu.stepWork (tellPort tell program io)).result = cpu.stepWork (acc8Port call program io) := by
  rw [← tellPortResult told]
  exact Acc8.stepWorkRelated (Acc8.Port.resultRelated _) cpu

theorem tellEnterResult (program io : SpaceId) (vector : Nat) (cpu : Acc8) :
    (cpu.enter (tellPort tell program io) vector).result =
      cpu.enter (acc8Port call program io) vector := by
  rw [← tellPortResult told]
  exact Acc8.enterRelated (Acc8.Port.resultRelated _) vector cpu

end

theorem plainTell {tell : Teller} {command : Command} (plain : command.isPlain = true) :
    Command.tell tell command = do
      let m ← of get
      let reply ← of (Command.run mute command)
      jot fun _ => m.deedMarks command
      return reply := by
  cases command <;> first | exact Command.tell.eq_def .. | cases plain

theorem plainMute (call : Callback) {command : Command} (plain : command.isPlain = true) :
    Command.run mute command = Command.run call command := by
  cases command <;> first | (unfold Command.run; rfl) | cases plain

mutual

theorem tellCommandResult {tell : Teller} {call : Callback} (told : ∀ s, (tell s).result = call s)
    (command : Command) : (Command.tell tell command).result = Command.run call command := by
  by_cases plain : command.isPlain = true
  · rw [plainTell plain, ← plainMute call plain]
    funext m
    rw [Watch.resultBind, Watch.resultOf, Run.getBind, Watch.resultBind, Watch.resultOf]
    exact congrFun (bind_pure (Command.run mute command)) m
  · match command, plain with
    | .borrow other as body, _ =>
      unfold Command.tell Command.run
      refine resultGet fun m => ?_
      cases m.borrowable other as with
      | error e => rfl
      | ok device =>
        exact resultCongr rfl fun _ => resultCongr (tellScriptResult told body) fun _ =>
          resultCongr rfl fun _ => rfl
    | .read route address width, _ =>
      unfold Command.tell Command.run
      refine resultGet fun m => ?_
      cases m.resolve route with
      | error e => rfl
      | ok id => exact resultCongr (tellReadResult told ..) fun _ => rfl
    | .write route address width value, _ =>
      unfold Command.tell Command.run
      refine resultGet fun m => ?_
      cases m.resolve route with
      | error e => rfl
      | ok id => exact resultCongr (tellWriteResult told ..) fun _ => rfl

theorem tellScriptResult {tell : Teller} {call : Callback} (told : ∀ s, (tell s).result = call s) :
    (script : Script) → (Script.tell tell script).result = Script.run call script
  | .done reply => by
      unfold Script.tell Script.run
      rfl
  | .step command next => by
      unfold Script.tell Script.run
      exact resultCongr (tellCommandResult told command) fun reply => tellScriptResult told (next reply)

end

theorem tellInvokeResult (depth : Nat) (script : Script) :
    (tellInvoke depth script).result = invoke depth script := by
  induction depth generalizing script with
  | zero => rfl
  | succ depth ih => exact tellScriptResult ih script

section
variable {tell : Teller} {call : Callback} (told : ∀ s, (tell s).result = call s)
include told

theorem tellAcknowledgeResult (unit line : Nat) :
    (tellAcknowledge tell unit line).result = acknowledge call unit line := by
  refine resultGet fun m => ?_
  cases (m.units[unit]?).bind (·.lines.acknowledge? line) with
  | none => rfl
  | some row =>
    obtain ⟨lines, answer⟩ := row
    refine resultCongr rfl fun _ => ?_
    cases answer with
    | stored vector => rfl
    | ask source => exact resultCongr (told _) fun _ => rfl

theorem tellResetDevicesResult (ids : List DeviceId) :
    (tellResetDevices tell ids).result = resetDevices call ids := by
  induction ids with
  | nil => rfl
  | cons id rest ih =>
    refine resultGet fun m => ?_
    cases m.idle id with
    | error e => exact ih
    | ok device =>
      refine resultCongr rfl fun _ => ?_
      cases device with
      | peripheral p => exact resultCongr (Watch.resultDiscard (told _)) fun _ => resultCongr rfl fun _ => ih
      | acc8 | sequencer => exact resultCongr rfl fun _ => ih

omit told in
theorem tellRestartsResult (now : Time) (indices : List Nat) :
    (tellRestarts now indices).result =
      modify fun m => indices.foldl (restartUnit now) m := by
  induction indices with
  | nil => rfl
  | cons index rest ih =>
    funext m
    unfold tellRestarts
    rw [Watch.resultBind, Watch.resultOf, Run.getBind, Watch.resultBind, Watch.resultOf,
      Run.modifyBind]
    exact congrFun ih (restartUnit now m index)

theorem tellResetResult : (tellReset tell).result = reset call := by
  refine resultGet fun m => resultCongr (tellResetDevicesResult told _) fun _ => ?_
  funext m
  rw [Watch.resultBind, Watch.resultOf, Run.getBind, tellRestartsResult]
  rfl

theorem tellStartDevicesResult (ids : List DeviceId) :
    (tellStartDevices tell ids).result = startDevices call ids := by
  induction ids with
  | nil => rfl
  | cons id rest ih =>
    refine resultGet fun m => ?_
    cases m.idle id with
    | error e => rfl
    | ok device =>
      cases device
      case' peripheral p => refine resultCongr rfl fun _ => resultCongr (told _) fun reply => ?_
      case' acc8 => refine resultCongr rfl fun _ => resultCongr rfl fun reply => ?_
      case' sequencer => refine resultCongr rfl fun _ => resultCongr rfl fun reply => ?_
      all_goals
        refine resultCongr rfl fun _ => ?_
        cases reply with
        | fault cause =>
          cases cause with
          | config e => rfl
          | bank _ | access _ => exact ih
        | _ => exact ih

theorem tellStartResult : (tellStart tell).result = start call := by
  refine resultGet fun m => resultCongr (tellStartDevicesResult told _) fun failed => ?_
  cases failed with
  | some e => rfl
  | none => exact resultCongr rfl fun _ => resultCongr (tellResetResult told) fun _ => rfl

end

end Machine

open Machine

theorem Recorder.marksFollow {tell : Teller} {call : Callback} (told : ∀ s, (tell s).result = call s) :
    (Recorder.marks tell).Follows call :=
  ⟨told, tellAcknowledgeResult told, tellPortResult told⟩

theorem Diary.marksFollow {tell : Teller} {call : Callback} (told : ∀ s, (tell s).result = call s) :
    (Diary.marks tell).Follows call :=
  ⟨told, Recorder.sliceResult (Recorder.marksFollow told) fun _ => rfl⟩

section
variable {origin m m' : Machine} {marks : List Mark} {depth : Nat}

theorem untilChronicled {target : Time} {fuel : Nat} {u : Unit} (before : Chronicle origin marks m)
    (ran : runUntil (invoke depth) target fuel m = some (u, m')) :
    ∃ marks, Chronicle origin marks m' := by
  induction fuel generalizing marks m with
  | zero => cases ran
  | succ fuel ih =>
    rw [untilPass] at ran
    obtain ⟨on, m₁, first, rest⟩ := Run.bindInv ran
    have next := before.pass depth target first
    cases on with
    | true => exact ih next rest
    | false =>
      cases rest
      exact ⟨_, next⟩

/-- Whatever a host has the machine do once it is built is told by a chronicle. -/
def Assembly.Chronicled (a : Assembly) : Prop :=
  ∀ (depth : Nat) (failed : Option ConfigError) (origin : Machine) (notices : List Notice) (m : Machine),
    a.build (invoke depth) = some (failed, origin) →
      Course (invoke depth) origin notices (some m) → ∃ marks, Chronicle a.machine marks m

theorem courseChronicled (a : Assembly) : a.Chronicled := by
  intro depth failed origin notices m started course
  refine course.keeps (P := fun m => ∃ marks, Chronicle a.machine marks m)
    ⟨_, .start depth .origin started⟩ (fun s reply ⟨marks, before⟩ ran => ⟨_, before.script depth s ran⟩)
    (fun name ⟨marks, before⟩ => ⟨marks, before.sink name⟩)
    (fun ⟨marks, before⟩ ran => ⟨_, before.reset depth ran⟩)
    fun target fuel ⟨marks, before⟩ ran => untilChronicled before ran

inductive Errand (m m' : Machine) : Prop where
  | start (depth : Nat) {failed} (ran : start (invoke depth) m = some (failed, m'))
  | script (depth : Nat) {script reply} (ran : invoke depth script m = some (reply, m'))
  | reset (depth : Nat) {u} (ran : reset (invoke depth) m = some (u, m'))
  | pass (depth : Nat) {target on} (ran : pass (invoke depth) target m = some (on, m'))
  | sink (name : Option String) (same : m' = (m.setSink name).1)

theorem chronicleKeeps {P : Machine → Prop} (chronicle : Chronicle origin marks m) (begins : P origin)
    (errand : ∀ {early m₁ m₂}, Chronicle origin early m₁ → early <+: marks → Errand m₁ m₂ → P m₁ →
      P m₂) : P m := by
  have onward : ∀ {marks more : List Mark} {m₁ m₂ : Machine}, Chronicle origin marks m₁ →
      ((∀ {early a b}, Chronicle origin early a → early <+: marks → Errand a b → P a → P b) → P m₁) →
      Errand m₁ m₂ → (∀ {early a b}, Chronicle origin early a → early <+: marks ++ more →
        Errand a b → P a → P b) → P m₂ := fun before ih one errand =>
    errand before (List.prefix_append ..) one
      (ih fun before part => errand before (part.trans (List.prefix_append ..)))
  induction chronicle with
  | origin => exact begins
  | start depth before ran ih => exact onward before ih (.start depth ran) errand
  | script depth script before ran ih => exact onward before ih (.script depth ran) errand
  | reset depth before ran ih => exact onward before ih (.reset depth ran) errand
  | pass depth target before ran ih => exact onward before ih (.pass depth ran) errand
  | sink name before ih => exact errand before (List.prefix_refl _) (.sink name rfl) (ih errand)

theorem chronicleCarries {R : Machine → Machine → Prop} (carries : Carries R)
    (acts : ∀ {a b}, Effect a b → R a b) (timers : ∀ (m : Machine) timers, R m { m with timers })
    (chronicle : Chronicle origin marks m) : R origin m := by
  have follows : ∀ depth s m, Run.Follows R (invoke depth s) (invoke depth s) m := fun depth s m =>
    Run.followsSame fun r m' ran => acts (invokeActs depth s m r m' ran)
  refine chronicleKeeps chronicle (carries.refl origin) fun {_ m₁ m₂} _ _ errand before =>
    carries.trans before ?_
  cases errand with
  | start depth ran => exact (carries.start (follows depth) m₁ _ m₂ ran).2
  | script depth ran => exact acts (invokeActs depth _ m₁ _ m₂ ran)
  | reset depth ran => exact (carries.reset (follows depth) m₁ _ m₂ ran).2
  | pass depth ran =>
    exact (carries.pass (follows depth) (fun _ => timers ..) (fun _ => timers ..) _ m₁ _ m₂ ran).2
  | sink name same => exact same ▸ carries.tick (.sink name)

theorem chronicleWiring (chronicle : Chronicle origin marks m) (id : DeviceId) :
    m.wiring? id = origin.wiring? id :=
  wiringSame (wiresSeat (chronicleCarries wiresCarries effectWires (fun _ _ => rfl) chronicle) id)

/-! What is told from a fresh machine on is a chronicle of it. -/

variable {more : List Mark}

theorem Chronicle.started {failed : Option ConfigError} (before : Chronicle origin marks m)
    (ran : tellStart (tellInvoke depth) m = (more, some (failed, m'))) :
    Chronicle origin (marks ++ more) m' := by
  have done := congrFun (tellStartResult (tellInvokeResult depth)) m
  have next := before.start depth (done.symm.trans (congrArg Prod.snd ran))
  rwa [ran] at next

theorem Chronicle.carried {script : Script} {reply : Reply} (before : Chronicle origin marks m)
    (ran : tellInvoke depth script m = (more, some (reply, m'))) :
    Chronicle origin (marks ++ more) m' := by
  have done := congrFun (tellInvokeResult depth script) m
  have next := before.script depth script (done.symm.trans (congrArg Prod.snd ran))
  rwa [ran] at next

def Machine.tellPasses (call : Teller) (target : Time) : (count : Nat) → Watch Mark Unit
  | 0 => return
  | count + 1 => do
      if ← (Diary.marks call).pass target then tellPasses call target count else return

theorem Chronicle.passes {u : Unit} (target : Time) (count : Nat) (before : Chronicle origin marks m)
    (ran : tellPasses (tellInvoke depth) target count m = (more, some (u, m'))) :
    Chronicle origin (marks ++ more) m' := by
  induction count generalizing marks more m with
  | zero =>
    cases ran
    rw [List.append_nil]
    exact before
  | succ count ih =>
    obtain ⟨first, on, m₁, rest, one, ran, rfl⟩ := Watch.bindInv ran
    have done := congrFun (Diary.passResult (Diary.marksFollow (tellInvokeResult depth)) target) m
    have next := before.pass depth target (done.symm.trans (congrArg Prod.snd one))
    rw [one] at next
    rw [← List.append_assoc]
    cases on with
    | true => exact ih next ran
    | false =>
      cases ran
      rw [List.append_nil]
      exact next

def Assembly.told (a : Assembly) (depth : Nat) (target : Time) (count : Nat) :
    List Mark × Option (Unit × Machine) :=
  (do let _ ← tellStart (tellInvoke depth)
      tellPasses (tellInvoke depth) target count : Watch Mark Unit) a.machine

theorem chronicleTold {a : Assembly} {count : Nat} {target : Time} {u : Unit}
    (ran : a.told depth target count = (marks, some (u, m))) : Chronicle a.machine marks m := by
  obtain ⟨first, failed, m₁, rest, started, runs, rfl⟩ := Watch.bindInv ran
  exact (Chronicle.origin.started started).passes target count runs

end

end Lockstep
