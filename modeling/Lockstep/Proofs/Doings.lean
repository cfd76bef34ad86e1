import Lockstep.Proofs.Fetching
import Lockstep.Proofs.Ledger

/-! The log of a slice: each boundary of its processor, each interrupt it accepts, each access before
it is made, and each instruction, entry and stretch of idling when it is over. -/
namespace Lockstep

inductive Doing where
  | boundary (cpu : Acc8) (machine : Machine)
  | accepts (line : Nat) (machine : Machine)
  | asks (request : Acc8.Request) (machine : Machine)
  | does (work : Acc8.Work) (cpu : Acc8)

namespace Acc8

def Port.perform {m : Type → Type} [Monad m] (port : Port m) : Request → m Unit
  | .read a => discard (port.read a)
  | .write a v => port.write a v
  | .input n => discard (port.input n)
  | .output n v => port.output n v

def Port.announced (port : Port Run) : Port (Watch Doing) where
  read a := do
    Watch.note (.asks (.read a))
    Watch.of (port.read a)
  write a v := do
    Watch.note (.asks (.write a v))
    Watch.of (port.write a v)
  input n := do
    Watch.note (.asks (.input n))
    Watch.of (port.input n)
  output n v := do
    Watch.note (.asks (.output n v))
    Watch.of (port.output n v)

theorem stepWorkAnnounced (port : Port Run) (cpu : Acc8) :
    (cpu.stepWork port.announced).result = cpu.stepWork port :=
  stepWorkRelated port.announced.resultRelated cpu

end Acc8

def Watch.Asks {α : Type} (P : Machine → Prop) (w : Watch Doing α) : Prop := ∀ m, P m →
  (∀ d ∈ (w m).1, ∃ request m', d = .asks request m' ∧ P m') ∧ ∀ a m', (w m).2 = some (a, m') → P m'

theorem Watch.asksNoted {α : Type} {P : Machine → Prop} {x : Run α} (request : Acc8.Request)
    (kept : ∀ m a m', P m → x m = some (a, m') → P m') :
    Watch.Asks P (do Watch.note (.asks request); Watch.of x) := by
  intro m holds
  refine ⟨fun d mem => ⟨request, m, ?_, holds⟩, fun a m' => kept m a m' holds⟩
  simpa [Bind.bind, Watch.next, Watch.note, Watch.jot, Watch.of] using mem

theorem Acc8.Port.announcedAsks {P : Machine → Prop} {port : Port Run}
    (kept : ∀ request m u m', P m → port.perform request m = some (u, m') → P m') :
    Port.Related (fun _ w (_ : Run _) => w.Asks P) port.announced port where
  pure a := by
    intro m holds
    refine ⟨fun d mem => (List.not_mem_nil mem).elim, fun b m' h => ?_⟩
    cases h
    exact holds
  bind {α β x y f g} first rest m holds := by
    obtain ⟨asks, ends⟩ := first m holds
    rw [Watch.bindNotes]
    change _ ∧ ∀ a m', (x >>= f).result m = _ → _
    rw [Watch.resultBind]
    cases ran : x.result m with
    | none =>
      rw [Run.bindNone ran]
      simpa using asks
    | some row =>
      obtain ⟨asks', ends'⟩ := rest row.1 row.2 (ends row.1 row.2 ran)
      rw [Run.bindSome ran, List.forall_mem_append]
      exact ⟨⟨asks, asks'⟩, ends'⟩
  read a := Watch.asksNoted (.read a) fun m _ m' holds ran =>
    kept (.read a) m ⟨⟩ m' holds (Run.bindSome ran fun _ => pure PUnit.unit)
  write a v := Watch.asksNoted (.write a v) (kept (.write a v))
  input n := Watch.asksNoted (.input n) fun m _ m' holds ran =>
    kept (.input n) m ⟨⟩ m' holds (Run.bindSome ran fun _ => pure PUnit.unit)
  output n v := Watch.asksNoted (.output n v) (kept (.output n v))

def Moment.doings : Moment → List Doing
  | .boundary cpu m => [.boundary cpu m]
  | .starts s => (s.line.map (.accepts · s.machine)).toList
  | .does work cpu => [.does work cpu]
  | _ => []

namespace Recorder

def doings (call : Callback) : Recorder Doing where
  pen _ := Moment.doings
  call s := .of (call s)
  acknowledge unit line := .of (Machine.acknowledge call unit line)
  port program io := (Machine.acc8Port call program io).announced

section
variable (call : Callback) (unit line : Nat) (moment : Moment) (m : Machine)

@[simp] theorem doingsPen : (doings call).pen unit moment = moment.doings := rfl

@[simp] theorem doingsAcknowledge : ((doings call).acknowledge unit line m).1 = [] := rfl

end

theorem doingsFollow (call : Callback) : (doings call).Follows call :=
  ⟨fun _ => rfl, fun _ _ => rfl, fun _ _ => rfl⟩

theorem doingsSilent (call : Callback) : (doings call).Silent call :=
  ⟨fun _ => rfl, fun _ _ => rfl, fun _ _ _ => rfl, fun _ _ => rfl⟩

end Recorder

namespace Grant
open Machine

def doings (g : Grant) (call : Callback) : List Doing := (Recorder.doings call).log g

theorem doingsSlice (g : Grant) (call : Callback) :
    ((Recorder.doings call).granted g).result g.machine = runSlice call g.unit g.target g.machine :=
  Recorder.grantedSlice (Recorder.doingsFollow call) g

variable {g : Grant} {call : Callback} {cpu : Acc8} {w : Wiring}

theorem doingsSeated (seated : g.Seated cpu w) : g.doings call =
    ((Recorder.doings call).acc8 g.unit g.cycles (acc8Port call w.program w.io).announced cpu
      (g.opened.setBusy g.processor.device true)).1 :=
  seatedLog (Recorder.doings call) seated

theorem doingsUnseated (unseated : ∀ cpu w, ¬ g.Seated cpu w) : g.doings call = [] := by
  by_cases sequencer : ∃ s, g.machine.idle g.processor.device = .ok (.sequencer s)
  · obtain ⟨s, idle⟩ := sequencer
    rw [doings, deviceLog _ idle, Recorder.playerSilent (Recorder.doingsSilent call)]
    rfl
  · exact unseatedLog _ (fun s idle => sequencer ⟨s, idle⟩) unseated

end Grant

end Lockstep
