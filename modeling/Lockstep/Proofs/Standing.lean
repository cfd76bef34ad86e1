import Lockstep.Proofs.Moments

/-! The run state of a processor as a machine of its own. It goes from stopped to running with the
first slice or a reset, from running to waiting with an instruction that halts, back with an
interrupt or a reset, and into a trap with an illegal instruction or a vector that is out of range.
Out of a trap only a reset leads. -/
namespace Lockstep

inductive Stage where
  | seated
  | resting
  | taken (line : Nat)
  | entering (line : Nat)
  | executing

def Phase.stage : Phase → Stage
  | .seated => .seated
  | .resting => .resting
  | .taken line => .taken line
  | .asking line _ _ => .entering line
  | .entering line _ => .entering line
  | .executing => .executing

def Happening.isOwn : Happening → Bool
  | .driven .. | .written .. | .reset => false
  | _ => true

structure Standing where
  stage : Stage
  state : RunState

namespace Standing

/-- How a run state goes on, by what happens. Illegal instructions are fatal or not. -/
inductive Step (fatal : Bool) : Standing → List Happening → Standing → Prop where
  | driven {s line level vector} : Step fatal s [.driven line level vector] s
  | written {state id value} : Step fatal ⟨.seated, state⟩ [.written id value] ⟨.seated, state⟩
  | reset {state} : Step fatal ⟨.seated, state⟩ [.reset] ⟨.seated, .running⟩
  | granted {state} : Step fatal ⟨.seated, state⟩ [] ⟨.resting, state⟩
  | returned {state} : Step fatal ⟨.resting, state⟩ [] ⟨.seated, state⟩
  | started : Step fatal ⟨.resting, .stopped⟩ [] ⟨.resting, .running⟩
  | takes {state cpu m} (line : Nat) (shows : cpu.runState = state)
      (up : state = .running ∨ state = .waiting) :
      Step fatal ⟨.resting, state⟩ [.boundary cpu m] ⟨.taken line, state⟩
  | goes {state cpu m} (shows : cpu.runState = state) (up : state = .running ∨ state = .waiting) :
      Step fatal ⟨.resting, state⟩ [.boundary cpu m] ⟨.executing, state⟩
  | waits : Step fatal ⟨.executing, .waiting⟩ [] ⟨.resting, .waiting⟩
  | accepted {state line m} :
      Step fatal ⟨.taken line, state⟩ [.accepted line m] ⟨.entering line, state⟩
  | answered {state line reply m} :
      Step fatal ⟨.entering line, state⟩ [.answered line reply m] ⟨.entering line, state⟩
  | entered {state line vector cpu m} (up : state = .running ∨ state = .waiting)
      (inside : vector.getD line < Acc8.vectorCount) (shows : cpu.runState = .running) :
      Step fatal ⟨.entering line, state⟩ [.entered line vector cpu m] ⟨.resting, .running⟩
  | refused {state line vector cpu m} (up : state = .running ∨ state = .waiting)
      (outside : Acc8.vectorCount ≤ vector.getD line)
      (shows : cpu.runState = .trapped .invalidVector) :
      Step fatal ⟨.entering line, state⟩ [.entered line vector cpu m]
        ⟨.resting, .trapped .invalidVector⟩
  | executed {byte taken op cpu m} (decoded : Acc8.Opcode.decode? byte = some op) (goes : op ≠ .halt)
      (shows : cpu.runState = .running) :
      Step fatal ⟨.executing, .running⟩ [.executed (.instruction byte taken) cpu m]
        ⟨.resting, .running⟩
  | halted {byte taken cpu m} (decoded : Acc8.Opcode.decode? byte = some .halt)
      (shows : cpu.runState = .waiting) :
      Step fatal ⟨.executing, .running⟩ [.executed (.instruction byte taken) cpu m]
        ⟨.resting, .waiting⟩
  | skipped {byte taken cpu m} (illegal : Acc8.Opcode.decode? byte = none) (harmless : fatal = false)
      (shows : cpu.runState = .running) :
      Step fatal ⟨.executing, .running⟩ [.executed (.instruction byte taken) cpu m]
        ⟨.resting, .running⟩
  | trapped {byte taken cpu m} (illegal : Acc8.Opcode.decode? byte = none) (harmful : fatal = true)
      (shows : cpu.runState = .trapped .illegalInstruction) :
      Step fatal ⟨.executing, .running⟩ [.executed (.instruction byte taken) cpu m]
        ⟨.resting, .trapped .illegalInstruction⟩

inductive Path (fatal : Bool) : Standing → List Happening → Standing → Prop where
  | still (s : Standing) : Path fatal s [] s
  | step {s₁ s₂ s₃ first rest} (one : Step fatal s₁ first s₂) (more : Path fatal s₂ rest s₃) :
      Path fatal s₁ (first ++ rest) s₃

namespace Path
variable {fatal : Bool} {a b c : Standing} {first rest happenings : List Happening}

theorem one (step : Step fatal a first b) : Path fatal a first b := by
  have path := Path.step step (.still b)
  rwa [List.append_nil] at path

theorem append (before : Path fatal a first b) (after : Path fatal b rest c) :
    Path fatal a (first ++ rest) c := by
  induction before with
  | still => exact after
  | step one _ ih =>
    rw [List.append_assoc]
    exact .step one (ih after)

end Path

structure Held (cause : Trap) (s : Standing) : Prop where
  state : s.state = .trapped cause
  still : s.stage = .seated ∨ s.stage = .resting

section
variable {fatal : Bool} {cause : Trap} {a b : Standing} {first happenings : List Happening}

theorem heldStep (step : Step fatal a first b) (held : Held cause a) (kept : .reset ∉ first) :
    Held cause b ∧ ∀ h ∈ first, h.isOwn = false := by
  obtain ⟨state, still⟩ := held
  cases step with
  | driven => exact ⟨⟨state, still⟩, by simp [Happening.isOwn]⟩
  | written => exact ⟨⟨state, still⟩, by simp [Happening.isOwn]⟩
  | granted => exact ⟨⟨state, .inr rfl⟩, by simp⟩
  | returned => exact ⟨⟨state, .inl rfl⟩, by simp⟩
  | reset => simp at kept
  | started => cases state
  | takes line shows up | goes shows up => rcases up with rfl | rfl <;> cases state
  | waits | accepted | answered | entered | refused | executed | halted | skipped | trapped =>
    rcases still with still | still <;> cases still

theorem heldPath (path : Path fatal a happenings b) (held : Held cause a)
    (kept : .reset ∉ happenings) : Held cause b ∧ ∀ h ∈ happenings, h.isOwn = false := by
  induction path with
  | still => exact ⟨held, by simp⟩
  | step one _ ih =>
    rw [List.mem_append, not_or] at kept
    obtain ⟨held, early⟩ := heldStep one held kept.1
    obtain ⟨held, late⟩ := ih held kept.2
    exact ⟨held, fun h mem => (List.mem_append.mp mem).elim (early h) (late h)⟩

end

end Standing

namespace Acc8

theorem Alert.up {cpu : Acc8} (alert : cpu.Alert) :
    cpu.runState = .running ∨ cpu.runState = .waiting := by
  obtain ⟨sane, started, -⟩ := alert
  cases state : cpu.runState with
  | running => exact .inl rfl
  | waiting => exact .inr rfl
  | stopped => exact absurd state started
  | trapped cause => simp [state, RunState.isTrapped, RunState.trap?] at sane

theorem setKeeps {cpu cpu' : Acc8} {id : RegisterId} {value : Nat} (ok : cpu.set id value = .ok cpu') :
    cpu'.options = cpu.options ∧ (cpu.fetchResetVector = false → cpu'.fetchResetVector = false) := by
  unfold set at ok
  repeat' split at ok
  all_goals cases ok
  all_goals exact ⟨rfl, fun placed => by first | rfl | exact placed⟩

end Acc8

namespace Core
variable {unit : Nat} {a b : Core} {first happenings : List Happening} {fatal : Bool}

def standing (c : Core) : Standing := ⟨c.phase.stage, c.cpu.runState⟩

structure Fit (fatal : Bool) (c : Core) : Prop where
  options : c.cpu.options.illegalFatal = fatal
  placed : c.cpu.runState = .waiting → c.cpu.fetchResetVector = false
  alert : c.phase = .seated ∨ c.phase = .resting ∨ c.cpu.Alert

theorem Fit.awake (fit : Fit fatal a) (seated : a.phase ≠ .seated) (resting : a.phase ≠ .resting) :
    a.cpu.Alert :=
  (fit.alert.resolve_left seated).resolve_left resting

theorem pendingFit {m : Machine} {cpu : Acc8} {line : Option Nat} {phase : Phase} (fit : Fit fatal a)
    (alert : a.cpu.Alert) (takes : a.pending = (cpu, line))
    (step : ∀ state, a.cpu.runState = state → state = .running ∨ state = .waiting →
      Standing.Step fatal ⟨.resting, state⟩ [.boundary a.cpu m] ⟨phase.stage, state⟩)
    (rests : a.phase = .resting) :
    Standing.Path fatal a.standing [.boundary a.cpu m] (standing { a with cpu, phase }) ∧
      Fit fatal { a with cpu, phase } := by
  have looked := Acc8.pendingAlert alert takes
  have same := Acc8.pendingSame a.cpu (a.lines.isActive Acc8.nmiLine) (a.lines.isActive Acc8.irqLine)
  change a.pending.1 = _ at same
  rw [takes] at same
  have options : cpu.options = a.cpu.options := (congrArg Acc8.options same :)
  have state : cpu.runState = a.cpu.runState := (congrArg Acc8.runState same :)
  refine ⟨?_, ?_, fun _ => looked.placed, .inr (.inr looked)⟩
  · have one := step a.cpu.runState rfl alert.up
    rw [standing, standing, rests]
    dsimp only
    rw [state]
    exact .one one
  · change cpu.options.illegalFatal = fatal
    rw [options]
    exact fit.options

theorem executedStands {port : Acc8.Port Run} {m₀ m : Machine} {cpu : Acc8} {work : Acc8.Work}
    (fit : Fit fatal a) (executes : a.phase = .executing) (awake : a.cpu.runState ≠ .waiting)
    (ran : a.cpu.stepWork port m₀ = some ((cpu, work), m)) :
    Standing.Path fatal a.standing [.executed work cpu m] (standing { a with cpu, phase := .resting }) ∧
      Fit fatal { a with cpu, phase := .resting } := by
  have alert := fit.awake (by simp [executes]) (by simp [executes])
  have running := alert.up.resolve_right awake
  obtain ⟨alike, byte, taken, rfl, state⟩ := Acc8.stepWorkState ran
  have options : cpu.options.illegalFatal = fatal := by rw [alike.1, fit.options]
  refine ⟨.one ?_, options, fun _ => alike.2.trans alert.placed, .inr (.inl rfl)⟩
  rw [standing, standing, executes, running]
  rw [running, fit.options] at state
  dsimp only [Phase.stage]
  cases decoded : Acc8.Opcode.decode? byte with
  | none =>
    rw [decoded, Option.elim_none] at state
    cases fatal with
    | false =>
      rw [state]
      exact .skipped decoded rfl state
    | true =>
      rw [state]
      exact .trapped decoded rfl state
  | some op =>
    rw [decoded, Option.elim_some] at state
    split at state
    · rename_i halts
      subst halts
      rw [state]
      exact .halted decoded state
    · rename_i goes
      rw [state]
      exact .executed decoded goes state

theorem stepStands (step : Step unit a first b) (fit : Fit fatal a) :
    Standing.Path fatal a.standing first b.standing ∧ Fit fatal b := by
  cases step with
  | driven heeds ok => exact ⟨.one .driven, fit.options, fit.placed, fit.alert⟩
  | written free ok =>
    obtain ⟨state, -⟩ := Acc8.setSpared ok
    obtain ⟨options, placed⟩ := Acc8.setKeeps ok
    refine ⟨?_, ?_, fun waits => placed (fit.placed (state.symm.trans waits)), .inl free⟩
    · rw [standing, standing, free, state]
      exact .one .written
    · rw [options]
      exact fit.options
  | reset free =>
    refine ⟨?_, fit.options, nofun, .inl free⟩
    rw [standing, standing, free]
    exact .one .reset
  | load free =>
    refine ⟨?_, fit.options, fit.placed, .inr (.inl rfl)⟩
    rw [standing, free]
    exact .one .granted
  | fetched pc rests => exact ⟨.still _, fit.options, fun _ => rfl, .inr (.inl rests)⟩
  | woken rests stopped =>
    refine ⟨?_, fit.options, nofun, .inr (.inl rests)⟩
    rw [standing, standing, rests, stopped]
    exact .one .started
  | taken rests alert seen takes =>
    exact pendingFit fit alert takes (fun _ shows up => .takes _ shows up) rests
  | plain rests alert seen takes =>
    exact pendingFit fit alert takes (fun _ shows up => .goes shows up) rests
  | @accepted m line lines answer takes row seen =>
    have alert := fit.awake (by simp [takes]) (by simp [takes])
    refine ⟨?_, fit.options, fit.placed, .inr (.inr alert)⟩
    rw [standing, standing, takes]
    cases answer with
    | stored vector => exact .one .accepted
    | ask source => exact .one .accepted
  | answered depth asks ran seen =>
    have alert := fit.awake (by simp [asks]) (by simp [asks])
    refine ⟨?_, fit.options, fit.placed, .inr (.inr alert)⟩
    rw [standing, asks]
    exact .one .answered
  | entered depth program io enters ran seen =>
    have alert := fit.awake (by simp [enters]) (by simp [enters])
    have alike := Acc8.enterAlike ran
    have state := Acc8.enterState ran
    refine ⟨?_, ?_, fun _ => alike.2.trans alert.placed, .inr (.inl rfl)⟩
    · rw [standing, standing, enters]
      dsimp only [Phase.stage]
      split at state
      · rename_i outside
        rw [state]
        exact .one (.refused alert.up outside state)
      · rename_i inside
        rw [state]
        exact .one (.entered alert.up (Nat.lt_of_not_le inside) state)
    · rw [alike.1]
      exact fit.options
  | executed depth program io executes awake ran seen => exact executedStands fit executes awake ran
  | idle executes waits =>
    refine ⟨?_, fit.options, fit.placed, .inr (.inl rfl)⟩
    rw [standing, standing, executes, waits]
    exact .one .waits
  | shut rests =>
    refine ⟨?_, fit.options, fit.placed, .inl rfl⟩
    rw [standing, rests]
    exact .one .returned

theorem lifeStands (life : Life unit a happenings b) (fit : Fit fatal a) :
    Standing.Path fatal a.standing happenings b.standing ∧ Fit fatal b := by
  induction life with
  | still => exact ⟨.still _, fit⟩
  | step one _ ih =>
    obtain ⟨first, fit⟩ := stepStands one fit
    obtain ⟨rest, fit⟩ := ih fit
    exact ⟨first.append rest, fit⟩

end Core

end Lockstep
