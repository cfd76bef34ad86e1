import Lockstep.Proofs.Contract
import Lockstep.Proofs.History
import Lockstep.Proofs.Lifetime
import Lockstep.Proofs.Naming

/-! The life of a processor, moment by moment. Each happening is one step of a life, with a life
before it and one after it; and what each step preserves holds throughout. In an assembled machine
every processor has a seat of its own, so what a chronicle tells about it is one life. -/
namespace Lockstep

namespace Acc8

def Work.enables : Work → Bool
  | .instruction byte _ => (Opcode.decode? byte).elim false Opcode.enables
  | _ => false

theorem stepWorkSpared {port : Port Run} {cpu cpu' : Acc8} {work : Work} {m m' : Machine}
    (ran : stepWork port cpu m = some ((cpu', work), m')) : Spared cpu cpu' work.enables := by
  obtain ⟨byte, next, _, taken, fetched, rfl, ⟨-, rfl⟩ | ⟨op, decoded, executed⟩⟩ := stepWorkCases ran
  · have first := (fetchShifted fetched).spared false
    split
    · exact ⟨first.alike, first.latch, fun _ => first.masked rfl⟩
    · exact ⟨first.alike, first.latch, fun _ => first.masked rfl⟩
  · have first := (fetchShifted fetched).spared false
    have rest := executeSpared executed
    have same : (Work.instruction byte taken).enables = op.enables := by
      rw [Work.enables, decoded, Option.elim_some]
    rw [same]
    exact ⟨first.alike.trans rest.alike, rest.latch.trans first.latch,
      fun plain masked => rest.masked plain (first.masked rfl masked)⟩

theorem setSpared {cpu cpu' : Acc8} {id : RegisterId} {value : Nat} (ok : cpu.set id value = .ok cpu') :
    cpu'.runState = cpu.runState ∧ cpu'.nmiLatched = cpu.nmiLatched ∧
      (cpu'.flags = cpu.flags ∨ id = flagsId ∧ cpu'.flags = .ofByte (UInt8.ofNat value)) := by
  unfold set at ok
  repeat' split at ok
  all_goals cases ok
  all_goals simp_all

end Acc8

namespace InputLines
variable {κ : Type} {l l' : InputLines κ} {line : Nat} {state : LineState} {vector : Option Nat}
  {answer : VectorAnswer κ}

theorem setLine (ok : l.set? line state vector = some l') : l'.source = l.source ∧ ∀ other,
    l'.state? other = (if line = other then some state else l.state? other) ∧
    l'.vector? other = (if line = other then vector.or (l.vector? other) else l.vector? other) := by
  unfold set? at ok
  split at ok
  · rename_i bound
    cases ok
    refine ⟨rfl, fun other => ?_⟩
    unfold state? vector?
    rw [Array.getElem?_modify]
    split
    · rename_i here
      subst here
      rw [Array.getElem?_eq_getElem bound]
      exact ⟨rfl, rfl⟩
    · exact ⟨rfl, rfl⟩
  · cases ok

theorem acknowledgeLine (ok : l.acknowledge? line = some (l', answer)) : l'.source = l.source ∧
    answer = l.source.elim (.stored (l.vector? line)) .ask ∧ ∀ other,
    l'.state? other = (if line = other then
      (l.state? other).map fun state => if state = .hold then .clear else state
      else l.state? other) ∧
    l'.vector? other = l.vector? other := by
  obtain ⟨entry, row, same⟩ := Option.map_eq_some_iff.mp ok
  cases same
  refine ⟨rfl, ?_, fun other => ?_⟩
  · rw [vector?, row]
    cases l.source <;> rfl
  · unfold state? vector?
    rw [Array.getElem?_modify]
    split
    · rename_i here
      subst here
      rw [row]
      exact ⟨rfl, rfl⟩
    · exact ⟨rfl, rfl⟩

theorem clearLine (l : InputLines κ) (line : Nat) :
    l.clear.state? line = (l.state? line).map (fun _ => .clear) ∧ l.clear.vector? line = none := by
  unfold state? vector? clear
  rw [Array.getElem?_map]
  cases l.lines[line]? <;> exact ⟨rfl, rfl⟩

end InputLines

def Happening.lineNext (line : Nat) (state : Option LineState) : Happening → Option LineState
  | .driven other new _ => if other = line then some new else state
  | .accepted other _ =>
      if other = line then state.map fun state => if state = .hold then .clear else state else state
  | .reset => state.map fun _ => .clear
  | _ => state

namespace Core
variable {unit : Nat} {a b c : Core} {first happenings before after : List Happening} {h : Happening}

theorem Step.single (step : Step unit a first b) : first = [] ∨ ∃ h, first = [h] := by
  cases step with
  | driven | written | reset | taken | plain | accepted | answered | entered | executed =>
    exact .inr ⟨_, rfl⟩
  | load | fetched | woken | idle | shut => exact .inl rfl

theorem Step.state {line : Nat} (step : Step unit a first b) :
    b.lines.state? line = first.foldl (fun state h => h.lineNext line state) (a.lines.state? line) := by
  cases step with
  | driven heeds ok => exact ((InputLines.setLine ok).2 line).1
  | reset free => exact (InputLines.clearLine _ line).1
  | accepted takes row => exact ((InputLines.acknowledgeLine row).2.2 line).1
  | _ => rfl

namespace Life

theorem split (life : Life unit a (before ++ h :: after) b) : ∃ c d,
    Life unit a before c ∧ Step unit c [h] d ∧ Life unit d after b := by
  generalize same : before ++ h :: after = happenings at life
  induction life generalizing before with
  | still => simp at same
  | @step c₁ c₂ c₃ first rest one more ih =>
    rcases one.single with rfl | ⟨h', rfl⟩
    · obtain ⟨c, d, early, now, late⟩ := ih same
      exact ⟨c, d, .step one early, now, late⟩
    · cases before with
      | nil =>
        obtain ⟨rfl, rfl⟩ := List.cons.inj same
        exact ⟨c₁, c₂, .still c₁, one, more⟩
      | cons h'' before =>
        obtain ⟨rfl, tail⟩ := List.cons.inj same
        obtain ⟨c, d, early, now, late⟩ := ih tail
        exact ⟨c, d, .step one early, now, late⟩

theorem keeps {P : Core → Prop} {S : Happening → Prop}
    (step : ∀ {a first b}, Step unit a first b → P a → (∀ h ∈ first, S h) → P b)
    (life : Life unit a happenings b) (holds : P a) (safe : ∀ h ∈ happenings, S h) : P b := by
  induction life with
  | still => exact holds
  | step one _ ih =>
    exact ih (step one holds fun h mem => safe h (List.mem_append_left _ mem)) fun h mem =>
      safe h (List.mem_append_right _ mem)

theorem tracks {σ : Type} {next : σ → Happening → σ} {R : σ → Core → Prop}
    (step : ∀ {s a first b}, Step unit a first b → R s a → R (first.foldl next s) b)
    (life : Life unit a happenings b) {s : σ} (holds : R s a) : R (happenings.foldl next s) b := by
  induction life generalizing s with
  | still => exact holds
  | step one _ ih =>
    rw [List.foldl_append]
    exact ih (step one holds)

theorem takes {line : Nat} (life : Life unit a happenings b) (phase : a.phase = .taken line)
    (ends : b.phase = .seated) : ∃ m rest, happenings = .accepted line m :: rest := by
  cases life with
  | still =>
    rw [phase] at ends
    cases ends
  | step one more =>
    cases one with
    | driven heeds => exact absurd phase (heeds line)
    | accepted takes =>
      rw [phase] at takes
      cases takes
      exact ⟨_, _, rfl⟩
    | written free | reset free | load free | fetched _ free | woken free | taken free | plain free
      | answered _ free | entered _ _ _ free | executed _ _ _ free | idle free | shut free =>
      rw [phase] at free
      cases free

theorem idles {line : Nat} {m : Machine} (life : Life unit a (.accepted line m :: after) b)
    (free : ∀ line, a.phase ≠ .taken line) : False := by
  have whole : Life unit a ([] ++ .accepted line m :: after) b := life
  obtain ⟨c, d, early, now, -⟩ := whole.split
  have still : ∀ line, c.phase ≠ .taken line := by
    refine early.keeps (P := fun c => ∀ line, c.phase ≠ .taken line) (S := fun _ => False)
      (fun one free none => ?_) free (fun _ mem => by cases mem)
    cases one with
    | driven | written | reset | taken | plain | accepted | answered | entered | executed =>
      exact absurd (List.mem_singleton_self _) (none _)
    | load | idle | shut => exact fun _ h => by cases h
    | fetched | woken => exact free
  cases now with
  | accepted takes => exact still _ takes

end Life

structure AtBoundary (unit : Nat) (c : Core) (cpu : Acc8) (m : Machine) (d : Core) : Prop where
  shows : cpu = c.cpu
  rests : c.phase = .resting
  alert : c.cpu.Alert
  seen : m.linesOf? unit = some c.lines
  lines : d.lines = c.lines
  cpu : d.cpu = c.pending.1
  phase : d.phase = c.pending.2.elim .executing .taken

theorem Step.boundary {cpu : Acc8} {m : Machine} (step : Step unit c [.boundary cpu m] b) :
    AtBoundary unit c cpu m b := by
  cases step with
  | taken rests alert seen takes | plain rests alert seen takes =>
    exact ⟨rfl, rests, alert, seen, rfl, by rw [takes], by rw [takes]; rfl⟩

theorem acceptsNext {cpu : Acc8} {m : Machine} {line : Nat} (at_ : AtBoundary unit c cpu m a)
    (life : Life unit a after b) (ends : b.phase = .seated) :
    (∃ m rest, after = .accepted line m :: rest) ↔ c.pending.2 = some line := by
  have phase := at_.phase
  cases takes : c.pending.2 with
  | none =>
    rw [takes] at phase
    refine ⟨?_, fun h => by cases h⟩
    rintro ⟨m, rest, rfl⟩
    exact (life.idles fun line h => by rw [phase] at h; cases h).elim
  | some other =>
    rw [takes] at phase
    obtain ⟨m, rest, rfl⟩ := life.takes phase ends
    simp [eq_comm]

end Core

namespace Machine
variable {m m' : Machine}

structure Distinct (m : Machine) : Prop where
  apart : ∀ {i j : Nat} {p q : Processor}, m.units[i]? = some p → m.units[j]? = some q →
    p.device = q.device → i = j
  known : ∀ {i : Nat} {p : Processor}, m.units[i]? = some p → (m.tree.get? p.device).isSome

theorem distinctKept (distinct : Distinct m) (kept : Kept m m') : Distinct m' := by
  refine ⟨fun one two same => ?_, fun found => ?_⟩
  · obtain ⟨p, first, moved⟩ := kept.back one
    obtain ⟨q, second, moved'⟩ := kept.back two
    exact distinct.apart first second (by rw [← moved.device, ← moved'.device, same])
  · obtain ⟨p, row, moved⟩ := kept.back found
    have role := congrArg Option.isSome (kept.roles p.device)
    rw [roleOf?, roleOf?, Option.isSome_map, Option.isSome_map] at role
    rw [moved.device, role]
    exact distinct.known row

theorem seatTree (m : Machine) (device : Device) : (Assembly.seat m device).1.tree = m.tree := by
  obtain ⟨spaces, same⟩ := seatAdds m device
  rw [same]

theorem distinctAdded {tree : Tree Seat} {addition : Tree.Addition Seat} {id : DeviceId}
    {p : Processor} (distinct : Distinct m) (made : m.tree.Added addition tree id)
    (own : p.device = id) {units : Array Processor}
    (grown : units = m.units ∨ units = m.units.push p) : Distinct { m with tree, units } := by
  have old : ∀ {i : Nat} {q : Processor}, m.units[i]? = some q →
      q.device ≠ id ∧ (tree.get? q.device).isSome := fun found => by
    have known := distinct.known found
    obtain ⟨node, there⟩ := Option.isSome_iff_exists.mp known
    exact ⟨made.oldNew there, made.stillKnown known⟩
  have rows : ∀ {i : Nat} {q : Processor}, units[i]? = some q →
      m.units[i]? = some q ∨ i = m.units.size ∧ q.device = id := by
    intro i q found
    rcases grown with rfl | rfl
    · exact .inl found
    · rw [Array.getElem?_push] at found
      split at found
      · cases found
        exact .inr ⟨‹_›, own⟩
      · exact .inl found
  refine ⟨fun one two same => ?_, fun found => ?_⟩
  · rcases rows one with one | ⟨last, new⟩ <;> rcases rows two with two | ⟨last', new'⟩
    · exact distinct.apart one two same
    · exact absurd (same.trans new') (old one).1
    · exact absurd (same.symm.trans new) (old two).1
    · rw [last, last']
  · change (tree.get? _).isSome
    rcases rows found with found | ⟨-, new⟩
    · exact (old found).2
    · rw [new, made.new]
      rfl

theorem distinctInstance {a b : Assembly} {tag typeName : String} {clock : ClockRate}
    {parent : Option DeviceId} {device : Device} {id : DeviceId} (distinct : Distinct a.machine)
    (added : a.addInstance tag typeName clock parent device = .ok (b, id)) : Distinct b.machine := by
  obtain ⟨tree, placed, rfl⟩ := addInstanceInv added
  have units := (seatSame a.machine device).2.2
  have same : (Assembly.seat a.machine device).1.tree = a.machine.tree := seatTree a.machine device
  have seated : Distinct (Assembly.seat a.machine device).1 :=
    ⟨by rw [units]; exact distinct.apart, by rw [units, same]; exact distinct.known⟩
  have made := Tree.addInv (a := ⟨tag, typeName, clock, parent, (Assembly.seat a.machine device).2⟩)
    placed
  refine distinctAdded seated made (p := Assembly.processor id clock device) rfl ?_
  split
  · exact .inr rfl
  · exact .inl rfl

theorem assembledDistinct {a : Assembly} (h : Assembled a) : Distinct a.machine := by
  refine h.keeps (fun config => ?_) (fun memory distinct => ?_) (fun acts distinct => ?_)
    (fun index source distinct => ?_) fun _ => distinctInstance
  · exact ⟨(fun one _ _ => by cases one), (fun found => by cases found)⟩
  · exact ⟨distinct.apart, distinct.known⟩
  · exact distinctKept distinct (effectKept acts)
  · exact distinctKept distinct (.modifyUnit fun p _ => .still rfl rfl rfl rfl id)

end Machine

theorem assembledSight {a : Assembly} {unit : Nat} {p : Processor} {cpu : Acc8}
    (assembled : Assembled a) (found : a.machine.units[unit]? = some p)
    (seat : a.machine.cpu? p.device = some cpu) :
    Sight unit p.device a.machine none ⟨p.lines, cpu, .seated⟩ := by
  refine ⟨?_, fun i there => ?_, ?_, ⟨cpu, seat, fun _ => ⟨rfl, rfl⟩⟩, fun _ _ h => by cases h⟩
  · rw [Machine.devicesAt, found, Option.map_some]
  · rw [Machine.devicesAt] at there
    obtain ⟨q, row, same⟩ := Option.map_eq_some_iff.mp there
    exact (Machine.assembledDistinct assembled).apart row found same
  · rw [Machine.linesOf?, found, Option.map_some]

theorem assembledLife {a : Assembly} {marks : List Mark} {m : Machine} {unit : Nat} {p : Processor}
    {cpu : Acc8} (assembled : Assembled a) (found : a.machine.units[unit]? = some p)
    (seat : a.machine.cpu? p.device = some cpu) (chronicle : Chronicle a.machine marks m) :
    ∃ c, c.phase = .seated ∧
      Core.Life unit ⟨p.lines, cpu, .seated⟩ (about unit marks) c := by
  obtain ⟨c, seen, life⟩ := chronicleLife chronicle (assembledSight assembled found seat)
  obtain ⟨_, -, still⟩ := seen.seat
  exact ⟨c, (still rfl).2, life⟩

end Lockstep
