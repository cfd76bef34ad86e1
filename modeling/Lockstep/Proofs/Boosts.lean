import Lockstep.Proofs.Fixtures

/-! Requests to shorten the quantum. A machine knows the latest one only, by its quantum and by
when it ends, so a request counts until the next one is made and no longer. The quantum is
never longer than the settings say; it is as short as a request asked for while all later ones
ask for no more and last as long; and it is that of the settings once the latest one is over. -/
namespace Lockstep

structure Haste where
  quantum : Time
  duration : Time
  made : Time
  deriving DecidableEq

namespace Haste

def ends (h : Haste) : Time := h.made + h.duration

def Covers (h : Haste) (time : Time) : Prop := h.made ≤ time ∧ time < h.ends

instance (h : Haste) (time : Time) : Decidable (h.Covers time) := by
  unfold Covers; infer_instance

def boost (h : Haste) : Boost := ⟨h.quantum, h.ends⟩

end Haste

namespace Machine

def unhurried : Rule
  | _, .boostInterleave .. => false
  | _, _ => true

inductive Fitting : Machine → Machine → Prop where
  | device {a b : Assembly} {tag typeName clock parent device id}
      (added : a.addInstance tag typeName clock parent device = .ok (b, id)) :
      Fitting a.machine b.machine
  | space {m} (spec : SpaceSpec) : Fitting m (m.newSpace spec).1
  | memory {m} (memory : Memory) : Fitting m { m with memory }
  | map {m m' override id first last handler}
      (ok : m.map override id first last handler = .ok m') : Fitting m m'
  | vectors {m} (index : Nat) (source : Option (Nat → Script)) :
      Fitting m (m.modifyUnit index fun p => { p with lines := { p.lines with source } })

/-- A machine with all requests that have been made of it, in order. -/
inductive Hurried (config : Config) : List Haste → Machine → Prop where
  | new : Hurried config [] { config }
  | fitting {hastes m m'} (before : Hurried config hastes m) (h : Fitting m m') :
      Hurried config hastes m'
  | step {hastes m m'} (before : Hurried config hastes m) (h : Step unhurried m m') :
      Hurried config hastes m'
  | haste {hastes m} (before : Hurried config hastes m) (quantum duration : Time) :
      Hurried config (hastes ++ [⟨quantum, duration, m.now⟩]) (m.boostInterleave quantum duration)

variable {a b m m' : Machine} {config : Config} {hastes : List Haste}

theorem mapPace {override : Bool} {id : SpaceId} {first last : Nat} {handler : Bus.Handler Port}
    (ok : m.map override id first last handler = .ok m') : m'.pace = m.pace := by
  obtain rfl | ⟨s, entries, -, rfl⟩ := mapInv ok
  · rfl
  · rfl

theorem fittingPace (h : Fitting a b) : b.pace = a.pace := by
  cases h with
  | device added =>
    rename_i a b tag typeName clock parent device id
    obtain ⟨tree, -, rfl⟩ := addInstanceInv added
    have seated : (Assembly.seat a.machine device).1.pace = a.machine.pace := by
      unfold Assembly.seat
      generalize Bus.SpaceKind.all.filterMap device.spaceOf? = specs
      generalize ({ device } : Seat) = seat
      generalize a.machine = m
      induction specs generalizing m seat with
      | nil => rfl
      | cons spec rest ih => exact ih _ (m.newSpace spec).1
    exact seated
  | map ok => exact mapPace ok
  | space | memory | vectors => rfl

theorem adjustPace (m : Machine) (id : Timer.Id) (delay period : Time) :
    (m.adjustTimer id delay period).1.pace = m.pace := by
  unfold adjustTimer
  dsimp only
  split
  · exact paceRestarts.cut ..
  · rfl

theorem deedPace {command : Command} (allowed : unhurried a command = true)
    (deed : Deed command a b) : b.pace = a.pace := by
  cases deed with
  | boostInterleave => cases allowed
  | map _ _ ok => exact mapPace ok
  | schedule | scheduleCycles => exact paceRestarts.cut ..
  | adjustTimer => exact adjustPace ..
  | driveLine ok => exact paceRestarts.driveLine ok
  | suspend ok => exact paceRestarts.suspend ok
  | resume ok => exact paceRestarts.resume ok
  | spin ok => exact paceRestarts.spin ok
  | driveReset ok => exact paceRestarts.driveReset ok
  | requestYield => exact paceRestarts.yield _
  | setRegister ok =>
    obtain ⟨d, d', -, -, rfl⟩ := setRegisterInv ok
    rfl
  | emit => exact tracePace ..
  | _ => rfl

theorem stepPace (step : Step unhurried a b) : b.pace = a.pace := by
  cases step with
  | deed allowed deed => exact deedPace allowed deed
  | touch h => exact touchPace h
  | tick h => exact tickPace h
  | lend | giveBack | pop | wait => rfl

theorem stepFree (step : Step free a b) : Step unhurried a b ∨ b = a ∨
    ∃ quantum duration, b = a.boostInterleave quantum duration := by
  cases step with
  | deed passed deed =>
    rename_i command
    by_cases allowed : unhurried a command = true
    · exact .inl (.deed allowed deed)
    · cases deed with
      | boostInterleave quantum duration => exact .inr (.inr ⟨quantum, duration, rfl⟩)
      | still => exact .inr (.inl rfl)
      | _ => exact absurd rfl allowed
  | touch h => exact .inl (.touch h)
  | tick h => exact .inl (.tick h)
  | lend idle => exact .inl (.lend idle)
  | giveBack id => exact .inl (.giveBack id)
  | pop due => exact .inl (.pop due)
  | wait none => exact .inl (.wait none)

theorem reachableHurried (reachable : Reachable free m) :
    ∃ config hastes, Hurried config hastes m := by
  induction reachable with
  | new config => exact ⟨config, [], .new⟩
  | device _ added ih =>
    obtain ⟨config, hastes, before⟩ := ih
    exact ⟨config, hastes, before.fitting (.device added)⟩
  | space spec _ ih =>
    obtain ⟨config, hastes, before⟩ := ih
    exact ⟨config, hastes, before.fitting (.space spec)⟩
  | block _ _ _ ih | bank _ _ _ ih | looseBank _ _ ih | select _ _ ih =>
    obtain ⟨config, hastes, before⟩ := ih
    exact ⟨config, hastes, before.fitting (.memory _)⟩
  | map _ ok _ ih =>
    obtain ⟨config, hastes, before⟩ := ih
    exact ⟨config, hastes, before.fitting (.map ok)⟩
  | vectors index source _ ih =>
    obtain ⟨config, hastes, before⟩ := ih
    exact ⟨config, hastes, before.fitting (.vectors index source)⟩
  | step _ step ih =>
    obtain ⟨config, hastes, before⟩ := ih
    obtain passed | rfl | ⟨quantum, duration, rfl⟩ := stepFree step
    · exact ⟨config, hastes, before.step passed⟩
    · exact ⟨config, hastes, before⟩
    · exact ⟨config, _, before.haste quantum duration⟩

theorem hurriedPace (hurried : Hurried config hastes m) :
    m.pace = (config, hastes.getLast?.map Haste.boost) := by
  induction hurried with
  | new => rfl
  | fitting _ h ih => exact (fittingPace h).trans ih
  | step _ h ih => exact (stepPace h).trans ih
  | @haste hastes m before quantum duration ih =>
    have set : (m.boostInterleave quantum duration).pace =
        (m.config, some ⟨quantum, m.now + duration⟩) := paceRestarts.yield _
    rw [set, List.getLast?_concat, show m.config = config from congrArg Prod.fst ih]
    rfl

theorem hurriedQuantum (hurried : Hurried config hastes m) (time : Time) :
    m.quantumAt time = match hastes.getLast? with
      | some last => if time < last.ends then min last.quantum config.quantum else config.quantum
      | none => config.quantum := by
  obtain ⟨settings, boost⟩ := Prod.mk.inj (hurriedPace hurried)
  unfold quantumAt
  rw [settings, boost]
  cases hastes.getLast? <;> rfl

theorem quantumTight (hurried : Hurried config hastes m) (time : Time) :
    m.quantumAt time ≤ config.quantum := by
  rw [hurriedQuantum hurried]
  cases hastes.getLast? with
  | none => exact Nat.le_refl _
  | some last =>
    dsimp only
    split
    · rw [Time.le_def, Time.attos_min]
      exact Nat.min_le_right ..
    · exact Nat.le_refl _

theorem quantumMet {earlier later : List Haste} {h : Haste} {time : Time}
    (hurried : Hurried config (earlier ++ h :: later) m) (covers : h.Covers time)
    (met : ∀ other ∈ later, time < other.ends ∧ other.quantum ≤ h.quantum) :
    m.quantumAt time ≤ h.quantum := by
  have last : ∃ last, (earlier ++ h :: later).getLast? = some last ∧
      time < last.ends ∧ last.quantum ≤ h.quantum := by
    rw [List.getLast?_append_of_ne_nil _ (List.cons_ne_nil h later)]
    cases after : later.getLast? with
    | none =>
      rw [List.getLast?_eq_none_iff] at after
      subst after
      exact ⟨h, rfl, covers.2, Nat.le_refl _⟩
    | some other =>
      refine ⟨other, ?_, met other (List.mem_of_getLast? after)⟩
      rw [List.getLast?_cons, after]
      rfl
  obtain ⟨last, latest, within, short⟩ := last
  rw [hurriedQuantum hurried, latest]
  dsimp only
  rw [if_pos within, Time.le_def, Time.attos_min]
  exact Nat.le_trans (Nat.min_le_left ..) short

theorem quantumOver {time : Time} (hurried : Hurried config hastes m)
    (made : ∀ last ∈ hastes.getLast?, last.made ≤ time) (none : ∀ h ∈ hastes, ¬ h.Covers time) :
    m.quantumAt time = config.quantum := by
  rw [hurriedQuantum hurried]
  cases latest : hastes.getLast? with
  | none => rfl
  | some last =>
    have ended : ¬ time < last.ends := fun within =>
      none last (List.mem_of_getLast? latest) ⟨made last latest, within⟩
    exact if_neg ended

/-- Requests to shorten the quantum tighten it, as far as one of them counts at a time: the
quantum never exceeds that of the settings, a request is met until a later one loosens it or is
over, and once the latest has been made and none covers a time, the settings hold there. -/
theorem hasteTightens (m : Machine) :
    (Reachable free m → ∃ hastes, Hurried m.config hastes m) ∧
    ∀ config hastes, Hurried config hastes m → ∀ time,
      (m.quantumAt time = match hastes.getLast? with
        | some last => if time < last.ends then min last.quantum config.quantum else config.quantum
        | none => config.quantum) ∧
      m.quantumAt time ≤ config.quantum ∧
      (∀ earlier h later, hastes = earlier ++ h :: later → h.Covers time →
        (∀ other ∈ later, time < other.ends ∧ other.quantum ≤ h.quantum) →
          m.quantumAt time ≤ h.quantum) ∧
      ((∀ last ∈ hastes.getLast?, last.made ≤ time) → (∀ h ∈ hastes, ¬ h.Covers time) →
        m.quantumAt time = config.quantum) := by
  refine ⟨fun reachable => ?_, fun config hastes hurried time =>
    ⟨hurriedQuantum hurried time, quantumTight hurried time, ?_, quantumOver hurried⟩⟩
  · obtain ⟨config, hastes, hurried⟩ := reachableHurried reachable
    have settings : m.config = config := congrArg Prod.fst (hurriedPace hurried)
    exact ⟨hastes, settings ▸ hurried⟩
  · rintro earlier h later rfl covers met
    exact quantumMet hurried covers met

def rushed (first second : Haste) : Machine :=
  (({ config := {} } : Machine).boostInterleave first.quantum first.duration).boostInterleave
    second.quantum second.duration

theorem rushedHurried {first second : Haste} (start : first.made = .zero)
    (still : second.made = .zero) : Hurried {} [first, second] (rushed first second) := by
  obtain ⟨quantum, duration, made⟩ := first
  obtain ⟨quantum', duration', made'⟩ := second
  cases start
  cases still
  exact (Hurried.new.haste quantum duration).haste quantum' duration'

def brief : Haste := ⟨.ofMicros 1, .ofMicros 100, .zero⟩
def slack : Haste := ⟨.ofMicros 50, .ofMicros 10, .zero⟩
def broad : Haste := ⟨.ofMicros 50, .ofMicros 100, .zero⟩

/-- The second request loosens what the first asked for, and takes it away when it is over. -/
theorem hasteLoosened : Hurried {} [brief, slack] (rushed brief slack) ∧
    brief.Covers (.ofMicros 5) ∧ (rushed brief slack).quantumAt (.ofMicros 5) = slack.quantum ∧
    brief.Covers (.ofMicros 20) ∧
    (rushed brief slack).quantumAt (.ofMicros 20) = Config.quantum {} ∧
    brief.quantum < slack.quantum ∧ brief.quantum < Config.quantum {} :=
  ⟨rushedHurried rfl rfl, by decide +kernel⟩

theorem hasteMet : Hurried {} [broad, brief] (rushed broad brief) ∧
    (rushed broad brief).quantumAt (.ofMicros 5) ≤ broad.quantum ∧
    (rushed broad brief).quantumAt (.ofMicros 100) = Config.quantum {} := by
  have hurried : Hurried {} [broad, brief] (rushed broad brief) := rushedHurried rfl rfl
  have holds := (hasteTightens _).2 {} _ hurried
  exact ⟨hurried, (holds (.ofMicros 5)).2.2.1 [] broad [brief] rfl (by decide +kernel)
      (by decide +kernel),
    (holds (.ofMicros 100)).2.2.2 (by decide +kernel) (by decide +kernel)⟩

end Machine

end Lockstep
