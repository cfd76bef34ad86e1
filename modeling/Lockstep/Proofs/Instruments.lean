import Lockstep.Proofs.Guises
import Mathlib.Logic.Function.Basic

/-! What a machine records of itself does not come back into it. Two machines that differ in
nothing but their counters, sinks and journals, and between slices in what is left of the budget,
give the same replies and go on to differ in nothing else, as long as no callback reads a
counter. -/
namespace Lockstep

def Bus.Space.counting {κ : Type} (s : Bus.Space κ) (counts : Nat × Nat) : Bus.Space κ :=
  { s with unmappedReads := counts.1, unmappedWrites := counts.2 }

structure Records where
  diag : Diag
  sink : Option String
  journal : Array Activity
  accesses : Nat → Nat × Nat
  budget : Int

def Machine.recording (m : Machine) (r : Records) : Machine :=
  { m with
    diag := r.diag
    sink := r.sink
    journal := r.journal
    budget := r.budget
    spaces := m.spaces.mapIdx fun index s => s.counting (r.accesses index) }

def Records.Fits (r : Records) (m : Machine) : Prop := m.frame ≠ none → r.budget = m.budget

def Records.traced (r : Records) (config : Config) (event : TraceEvent) : Records :=
  if config.tracing then
    match r.sink with
    | some sink => { r with journal := r.journal.push (.traced sink event) }
    | none => r
  else r

instance : Guise Records := ⟨Machine.recording, Records.Fits⟩

namespace Machine

section
variable {m : Machine}

theorem recordingConsumedIn {r : Records} {f : Frame} (fits : r.Fits m) (frame : m.frame = some f) :
    (Guise.wear m r).consumedIn f = m.consumedIn f := by
  change (m.recording r).consumedIn f = _
  unfold consumedIn
  rw [← fits (by rw [frame]; exact Option.some_ne_none f)]
  rfl

theorem recordingNow {r : Records} (fits : r.Fits m) : (Guise.wear m r).now = m.now := by
  have same : (Guise.wear m r).frame = m.frame := rfl
  unfold now
  rw [same]
  cases frame : m.frame with
  | none => rfl
  | some f =>
    dsimp only
    rw [recordingConsumedIn fits frame]
    rfl

theorem recordingSpace (m : Machine) (r : Records) (id : SpaceId) :
    (Guise.wear m r).space? id = (m.space? id).map (·.counting (r.accesses id.index)) := by
  change (m.recording r).space? id = _
  unfold space? recording
  rw [Array.getElem?_mapIdx]

theorem inertEnter (m : Machine) (entry : Activity) : Inert Records (·.enter entry) m :=
  ⟨rfl, fun r fits => ⟨{ r with journal := r.journal.push entry }, fits, rfl⟩⟩

theorem inertCount (m : Machine) (f : Diag → Diag) : Inert Records (·.count f) m :=
  ⟨rfl, fun r fits => ⟨{ r with diag := f r.diag }, fits, rfl⟩⟩

theorem inertTrace (m : Machine) (event : TraceEvent) : Inert Records (·.trace event) m := by
  have kept : (m.trace event).frame = m.frame ∧ (m.trace event).budget = m.budget ∧
      ∀ r, (m.trace event).recording r = m.recording r := by
    unfold trace
    split
    · split <;> exact ⟨rfl, rfl, fun _ => rfl⟩
    · exact ⟨rfl, rfl, fun _ => rfl⟩
  obtain ⟨frame, budget, same⟩ := kept
  refine ⟨frame, fun r fits => ⟨r.traced m.config event, fun running => ?_, ?_⟩⟩
  · dsimp only at running ⊢
    rw [frame] at running
    rw [budget, ← fits running]
    unfold Records.traced
    split
    · split <;> rfl
    · rfl
  · change (m.recording r).trace event = (m.trace event).recording (r.traced m.config event)
    rw [same]
    obtain ⟨diag, sink, journal, accesses, left⟩ := r
    dsimp only [trace, Records.traced, recording]
    split
    · cases sink <;> rfl
    · rfl

theorem modifyMapIdx {α : Type} {rows : Array α} {index : Nat} {f g : α → α} {k k' : Nat → α → α}
    (own : ∀ x, g (k index x) = k' index (f x)) (others : ∀ i, index ≠ i → k i = k' i) :
    (rows.mapIdx k).modify index g = (rows.modify index f).mapIdx k' := by
  refine Array.ext_getElem? fun i => ?_
  rw [Array.getElem?_modify, Array.getElem?_mapIdx, Array.getElem?_mapIdx, Array.getElem?_modify]
  by_cases here : index = i
  · subst here
    simp only [if_true, Option.map_map]
    exact congrArg (rows[index]?.map ·) (funext own)
  · simp only [here, if_false, others i here]

theorem inertSpace {f : Bus.Space Port → Bus.Space Port} (step : Nat × Nat → Nat × Nat)
    (m : Machine) (id : SpaceId) (counts : ∀ s n, f (s.counting n) = (f s).counting (step n)) :
    Inert Records (·.modifySpace id f) m := by
  refine ⟨rfl, fun r fits => ?_⟩
  let accesses := Function.update r.accesses id.index (step (r.accesses id.index))
  have moved : (m.spaces.mapIdx fun i s => s.counting (r.accesses i)).modify id.index f =
      (m.spaces.modify id.index f).mapIdx fun i s => s.counting (accesses i) := by
    refine modifyMapIdx (fun s => ?_) fun i away => ?_
    · simp only [accesses, Function.update_self]
      exact counts s _
    · simp only [accesses, Function.update_of_ne (Ne.symm away)]
  exact ⟨{ r with accesses }, fits, congrArg
    (fun spaces => { m.recording r with spaces }) moved⟩

instance : BusGuise Records where
  outer _ := rfl
  core {r m n} fits outside frame := by
    obtain ⟨budget, spaces, -, -, -⟩ := Outside.mk.inj outside
    refine ⟨fun running => (fits (frame ▸ running)).trans budget.symm, ?_⟩
    have same : (n.spaces.mapIdx fun i s => s.counting (r.accesses i)) =
        m.spaces.mapIdx fun i s => s.counting (r.accesses i) := by rw [spaces]
    exact congrArg (Outside.mk r.budget · r.diag r.sink r.journal) same
  now fits := recordingNow fits
  enter := inertEnter
  trace := inertTrace
  count := inertCount
  drive m id _ := inertSpace (fun n => n) m id fun _ _ => rfl
  countRead m id := inertSpace (fun n => (Word.add n.1 1, n.2)) m id fun _ _ => rfl
  countWrite m id := inertSpace (fun n => (n.1, Word.add n.2 1)) m id fun _ _ => rfl
  freeze m id := inertSpace (fun n => n) m id fun _ _ => rfl
  floating {r m} _ id address width := by
    rw [recordingSpace, Option.map_map]
    rfl

section
variable {call : Callback} (calls : ∀ s m, Blind Records m.frame (call s) m)
include calls

theorem blindReadRank (id : SpaceId) (rank : Nat) (address : Nat) (m : Machine) :
    Blind Records m.frame (readRank call id rank address) m := by
  induction rank generalizing address m with
  | zero =>
    refine blindGet (fun r _ => ?_) ?_
    · rw [recordingSpace]
      cases m.space? id <;> rfl
    · cases m.space? id with
      | none => exact blindPure _ rfl
      | some space => exact blindReadRegion _ _ _ _ _ _ fun _ _ _ => calls _ _
  | succ rank ih =>
    refine blindGet (fun r _ => ?_) ?_
    · rw [recordingSpace]
      cases m.space? id <;> rfl
    · cases m.space? id with
      | none => exact blindPure _ rfl
      | some space =>
        dsimp only
        split
        · refine blindBind (ih _ m) fun _ m' frame => ?_
          rw [← frame]
          exact blindBind (ih _ m') fun _ _ => blindPure _
        · exact blindReadRegion _ _ _ _ _ _ fun _ _ _ => calls _ _

theorem blindWriteRank (id : SpaceId) (rank : Nat) (address value : Nat) (m : Machine) :
    Blind Records m.frame (writeRank call id rank address value) m := by
  induction rank generalizing address value m with
  | zero =>
    refine blindGet (fun r _ => ?_) ?_
    · rw [recordingSpace]
      cases m.space? id <;> rfl
    · cases m.space? id with
      | none => exact blindPure _ rfl
      | some space => exact blindWriteRegion _ _ _ _ _ _ _ fun _ _ _ => calls _
  | succ rank ih =>
    refine blindGet (fun r _ => ?_) ?_
    · rw [recordingSpace]
      cases m.space? id <;> rfl
    · cases m.space? id with
      | none => exact blindPure _ rfl
      | some space =>
        dsimp only
        split
        · exact blindBind (ih _ _ m) fun _ m' frame => frame ▸ ih _ _ m'
        · exact blindWriteRegion _ _ _ _ _ _ _ fun _ _ _ => calls _

end

theorem countingInstall (s : Bus.Space Port) (counts : Nat × Nat) (memory : Memory)
    (first last : Nat) (handler : Bus.Handler Port) :
    (s.counting counts).install memory first last handler =
      (s.install memory first last handler).map (·.counting counts) := by
  unfold Bus.Space.install
  change (s.validate memory first last handler >>= _) = _
  cases s.validate memory first last handler with
  | error e => rfl
  | ok u =>
    have entries : (s.counting counts).entries = s.entries := rfl
    cases hit : (Bus.Space.upFrom s.entries first).head?.filter (·.first ≤ last) with
    | none =>
      simp only [bind, Except.bind, entries, hit]
      rfl
    | some other =>
      simp only [bind, Except.bind, entries, hit]
      rfl

theorem countingOverride (s : Bus.Space Port) (counts : Nat × Nat) (memory : Memory)
    (first last : Nat) (handler : Bus.Handler Port) :
    (s.counting counts).override memory first last handler =
      (s.override memory first last handler).map (·.counting counts) := by
  unfold Bus.Space.override
  change (s.validate memory first last handler >>= _) = _
  cases s.validate memory first last handler <;> rfl

theorem countingMapped (m : Machine) (r : Records) (id : SpaceId) (space : Bus.Space Port) :
    (m.recording r).modifySpace id (fun _ => space.counting (r.accesses id.index)) =
      (m.modifySpace id fun _ => space).recording r := by
  have moved : (m.spaces.mapIdx fun i s => s.counting (r.accesses i)).modify id.index
      (fun _ => space.counting (r.accesses id.index)) =
        (m.spaces.modify id.index fun _ => space).mapIdx fun i s => s.counting (r.accesses i) :=
    modifyMapIdx (fun _ => rfl) fun _ _ => rfl
  exact congrArg (fun spaces => { m.recording r with spaces }) moved

theorem recordingMap (m : Machine) (r : Records) (override : Bool) (id : SpaceId)
    (first last : Nat) (handler : Bus.Handler Port) :
    (Guise.wear m r).map override id first last handler =
      (m.map override id first last handler).map (·.recording r) := by
  unfold map
  rw [recordingSpace]
  cases m.space? id with
  | none => rfl
  | some space =>
    have memory : (Guise.wear m r).memory = m.memory := rfl
    simp only [Option.map_some, countingInstall, countingOverride, memory]
    cases override with
    | true =>
      simp only [if_true]
      cases space.override m.memory first last handler with
      | error e => rfl
      | ok s => exact congrArg Except.ok (countingMapped m r id s)
    | false =>
      simp only [Bool.false_eq_true, if_false]
      cases space.install m.memory first last handler with
      | error e => rfl
      | ok s => exact congrArg Except.ok (countingMapped m r id s)

theorem toldMap (override : Bool) (id : SpaceId) (first last : Nat) (handler : Bus.Handler Port)
    (m : Machine) : Told Records (·.map override id first last handler) m := by
  intro r fits
  dsimp only
  rw [recordingMap]
  cases mapped : m.map override id first last handler with
  | error e => exact .inl ⟨e, rfl, rfl⟩
  | ok m' =>
    have same : m'.frame = m.frame ∧ m'.budget = m.budget := by
      obtain rfl | ⟨_, _, -, rfl⟩ := mapInv mapped <;> exact ⟨rfl, rfl⟩
    exact .inr ⟨m', r, rfl, same.1, fun running => (fits (same.1 ▸ running)).trans same.2.symm, rfl⟩

end

def discreet : Rule := fun _ command =>
  match command with
  | .counters | .describeSpace _ => false
  | _ => true

theorem discreetShrouds : Shrouds Records discreet := by
  refine ⟨fun _ _ => rfl, fun {call command m} calls outer allowed => ?_⟩
  cases command with
  | counters | describeSpace => cases allowed
  | read route address width =>
    unfold Command.run
    exact blindOnSpace fun id _ =>
      blindBind (blindReadRank calls id _ _ m) fun _ _ => blindPure _
  | write route address width value =>
    unfold Command.run
    exact blindOnSpace fun id _ =>
      blindBind (blindWriteRank calls id _ _ _ m) fun _ _ => blindPure _
  | map override route first last target =>
    exact blindMap fun id handler _ => toldMap override id first last handler m
  | freeze route =>
    unfold Command.run
    exact blindOnSpace fun id _ =>
      blindBind (blindModify (BusGuise.freeze m id)) fun _ _ => blindPure _
  | ranges | rangeAt | floating =>
    unfold Command.run
    refine blindOnSpace fun id _ => blindLook fun r _ => ?_
    rw [recordingSpace]
    cases m.space? id <;> rfl
  | _ => cases outer

end Machine

end Lockstep
