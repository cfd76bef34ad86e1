import Lockstep.Proofs.Guises
import Lockstep.Proofs.Seams
import Lockstep.Proofs.WideAccess

/-! Machines with ranges that are mapped to nothing. As long as no access crosses the end of one
where the bus behind it is open, such a machine goes as if nothing had been mapped there: it reads
and stores the same, calls the same ports and counts the same. -/
namespace Lockstep
open Bus (Laid Part Space Width)

inductive Access where
  | read (address : Nat) (width : Width)
  | write (address : Nat) (width : Width) (value : Nat)
  deriving DecidableEq, Repr

namespace Access

def level (s : Space Port) : Access → Bool
  | .read address width | .write address width _ => s.level width.rank address

def run (call : Callback) (id : SpaceId) : Access → Run (Option Nat)
  | .read address width => do return some (← Machine.read call id address width)
  | .write address width value => do
      Machine.write call id address width value
      return none

end Access

namespace Machine

def accessAll (call : Callback) (id : SpaceId) (accesses : List Access) : Run (List (Option Nat)) :=
  accesses.mapM (·.run call id)

def pruned (m : Machine) (id : SpaceId) : Machine := m.modifySpace id (·.pruned)

end Machine

inductive Pruning (id : SpaceId) (s : Space Port) : Type
  | pruned

instance (id : SpaceId) (s : Space Port) : Guise (Pruning id s) :=
  ⟨fun m _ => m.pruned id, fun _ m => m.Shows id s⟩

namespace Machine

def EvenPort (call : Callback) (id : SpaceId) (s : Space Port) (port : Port) : Prop :=
  ∀ offset width m, Blind (Pruning id s) m.frame (call (port.onRead offset width)) m ∧
    ∀ value, Blind (Pruning id s) m.frame (call (port.onWrite offset width value)) m

def Even (call : Callback) (id : SpaceId) (s : Space Port) : Prop :=
  ∀ e ∈ s.entries, ∀ port, e.handler = .port port → EvenPort call id s port

def seamless (id : SpaceId) (s : Space Port) : Rule := fun m command =>
  match command with
  | .map _ route .. | .ranges route | .rangeAt route _ => (m.resolve route).toOption != some id
  | .read route address width | .write route address width _ =>
      (m.resolve route).toOption != some id || s.level width.rank address
  | _ => true

section
variable {id other : SpaceId} {s t : Space Port} {m m' : Machine} {call : Callback}
  {rank address : Nat}

theorem prunedOther (apart : other ≠ id) : (m.pruned id).space? other = m.space? other := by
  unfold pruned modifySpace space?
  rw [Array.getElem?_modify, if_neg fun same => apart (congrArg SpaceId.mk same.symm)]

theorem prunedOwn (m : Machine) (id : SpaceId) :
    (m.pruned id).space? id = (m.space? id).map (·.pruned) := by
  unfold pruned modifySpace space?
  rw [Array.getElem?_modify, if_pos rfl]

theorem prunedShown {α : Type} {f : Space Port → α} (same : ∀ t, f t.pruned = f t)
    (other : SpaceId) : ((m.pruned id).space? other).map f = (m.space? other).map f := by
  by_cases own : other = id
  · rw [own, prunedOwn, Option.map_map]
    exact congrArg (Option.map · _) (funext same)
  · rw [prunedOther own]

theorem modifySwap {α : Type} (xs : Array α) {i j : Nat} {f h : α → α}
    (same : i = j → ∀ x, h (f x) = f (h x)) :
    (xs.modify i f).modify j h = (xs.modify j h).modify i f := by
  refine Array.ext_getElem? fun k => ?_
  simp only [Array.getElem?_modify]
  by_cases left : i = k
  · by_cases right : j = k
    · simp only [left, right, if_true, Option.map_map]
      exact congrArg (Option.map · _) (funext (same (left.trans right.symm)))
    · simp only [left, right, if_true, if_false]
  · simp only [left, if_false]

theorem prunedModify (m : Machine) {f : Space Port → Space Port}
    (same : other = id → ∀ t, (f t).pruned = f t.pruned) :
    (m.pruned id).modifySpace other f = (m.modifySpace other f).pruned id :=
  congrArg (fun spaces => { m with spaces }) (modifySwap m.spaces fun own t =>
    (same (congrArg SpaceId.mk own.symm) t).symm)

theorem prunedTrace (m : Machine) (event : TraceEvent) :
    (m.pruned id).trace event = (m.trace event).pruned id := by
  cases tracing : m.config.tracing with
  | false => simp [trace, pruned, modifySpace, tracing]
  | true =>
    cases sink : m.sink <;> simp [trace, pruned, modifySpace, enter, tracing, sink]

theorem inertTurn {f : Space Port → Space Port} (layout : ∀ t, (f t).layout = t.layout)
    (same : ∀ t, (f t).pruned = f t.pruned) (m : Machine) (other : SpaceId) :
    Inert (Pruning id s) (·.modifySpace other f) m :=
  ⟨rfl, fun g fits => ⟨g, showsModify other layout fits, prunedModify m fun _ => same⟩⟩

instance (id : SpaceId) (s : Space Port) : BusGuise (Pruning id s) where
  outer _ := rfl
  core {g m n} fits outside frame := by
    obtain ⟨budget, spaces, diag, sink, journal⟩ := Outside.mk.inj outside
    constructor
    · change (n.spaces[id.index]?).map (·.layout) = _
      rw [spaces]
      exact fits
    · change Outside.mk n.budget (n.spaces.modify _ _) n.diag n.sink n.journal = _
      rw [budget, spaces, diag, sink, journal]
      rfl
  now _ := rfl
  enter m entry := ⟨rfl, fun g fits => ⟨g, fits, rfl⟩⟩
  trace m event := by
    obtain ⟨diag, journal, noted⟩ := notedTrace m event
    have frame : (m.trace event).frame = m.frame := by rw [noted]
    refine ⟨frame, fun g fits => ⟨g, ?_, prunedTrace m event⟩⟩
    change (m.trace event).Shows id s
    rw [noted]
    exact fits
  count m f := ⟨rfl, fun g fits => ⟨g, fits, rfl⟩⟩
  drive m other value := inertTurn (f := (·.drive value)) (fun _ => rfl) (fun _ => rfl) m other
  countRead := inertTurn (fun _ => rfl) fun _ => rfl
  countWrite := inertTurn (fun _ => rfl) fun _ => rfl
  freeze := inertTurn (fun _ => rfl) fun _ => rfl
  floating _ other _ _ := prunedShown (fun _ => rfl) other

theorem readPruned (laid : Laid t.shape.maxAddress t.entries) (call : Callback) (id : SpaceId)
    (a address : Nat) (w : Width) :
    readRegion call id t.pruned (t.pruned.region a) address w =
      readRegion call id t (t.region a) address w := by
  obtain ⟨handler, origin⟩ := Space.regionPruned laid a
  rw [readRegionLike (s := t) rfl]
  exact readRegionSame call id t handler origin address w

theorem writePruned (laid : Laid t.shape.maxAddress t.entries) (call : Callback) (id : SpaceId)
    (a address : Nat) (w : Width) (value : Nat) :
    writeRegion call id t.pruned (t.pruned.region a) address w value =
      writeRegion call id t (t.region a) address w value := by
  obtain ⟨handler, origin⟩ := Space.regionPruned laid a
  rw [writeRegionLike (s := t) rfl]
  exact writeRegionSame call id t handler origin address w value

theorem lookPruned (other : SpaceId) {g : Pruning id s} (shows_ : m.Shows id s) :
    other ≠ id ∧ (Guise.wear m g).space? other = m.space? other ∨
    other = id ∧ ∃ t, m.space? other = some t ∧ t.layout = s.layout ∧
      (Guise.wear m g).space? other = some t.pruned := by
  by_cases own : other = id
  · subst own
    obtain ⟨t, found, layout⟩ := Option.map_eq_some_iff.mp shows_
    refine .inr ⟨rfl, t, found, layout, (prunedOwn m other).trans ?_⟩
    rw [found, Option.map_some]
  · exact .inl ⟨own, prunedOther own⟩

theorem layoutOwn (shows_ : m.Shows id s) (found : m.space? other = some t) (own : other = id) :
    t.layout = s.layout := by
  subst own
  unfold Shows at shows_
  rw [found] at shows_
  exact Option.some.inj shows_

theorem laidLike (layout : t.layout = s.layout) (laid : Laid s.shape.maxAddress s.entries) :
    Laid t.shape.maxAddress t.entries := by
  obtain ⟨shape, entries⟩ := Prod.mk.inj layout
  rw [shape, entries]
  exact laid

theorem levelShown (layout : t.layout = s.layout) (level : s.level (rank + 1) address = true) :
    t.pruned.mustSplit (t.pruned.region (t.shape.wrap address)) (t.shape.wrap address)
        (Width.ofRank (rank + 1)) =
      t.mustSplit (t.region (t.shape.wrap address)) (t.shape.wrap address)
        (Width.ofRank (rank + 1)) ∧
    (t.mustSplit (t.region (t.shape.wrap address)) (t.shape.wrap address)
        (Width.ofRank (rank + 1)) = true →
      s.level rank (t.shape.wrap address) = true ∧ s.level rank
        (t.shape.wrap (t.shape.wrap address + (Width.ofRank rank).bytes)) = true) := by
  obtain ⟨shape, entries⟩ := Prod.mk.inj layout
  have like := Space.levelLike shape entries
  rw [← like] at level
  obtain ⟨same, halves⟩ := Space.levelNext.mp level
  refine ⟨same.symm, fun split => ?_⟩
  rw [← like, ← like]
  exact halves split

section
variable (laid : Laid s.shape.maxAddress s.entries) (ports : ∀ (t : Space Port) (a : Nat) port,
  (other = id → t.layout = s.layout) → (t.region a).handler = .port port →
    EvenPort call id s port)
include laid ports

theorem prunedReadRank (rank address : Nat) (m : Machine)
    (level : other = id → s.level rank address = true) :
    Blind (Pruning id s) m.frame (readRank call other rank address) m := by
  induction rank generalizing address m with
  | zero =>
    refine fun g fits => blindGet (fun g _ => ?_) ?_ g fits
    · rcases lookPruned other fits with ⟨-, same⟩ | ⟨-, t, found, layout, same⟩
      · rw [same]
      · rw [same, found]
        exact readPruned (laidLike layout laid) ..
    · cases found : m.space? other with
      | none => exact blindPure _ rfl
      | some t =>
        exact blindReadRegion _ _ _ _ _ _ fun port handler offset =>
          (ports t _ port (layoutOwn fits found) handler offset _ m).1
  | succ rank ih =>
    refine fun g fits => blindGet (fun g _ => ?_) ?_ g fits
    · rcases lookPruned other fits with ⟨-, same⟩ | ⟨own, t, found, layout, same⟩
      · rw [same]
      · rw [same, found]
        dsimp only
        rw [Space.prunedShape, (levelShown layout (level own)).1, readPruned (laidLike layout laid)]
    · cases found : m.space? other with
      | none => exact blindPure _ rfl
      | some t =>
        dsimp only
        split
        · rename_i split
          have halves := fun own => (levelShown (layoutOwn fits found own) (level own)).2 split
          refine blindBind (ih _ m fun own => (halves own).1) fun _ m' frame => ?_
          rw [← frame]
          exact blindBind (ih _ m' fun own => (halves own).2) fun _ _ => blindPure _
        · exact blindReadRegion _ _ _ _ _ _ fun port handler offset =>
            (ports t _ port (layoutOwn fits found) handler offset _ m).1

theorem prunedWriteRank (rank address value : Nat) (m : Machine)
    (level : other = id → s.level rank address = true) :
    Blind (Pruning id s) m.frame (writeRank call other rank address value) m := by
  induction rank generalizing address value m with
  | zero =>
    refine fun g fits => blindGet (fun g _ => ?_) ?_ g fits
    · rcases lookPruned other fits with ⟨-, same⟩ | ⟨-, t, found, layout, same⟩
      · rw [same]
      · rw [same, found]
        exact writePruned (laidLike layout laid) ..
    · cases found : m.space? other with
      | none => exact blindPure _ rfl
      | some t =>
        exact blindWriteRegion _ _ _ _ _ _ _ fun port handler offset m =>
          (ports t _ port (layoutOwn fits found) handler offset _ m).2 _
  | succ rank ih =>
    refine fun g fits => blindGet (fun g _ => ?_) ?_ g fits
    · rcases lookPruned other fits with ⟨-, same⟩ | ⟨own, t, found, layout, same⟩
      · rw [same]
      · rw [same, found]
        dsimp only
        rw [Space.prunedShape, (levelShown layout (level own)).1,
          writePruned (laidLike layout laid)]
    · cases found : m.space? other with
      | none => exact blindPure _ rfl
      | some t =>
        dsimp only
        split
        · rename_i split
          have halves := fun own => (levelShown (layoutOwn fits found own) (level own)).2 split
          exact blindBind (ih _ _ m fun own => (halves own).1) fun _ m' frame =>
            frame ▸ ih _ _ m' fun own => (halves own).2
        · exact blindWriteRegion _ _ _ _ _ _ _ fun port handler offset m =>
            (ports t _ port (layoutOwn fits found) handler offset _ m).2 _

end

theorem ofOptionMap {α β : Type} (f : β → Reply) (h : α → β) (row : Option α) :
    Reply.ofOption (f ∘ h) row = Reply.ofOption f (row.map h) := by
  cases row <;> rfl

theorem prunedMap (apart : other ≠ id) (override : Bool) (first last : Nat)
    (handler : Bus.Handler Port) : (m.pruned id).map override other first last handler =
      (m.map override other first last handler).map (·.pruned id) := by
  unfold map
  rw [prunedOther apart]
  cases m.space? other with
  | none => rfl
  | some t =>
    have memory : (m.pruned id).memory = m.memory := rfl
    have placed : ∀ mapped : Except ConfigError (Space Port),
        (mapped >>= fun t => pure ((m.pruned id).modifySpace other fun _ => t)) =
          (mapped >>= fun t => pure (m.modifySpace other fun _ => t)).map (·.pruned id) := by
      rintro (e | t)
      · rfl
      · exact congrArg Except.ok (prunedModify m fun own => absurd own apart)
    dsimp only
    rw [memory]
    cases override with
    | true => exact placed _
    | false => exact placed _

theorem toldPruned (apart : other ≠ id) (override : Bool) (first last : Nat)
    (handler : Bus.Handler Port) (m : Machine) :
    Told (Pruning id s) (·.map override other first last handler) m := by
  intro g fits
  have same : (Guise.wear m g).map override other first last handler =
      (m.map override other first last handler).map (·.pruned id) := prunedMap apart ..
  dsimp only
  rw [same]
  cases mapped : m.map override other first last handler with
  | error e => exact .inl ⟨e, rfl, rfl⟩
  | ok m' =>
    have frame : m'.frame = m.frame := by
      obtain rfl | ⟨_, _, -, rfl⟩ := mapInv mapped <;> rfl
    exact .inr ⟨m', g, rfl, frame, mapShows apart mapped fits, rfl⟩

theorem seamlessShrouds (laid : Laid s.shape.maxAddress s.entries) :
    Shrouds (Pruning id s) (seamless id s) := by
  refine ⟨fun command _ => by cases command <;> rfl, fun {call command m} calls outer allowed => ?_⟩
  have away : ∀ {route : Route} {other : SpaceId}, m.resolve route = .ok other →
      ((m.resolve route).toOption != some id) = true → other ≠ id := by
    intro route other routed apart
    simpa [routed, Except.toOption] using apart
  have even : ∀ port, EvenPort call id s port := fun _ _ _ m => ⟨calls _ m, fun _ => calls _ m⟩
  have ports : ∀ {other : SpaceId} (t : Space Port) (a : Nat) port,
      (other = id → t.layout = s.layout) → (t.region a).handler = .port port →
        EvenPort call id s port := fun _ _ port _ _ => even port
  cases command with
  | read route address width =>
    unfold Command.run
    refine blindOnSpace fun other routed =>
      blindBind (prunedReadRank laid ports _ _ m fun own => ?_) fun _ _ => blindPure _
    simpa [seamless, routed, own, Except.toOption] using allowed
  | write route address width value =>
    unfold Command.run
    refine blindOnSpace fun other routed =>
      blindBind (prunedWriteRank laid ports _ _ _ m fun own => ?_) fun _ _ => blindPure _
    simpa [seamless, routed, own, Except.toOption] using allowed
  | map override route first last target =>
    exact blindMap fun other handler routed =>
      toldPruned (away routed allowed) override first last handler m
  | freeze route =>
    unfold Command.run
    exact blindOnSpace fun other _ =>
      blindBind (blindModify (BusGuise.freeze m other)) fun _ _ => blindPure _
  | ranges route | rangeAt route address =>
    unfold Command.run
    refine blindOnSpace fun other routed => blindLook fun g _ => ?_
    rw [show (Guise.wear m g).space? other = m.space? other from prunedOther (away routed allowed)]
    rfl
  | floating route address width =>
    unfold Command.run
    refine blindOnSpace fun other _ => blindLook fun g fits => ?_
    have same := BusGuise.floating fits other address width
    rw [show (fun t : Space Port => Reply.word (t.floating address width)) =
      Reply.word ∘ (·.floating address width) from rfl, ofOptionMap, ofOptionMap, same]
  | describeSpace route =>
    unfold Command.run
    refine blindOnSpace fun other _ => blindLook fun g fits => ?_
    rw [ofOptionMap, ofOptionMap]
    exact congrArg _ (prunedShown (fun _ => rfl) other)
  | counters =>
    unfold Command.run
    exact blindLook fun _ _ => rfl
  | _ => cases outer

theorem blindAccesses (laid : Laid s.shape.maxAddress s.entries) (even : Even call id s)
    {accesses : List Access} (level : ∀ x ∈ accesses, x.level s = true) (m : Machine) :
    Blind (Pruning id s) m.frame (accessAll call id accesses) m := by
  have ports : ∀ (t : Space Port) (a : Nat) port, (id = id → t.layout = s.layout) →
      (t.region a).handler = .port port → EvenPort call id s port := by
    intro t a port layout
    have entries : t.entries = s.entries := (Prod.mk.inj (layout rfl)).2
    exact regionOf (P := fun h => h = .port port → EvenPort call id s port)
      (fun hole => by cases hole) (fun e mem => even e (entries ▸ mem) port) a
  induction accesses generalizing m with
  | nil => exact blindPure _ rfl
  | cons x rest ih =>
    obtain ⟨here, later⟩ := List.forall_mem_cons.mp level
    have one : Blind (Pruning id s) m.frame (x.run call id) m := by
      cases x with
      | read address width =>
        exact blindBind (prunedReadRank laid ports _ _ m fun _ => here) fun _ _ => blindPure _
      | write address width value =>
        exact blindBind (prunedWriteRank laid ports _ _ _ m fun _ => here) fun _ _ => blindPure _
    unfold accessAll
    rw [List.mapM_cons]
    refine blindBind one fun _ m' frame => ?_
    rw [← frame]
    exact blindBind (ih later m') fun _ _ => blindPure _

theorem runFree (rule : Rule) (depth : Nat) (id : SpaceId) {x : Access} {value : Option Nat}
    (ran : x.run (invokeUnder rule depth) id m = some (value, m')) :
    x.run (invoke depth) id m = some (value, m') := by
  cases x with
  | read address width =>
    simp only [Access.run] at ran ⊢
    obtain ⟨word, n, reads, rest⟩ := Run.bindInv ran
    rw [Run.bindSome ((ruledAccess rule id depth width address m).1 _ reads)]
    exact rest
  | write address width data =>
    simp only [Access.run] at ran ⊢
    obtain ⟨_, n, writes, rest⟩ := Run.bindInv ran
    rw [Run.bindSome ((ruledAccess rule id depth width address m).2 _ _ writes)]
    exact rest

theorem accessesFree (rule : Rule) (depth : Nat) (id : SpaceId) {accesses : List Access}
    {values : List (Option Nat)}
    (ran : accessAll (invokeUnder rule depth) id accesses m = some (values, m')) :
    accessAll (invoke depth) id accesses m = some (values, m') := by
  induction accesses generalizing m values with
  | nil =>
    obtain ⟨rfl, rfl⟩ := Run.pureInv ran
    rfl
  | cons x rest ih =>
    unfold accessAll at ran ⊢
    rw [List.mapM_cons] at ran ⊢
    obtain ⟨value, m₁, first, others⟩ := Run.bindInv ran
    obtain ⟨later, m₂, second, same⟩ := Run.bindInv others
    obtain ⟨rfl, rfl⟩ := Run.pureInv same
    rw [Run.bindSome (runFree rule depth id first)]
    exact Run.bindSome (ih second) _

theorem prunedSame {α : Type} {x : Run α} (blind : Blind (Pruning id s) m.frame x m)
    (shows_ : m.Shows id s) :
    x (m.pruned id) = (x m).map fun row => (row.1, row.2.pruned id) := by
  have agree := blind .pruned shows_
  change Agree _ _ (x m) (x (m.pruned id)) at agree
  generalize x m = left, x (m.pruned id) = right at agree
  cases agree <;> rfl

end

/-- A range that is mapped to nothing is a hole in the map as long as no access crosses a seam. An
access is level exactly if no part that it has over the bare hole runs across a seam; its parts are
then the same, and each does the same for any callbacks. Any other access has more of them, but no
more that lead somewhere. So level accesses one after the other read, store, drive, count and call
the same, if what the ports do is level too, as it is on a machine that keeps to the rule. -/
theorem holesUnseen {name : String} {shape : Bus.Shape} {edits : List (Bus.Edit Port)}
    {s : Space Port} {calls : List (Bus.Mapping Port)}
    (after : Space.editAll { name, shape } edits [] = (s, calls)) :
    (∀ w a, s.level w.rank a = true ↔ ∀ parts, s.pruned.Divided w a parts →
      ∀ p ∈ parts, ∀ b, p.address ≤ b → b < p.last → ¬ s.Seam b) ∧
    (∀ w a parts, s.Divided w a parts →
      (s.level w.rank a = true → s.pruned.Divided w a parts) ∧
      ∀ pruned, s.pruned.Divided w a pruned →
        parts.filter s.reaches = pruned.filter s.reaches ∧ pruned.length ≤ parts.length ∧
          (s.level w.rank a = true ↔ parts.length = pruned.length)) ∧
    (∀ call id p, readPart call id s.pruned p = readPart call id s p ∧
      ∀ value, writePart call id s.pruned p value = writePart call id s p value) ∧
    ∀ id, (∀ call, Even call id s → ∀ accesses, (∀ x ∈ accesses, x.level s = true) →
        ∀ m, m.Shows id s → accessAll call id accesses (m.pruned id) =
          (accessAll call id accesses m).map fun row => (row.1, row.2.pruned id)) ∧
      ∀ depth, Even (invokeUnder (seamless id s) depth) id s ∧
        (∀ m accesses row, accessAll (invokeUnder (seamless id s) depth) id accesses m = some row →
          accessAll (invoke depth) id accesses m = some row) ∧
        ∀ script m, m.Shows id s → invokeUnder (seamless id s) depth script (m.pruned id) =
          (invokeUnder (seamless id s) depth script m).map fun row => (row.1, row.2.pruned id) := by
  have laid := (Space.faithfulAll (Space.faithfulFresh name shape) edits).laid
  rw [after] at laid
  refine ⟨Space.levelIff laid, fun w a parts divided => ⟨fun level => ?_, fun pruned bare => ?_⟩,
    fun call id p => ⟨?_, fun value => ?_⟩, fun id => ⟨fun call even accesses level m => ?_,
      fun depth => ⟨?_, fun m accesses row => accessesFree _ _ _, fun script m => ?_⟩⟩⟩
  · exact (Space.levelDivided laid level).mp divided
  · exact ⟨Space.reachesSame laid divided bare, Space.levelParts laid divided bare⟩
  · exact readPruned laid ..
  · exact writePruned laid ..
  · exact prunedSame (blindAccesses laid even level m)
  · have shrouds : Shrouds (Pruning id s) (seamless id s) := seamlessShrouds laid
    have blind := shrouds.invoke depth
    exact fun _ _ _ _ _ _ m => ⟨blind _ m, fun _ => blind _ m⟩
  · exact prunedSame ((seamlessShrouds laid).invoke depth script m)

section
def cove : Port := .mk "cove" true true
  (fun offset _ => .step (.read (.direct ⟨0⟩) 0x0E .word) fun _ => .done (.word offset))
  fun _ _ _ => .ok

def coveEdits : List (Bus.Edit Port) :=
  let memory := Memory.putBlock {} (.zeroed "ram" 0x10)
  [.install memory 0x00 0x0F .unmapped, .install memory 0x20 0x23 (.port cove),
    .install memory 0x40 0x4F (.ram ⟨0⟩ 0), .override memory 0x44 0x45 .unmapped]

def coveSpace : Space Port :=
  (Space.editAll { name := "bus", shape := ⟨.program, 8, .word, .little, .addressLowByte⟩ }
    coveEdits []).1

def coveMachine : Machine :=
  { config := {}, spaces := #[coveSpace], memory := Memory.putBlock {} (.zeroed "ram" 0x10) }

def coveVisit : List Access :=
  [.read 0x0E .dword, .write 0x43 .word 0x1234, .write 0x44 .word 0x5678, .read 0x42 .qword,
    .read 0x22 .word]

theorem coveUnseen : (∀ x ∈ coveVisit, x.level coveSpace = true) ∧
    coveMachine.Shows ⟨0⟩ coveSpace ∧
    accessAll (invokeUnder (seamless ⟨0⟩ coveSpace) 2) ⟨0⟩ coveVisit (coveMachine.pruned ⟨0⟩) =
      (accessAll (invokeUnder (seamless ⟨0⟩ coveSpace) 2) ⟨0⟩ coveVisit coveMachine).map
        (fun row => (row.1, row.2.pruned ⟨0⟩)) ∧
    (accessAll (invokeUnder (seamless ⟨0⟩ coveSpace) 2) ⟨0⟩ coveVisit coveMachine).map (·.1) =
      some [some 0x10100E0E, none, none, some 0x44443400, some 2] := by
  have after : Space.editAll
      { name := "bus", shape := ⟨.program, 8, .word, .little, .addressLowByte⟩ } coveEdits [] =
        (coveSpace, _) := rfl
  obtain ⟨-, -, -, unseen⟩ := holesUnseen after
  have level : ∀ x ∈ coveVisit, x.level coveSpace = true := by decide +kernel
  refine ⟨level, rfl, ?_, ?_⟩
  · exact (unseen ⟨0⟩).1 _ ((unseen ⟨0⟩).2 2).1 _ level _ rfl
  · decide +kernel

def coveTells (m : Machine) : Option (List (Option Nat) × Option Nat) :=
  (accessAll (invoke 1) ⟨0⟩ [.read 0x0F .word] m).map fun row =>
    (row.1, (row.2.space? ⟨0⟩).map (·.unmappedReads))

theorem coveSeam : coveTells coveMachine = some ([some 0x100F], some 2) ∧
    coveTells (coveMachine.pruned ⟨0⟩) = some ([some 0x0F0F], some 1) := by decide +kernel

end

end Machine

end Lockstep
