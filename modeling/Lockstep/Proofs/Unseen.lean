import Lockstep.Machine.Inspect
import Lockstep.Proofs.Fixtures
import Lockstep.Proofs.Instruments

/-! What a snapshot leaves out of a machine. With it and the snapshot, a machine that has started
is known up to its records: two that agree in both and come from the same assembly differ in
nothing else. -/
namespace Lockstep

def Acc8.veiled (cpu : Acc8) : Acc8 :=
  { cpu with pc := 0, a := 0, x := 0, sp := 0, flags := {}, runState := .stopped }

namespace Timer

def Slot.veiled (s : Slot) : Slot :=
  if s.live then
    { s with
      generation := 0, owner := ⟨0⟩, param := 0, expire := .zero, period := .zero, enabled := false
      persistent := false }
  else s

theorem Slot.veiledSame {i : Nat} {s t : Slot} (same : t.veiled = s.veiled)
    (shown : s.live = true → Queue.info i t = Queue.info i s) : t = s := by
  have kept : ∀ r : Slot, r.veiled.live = r.live ∧ r.veiled.seq = r.seq := by
    intro r
    unfold veiled
    split <;> exact ⟨rfl, rfl⟩
  have live : t.live = s.live := by rw [← (kept t).1, same, (kept s).1]
  have seq : t.seq = s.seq := by rw [← (kept t).2, same, (kept s).2]
  unfold veiled at same
  rw [live] at same
  cases alive : s.live with
  | false =>
    rw [alive] at same
    exact same
  | true =>
    obtain ⟨id, owner, param, expire, period, enabled, persistent⟩ := Info.mk.inj (shown alive)
    obtain ⟨-, generation⟩ := Id.mk.inj id
    cases s
    cases t
    cases generation
    cases live
    cases owner
    cases param
    cases expire
    cases period
    cases enabled
    cases persistent
    cases seq
    rfl

namespace Queue

/-- A queue less its entries and its clock. -/
structure Unseen where
  nextSeq : Nat
  free : List Nat
  slots : List Slot
  deriving DecidableEq

def unseen (q : Queue) : Unseen := ⟨q.nextSeq, q.free, q.slots.toList.map Slot.veiled⟩

theorem infoInv {q : Queue} {x : Info} (mem : x ∈ q.entries) :
    ∃ s, q.slots[x.id.slot]? = some s ∧ x = info x.id.slot s := by
  rcases List.mem_append.mp mem with armed | idle
  · obtain ⟨key, -, row⟩ := List.mem_filterMap.mp armed
    obtain ⟨s, found, rfl⟩ := Option.map_eq_some_iff.mp row
    exact ⟨s, found, rfl⟩
  · obtain ⟨⟨s, i⟩, row, rfl⟩ := List.mem_map.mp idle
    have found : q.slots[i]? = some s := by
      simpa using List.mem_zipIdx_iff_getElem?.mp (List.mem_filter.mp row).1
    exact ⟨s, found, rfl⟩

theorem infoMem {q : Queue} (filed : q.Filed) {i : Nat} {s : Slot} (found : q.slots[i]? = some s)
    (live : s.live = true) : info i s ∈ q.entries := by
  cases enabled : s.enabled with
  | true =>
    have key : (⟨s.expire, s.seq, i⟩ : Key) ∈ q.order :=
      (filed.listed _).mpr (keyOf found live enabled)
    exact List.mem_append_left _ (List.mem_filterMap.mpr ⟨_, key, by simp [found]⟩)
  | false =>
    refine List.mem_append_right _ (List.mem_map.mpr ⟨(s, i), List.mem_filter.mpr ⟨?_, ?_⟩, rfl⟩)
    · exact List.mem_zipIdx_iff_getElem?.mpr (by simpa using found)
    · simp [live, enabled]

theorem sortedSame {xs ys : List Key} (left : xs.Pairwise Key.Before) (right : ys.Pairwise Key.Before)
    (same : ∀ key, key ∈ xs ↔ key ∈ ys) : xs = ys := by
  have distinct : ∀ {rows : List Key}, rows.Pairwise Key.Before → rows.Nodup := fun sorted =>
    sorted.imp fun before => by
      rintro rfl
      exact Key.beforeIrrefl _ before
  refine List.Perm.eq_of_pairwise (fun a b _ _ first second => ?_) left right
    ((List.perm_ext_iff_of_nodup (distinct left) (distinct right)).mpr same)
  exact absurd (Key.beforeTrans first second) (Key.beforeIrrefl a)

theorem unseenSame {p q : Queue} (sound : p.Filed) (sound' : q.Filed) (now : q.now = p.now)
    (entries : q.entries = p.entries) (unseen : q.unseen = p.unseen) : q = p := by
  obtain ⟨nextSeq, free, veiled⟩ := Unseen.mk.inj unseen
  have slots : q.slots = p.slots := by
    refine Array.ext_getElem? fun i => ?_
    have row : (q.slots[i]?).map Slot.veiled = (p.slots[i]?).map Slot.veiled := by
      simpa using congrArg (·[i]?) veiled
    cases found : p.slots[i]? with
    | none =>
      rw [found, Option.map_none, Option.map_eq_none_iff] at row
      exact row
    | some s =>
      rw [found, Option.map_some] at row
      obtain ⟨t, found', same⟩ := Option.map_eq_some_iff.mp row
      rw [found']
      refine congrArg some (Slot.veiledSame (i := i) same fun live => ?_)
      have listed := infoMem sound found live
      rw [← entries] at listed
      obtain ⟨t', row', shown⟩ := infoInv listed
      cases found'.symm.trans row'
      exact shown.symm
  have order : q.order = p.order := sortedSame sound'.sorted sound.sorted fun key => by
    rw [sound'.listed, sound.listed, slots]
  cases p
  cases q
  cases now
  cases nextSeq
  cases free
  cases slots
  cases order
  rfl

end Queue

end Timer

theorem shownAligned {ι α γ : Type} {f g : ι → Option α} {seen : α → γ} {ids : List ι}
    (alike : ∀ id, (f id).isSome = (g id).isSome)
    (shown : (ids.filterMap f).map seen = (ids.filterMap g).map seen) :
    ∀ id ∈ ids, (f id).map seen = (g id).map seen := by
  induction ids with
  | nil => exact fun _ mem => absurd mem List.not_mem_nil
  | cons first others ih =>
    have present := alike first
    rw [List.filterMap_cons, List.filterMap_cons] at shown
    cases left : f first with
    | none =>
      rw [left] at shown present
      have right : g first = none := by simpa using present.symm
      rw [right] at shown
      intro id mem
      rcases List.mem_cons.mp mem with rfl | mem
      · rw [left, right]
      · exact ih shown id mem
    | some x =>
      rw [left] at shown present
      obtain ⟨y, right⟩ := Option.isSome_iff_exists.mp present.symm
      rw [right] at shown
      obtain ⟨same, rest⟩ := List.cons.inj shown
      intro id mem
      rcases List.mem_cons.mp mem with rfl | mem
      · rw [left, right]
        exact congrArg some same
      · exact ih rest id mem

theorem rowsSame {ι α β γ δ : Type} [DecidableEq ι] {xs ys : Array α} {ids : List ι}
    (place : ι → Nat) (name : Nat → ι) (placed : ∀ i, place (name i) = i) {settled : α → β}
    {seen : α → γ} {unseen : α → δ} (same : ys.map settled = xs.map settled)
    (shown : (ids.filterMap (ys[place ·]?)).map seen = (ids.filterMap (xs[place ·]?)).map seen)
    (rest : ys.mapIdx (fun i y => if name i ∈ ids then none else some (unseen y)) =
      xs.mapIdx fun i x => if name i ∈ ids then none else some (unseen x))
    (whole : ∀ x y, settled y = settled x → seen y = seen x ∨ unseen y = unseen x → y = x) :
    ys = xs := by
  have size : ys.size = xs.size := by simpa using congrArg Array.size same
  have aligned : ∀ id ∈ ids, (ys[place id]?).map seen = (xs[place id]?).map seen :=
    shownAligned (fun id => by grind) shown
  refine Array.ext size fun i left right => whole _ _ ?_ ?_
  · have row := congrArg (·[i]?) same
    simpa [left, right] using row
  · by_cases mem : name i ∈ ids
    · have row := aligned _ mem
      rw [placed] at row
      exact .inl (by simpa [left, right] using row)
    · have row := congrArg (·[i]?) rest
      exact .inr (by simpa [left, right, mem] using row)

namespace Memory

/-- What is in blocks and which entries banks have selected, where it goes by no tag of the
machine's own. -/
structure Unseen where
  blocks : List (Option (List UInt8))
  banks : List (Option Nat)
  deriving DecidableEq

def unseen (m : Memory) : Unseen :=
  { blocks := (m.blocks.mapIdx fun i b =>
      if BlockId.mk i ∈ m.blockTags.values then none else some b.bytes.toList).toList
    banks := (m.banks.mapIdx fun i b =>
      if BankId.mk i ∈ m.bankTags.values then none else some b.selected).toList }

theorem unseenSame {m n : Memory} (blank : n.blank = m.blank)
    (blocks : (n.blockTags.values.filterMap n.block?).map (fun b => MemoryImage.mk b.tag b.bytes.toList) =
      (m.blockTags.values.filterMap m.block?).map fun b => ⟨b.tag, b.bytes.toList⟩)
    (banks : (n.bankTags.values.filterMap n.bank?).map (fun b => BankSelection.mk b.tag b.selected) =
      (m.bankTags.values.filterMap m.bank?).map fun b => ⟨b.tag, b.selected⟩)
    (unseen : n.unseen = m.unseen) : n = m := by
  obtain ⟨settled, settled', blockTags, bankTags, looseTags⟩ := Memory.mk.inj blank
  obtain ⟨hidden, hidden'⟩ := Unseen.mk.inj unseen
  replace blockTags : n.blockTags = m.blockTags := blockTags
  replace bankTags : n.bankTags = m.bankTags := bankTags
  rw [blockTags] at blocks hidden
  rw [bankTags] at banks hidden'
  have sameBlocks : n.blocks = m.blocks := by
    refine rowsSame BlockId.index BlockId.mk (fun _ => rfl) settled blocks (Array.toList_inj.mp hidden) ?_
    rintro ⟨tag, bytes⟩ ⟨tag', bytes'⟩ same shown
    obtain ⟨rfl, -⟩ := Block.mk.inj same
    have list : bytes'.toList = bytes.toList := by
      rcases shown with shown | shown
      · exact (MemoryImage.mk.inj shown).2
      · exact shown
    exact congrArg _ (Array.toList_inj.mp list)
  have sameBanks : n.banks = m.banks := by
    refine rowsSame BankId.index BankId.mk (fun _ => rfl) settled' banks (Array.toList_inj.mp hidden') ?_
    rintro ⟨tag, entries, selected, readOnly, inside⟩ ⟨tag', entries', selected', readOnly', inside'⟩
      same shown
    obtain ⟨rfl, rfl, -, rfl⟩ := Bank.mk.inj same
    obtain rfl : selected' = selected := by
      rcases shown with shown | shown
      · exact (BankSelection.mk.inj shown).2
      · exact shown
    rfl
  cases m
  cases n
  cases sameBlocks
  cases sameBanks
  cases blockTags
  cases bankTags
  cases looseTags
  rfl

end Memory

/-- What a snapshot leaves out of a machine, and its assembly does not settle: of the processors
their lines and vectors, what they have published, and pending yields; of the devices which are
in use and what registers do not show; of the spaces the last value on the bus; of memory and of
timers as above; the boost, and what callbacks and hosts hold. -/
structure Unseen where
  units : List (List InputLine × List (RegisterId × Nat) × Bool)
  devices : List (Bool × Option Acc8)
  driven : List Nat
  memory : Memory.Unseen
  timers : Timer.Queue.Unseen
  boost : Option Boost
  handles : List Timer.Id
  cells : List Nat
  deriving DecidableEq

def Processor.unseen (p : Processor) : List InputLine × List (RegisterId × Nat) × Bool :=
  (p.lines.lines.toList, p.published, p.yieldRequested)

namespace Machine

def Shown (m : Machine) (id : DeviceId) (s : Seat) : Prop :=
  s.busy = false ∧ ∃ p ∈ m.units, p.device = id

instance (m : Machine) (id : DeviceId) (s : Seat) : Decidable (m.Shown id s) := by
  unfold Shown; infer_instance

def unseenDevice (m : Machine) (id : DeviceId) (s : Seat) : Bool × Option Acc8 :=
  (s.busy, match s.device with
    | .acc8 cpu => some (if m.Shown id s then cpu.veiled else cpu)
    | _ => none)

def unseen (m : Machine) : Unseen :=
  { units := m.units.toList.map Processor.unseen
    devices := (m.tree.nodes.mapIdx fun i n => m.unseenDevice ⟨i⟩ n.device).toList
    driven := m.spaces.toList.map (·.lastDriven)
    memory := m.memory.unseen
    timers := m.timers.unseen
    boost := m.boost
    handles := m.handles.toList
    cells := m.cells.toList }

section
variable {a b : Machine}

theorem unitsSame (fixed : b.units.map (·.fixed) = a.units.map (·.fixed))
    (shown : b.units.toList.map b.unitSnapshot = a.units.toList.map a.unitSnapshot)
    (unseen : b.units.toList.map Processor.unseen = a.units.toList.map Processor.unseen) :
    b.units = a.units := by
  have size : b.units.size = a.units.size := by simpa using congrArg Array.size fixed
  refine Array.ext size fun i right left => ?_
  replace fixed : b.units[i].fixed = a.units[i].fixed := by
    simpa [left, right] using congrArg (·[i]?) fixed
  replace shown : b.unitSnapshot b.units[i] = a.unitSnapshot a.units[i] := by
    simpa [left, right] using congrArg (·[i]?) shown
  replace unseen : b.units[i].unseen = a.units[i].unseen := by
    simpa [left, right] using congrArg (·[i]?) unseen
  generalize a.units[i] = p, b.units[i] = q at *
  obtain ⟨device, clock, source⟩ := processorFixed fixed
  obtain ⟨-, localTime, totalCycles, -, bits, -⟩ := UnitSnapshot.mk.inj shown
  obtain ⟨lines, published, yieldRequested⟩ : q.lines.lines.toList = p.lines.lines.toList ∧
      q.published = p.published ∧ q.yieldRequested = p.yieldRequested := by
    simpa [Processor.unseen] using unseen
  have suspension : q.suspension = p.suspension := by
    rw [← Suspension.ofBits_bits q.suspension, bits, Suspension.ofBits_bits]
  replace lines := Array.toList_inj.mp lines
  obtain ⟨device', clock', ⟨rows, asked⟩, published', localTime', totalCycles', suspension',
    yieldRequested'⟩ := p
  obtain ⟨_, _, ⟨_, _⟩, _, _, _, _, _⟩ := q
  cases device
  cases clock
  cases source
  cases localTime
  cases totalCycles
  cases lines
  cases published
  cases yieldRequested
  cases suspension
  rfl

theorem acc8Same {cpu cpu' : Acc8} (veiled : cpu'.veiled = cpu.veiled)
    (registers : (Device.acc8 cpu').registerValues = (Device.acc8 cpu).registerValues)
    (runState : cpu'.runState = cpu.runState) : cpu' = cpu := by
  have values : ∀ c : Acc8, (Device.acc8 c).registerValues = [(Acc8.pcId, c.pc.toNat),
      (Acc8.aId, c.a.toNat), (Acc8.xId, c.x.toNat), (Acc8.spId, c.sp.toNat),
      (Acc8.flagsId, c.flags.toByte.toNat)] := fun _ => rfl
  rw [values, values] at registers
  simp only [List.cons.injEq, Prod.mk.injEq, true_and, and_true] at registers
  obtain ⟨pc, a, x, sp, flags⟩ := registers
  replace flags : cpu'.flags = cpu.flags := by
    rw [← Acc8.Flags.ofByte_toByte cpu'.flags, UInt8.toNat_inj.mp flags, Acc8.Flags.ofByte_toByte]
  obtain ⟨tag, options, -, -, -, -, -, -, fetchResetVector, nmiLatched⟩ := Acc8.mk.inj veiled
  cases cpu
  cases cpu'
  cases tag
  cases options
  cases UInt16.toNat_inj.mp pc
  cases UInt8.toNat_inj.mp a
  cases UInt8.toNat_inj.mp x
  cases UInt8.toNat_inj.mp sp
  cases flags
  cases runState
  cases fetchResetVector
  cases nmiLatched
  rfl

theorem seatAlike {id : DeviceId} {s t : Seat} (units : b.units = a.units)
    (spaces : t.spaces = s.spaces) (role : t.device.role = s.device.role)
    (only : s.device.kind ≠ .sequencer) (unseen : b.unseenDevice id t = a.unseenDevice id s)
    (shown : a.Shown id s → t.device.runState?.getD .stopped = s.device.runState?.getD .stopped ∧
      t.device.registerValues = s.device.registerValues) : t = s := by
  obtain ⟨busy, rest⟩ := Prod.mk.inj unseen
  have alike : b.Shown id t ↔ a.Shown id s := by unfold Shown; rw [busy, units]
  obtain ⟨device, occupied, own⟩ := s
  obtain ⟨device', occupied', own'⟩ := t
  cases busy
  cases spaces
  obtain rfl : device' = device := by
    cases device with
    | sequencer => exact absurd rfl only
    | peripheral p => cases device' <;> cases role; rfl
    | acc8 cpu =>
      cases device' with
      | peripheral | sequencer => cases role
      | acc8 cpu' =>
        replace rest := Option.some.inj rest
        by_cases seen : a.Shown id ⟨.acc8 cpu, occupied, own⟩
        · rw [if_pos seen, if_pos (alike.mpr seen)] at rest
          obtain ⟨runState, registers⟩ := shown seen
          exact congrArg Device.acc8 (acc8Same rest registers runState)
        · rw [if_neg seen, if_neg (mt alike.mp seen)] at rest
          exact congrArg Device.acc8 rest
  rfl

theorem nodesSame (wires : Wires a b) (roles : SameRoles a b) (only : a.OnlyAcc8)
    (units : b.units = a.units)
    (shown : b.units.toList.map b.unitSnapshot = a.units.toList.map a.unitSnapshot)
    (unseen : b.unseen.devices = a.unseen.devices) : b.tree.nodes = a.tree.nodes := by
  have wired : b.tree.nodes.map (·.map Seat.spaces) = a.tree.nodes.map (·.map Seat.spaces) :=
    congrArg Tree.nodes wires
  have size : b.tree.nodes.size = a.tree.nodes.size := by simpa using congrArg Array.size wired
  refine Array.ext size fun i right left => ?_
  have settled : b.tree.nodes[i].map Seat.spaces = a.tree.nodes[i].map Seat.spaces := by
    have row := congrArg (·[i]?) wired
    simpa [left, right] using row
  have role := roles ⟨i⟩
  have class_ := only ⟨i⟩
  have hidden : b.unseenDevice ⟨i⟩ b.tree.nodes[i].device =
      a.unseenDevice ⟨i⟩ a.tree.nodes[i].device := by
    have row := congrArg (·[i]?) unseen
    simpa [Machine.unseen, left, right] using row
  simp only [roleOf?, classOf?, Tree.get?, Array.getElem?_eq_getElem left,
    Array.getElem?_eq_getElem right, Option.map_some, Option.some.injEq, ne_eq] at role class_
  have seat : b.tree.nodes[i].device = a.tree.nodes[i].device := by
    refine seatAlike units (congrArg Node.device settled) role class_ hidden ?_
    rintro ⟨free, p, mem, here⟩
    have free' : b.tree.nodes[i].device.busy = false := (Prod.mk.inj hidden).1.trans free
    rw [units] at shown
    have same := List.map_inj_left.mp shown p (Array.mem_toList_iff.mpr mem)
    obtain ⟨-, -, -, runState, -, registers⟩ := UnitSnapshot.mk.inj same
    have idle : ∀ (m : Machine) (bound : i < m.tree.nodes.size),
        m.tree.nodes[i].device.busy = false → m.idle p.device = .ok m.tree.nodes[i].device.device := by
      intro m bound free
      have row : m.tree.get? p.device = some m.tree.nodes[i] := by
        rw [here]
        exact Array.getElem?_eq_getElem bound
      simp only [Machine.idle, row, free]
      rfl
    rw [idle a left free, idle b right free'] at runState registers
    exact ⟨runState, registers⟩
  rw [show b.tree.nodes[i] = (b.tree.nodes[i].map Seat.spaces).map fun _ => b.tree.nodes[i].device
    from rfl, settled, seat]
  rfl

theorem spacesSame (unused : b.spaces.map (·.unused) = a.spaces.map (·.unused))
    (driven : b.spaces.toList.map (·.lastDriven) = a.spaces.toList.map (·.lastDriven)) :
    ∃ accesses : Nat → Nat × Nat, b.spaces = a.spaces.mapIdx fun i s => s.counting (accesses i) := by
  have size : b.spaces.size = a.spaces.size := by simpa using congrArg Array.size unused
  refine ⟨fun i => ((b.spaces[i]?).elim 0 (·.unmappedReads), (b.spaces[i]?).elim 0 (·.unmappedWrites)),
    Array.ext (by simpa using size) fun i right left => ?_⟩
  rw [Array.size_mapIdx] at left
  replace unused : b.spaces[i].unused = a.spaces[i].unused := by
    simpa [left, right] using congrArg (·[i]?) unused
  replace driven : b.spaces[i].lastDriven = a.spaces[i].lastDriven := by
    simpa [left, right] using congrArg (·[i]?) driven
  rw [Array.getElem_mapIdx]
  dsimp only
  rw [Array.getElem?_eq_getElem right]
  generalize a.spaces[i] = s, b.spaces[i] = t at *
  obtain ⟨name, shape, entries, frozen, -, -, -⟩ := Bus.Space.mk.inj unused
  cases s
  cases t
  cases name
  cases shape
  cases entries
  cases frozen
  cases driven
  rfl

theorem onlyRecords (fixtures : b.fixtures = a.fixtures) (roles : SameRoles a b)
    (only : a.OnlyAcc8) (filed : a.timers.Filed) (filed' : b.timers.Filed)
    (frame : b.frame = a.frame) (seen : b.snapshot = a.snapshot) (unseen : b.unseen = a.unseen) :
    ∃ r, b = a.recording r := by
  obtain ⟨config, wires, fixed, unused, blank⟩ := Fixtures.mk.inj fixtures
  obtain ⟨now, rows, entries, banks, blocks⟩ := Snapshot.mk.inj seen
  obtain ⟨inner, devices, driven, stored, queued, boost, handles, cells⟩ := Unseen.mk.inj unseen
  have units := unitsSame fixed rows inner
  have tree : b.tree = a.tree :=
    Tree.ext (nodesSame wires roles only units rows devices) (congrArg Tree.names wires :)
  have memory := Memory.unseenSame blank blocks banks stored
  have timers := Timer.Queue.unseenSame filed filed' now entries queued
  obtain ⟨accesses, spaces⟩ := spacesSame unused driven
  refine ⟨⟨b.diag, b.sink, b.journal, accesses, b.budget⟩, ?_⟩
  replace handles := Array.toList_inj.mp handles
  replace cells := Array.toList_inj.mp cells
  unfold recording
  rw [← config, ← tree, ← units, ← spaces, ← memory, ← timers, ← frame, ← boost, ← handles, ← cells]

end

end Machine

end Lockstep
