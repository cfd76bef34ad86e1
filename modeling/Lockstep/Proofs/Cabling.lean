import Lockstep.Proofs.Separate
import Lockstep.Proofs.Strand

/-! The spaces of devices. A device has those it came with, whatever runs and callbacks do, so
each processor of a machine that has been assembled can reach its program and its ports. -/
namespace Lockstep

def Node.map {α β : Type} (f : α → β) (n : Node α) : Node β := { n with device := f n.device }

def Tree.map {α β : Type} (f : α → β) (t : Tree α) : Tree β :=
  { nodes := t.nodes.map (·.map f), names := t.names }

namespace Machine

def Wires (a b : Machine) : Prop :=
  b.tree.map Seat.spaces = a.tree.map Seat.spaces

def Cabled (m : Machine) : Prop := ∀ id cpu, m.cpu? id = some cpu → ∃ w, m.wiring? id = some w

section
variable {a b m m' : Machine} {id : DeviceId} {call : Callback}

theorem wiresTree (tree : b.tree = a.tree) : Wires a b := by rw [Wires, tree]

theorem wiresTrans {c : Machine} (first : Wires a b) (rest : Wires b c) : Wires a c :=
  Eq.trans rest first

theorem wiresSeat (wires : Wires a b) (id : DeviceId) :
    (b.seat? id).map Seat.spaces = (a.seat? id).map Seat.spaces := by
  have rows : ∀ m : Machine, (m.seat? id).map Seat.spaces =
      (m.tree.map Seat.spaces).nodes[id.index]?.map (·.device) := by
    intro m
    rw [Tree.map, Array.getElem?_map, Option.map_map, seat?, Option.map_map]
    rfl
  rw [rows, rows, wires]

theorem wiresModify (m : Machine) (id : DeviceId) {f : Seat → Seat}
    (spaces : ∀ s, (f s).spaces = s.spaces) : Wires m { m with tree := m.tree.modify id f } := by
  have same : ∀ n : Node Seat, (n.map f).map Seat.spaces = n.map Seat.spaces := fun n => by
    simp only [Node.map, spaces]
  exact Tree.ext (mapModify same m.tree.nodes id.index) rfl

theorem wiresBusy (m : Machine) (id : DeviceId) (busy : Bool) : Wires m (m.setBusy id busy) :=
  wiresModify m id fun _ => rfl

theorem wiresDevice (m : Machine) (id : DeviceId) (d : Device) : Wires m (m.withDevice id d) :=
  wiresModify m id fun _ => rfl

theorem wiresReseats (h : Reseats a b) : Wires a b := by
  cases h with
  | same tree => exact wiresTree tree
  | busy id busy tree => exact wiresTrans (wiresBusy a id busy) (wiresTree tree)
  | renew _ tree => exact wiresTrans (wiresDevice _ _ _) (wiresTree tree)
  | write _ _ tree => exact wiresTrans (wiresDevice _ _ _) (wiresTree tree)

theorem effectWires (h : Effect a b) : Wires a b :=
  h.lift (fun _ => rfl) wiresTrans fun act => wiresReseats (actReseats act)

theorem wiresCarries : Carries Wires where
  refl _ := rfl
  trans := wiresTrans
  touch h := by
    cases h with
    | unmapped kind address write => exact wiresTree (traceSame ..).2.1
    | drive | countRead | countWrite | store => exact wiresTree rfl
  tick {a b} h := by
    cases h with
    | pulse h => cases h <;> exact wiresTree rfl
    | place id device => exact wiresDevice _ _ _
    | settle => exact wiresTree (settleSame ..).2.1
    | restart now index =>
      cases reset : a.resetUnit index with
      | error e =>
        rw [restartSkipped _ reset]
        exact rfl
      | ok s =>
        rw [restartDone _ reset]
        exact wiresReseats ((resetUnitReseats reset).tree rfl)
    | grant | ready | close | disable | freeze | sink => exact wiresTree rfl
  lent _ inner := wiresTrans (wiresTrans (wiresBusy _ _ _) inner) (wiresBusy _ _ _)

theorem cabledKept (cabled : Cabled a) (wires : Wires a b)
    (classes : ∀ id, b.classOf? id = a.classOf? id) : Cabled b := by
  intro id cpu found
  have class_ := classCpu.mpr ⟨cpu, found⟩
  rw [classes] at class_
  obtain ⟨cpu', found'⟩ := classCpu.mp class_
  rw [wiringSame (wiresSeat wires id)]
  exact cabled id cpu' found'

theorem seatWired {seat : Seat} (found : m.seat? id = some seat)
    (program : (seat.spaces.lookup .program).isSome = true)
    (io : (seat.spaces.lookup .io).isSome = true) : ∃ w, m.wiring? id = some w := by
  obtain ⟨program', row⟩ := Option.isSome_iff_exists.mp program
  obtain ⟨io', row'⟩ := Option.isSome_iff_exists.mp io
  refine ⟨⟨program', io'⟩, ?_⟩
  unfold wiring?
  simp [ownedSeat, found, row, row']

theorem seatSpaces (m : Machine) (cpu : Acc8) :
    ((Assembly.seat m (.acc8 cpu)).2.spaces.lookup .program).isSome = true ∧
      ((Assembly.seat m (.acc8 cpu)).2.spaces.lookup .io).isSome = true := ⟨rfl, rfl⟩

theorem cabledInstance {a b : Assembly} {tag typeName : String} {clock : ClockRate}
    {parent : Option DeviceId} {device : Device} {id : DeviceId} (cabled : Cabled a.machine)
    (added : a.addInstance tag typeName clock parent device = .ok (b, id)) : Cabled b.machine := by
  obtain ⟨tree, placed, rfl⟩ := addInstanceInv added
  obtain ⟨old, same⟩ := Assembly.seatTree a.machine device
  intro other cpu found
  obtain ⟨seat, row, kind⟩ := cpuInv found
  obtain ⟨node, place, rfl⟩ := Option.map_eq_some_iff.mp row
  rcases Assembly.treeAdd placed place with new | ⟨node', before, new⟩
  · rw [new, same] at kind
    subst kind
    rw [new] at row
    obtain ⟨program, io⟩ := seatSpaces a.machine cpu
    exact seatWired row program io
  · rw [old] at before
    have earlier : a.machine.seat? other = some node.device := by
      rw [seat?, before, Option.map_some, new]
    obtain ⟨w, wired⟩ := cabled other cpu (cpuFound earlier kind)
    refine ⟨w, (wiringSame ?_).trans wired⟩
    rw [row, earlier]

theorem cabledTree (cabled : Cabled a) (tree : b.tree = a.tree) : Cabled b :=
  cabledKept cabled (wiresTree tree) fun id => by rw [classOf?, classOf?, tree]

theorem assembledCabled {a : Assembly} (h : Assembled a) : Cabled a.machine := by
  refine h.keeps (fun config => ?_) (fun memory cabled => cabledTree cabled rfl)
    (fun acts cabled => ?_) (fun index source cabled => cabledTree cabled rfl)
    fun _ => cabledInstance
  · exact fun id cpu found => by cases found
  · exact cabledKept cabled (effectWires acts) (effectKept acts).classes

theorem builtCabled (calls : ∀ s m, Acts (call s) m) (built : Built call m) : Cabled m := by
  obtain ⟨a, assembled, started⟩ := built
  have wires := (wiresCarries.start
    (fun s m => Run.followsSame fun r m' h => effectWires (calls s m r m' h)) a.machine none m
      started).2
  exact cabledKept (assembledCabled assembled) wires (buildKept calls started).classes

theorem strandCarries {R : Machine → Machine → Prop} (carries : Carries R)
    (acts : ∀ {a b}, Effect a b → R a b) (timers : ∀ (m : Machine) timers, R m { m with timers })
    (calls : ∀ s m, Acts (call s) m) {events : List Event} {r : Option Machine}
    (h : Strand call m events r) : ∀ e ∈ events, R m e.machine := by
  have follows : ∀ s m, Run.Follows R (call s) (call s) m :=
    fun s m => Run.followsSame fun r m' h => acts (calls s m r m' h)
  induction h with
  | stuck | stop => exact fun _ mem => absurd mem List.not_mem_nil
  | rest _ ih =>
    intro e mem
    rcases List.mem_cons.mp mem with rfl | mem
    · exact carries.refl _
    · exact ih e mem
  | fired _ ran _ ih =>
    intro e mem
    rcases List.mem_cons.mp mem with rfl | mem
    · exact timers ..
    · exact carries.trans (timers ..)
        (carries.trans (carries.dispatch follows _ _ _ _ ran).2 (ih e mem))
  | lost =>
    intro e mem
    cases List.mem_singleton.mp mem
    exact timers ..
  | waited _ _ ih => exact fun e mem => carries.trans (timers ..) (ih e mem)
  | slice ran _ ih =>
    intro e mem
    rcases List.mem_cons.mp mem with rfl | mem
    · exact carries.refl _
    · have sliced := (grantedSlice call _).symm.trans (congrArg Prod.snd ran)
      exact carries.trans (carries.runSlice follows _ _ _ _ _ sliced).2 (ih e mem)
  | broken =>
    intro e mem
    cases List.mem_singleton.mp mem
    exact carries.refl _
  | effect step _ ih => exact fun e mem => carries.trans (acts step) (ih e mem)
  | reset done _ ih =>
    exact fun e mem => carries.trans (carries.reset follows _ _ _ done).2 (ih e mem)

end

end Machine

end Lockstep
