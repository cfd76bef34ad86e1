import Lockstep.Proofs.Parts
import Lockstep.Proofs.Storage

/-! Wide accesses on a machine. A read or a write is the accesses to its parts, one after the
other, as long as the ports do not edit the map. A part that lies in the range of a port calls
it once, with the offset from the origin of the range; no other part calls any. -/
namespace Lockstep
open Bus (ByteOrder Shape Space Part Width)

theorem mapMSome {α β : Type} {f : α → Option β} {xs : List α} {ys : List β} :
    xs.mapM f = some ys ↔ xs.map f = ys.map some := by
  induction xs generalizing ys with
  | nil => cases ys <;> simp
  | cons x xs ih =>
    simp only [List.mapM_cons, Option.bind_eq_bind, Option.bind_eq_some_iff, Option.pure_def,
      Option.some.injEq, List.map_cons]
    constructor
    · rintro ⟨y, here, rest, all, rfl⟩
      rw [List.map_cons, here, ih.mp all]
    · intro same
      cases ys with
      | nil => cases same
      | cons y ys =>
        obtain ⟨here, all⟩ := List.cons.inj same
        exact ⟨y, here, ys, ih.mpr all, rfl⟩

namespace Machine

def readPart (call : Callback) (id : SpaceId) (s : Space Port) (p : Part) : Run Nat :=
  readRegion call id s (s.region p.address) p.address p.width

def writePart (call : Callback) (id : SpaceId) (s : Space Port) (p : Part) (value : Nat) :
    Run Unit :=
  writeRegion call id s (s.region p.address) p.address p.width value

def Shows (m : Machine) (id : SpaceId) (s : Space Port) : Prop :=
  (m.space? id).map (·.layout) = some s.layout

abbrev KeepsMap {α : Type} (id : SpaceId) (s : Space Port) (x : Run α) (m : Machine) : Prop :=
  Run.Keeps (fun m m' => m.Shows id s → m'.Shows id s) x m

/-- The ports of a space do not edit its map. -/
def Steady (call : Callback) (id : SpaceId) (s : Space Port) : Prop :=
  ∀ e ∈ s.entries, ∀ port, e.handler = .port port → ∀ offset width m,
    KeepsMap id s (call (port.onRead offset width)) m ∧
      ∀ value, KeepsMap id s (call (port.onWrite offset width value)) m

def closed (id : SpaceId) : Rule := fun m command =>
  match command with
  | .map _ route .. => (m.resolve route).toOption != some id
  | _ => true

def answered (id : SpaceId) (s : Space Port) (p : Part) : Option Nat → Run Nat
  | some value => do
      modify (·.modifySpace id (·.drive value))
      return value
  | none => do
      modify fun m => (m.modifySpace id (·.countRead)).noteUnmapped s.shape.kind p.address false
      return ((← get).space? id).elim 0 (·.floating p.address p.width)

/-- How a part is carried out. A port is called once, for the whole part; its reply is cut to the
width of the part, and a write hands it the value of the part. -/
structure Carried (call : Callback) (id : SpaceId) (s : Space Port) (p : Part) : Prop where
  port : ∀ e ∈ s.entries, e.Covers p.address → ∀ port, e.handler = .port port →
    e.Holds p ∧
    readPart call id s p =
      (if port.reads then do
        let reply ← call (port.onRead (p.address - e.origin) p.width)
        answered id s p (reply.driven?.map (· % p.width.size))
      else answered id s p none) ∧
    ∀ value, writePart call id s p value = do
      modify (·.modifySpace id (·.drive value))
      if port.writes then discard (call (port.onWrite (p.address - e.origin) p.width value))
  quiet : (∀ e ∈ s.entries, e.Covers p.address → e.handler.kind ≠ .callback) →
    ∀ other, readPart call id s p = readPart other id s p ∧
      ∀ value, writePart call id s p value = writePart other id s p value

section
variable {call : Callback} {id : SpaceId} {s s' : Space Port} {m m' : Machine} {p : Part}
  {α β : Type}

theorem showsInv (shows_ : m.Shows id s) :
    ∃ t, m.space? id = some t ∧ t.shape = s.shape ∧ t.entries = s.entries := by
  obtain ⟨t, found, same⟩ := Option.map_eq_some_iff.mp shows_
  exact ⟨t, found, (Prod.mk.inj same).1, (Prod.mk.inj same).2⟩

theorem showsFound (found : m.space? id = some s) : m.Shows id s := by
  unfold Shows
  rw [found]
  rfl

theorem showsModify (other : SpaceId) {f : Space Port → Space Port}
    (same : ∀ t, (f t).layout = t.layout) (shows_ : m.Shows id s) :
    (m.modifySpace other f).Shows id s :=
  ((spacePorted ⟨id, id⟩ m other same).layout id).trans shows_

theorem showsUnmapped {f : Space Port → Space Port} (same : ∀ t, (f t).layout = t.layout)
    (kind : Bus.SpaceKind) (address : Nat) (write : Bool) (shows_ : m.Shows id s) :
    ((m.modifySpace id f).noteUnmapped kind address write).Shows id s := by
  obtain ⟨diag, journal, noted⟩ := notedUnmapped (m.modifySpace id f) kind address write
  rw [noted]
  exact showsModify id same shows_

theorem mapShows {override : Bool} {other : SpaceId} {first last : Nat}
    {handler : Bus.Handler Port} (apart : other ≠ id)
    (ok : m.map override other first last handler = .ok m') (shows_ : m.Shows id s) :
    m'.Shows id s := by
  obtain rfl | ⟨_, _, -, rfl⟩ := mapInv ok
  · exact shows_
  · have away : ¬ other.index = id.index := fun same => apart (congrArg SpaceId.mk same)
    unfold Shows space? modifySpace at *
    rwa [Array.getElem?_modify, if_neg away]

theorem closedShows (rework : Rework (closed id) m m') (shows_ : m.Shows id s) : m'.Shows id s := by
  cases rework with
  | unmoved same => exact (same.layout id).trans shows_
  | store | select => exact shows_
  | @map _ _ route other _ _ _ _ allowed routed _ ok =>
    -- the rule let the mapping through, so it went into another space
    have apart : other ≠ id := by simpa [closed, routed, Except.toOption] using allowed
    exact mapShows apart ok shows_

theorem closedSteady (id : SpaceId) (depth : Nat) (s : Space Port) :
    Steady (invokeUnder (closed id) depth) id s := by
  have kept : ∀ (script : Script) m, KeepsMap id s (invokeUnder (closed id) depth script) m := by
    intro script m reply m' ran shows_
    have steps := (invokeSteps (closed id) depth script m reply m' ran).2
    clear ran
    induction steps with
    | refl => exact shows_
    | tail _ last ih => exact closedShows (stepRework last) ih
  exact fun _ _ _ _ _ _ m => ⟨kept _ m, fun _ => kept _ m⟩

theorem ruledAccess (rule : Rule) (id : SpaceId) (depth : Nat) (w : Width) (address : Nat)
    (m : Machine) :
    (∀ row, read (invokeUnder rule depth) id address w m = some row →
        read (invoke depth) id address w m = some row) ∧
      ∀ value row, write (invokeUnder rule depth) id address w value m = some row →
        write (invoke depth) id address w value m = some row := by
  have bears := (stepsCarries rule).bears
  have calls := invokeSteps rule depth
  exact ⟨fun row ran => (bears.readRank calls id w.rank address m row.1 row.2 ran).1,
    fun value row ran => (bears.writeRank calls id w.rank address value m row.1 row.2 ran).1⟩

theorem keepsMapBind {x : Run α} {f : α → Run β} (first : KeepsMap id s x m)
    (rest : ∀ a m, KeepsMap id s (f a) m) : KeepsMap id s (x >>= f) m :=
  Run.keepsBind (fun one two h => two (one h)) first fun a m _ => rest a m

theorem keepsMapPure (a : α) : KeepsMap id s (pure a) m := Run.keepsPure (fun _ h => h) a

theorem readPartEq (call : Callback) (id : SpaceId) (s : Space Port) (p : Part) :
    readPart call id s p = readHandler call s.shape.byteOrder (s.region p.address) p.address
      p.width >>= answered id s p := by
  refine bind_congr fun answer => ?_
  cases answer <;> rfl

theorem answeredKeeps (answer : Option Nat) : KeepsMap id s (answered id s p answer) m := by
  cases answer with
  | some value =>
    exact keepsMapBind (Run.keepsModify (showsModify id fun _ => rfl)) fun _ _ => keepsMapPure _
  | none =>
    exact keepsMapBind (Run.keepsModify (showsUnmapped (f := (·.countRead)) (fun _ => rfl) _ _ _))
      fun _ _ => Run.keepsGet (keepsMapPure _)

theorem steadyRegion (steady : Steady call id s) (address : Nat) : ∀ port,
    (s.region address).handler = .port port → ∀ offset width m,
      KeepsMap id s (call (port.onRead offset width)) m ∧
        ∀ value, KeepsMap id s (call (port.onWrite offset width value)) m :=
  regionOf (P := fun h => ∀ port, h = .port port → ∀ offset width m,
    KeepsMap id s (call (port.onRead offset width)) m ∧
      ∀ value, KeepsMap id s (call (port.onWrite offset width value)) m)
    (fun _ h => by cases h) steady address

theorem readPartKeeps (steady : Steady call id s) (p : Part) (m : Machine) :
    KeepsMap id s (readPart call id s p) m := by
  rw [readPartEq]
  refine keepsMapBind ?_ fun answer m => answeredKeeps answer
  unfold readHandler
  cases handler : (s.region p.address).handler with
  | ram | rom | bank => exact Run.keepsGet (keepsMapPure _)
  | unmapped => exact keepsMapPure _
  | port port =>
    dsimp only
    split
    · exact keepsMapBind (steadyRegion steady p.address port handler _ _ m).1
        fun _ _ => keepsMapPure _
    · exact keepsMapPure _

theorem writePartKeeps (steady : Steady call id s) (p : Part) (value : Nat) (m : Machine) :
    KeepsMap id s (writePart call id s p value) m := by
  refine keepsMapBind (Run.keepsModify (showsModify id fun _ => rfl)) fun _ m => ?_
  unfold writeHandler
  cases handler : (s.region p.address).handler with
  | ram => exact Run.keepsModify fun h => h
  | rom => exact keepsMapPure _
  | bank =>
    refine Run.keepsGet ?_
    split
    · split
      · exact Run.keepsModify fun h => h
      · exact keepsMapPure _
    · exact keepsMapPure _
  | unmapped => exact Run.keepsModify (showsUnmapped (f := (·.countWrite)) (fun _ => rfl) _ _ _)
  | port port =>
    dsimp only
    split
    · exact keepsMapBind (β := PUnit) ((steadyRegion steady p.address port handler _ _ m).2 value)
        fun _ _ => keepsMapPure _
    · exact keepsMapPure _

theorem readRegionLike (shape : s'.shape = s.shape) (region : Bus.Region Port) (address : Nat)
    (w : Width) :
    readRegion call id s' region address w = readRegion call id s region address w := by
  unfold readRegion
  rw [shape]

theorem writeRegionLike (shape : s'.shape = s.shape) (region : Bus.Region Port)
    (address : Nat) (w : Width) (value : Nat) :
    writeRegion call id s' region address w value =
      writeRegion call id s region address w value := by
  unfold writeRegion writeHandler
  rw [shape]

theorem regionLike (shape : s'.shape = s.shape) (entries : s'.entries = s.entries) (address : Nat) :
    s'.region address = s.region address := by
  unfold Space.region
  rw [shape, entries]

theorem readMemoryBound {order : ByteOrder} {block : Memory.BlockId} {offset value : Nat}
    {w : Width} (row : m.readMemory order block offset w = some value) : value < w.size := by
  obtain ⟨bytes, read, rfl⟩ := Option.map_eq_some_iff.mp row
  obtain ⟨b, -, read⟩ := Option.bind_eq_some_iff.mp read
  have length := congrArg List.length (mapMSome.mp read)
  rw [List.length_map, List.length_map, List.length_range] at length
  rw [w.sizeSpan, length]
  exact order.assembleLt bytes

theorem readHandlerBound {order : ByteOrder} {region : Bus.Region Port} {address value : Nat}
    {w : Width} (ran : readHandler call order region address w m = some (some value, m')) :
    value < w.size := by
  unfold readHandler at ran
  cases handler : region.handler with
  | ram | rom =>
    rw [handler] at ran
    exact readMemoryBound (Prod.mk.inj (Option.some.inj ran)).1
  | bank =>
    rw [handler] at ran
    obtain ⟨bank, -, row⟩ := Option.bind_eq_some_iff.mp (Prod.mk.inj (Option.some.inj ran)).1
    exact readMemoryBound row
  | unmapped =>
    rw [handler] at ran
    cases ran
  | port port =>
    rw [handler] at ran
    dsimp only at ran
    split at ran
    · obtain ⟨reply, m₁, -, rest⟩ := Run.bindInv ran
      obtain ⟨driven, -⟩ := Run.pureInv rest
      obtain ⟨word, -, rfl⟩ := Option.map_eq_some_iff.mp driven
      exact Nat.mod_lt _ w.size_pos
    · cases ran

theorem readPartBound {value : Nat} (ran : readPart call id s p m = some (value, m')) :
    value < p.width.size := by
  rw [readPartEq] at ran
  obtain ⟨answer, m₁, handled, rest⟩ := Run.bindInv ran
  cases answer with
  | some driven =>
    cases rest
    exact readHandlerBound handled
  | none =>
    unfold answered at rest
    dsimp only at rest
    rw [Run.modifyBind, Run.getBind] at rest
    obtain ⟨same, -⟩ := Run.pureInv rest
    subst same
    cases Machine.space? _ id with
    | none => exact p.width.size_pos
    | some t => exact Nat.mod_lt _ p.width.size_pos

section
variable {t : Space Port} (found : m.space? id = some t)
include found

theorem readNext (rank address : Nat) : readRank call id (rank + 1) address m =
    (if t.mustSplit (t.region (t.shape.wrap address)) (t.shape.wrap address)
        (Width.ofRank (rank + 1)) then do
      let lower ← readRank call id rank (t.shape.wrap address)
      let higher ← readRank call id rank
        (t.shape.wrap (t.shape.wrap address + (Width.ofRank rank).bytes))
      return t.shape.byteOrder.join (Width.ofRank rank) lower higher
    else readRegion call id t (t.region (t.shape.wrap address)) (t.shape.wrap address)
      (Width.ofRank (rank + 1)) : Run Nat) m := by
  rw [readRank, Run.getBind, found]

theorem writeNext (rank address value : Nat) : writeRank call id (rank + 1) address value m =
    (if t.mustSplit (t.region (t.shape.wrap address)) (t.shape.wrap address)
        (Width.ofRank (rank + 1)) then do
      writeRank call id rank (t.shape.wrap address) (t.shape.byteOrder.part (Width.ofRank rank)
        (value % (Width.ofRank (rank + 1)).size)).1
      writeRank call id rank (t.shape.wrap (t.shape.wrap address + (Width.ofRank rank).bytes))
        (t.shape.byteOrder.part (Width.ofRank rank) (value % (Width.ofRank (rank + 1)).size)).2
    else writeRegion call id t (t.region (t.shape.wrap address)) (t.shape.wrap address)
      (Width.ofRank (rank + 1)) (value % (Width.ofRank (rank + 1)).size) : Run Unit) m := by
  rw [writeRank, Run.getBind, found]

theorem readWhole {w : Width} {address : Nat}
    (whole : t.mustSplit (t.region (t.shape.wrap address)) (t.shape.wrap address) w ≠ true) :
    read call id address w m = readRegion call id t (t.region (t.shape.wrap address))
      (t.shape.wrap address) w m := by
  cases w with
  | byte =>
    change readRank call id 0 address m = _
    unfold readRank
    rw [Run.getBind, found]
  | word | dword | qword => exact (readNext found _ _).trans (congrFun (if_neg whole) m)

theorem writeWhole {w : Width} {address : Nat} (value : Nat)
    (whole : t.mustSplit (t.region (t.shape.wrap address)) (t.shape.wrap address) w ≠ true) :
    write call id address w value m = writeRegion call id t (t.region (t.shape.wrap address))
      (t.shape.wrap address) w (value % w.size) m := by
  cases w with
  | byte =>
    change writeRank call id 0 address value m = _
    unfold writeRank
    rw [Run.getBind, found]
  | word | dword | qword => exact (writeNext found _ _ _).trans (congrFun (if_neg whole) m)

theorem readSplit {w half : Width} (narrower : w.half? = some half) {address : Nat}
    (split : t.mustSplit (t.region (t.shape.wrap address)) (t.shape.wrap address) w = true) :
    read call id address w m = (do
      let lower ← read call id (t.shape.wrap address) half
      let higher ← read call id (t.shape.wrap (t.shape.wrap address + half.bytes)) half
      return t.shape.byteOrder.join half lower higher : Run Nat) m := by
  cases w with
  | byte => cases narrower
  | word | dword | qword =>
    cases narrower
    exact (readNext found _ _).trans (congrFun (if_pos split) m)

theorem writeSplit {w half : Width} (narrower : w.half? = some half) {address : Nat} (value : Nat)
    (split : t.mustSplit (t.region (t.shape.wrap address)) (t.shape.wrap address) w = true) :
    write call id address w value m = (do
      write call id (t.shape.wrap address) half
        (t.shape.byteOrder.part half (value % w.size)).1
      write call id (t.shape.wrap (t.shape.wrap address + half.bytes)) half
        (t.shape.byteOrder.part half (value % w.size)).2 : Run Unit) m := by
  cases w with
  | byte => cases narrower
  | word | dword | qword =>
    cases narrower
    exact (writeNext found _ _ _).trans (congrFun (if_pos split) m)

end

theorem wrapTwice (shape : Shape) (a : Nat) : shape.wrap (shape.wrap a) = shape.wrap a :=
  Nat.mod_mod ..

theorem readWrap (shows_ : m.Shows id s) (a : Nat) (w : Width) :
    read call id (s.shape.wrap a) w m = read call id a w m := by
  obtain ⟨t, found, shape, -⟩ := showsInv shows_
  rw [← shape]
  unfold read
  cases w with
  | byte =>
    change readRank call id 0 _ m = readRank call id 0 _ m
    rw [readRank, readRank, Run.getBind, Run.getBind, found]
    dsimp only
    rw [wrapTwice]
  | word | dword | qword =>
    refine (readNext found _ _).trans (.trans ?_ (readNext found _ _).symm)
    rw [wrapTwice]

theorem writeWrap (call : Callback) (shows_ : m.Shows id s) (a : Nat) (w : Width) (value : Nat) :
    write call id (s.shape.wrap a) w value m = write call id a w value m := by
  obtain ⟨t, found, shape, -⟩ := showsInv shows_
  rw [← shape]
  unfold write
  cases w with
  | byte =>
    change writeRank call id 0 _ value m = writeRank call id 0 _ value m
    rw [writeRank, writeRank, Run.getBind, Run.getBind, found]
    dsimp only
    rw [wrapTwice]
  | word | dword | qword =>
    refine (writeNext found _ _ _).trans (.trans ?_ (writeNext found _ _ _).symm)
    rw [wrapTwice]

section
variable (laid : Bus.Laid s.shape.maxAddress s.entries) (shows_ : m.Shows id s)
include laid shows_

theorem showsSplit (w : Width) (address : Nat) : ∃ t, m.space? id = some t ∧ t.shape = s.shape ∧
    t.region (s.shape.wrap address) = s.region (s.shape.wrap address) ∧
    (t.mustSplit (t.region (s.shape.wrap address)) (s.shape.wrap address) w = true ↔
      ¬ s.Fits ⟨s.shape.wrap address, w⟩) := by
  obtain ⟨t, found, shape, entries⟩ := showsInv shows_
  have region := regionLike shape entries (s.shape.wrap address)
  refine ⟨t, found, shape, region, ?_⟩
  rw [region, ← Space.splitIff laid, Space.mustSplit, Space.mustSplit, shape]

theorem readFits {w : Width} {address : Nat} (fits : s.Fits ⟨s.shape.wrap address, w⟩) :
    read call id address w m = readPart call id s ⟨s.shape.wrap address, w⟩ m := by
  obtain ⟨t, found, shape, region, split⟩ := showsSplit laid shows_ w address
  rw [← shape] at region split
  rw [readWhole found fun halved => (split.mp halved) (shape ▸ fits), region, shape,
    readRegionLike shape]
  rfl

theorem writeFits {w : Width} {address : Nat} (fits : s.Fits ⟨s.shape.wrap address, w⟩)
    (value : Nat) : write call id address w value m =
      writePart call id s ⟨s.shape.wrap address, w⟩ (value % w.size) m := by
  obtain ⟨t, found, shape, region, split⟩ := showsSplit laid shows_ w address
  rw [← shape] at region split
  rw [writeWhole found _ fun halved => (split.mp halved) (shape ▸ fits), region, shape,
    writeRegionLike shape]
  rfl

end

theorem readHandlerQuiet {region : Bus.Region Port} (quiet : region.handler.kind ≠ .callback)
    (other : Callback) (order : ByteOrder) (address : Nat) (w : Width) :
    readHandler call order region address w = readHandler other order region address w := by
  unfold readHandler
  cases handler : region.handler with
  | port port =>
    rw [handler] at quiet
    exact absurd rfl quiet
  | _ => rfl

theorem writeHandlerQuiet {region : Bus.Region Port} (quiet : region.handler.kind ≠ .callback)
    (other : Callback) (address : Nat) (w : Width) (value : Nat) :
    writeHandler call id s region address w value =
      writeHandler other id s region address w value := by
  unfold writeHandler
  cases handler : region.handler with
  | port port =>
    rw [handler] at quiet
    exact absurd rfl quiet
  | _ => rfl

theorem carried (laid : Bus.Laid s.shape.maxAddress s.entries) (fits : s.Fits p)
    (call : Callback) (id : SpaceId) : Carried call id s p := by
  constructor
  · intro e mem covers port handler
    have region : s.region p.address = ⟨e.first, e.last, e.origin, e.handler⟩ :=
      Bus.regionCovered ((Bus.coveringIff laid).mpr ⟨mem, covers⟩) 0
    refine ⟨fits.holds laid mem covers, ?_, fun value => ?_⟩
    · rw [readPartEq, readHandler, region, handler]
      dsimp only
      split
      · simp only [bind_assoc, pure_bind]
      · rfl
    · rw [writePart, writeRegion, writeHandler, region, handler]
  · intro quiet other
    have quiet : (s.region p.address).handler.kind ≠ .callback := by
      cases covering : Space.covering? s.entries p.address with
      | some e =>
        obtain ⟨mem, covers⟩ := (Bus.coveringIff laid).mp covering
        rw [Space.region, Bus.regionCovered covering]
        exact quiet e mem covers
      | none =>
        rw [Space.region, Bus.regionGap covering]
        exact Bus.HandlerKind.noConfusion
    refine ⟨?_, fun value => ?_⟩
    · rw [readPartEq, readPartEq, readHandlerQuiet quiet other]
    · rw [writePart, writePart, writeRegion, writeRegion, writeHandlerQuiet quiet other]

def readPiece (call : Callback) (id : SpaceId) (s : Space Port) (p : Part) : Run (List UInt8) := do
  return s.shape.byteOrder.bytes p.width.bytes (← readPart call id s p)

theorem readPieceInv {bytes : List UInt8} (ran : readPiece call id s p m = some (bytes, m')) :
    ∃ value, readPart call id s p m = some (value, m') ∧
      bytes = s.shape.byteOrder.bytes p.width.bytes value := by
  obtain ⟨value, m₁, part, rest⟩ := Run.bindInv ran
  obtain ⟨rfl, rfl⟩ := Run.pureInv rest
  exact ⟨value, part, rfl⟩

section
variable {w : Width} {address : Nat} {parts : List Part} (divided : s.Divided w address parts)
  (laid : Bus.Laid s.shape.maxAddress s.entries) (steady : Steady call id s)
include divided steady

theorem piecesKept (shows_ : m.Shows id s) {pieces : List (List UInt8)}
    (ran : parts.mapM (readPiece call id s) m = some (pieces, m')) :
    pieces.flatten.length = w.bytes ∧ m'.Shows id s := by
  induction divided generalizing m m' pieces with
  | whole fits =>
    rw [List.mapM_cons, List.mapM_nil] at ran
    obtain ⟨bytes, m₁, piece, rest⟩ := Run.bindInv ran
    obtain ⟨rfl, rfl⟩ := Run.pureInv rest
    obtain ⟨value, part, rfl⟩ := readPieceInv piece
    exact ⟨by simp, readPartKeeps steady _ m value m₁ part shows_⟩
  | @halves w half address lower higher narrower _ _ _ ih₁ ih₂ =>
    rw [List.mapM_append] at ran
    obtain ⟨ps, m₁, first, ran⟩ := Run.bindInv ran
    obtain ⟨qs, m₂, second, rest⟩ := Run.bindInv ran
    obtain ⟨rfl, rfl⟩ := Run.pureInv rest
    obtain ⟨length, shows_⟩ := ih₁ shows_ first
    obtain ⟨length', shows_⟩ := ih₂ shows_ second
    rw [List.flatten_append, List.length_append, length, length', Width.bytes_half narrower]
    exact ⟨(Nat.two_mul _).symm, shows_⟩

include laid

theorem readDivided (shows_ : m.Shows id s) : read call id address w m = (do
    return s.shape.byteOrder.assemble (← parts.mapM (readPiece call id s)).flatten) m := by
  induction divided generalizing m with
  | @whole w address fits =>
    rw [readFits laid shows_ fits, ← bind_pure (readPart call id s _)]
    simp only [List.mapM_cons, List.mapM_nil, readPiece, bind_assoc, pure_bind, List.flatten_cons,
      List.flatten_nil, List.append_nil, ByteOrder.assembleBytes]
    refine Run.bindCongr rfl fun value m₁ part => ?_
    rw [← w.sizeSpan, Nat.mod_eq_of_lt (readPartBound part)]
  | @halves w half address lower higher narrower misfit first second ih₁ ih₂ =>
    obtain ⟨t, found, shape, region, split⟩ := showsSplit laid shows_ w address
    rw [← shape] at region split
    rw [readSplit found narrower (split.mpr (shape ▸ misfit)), shape, List.mapM_append]
    simp only [bind_assoc, pure_bind, Shape.wrapAdd]
    rw [Run.bindCongr ((readWrap shows_ address half).trans (ih₁ shows_)) fun _ _ _ => rfl]
    simp only [bind_assoc, pure_bind]
    refine Run.bindCongr rfl fun lowers m₁ lowest => ?_
    -- the second half sees the map that the ports of the first leave, which is the same
    obtain ⟨length, shows_⟩ := piecesKept first steady shows_ lowest
    rw [Run.bindCongr ((readWrap shows_ _ half).trans (ih₂ shows_)) fun _ _ _ => rfl]
    simp only [bind_assoc, pure_bind]
    refine Run.bindCongr rfl fun highers m₂ highest => ?_
    rw [List.flatten_append, ByteOrder.joinAssemble _ length
      (piecesKept second steady shows_ highest).1]

theorem writeDivided (shows_ : m.Shows id s) (value : Nat) :
    write call id address w value m =
        (forM (Part.deal s.shape.byteOrder parts (s.shape.byteOrder.bytes w.bytes value)) fun row =>
          writePart call id s row.1 row.2) m ∧
      KeepsMap id s (write call id address w value) m := by
  induction divided generalizing m value with
  | @whole w address fits =>
    rw [KeepsMap, Run.Keeps, writeFits laid shows_ fits, Part.deal, Part.deal, List.forM_cons,
      List.forM_nil, bind_pure_unit, List.take_of_length_le (by simp), ByteOrder.assembleBytes,
      ← w.sizeSpan]
    exact ⟨rfl, writePartKeeps steady _ _ m⟩
  | @halves w half address lower higher narrower misfit first second ih₁ ih₂ =>
    obtain ⟨t, found, shape, region, split⟩ := showsSplit laid shows_ w address
    rw [← shape] at region split
    rw [KeepsMap, Run.Keeps, writeSplit found narrower value (split.mpr (shape ▸ misfit)), shape,
      Shape.wrapAdd]
    have halved := s.shape.byteOrder.bytesPart half (value % w.size)
    rw [← Nat.two_mul, ← Width.bytes_half narrower, w.sizeSpan, ByteOrder.bytesMod] at halved
    rw [halved, Part.dealAppend _ (first.bytes.trans (ByteOrder.lengthBytes ..).symm),
      List.forM_append, ← w.sizeSpan]
    generalize s.shape.byteOrder.part half (value % w.size) = row at *
    obtain ⟨lowest, keeps⟩ := ih₁ shows_ row.1
    have wrapped := writeWrap call shows_ address half row.1
    refine ⟨Run.bindCongr (wrapped.trans lowest) fun _ m₁ ran => ?_, fun _ m₂ ran shows_ => ?_⟩
    · have shows_ := keeps _ m₁ (lowest.trans ran) shows_
      exact (writeWrap call shows_ _ half _).trans (ih₂ shows_ row.2).1
    · obtain ⟨_, m₁, ran₁, ran₂⟩ := Run.bindInv ran
      have shows_ := keeps _ m₁ (wrapped.symm.trans ran₁) shows_
      exact (ih₂ shows_ row.2).2 _ m₂ ((writeWrap call shows_ _ half _).symm.trans ran₂) shows_

end

/-- A wide access is the accesses to its parts. They cover its addresses in order, each of them
once; each goes over the bus at once, within one range or one gap, and the access is halved only
where it could not. A port is called once for each part in its range, with the offset from the
origin of the range. It is written the bytes that belong to the part, and what the parts read
comes back at their places, as long as the ports do not edit the map; whatever ports do, that is
so if nothing is mapped into the space on the way. -/
theorem wideParts {name : String} {shape : Shape} {edits : List (Bus.Edit Port)}
    {calls : List (Bus.Mapping Port)}
    (after : Space.editAll { name, shape } edits [] = (s, calls)) (w : Width) (address : Nat) :
    ∃ parts, s.Divided w address parts ∧
      parts.flatMap (·.addresses) =
        (List.range w.bytes).map (fun i => (address + i) &&& shape.maxAddress) ∧
      (∀ p ∈ parts, s.Fits p ∧ ∀ call id, Carried call id s p) ∧
      (∀ id depth, Steady (invokeUnder (closed id) depth) id s ∧ ∀ m,
        (∀ row, read (invokeUnder (closed id) depth) id address w m = some row →
          read (invoke depth) id address w m = some row) ∧
        ∀ value row, write (invokeUnder (closed id) depth) id address w value m = some row →
          write (invoke depth) id address w value m = some row) ∧
      ∀ (call : Callback) (id : SpaceId) (m : Machine), Steady call id s → m.Shows id s →
        (read call id address w m = (do
          return shape.byteOrder.assemble (← parts.mapM (readPiece call id s)).flatten) m) ∧
        ∀ value, write call id address w value m =
          (forM (Part.deal shape.byteOrder parts (shape.byteOrder.bytes w.bytes value)) fun row =>
            writePart call id s row.1 row.2) m := by
  have laid := (Space.faithfulAll (Space.faithfulFresh name shape) edits).laid
  have same := (Space.editAllShape { name, shape } edits []).1
  rw [after] at laid same
  dsimp only at laid same
  subst same
  obtain ⟨parts, divided⟩ := s.divide w address
  simp only [wrapMask]
  refine ⟨parts, divided, divided.covers, fun p mem => ?_, fun id depth =>
    ⟨closedSteady id depth s, ruledAccess (closed id) id depth w address⟩,
    fun call id m steady shows_ => ⟨?_, fun value => ?_⟩⟩
  · have fits := divided.fits p mem
    exact ⟨fits, carried laid fits⟩
  · exact readDivided divided laid steady shows_
  · exact (writeDivided divided laid steady shows_ value).1

end

section
def hatch : Port := .mk "hatch" true true
  (fun offset w => .done (.word (0x100 * offset + w.bytes))) fun _ _ _ => .ok

def hatchEdits : List (Bus.Edit Port) :=
  let memory := Memory.putBlock {} (.zeroed "ram" 0x10)
  [.install memory 0x0C 0x0F (.port hatch), .install memory 0x10 0x1F (.ram ⟨0⟩ 0)]

def hatchSpace : Space Port :=
  (Space.editAll { name := "bus", shape := ⟨.program, 8, .word, .big, .fixed 0xFF⟩ } hatchEdits []).1

def hatchMachine : Machine := { config := {}, spaces := #[hatchSpace] }

theorem hatchParts : ∃ parts, hatchSpace.Divided .dword 0x10E parts ∧
    parts.flatMap (·.addresses) = [0x0E, 0x0F, 0x10, 0x11] ∧ hatchMachine.Shows ⟨0⟩ hatchSpace ∧
    read (invokeUnder (closed ⟨0⟩) 1) ⟨0⟩ 0x10E .dword hatchMachine = (do
      return ByteOrder.big.assemble (← parts.mapM
        (readPiece (invokeUnder (closed ⟨0⟩) 1) ⟨0⟩ hatchSpace)).flatten) hatchMachine := by
  have after : Space.editAll { name := "bus", shape := ⟨.program, 8, .word, .big, .fixed 0xFF⟩ }
    hatchEdits [] = (hatchSpace, [⟨0x10, 0x1F, .ram ⟨0⟩ 0⟩, ⟨0x0C, 0x0F, .port hatch⟩]) := rfl
  obtain ⟨parts, divided, covers, -, steady, access⟩ := wideParts after .dword 0x10E
  exact ⟨parts, divided, covers, rfl, (access _ ⟨0⟩ hatchMachine (steady ⟨0⟩ 1).1 rfl).1⟩

end

end Machine

end Lockstep
