import Lockstep.Proofs.Biography
import Lockstep.Proofs.Told

/-! What a chronicle tells about one processor is its life. A run takes a processor as it is seen,
and leaves it as what is told about it has made it, however deep its callbacks nest. -/
namespace Lockstep

theorem aboutAppend (unit : Nat) (first rest : List Mark) :
    about unit (first ++ rest) = about unit first ++ about unit rest :=
  List.filterMap_append

theorem aboutOwn (unit : Nat) (what : Happening) : about unit [⟨unit, what⟩] = [what] := by
  simp [about, Mark.about?]

theorem aboutOther {unit other : Nat} (apart : other ≠ unit) (what : Happening) :
    about unit [⟨other, what⟩] = [] := by
  simp [about, Mark.about?, apart]

def Lives {α : Type} (unit : Nat) (id : DeviceId) (t : Absence) (w : Watch Mark α)
    (after : α → Absence) (m : Machine) : Prop :=
  ∀ marks a m' c, w m = (marks, some (a, m')) → Sight unit id m t c →
    ∃ c', Sight unit id m' (after a) c' ∧ Core.Life unit c (about unit marks) c'

def Absence.Open (t : Absence) : Prop := ∀ cpu line, t ≠ some (cpu, .taken line)

namespace Lives
open Machine
open Watch (of jot)
variable {α β : Type} {unit : Nat} {id : DeviceId} {t : Absence} {m : Machine}

theorem still {after : α → Absence} {a : α} (same : after a = t) :
    Lives unit id t (pure a) after m := by
  rintro _ _ _ c ran sight
  cases ran
  exact ⟨c, same ▸ sight, .still c⟩

theorem bind {w : Watch Mark α} {f : α → Watch Mark β} {s : α → Absence} {r : β → Absence}
    (first : Lives unit id t w s m)
    (rest : ∀ a m₁, (w m).2 = some (a, m₁) → Lives unit id (s a) (f a) r m₁) :
    Lives unit id t (w >>= f) r m := by
  intro marks b m' c ran sight
  obtain ⟨one, a, m₁, more, ran₁, ran₂, rfl⟩ := Watch.bindInv ran
  obtain ⟨c₁, sight₁, life₁⟩ := first one a m₁ c ran₁ sight
  obtain ⟨c₂, sight₂, life₂⟩ := rest a m₁ (by rw [ran₁]) more b m' c₁ ran₂ sight₁
  rw [aboutAppend]
  exact ⟨c₂, sight₂, life₁.append life₂⟩

theorem look {f : Machine → Watch Mark β} {after : β → Absence}
    (h : Lives unit id t (f m) after m) : Lives unit id t (of get >>= f) after m :=
  h

theorem run {x : Run α} {after : α → Absence}
    (seen : ∀ a m', x m = some (a, m') → ∀ c, Sight unit id m t c → Sight unit id m' (after a) c) :
    Lives unit id t (of x) after m := by
  intro marks a m' c ran sight
  obtain ⟨rfl, done⟩ := Watch.ofInv ran
  exact ⟨c, seen a m' done c sight, .still c⟩

theorem calm {x : Run α} (keeps : Run.Keeps (Unfelt unit id) x m) :
    Lives unit id t (of x) (fun _ => t) m :=
  run fun a m' done _ sight => sight.calm (keeps a m' done)

theorem change {g : Machine → Machine} (calm : Unfelt unit id m (g m)) :
    Lives unit id t (of (modify g)) (fun _ => t) m :=
  Lives.calm (Run.keepsModify calm)

theorem turn {m₁ : Machine} (calm : Unfelt unit id m m₁) :
    Lives unit id t (of (set m₁)) (fun _ => t) m :=
  Lives.calm (Run.keepsModify (g := fun _ => m₁) calm)

theorem tell {n : Machine → List Mark} {after : Absence}
    (lives : ∀ c, Sight unit id m t c →
      ∃ c', Sight unit id m after c' ∧ Core.Life unit c (about unit (n m)) c') :
    Lives unit id t (jot n) (fun _ => after) m := by
  intro _ _ _ c ran sight
  cases ran
  exact lives c sight

theorem hush {n : Machine → List Mark} (silent : about unit (n m) = []) :
    Lives unit id t (jot n) (fun _ => t) m :=
  tell fun c sight => ⟨c, sight, silent ▸ .still c⟩

theorem lend {other : DeviceId} {w : Watch Mark α} {d : Device} (idle : m.idle other = .ok d)
    (inner : Lives unit id t w (fun _ => t) (m.setBusy other true)) {f : α → Watch Mark β}
    {after : β → Absence} (rest : ∀ a m₁ m₂, (w (m.setBusy other true)).2 = some (a, m₁) →
      Lives unit id t (f a) after m₂) :
    Lives unit id t (do
      of (modify (·.setBusy other true))
      let a ← w
      of (modify (·.setBusy other false))
      f a) after m := by
  intro marks b m' c ran sight
  have free : other = id → t = none := fun here => (sight.idle (here ▸ idle)).1
  refine bind (s := fun _ => t) (run fun _ _ done _ sight => ?_) (fun _ m₁ lent => ?_)
    marks b m' c ran sight
  · cases done
    exact sight.busied fun _ => .inr rfl
  · cases lent
    refine bind inner fun a m₂ ran => ?_
    refine bind (s := fun _ => t) (run fun _ _ done _ sight => ?_) fun _ m₃ _ =>
      rest a m₂ m₃ ran
    cases done
    exact sight.busied fun here => .inl (free here)

theorem lendIdly {other : DeviceId} {d : Device} (idle : m.idle other = .ok d) {f : Watch Mark β}
    {after : β → Absence} (rest : ∀ m, Lives unit id t f after m) :
    Lives unit id t (do
      of (modify (·.setBusy other true))
      of (modify (·.setBusy other false))
      f) after m :=
  lend (w := pure PUnit.unit) (f := fun _ => f) idle (.still rfl) fun _ _ m _ => rest m

end Lives

def Command.isLoud : Command → Bool
  | .driveLine .. | .setRegister .. | .driveReset _ false => true
  | _ => false

namespace Machine
open Watch (of jot)
open Bus (Width Region)
variable {unit : Nat} {id : DeviceId} {t : Absence} {m : Machine}

theorem unfeltBears (unit : Nat) (id : DeviceId) : Bears fun _ => Run.Follows (Unfelt unit id) :=
  bearsFollows Unfelt.refl Unfelt.trans Unfelt.touch

theorem muteFollows {R : Machine → Machine → Prop} (s : Script) (m : Machine) :
    Run.Follows R (mute s) (mute s) m :=
  fun _ _ h => by cases h

section
variable {call : Teller} (calls : ∀ s m, Lives unit id t (call s) (fun _ => t) m)
include calls

theorem readHandlerLives (order : Bus.ByteOrder) (region : Region Port) (address : Nat)
    (width : Width) (m : Machine) :
    Lives unit id t (tellReadHandler call order region address width) (fun _ => t) m := by
  have plain : Lives unit id t (of (readHandler mute order region address width)) (fun _ => t) m :=
    .calm ((unfeltBears unit id).readHandler muteFollows order region address width m).keeps
  unfold tellReadHandler
  cases region.handler with
  | port p =>
    dsimp only
    split
    · exact .bind (calls _ m) fun _ _ _ => .still rfl
    · exact .still rfl
  | ram | rom | bank | unmapped => exact plain

theorem readRegionLives (space : SpaceId) (shape : Bus.Space Port) (region : Region Port)
    (address : Nat) (width : Width) (m : Machine) :
    Lives unit id t (tellReadRegion call space shape region address width) (fun _ => t) m := by
  refine .bind (readHandlerLives calls _ _ _ _ m) fun value m _ => ?_
  cases value with
  | some value => exact .bind (.change (.touch (.drive space value))) fun _ _ _ => .still rfl
  | none =>
    refine .bind (.change ?_) fun _ _ _ => .look (.still rfl)
    exact (Unfelt.touch (.countRead space)).trans (.touch (.unmapped _ _ _))

theorem writeHandlerLives (space : SpaceId) (shape : Bus.Space Port) (region : Region Port)
    (address : Nat) (width : Width) (value : Nat) (m : Machine) :
    Lives unit id t (tellWriteHandler call space shape region address width value) (fun _ => t) m := by
  have plain : Lives unit id t (of (writeHandler mute space shape region address width value))
      (fun _ => t) m :=
    .calm ((unfeltBears unit id).writeHandler muteFollows trivial shape region address width value
      m).keeps
  unfold tellWriteHandler
  cases region.handler with
  | port p =>
    dsimp only
    split
    · exact .bind (calls _ m) fun _ _ _ => .still rfl
    · exact .still rfl
  | ram | rom | bank | unmapped => exact plain

theorem writeRegionLives (space : SpaceId) (shape : Bus.Space Port) (region : Region Port)
    (address : Nat) (width : Width) (value : Nat) (m : Machine) :
    Lives unit id t (tellWriteRegion call space shape region address width value) (fun _ => t) m :=
  .bind (.change (.touch (.drive space value))) fun _ m _ =>
    writeHandlerLives calls space shape region address width value m

theorem readLives (space : SpaceId) (rank address : Nat) (m : Machine) :
    Lives unit id t (tellRead call space rank address) (fun _ => t) m := by
  induction rank generalizing address m with
  | zero =>
    refine .look ?_
    cases m.space? space with
    | none => exact .still rfl
    | some shape => exact readRegionLives calls _ _ _ _ _ _
  | succ rank ih =>
    refine .look ?_
    cases m.space? space with
    | none => exact .still rfl
    | some shape =>
      dsimp only
      split
      · exact .bind (ih _ m) fun _ m _ => .bind (ih _ m) fun _ _ _ => .still rfl
      · exact readRegionLives calls _ _ _ _ _ _

theorem writeLives (space : SpaceId) (rank address value : Nat) (m : Machine) :
    Lives unit id t (tellWrite call space rank address value) (fun _ => t) m := by
  induction rank generalizing address value m with
  | zero =>
    refine .look ?_
    cases m.space? space with
    | none => exact .still rfl
    | some shape => exact writeRegionLives calls _ _ _ _ _ _ _
  | succ rank ih =>
    refine .look ?_
    cases m.space? space with
    | none => exact .still rfl
    | some shape =>
      dsimp only
      split
      · exact .bind (ih _ _ m) fun _ m _ => ih _ _ m
      · exact writeRegionLives calls _ _ _ _ _ _ _

theorem portLives (program io : SpaceId) : Acc8.Port.Related
    (fun _ w _ => ∀ m, Lives unit id t w (fun _ => t) m) (tellPort call program io)
    (tellPort call program io) where
  pure _ _ := .still rfl
  bind first rest m := .bind (first m) fun a m _ => rest a m
  read _ m := .bind (readLives calls program 0 _ m) fun _ _ _ => .still rfl
  write _ _ m := writeLives calls program 0 _ _ m
  input _ m := .bind (readLives calls io 0 _ m) fun _ _ _ => .still rfl
  output _ _ m := writeLives calls io 0 _ _ m

end

section
variable {m' : Machine} {c : Core} {device : DeviceId} {index : Nat} {p : Processor}

theorem aboutMark (sight : Sight unit id m t c) (device : DeviceId) (what : Happening) :
    about unit (m.unitMark device what) = if device = id then [what] else [] := by
  unfold unitMark
  cases placed : m.unitIndex? device with
  | none =>
    have away : ¬ device = id := fun here => by
      rw [sight.indexed.mpr here] at placed
      cases placed
    rw [if_neg away]
    rfl
  | some i =>
    dsimp only
    by_cases here : device = id
    · rw [sight.indexed.mpr here] at placed
      cases placed
      rw [if_pos here, aboutOwn]
    · have apart : i ≠ unit := fun same => here (sight.indexed.mp (same ▸ placed))
      rw [if_neg here, aboutOther apart]

theorem heeds (opens : t.Open) (sight : Sight unit id m t c) (line : Nat) :
    c.phase ≠ .taken line := by
  cases t with
  | none =>
    obtain ⟨_, -, still⟩ := sight.seat
    rw [(still rfl).2]
    exact fun h => by cases h
  | some row =>
    rw [(sight.away row.1 row.2 rfl).2.1]
    exact fun h => opens row.1 line (by rw [← h])

theorem drivenLife {line : Nat} {state : LineState} {vector : Option Nat} (opens : t.Open)
    (ok : m.driveLine device line state vector = .ok m') (sight : Sight unit id m t c) :
    ∃ c', Sight unit id m' t c' ∧
      Core.Life unit c (if device = id then [.driven line state vector] else []) c' := by
  obtain ⟨index, p, lines, found, driven, units⟩ := driveLineUnits ok
  have tree := treeSteers.driveLine ok
  by_cases here : device = id
  · obtain rfl := (sight.place found).mp here
    rw [sight.here (unitInv found).2] at driven
    rw [if_pos here]
    refine ⟨_, sight.relined lines tree units (fun q => ?_) fun q _ => ?_,
      .one (.driven (heeds opens sight) driven)⟩
    · split
      · exact Processor.liftDevice ..
      · rfl
    · split
      · exact (Processor.liftLines ..).1
      · rfl
  · rw [if_neg here]
    refine ⟨c, sight.calm (.modify tree units (fun q => ?_) fun same => ?_), .still c⟩
    · split
      · exact Processor.liftDevice ..
      · rfl
    · exact absurd ((sight.place found).mpr same) here

theorem writtenLife {register : RegisterId} {value : Nat}
    (ok : m.setRegister device register value = .ok m') (sight : Sight unit id m t c) :
    ∃ c', Sight unit id m' t c' ∧
      Core.Life unit c (if device = id then [.written register value] else []) c' := by
  obtain ⟨d, d', idle, written, rfl⟩ := setRegisterInv ok
  by_cases here : device = id
  · subst here
    obtain ⟨rfl, rfl, free⟩ := sight.idle idle
    obtain ⟨cpu, set, rfl⟩ := okMapInv written
    rw [if_pos rfl]
    exact ⟨_, sight.placed cpu, .one (.written free set)⟩
  · rw [if_neg here]
    exact ⟨c, sight.calm (.elsewhere (Ne.symm here)), .still c⟩

theorem resetLife (found : m.units[index]? = some p) (ok : m.resetUnit index = .ok m')
    (sight : Sight unit id m t c) : ∃ c', Sight unit id m' t c' ∧
      Core.Life unit c (about unit [⟨index, .reset⟩]) c' := by
  rcases resetUnitInv ok with ⟨none, -⟩ | ⟨q, d, row, idle, rfl⟩
  · rw [found] at none
    cases none
  rw [found] at row
  cases row
  by_cases here : index = unit
  · subst here
    rw [(sight.apart found).mpr rfl] at idle ⊢
    obtain ⟨rfl, rfl, free⟩ := sight.idle idle
    rw [aboutOwn]
    have placed := sight.placed c.cpu.reset
    exact ⟨_, placed.relined c.lines.clear rfl rfl (fun _ => rfl)
      fun q same => by rw [same], .one (.reset free)⟩
  · have apart : id ≠ p.device := fun same => here ((sight.apart found).mp same.symm)
    rw [aboutOther here]
    have renewed : Unfelt unit id m (m.withDevice p.device d.resetUnit.1) := .elsewhere apart
    have entered := renewed.trans (.tree (enterAllTree _ d.resetUnit.2) (enterAllUnits ..))
    exact ⟨c, sight.calm (entered.trans (.modify rfl rfl (fun _ => rfl) fun same =>
      absurd same here)), .still c⟩

theorem releasedLife (ok : m.driveReset device false = .ok m') (sight : Sight unit id m t c) :
    ∃ c', Sight unit id m' t c' ∧
      Core.Life unit c (about unit (m.deedMarks (.driveReset device false))) c' := by
  simp only [deedMarks, ok]
  obtain ⟨on, -⟩ | ⟨-, index, p, found, ⟨held, rfl⟩ | ⟨held, s, reset, ok⟩⟩ := driveResetInv ok
  · cases on
  · rw [found]
    simp only [held]
    exact ⟨c, sight, .still c⟩
  · rw [found]
    simp only [held, if_true]
    obtain ⟨c', seen, life⟩ := resetLife (unitInv found).2 reset sight
    exact ⟨c', seen.calm (.resume ok), life⟩

theorem quietMarks {command : Command} (m : Machine) (quiet : command.isLoud = false) :
    m.deedMarks command = [] := by
  unfold deedMarks
  split <;> first | rfl | cases quiet

theorem quietSight {command : Command} (quiet : command.isLoud = false)
    (deed : Deed command m m') (sight : Sight unit id m t c) : Sight unit id m' t c := by
  cases deed with
  | driveLine | setRegister => cases quiet
  | still => exact sight
  | freeze | poke | load | selectBank | switchBank | allocateTimer | cancelTimer | removeTimer
  | newCell | setCell | note => exact sight.calm (.tree rfl rfl)
  | map _ _ ok =>
    obtain rfl | ⟨_, _, -, rfl⟩ := mapInv ok
    · exact sight
    · exact sight.calm (.tree rfl rfl)
  | schedule | scheduleCycles => exact (sight.calm (.cut ..)).calm (.tree rfl rfl)
  | adjustTimer delay period =>
    unfold adjustTimer
    dsimp only
    split
    · exact sight.calm (.cut ..)
    · exact sight
  | requestYield => exact sight.calm (.yield m)
  | boostInterleave quantum duration =>
    have boosted : Unfelt unit id m { m with boost := some ⟨quantum, m.now + duration⟩ } :=
      .tree rfl rfl
    exact sight.calm (boosted.trans (.yield _))
  | suspend ok => exact sight.calm (.suspend ok)
  | resume ok => exact sight.calm (.resume ok)
  | spin ok =>
    obtain ⟨_, _, -, ⟨-, rfl⟩ | ⟨-, ok⟩⟩ := spinInv ok
    · exact sight
    · exact sight.calm (.suspend ok)
  | driveReset ok =>
    obtain ⟨-, ok⟩ | ⟨rfl, -⟩ := driveResetInv ok
    · exact sight.calm (.suspend ok)
    · cases quiet
  | hold => exact sight.busied fun _ => .inr rfl
  | emit event => exact sight.calm (.trace m event)

end

theorem attemptLives {f : Machine → Except AccessError Machine} {marks : List Mark}
    (refused : ∀ e, f m = .error e → marks = [])
    (done : ∀ m', f m = .ok m' → ∀ c, Sight unit id m t c → ∃ c', Sight unit id m' t c' ∧
      Core.Life unit c (about unit marks) c') :
    Lives unit id t (do
      let reply ← of (attempt f)
      jot fun _ => marks
      return reply) (fun _ => t) m := by
  intro _ _ _ c ran sight
  obtain ⟨_, _, _, _, first, rest, rfl⟩ := Watch.bindInv ran
  obtain ⟨rfl, tried⟩ := Watch.ofInv first
  unfold attempt at tried
  rw [Run.getBind] at tried
  cases result : f m with
  | ok m₁ =>
    rw [result] at tried
    cases tried
    cases rest
    have life := done _ result c sight
    rw [← List.append_nil marks] at life
    exact life
  | error e =>
    rw [result] at tried
    cases tried
    cases rest
    rw [refused e result]
    exact ⟨c, sight, .still c⟩

theorem plainLives {call : Teller} {command : Command} (opens : t.Open)
    (plain : command.isPlain = true) (m : Machine) :
    Lives unit id t (Command.tell call command) (fun _ => t) m := by
  rw [plainTell plain]
  refine .look ?_
  by_cases quiet : command.isLoud = false
  · rw [quietMarks m quiet]
    refine .bind (s := fun _ => t) (.run fun reply m' ran c sight => ?_) fun _ _ _ =>
      .bind (.hush rfl) fun _ _ _ => .still rfl
    exact quietSight quiet (plainDeed plain m reply m' ran) sight
  · match command, quiet with
    | .driveLine device line state vector, _ =>
      unfold Command.run
      refine attemptLives (fun e no => by simp only [deedMarks, no]) fun m' ok c sight => ?_
      simp only [deedMarks, ok]
      rw [aboutMark sight]
      exact drivenLife opens ok sight
    | .setRegister device register value, _ =>
      unfold Command.run
      refine attemptLives (fun e no => by simp only [deedMarks, no]) fun m' ok c sight => ?_
      simp only [deedMarks, ok]
      rw [aboutMark sight]
      exact writtenLife ok sight
    | .driveReset device false, _ =>
      unfold Command.run
      exact attemptLives (fun e no => by simp only [deedMarks, no]) fun m' ok c sight =>
        releasedLife ok sight

theorem onSpaceLives {route : Route} {f : SpaceId → Watch Mark Reply}
    (inner : ∀ space, Lives unit id t (f space) (fun _ => t) m) :
    Lives unit id t (tellOnSpace route f) (fun _ => t) m := by
  refine .look ?_
  cases m.resolve route with
  | ok space => exact inner space
  | error e => exact .still rfl

mutual

theorem commandLives {call : Teller} (calls : ∀ s m, Lives unit id t (call s) (fun _ => t) m)
    (opens : t.Open) (command : Command) (m : Machine) :
    Lives unit id t (Command.tell call command) (fun _ => t) m := by
  by_cases plain : command.isPlain = true
  · exact plainLives opens plain m
  · match command, plain with
    | .borrow other as body, _ =>
      unfold Command.tell
      refine .look ?_
      cases taken : m.borrowable other as with
      | error e => exact .still rfl
      | ok device =>
        obtain ⟨d, idle⟩ := borrowableIdle taken
        exact .lend idle (scriptLives calls opens body _) fun _ _ _ _ => .still rfl
    | .read route address width, _ =>
      unfold Command.tell
      exact onSpaceLives fun space =>
        .bind (readLives calls space _ _ m) fun _ _ _ => .still rfl
    | .write route address width value, _ =>
      unfold Command.tell
      exact onSpaceLives fun space =>
        .bind (writeLives calls space _ _ _ m) fun _ _ _ => .still rfl

theorem scriptLives {call : Teller} (calls : ∀ s m, Lives unit id t (call s) (fun _ => t) m)
    (opens : t.Open) : (script : Script) → (m : Machine) →
    Lives unit id t (Script.tell call script) (fun _ => t) m
  | .done reply, m => by
      unfold Script.tell
      exact .still rfl
  | .step command next, m => by
      unfold Script.tell
      exact .bind (commandLives calls opens command m) fun reply m _ =>
        scriptLives calls opens (next reply) m

end

theorem invokeLives (opens : t.Open) (depth : Nat) (script : Script) (m : Machine) :
    Lives unit id t (tellInvoke depth script) (fun _ => t) m := by
  induction depth generalizing script m with
  | zero => intro _ _ _ _ ran; cases ran
  | succ depth ih => exact scriptLives ih opens script m

end Machine

end Lockstep
