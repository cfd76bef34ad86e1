import Lockstep.Proofs.TimerMap

/-! Handles are never issued twice. The generation of a slot is the number of times it has been
freed, and a handle from before is either older or that of the entry that lives there; this
holds as long as no generation comes round again. -/
namespace Lockstep.Timer

def Queue.lives (q : Queue) (index : Nat) : Bool := (q.slots[index]?).any Slot.live

def released (q p : Queue) (index : Nat) : Nat :=
  if q.lives index && !p.lives index then 1 else 0

def releases (index : Nat) : Queue → List Note → Nat
  | _, [] => 0
  | q, note :: log => released q note.after index + releases index note.after log

def stamp (slots : Array Slot) (index : Nat) : Option (UInt32 × Bool) :=
  (slots[index]?).map fun s => (s.generation, s.live)

inductive Stamped (q p : Queue) : Option Id → Prop where
  | same (after : stamp p.slots = stamp q.slots) : Stamped q p none
  | freed {index generation} (before : stamp q.slots index = some (generation, true))
      (after : stamp p.slots =
        Function.update (stamp q.slots) index (some (generation + 1, false))) : Stamped q p none
  | made {id : Id} (before : stamp q.slots id.slot = some (id.generation, false) ∨
        stamp q.slots id.slot = none ∧ id.generation = 0)
      (after : stamp p.slots =
        Function.update (stamp q.slots) id.slot (some (id.generation, true))) :
      Stamped q p (some id)

theorem Stamped.first {q p r : Queue} {made : Option Id} (same : stamp p.slots = stamp q.slots)
    (stamped : Stamped p r made) : Stamped q r made := by
  cases stamped with
  | same after => exact .same (after.trans same)
  | freed before after =>
    rw [same] at before after
    exact .freed before after
  | made before after =>
    rw [same] at before after
    exact .made before after

theorem Stamped.last {q p r : Queue} {made : Option Id} (stamped : Stamped q p made)
    (same : stamp r.slots = stamp p.slots) : Stamped q r made := by
  cases stamped with
  | same after => exact .same (same.trans after)
  | freed before after => exact .freed before (same.trans after)
  | made before after => exact .made before (same.trans after)

namespace Queue
variable {q p r : Queue} {id : Id} {s : Slot} {slots : Array Slot} {f : Slot → Slot} {index : Nat}

theorem stampModify (same : ∀ s, (f s).generation = s.generation ∧ (f s).live = s.live) :
    stamp (slots.modify index f) = stamp slots := by
  funext other
  unfold stamp
  rw [Array.getElem?_modify]
  split
  · rename_i equal
    subst equal
    cases slots[index]? with
    | none => rfl
    | some s => simp [same s]
  · rfl

theorem stampUpdate (found : slots[index]? = some s) : stamp (slots.modify index f) =
    Function.update (stamp slots) index (some ((f s).generation, (f s).live)) := by
  funext other
  unfold stamp
  by_cases equal : other = index
  · subst equal
    rw [slotChanged found, Function.update_self, Option.map_some]
  · rw [slotElsewhere equal, Function.update_of_ne equal]

theorem livesStamp (index : Nat) : q.lives index = (stamp q.slots index).any Prod.snd := by
  simp only [lives, stamp, Option.any_map]

theorem armStamp (time period : Time) : stamp (q.arm id time period).slots = stamp q.slots := by
  unfold arm
  dsimp only
  split
  · rfl
  · exact stampModify fun _ => ⟨rfl, rfl⟩

theorem disarmStamp : stamp (q.disarm id).1.slots = stamp q.slots := by
  unfold disarm
  split
  · split
    · exact stampModify fun _ => ⟨rfl, rfl⟩
    · rfl
  · rfl

theorem releaseStamped (found : q.slots[id.slot]? = some s) (live : s.live = true) :
    Stamped q (q.release id) none := by
  have before : stamp q.slots id.slot = some (s.generation, true) := by
    rw [stamp, found, Option.map_some, live]
  exact .freed before (stampUpdate found)

theorem disarmReleased (valid : q.slot? id = some s) :
    Stamped q ((q.disarm id).1.release id) none :=
  .first disarmStamp (releaseStamped (disarmSlot valid) (slotInv valid).2.1)

theorem occupyStamped (filed : q.Filed) (owner : DeviceId) (param : Nat) (persistent : Bool) :
    Stamped q (q.occupy owner param persistent).1 (some (q.occupy owner param persistent).2) := by
  unfold occupy
  split
  · rename_i index rest free
    obtain ⟨s, found, dead⟩ := filed.unused index (by rw [free]; exact List.mem_cons_self ..)
    simp only [found, Option.elim_some]
    have before : stamp q.slots index = some (s.generation, false) := by
      rw [stamp, found, Option.map_some, dead]
    exact .made (.inl before) (stampUpdate found)
  · refine .made (.inr ⟨?_, rfl⟩) ?_
    · simp [stamp]
    · funext other
      by_cases last : other = q.slots.size
      · subst last
        simp [stamp]
      · simp [stamp, Array.getElem?_push, last]

theorem takenStamp (key : Key) (rest : List Key) :
    stamp (q.taken key rest).slots = stamp q.slots := by
  simp only [taken, modifySlot]
  exact stampModify fun _ => ⟨rfl, rfl⟩

theorem poppedStamped {limit : Time} {fired : Fired} {key : Key} {rest : List Key}
    (popped : Popped q limit fired p key rest s) : Stamped q p none := by
  rw [popped.result, popped.reported]
  split
  · split
    · exact .same (takenStamp key rest)
    · let id : Id := ⟨key.slot, s.generation⟩
      have found : (q.taken key rest).slots[id.slot]? = some { s with enabled := false } :=
        slotChanged popped.found
      exact .first (takenStamp key rest) (releaseStamped found popped.live)
  · simp only [again]
    exact .same (stampModify fun _ => ⟨rfl, rfl⟩)

theorem cancelStamped : Stamped q (q.cancel id).1 none := by
  unfold cancel
  split
  · exact .same rfl
  · rename_i s valid
    dsimp only
    split
    · exact .same disarmStamp
    · exact disarmReleased valid

theorem removeStamped : Stamped q (q.remove id) none := by
  unfold remove
  split
  · exact .same rfl
  · rename_i s valid
    exact disarmReleased valid

theorem adjustAtStamp (time period : Time) :
    stamp (q.adjustAt id time period).1.slots = stamp q.slots := by
  unfold adjustAt
  split
  · rfl
  · exact (armStamp time period).trans disarmStamp

theorem setEnabledStamp (on : Bool) : stamp (q.setEnabled id on).slots = stamp q.slots := by
  unfold setEnabled
  split
  · rfl
  · split
    · exact armStamp ..
    · split
      · exact disarmStamp
      · rfl

theorem setParamStamp (param : Nat) : stamp (q.setParam id param).slots = stamp q.slots := by
  unfold setParam
  split
  · rfl
  · simp only [modifySlot]
    exact stampModify fun _ => ⟨rfl, rfl⟩

theorem setNowStamp (time : Time) : stamp (q.setNow time).slots = stamp q.slots := by
  unfold setNow; split <;> rfl

end Queue

section
variable {q p : Queue} {note : Note} {log : List Note} {handles : List Id} {freed : Nat → Nat}
  {made : Option Id}

theorem tookStamped (filed : q.Filed) (took : note.Took q) :
    Stamped q note.after note.issued? := by
  obtain ⟨deed, p⟩ := note
  cases deed with
  | advance limit =>
    obtain ⟨-, rfl⟩ := took
    exact .same (Queue.setNowStamp limit)
  | call request answer =>
    cases request with
    | popDue limit =>
      simp only [Note.Took, Queue.answer] at took
      split at took
      · rename_i fired r due
        cases took
        obtain ⟨key, rest, s, popped⟩ := Queue.popCases filed due
        exact Queue.poppedStamped popped
      · cases took
        exact .same rfl
    | schedule | scheduleAt =>
      cases took
      exact (Queue.occupyStamped filed ..).last (Queue.armStamp ..)
    | allocate => cases took; exact Queue.occupyStamped filed ..
    | adjust => cases took; exact .same (Queue.adjustAtStamp ..)
    | adjustAt => cases took; exact .same (Queue.adjustAtStamp ..)
    | cancel => cases took; exact Queue.cancelStamped
    | remove => cases took; exact Queue.removeStamped
    | setEnabled => cases took; exact .same (Queue.setEnabledStamp _)
    | setParam => cases took; exact .same (Queue.setParamStamp _)
    | setNow => cases took; exact .same (Queue.setNowStamp _)
    | _ => cases took; exact .same rfl

structure Dated (handles : List Id) (freed : Nat → Nat) (q : Queue) : Prop where
  age : ∀ index, (stamp q.slots index).elim 0 (·.1.toNat) = freed index
  past : ∀ id ∈ handles, ∃ generation live, stamp q.slots id.slot = some (generation, live) ∧
    (id.generation < generation ∨ id.generation = generation ∧ live = true)

theorem releasedNone {index : Nat}
    (lives : (stamp q.slots index).any Prod.snd = true → (stamp p.slots index).any Prod.snd = true) :
    released q p index = 0 := by
  simp only [released, Queue.livesStamp]
  split
  · rename_i gone
    obtain ⟨before, after⟩ := Bool.and_eq_true_iff.mp gone
    simp [lives before] at after
  · rfl

theorem datedSame (dated : Dated handles freed q) (after : stamp p.slots = stamp q.slots) :
    Dated handles (fun index => freed index + released q p index) p := by
  refine ⟨fun index => ?_, fun id mem => ?_⟩
  · rw [after, dated.age, releasedNone (by rw [after]; exact id), Nat.add_zero]
  · rw [after]
    exact dated.past id mem

theorem datedFreed (dated : Dated handles freed q) {index : Nat} {generation : UInt32}
    (before : stamp q.slots index = some (generation, true))
    (after : stamp p.slots = Function.update (stamp q.slots) index (some (generation + 1, false)))
    (few : freed index + released q p index < UInt32.size) :
    Dated handles (fun index => freed index + released q p index) p := by
  have here : stamp p.slots index = some (generation + 1, false) := by
    rw [after, Function.update_self]
  have once : released q p index = 1 := by
    simp [released, Queue.livesStamp, before, here]
  have age := dated.age index
  rw [before, Option.elim_some] at age
  have next : (generation + 1).toNat = generation.toNat + 1 := by
    rw [UInt32.toNat_add, UInt32.toNat_one]
    refine Nat.mod_eq_of_lt ?_
    rw [once, ← age] at few
    exact few
  refine ⟨fun other => ?_, fun id mem => ?_⟩
  · by_cases same : other = index
    · subst same
      rw [here, once, Option.elim_some, next, age]
    · have there : stamp p.slots other = stamp q.slots other := by
        rw [after, Function.update_of_ne same]
      rw [there, dated.age, releasedNone (by rw [there]; exact id), Nat.add_zero]
  · obtain ⟨g, live, stamped, past⟩ := dated.past id mem
    by_cases same : id.slot = index
    · refine ⟨generation + 1, false, by rw [same, here], .inl ?_⟩
      rw [same, before] at stamped
      cases stamped
      rw [UInt32.lt_iff_toNat_lt, next]
      rcases past with older | ⟨equal, -⟩
      · exact Nat.lt_succ_of_lt (UInt32.lt_iff_toNat_lt.mp older)
      · rw [equal]
        exact Nat.lt_succ_self _
    · exact ⟨g, live, by rw [after, Function.update_of_ne same, stamped], past⟩

theorem datedMade (dated : Dated handles freed q) {id : Id}
    (before : stamp q.slots id.slot = some (id.generation, false) ∨
      stamp q.slots id.slot = none ∧ id.generation = 0)
    (after : stamp p.slots = Function.update (stamp q.slots) id.slot (some (id.generation, true))) :
    Dated (handles ++ [id]) (fun index => freed index + released q p index) p ∧ id ∉ handles := by
  have here : stamp p.slots id.slot = some (id.generation, true) := by
    rw [after, Function.update_self]
  have older : ∀ other ∈ handles, other.slot = id.slot → other.generation < id.generation := by
    intro other mem same
    obtain ⟨g, live, stamped, past⟩ := dated.past other mem
    rw [same] at stamped
    rcases before with dead | ⟨none, -⟩
    · rw [dead] at stamped
      cases stamped
      exact past.resolve_right fun equal => nomatch equal.2
    · rw [none] at stamped
      cases stamped
  refine ⟨⟨fun other => ?_, fun other mem => ?_⟩, fun mem => ?_⟩
  · have lives : (stamp q.slots other).any Prod.snd = true →
        (stamp p.slots other).any Prod.snd = true := by
      intro lives
      by_cases same : other = id.slot
      · rw [same, here]; rfl
      · rwa [after, Function.update_of_ne same]
    rw [releasedNone lives, Nat.add_zero, ← dated.age other]
    by_cases same : other = id.slot
    · subst same
      rcases before with dead | ⟨none, zero⟩
      · rw [here, dead]; rfl
      · rw [here, none, zero]; rfl
    · rw [after, Function.update_of_ne same]
  · rcases List.mem_append.mp mem with old | new
    · obtain ⟨g, live, stamped, past⟩ := dated.past other old
      by_cases same : other.slot = id.slot
      · exact ⟨id.generation, true, by rw [same, here], .inl (older other old same)⟩
      · exact ⟨g, live, by rw [after, Function.update_of_ne same, stamped], past⟩
    · rw [List.mem_singleton.mp new]
      exact ⟨id.generation, true, here, .inr ⟨rfl, rfl⟩⟩
  · have less := older id mem rfl
    rw [UInt32.lt_iff_toNat_lt] at less
    exact Nat.lt_irrefl _ less

theorem datedTook (dated : Dated handles freed q) (stamped : Stamped q p made)
    (few : ∀ index, freed index + released q p index < UInt32.size) :
    Dated (handles ++ made.toList) (fun index => freed index + released q p index) p ∧
      ∀ id ∈ made, id ∉ handles := by
  cases stamped with
  | same after =>
    rw [Option.toList_none, List.append_nil]
    exact ⟨datedSame dated after, nofun⟩
  | freed before after =>
    rw [Option.toList_none, List.append_nil]
    exact ⟨datedFreed dated before after (few _), nofun⟩
  | made before after =>
    obtain ⟨dated', fresh⟩ := datedMade dated before after
    refine ⟨dated', fun id mem => ?_⟩
    cases mem
    exact fresh

theorem datedEmpty : Dated [] (fun _ => 0) {} := by
  refine ⟨fun index => ?_, nofun⟩
  simp [stamp]

theorem chainFollows (chain : Chain q log p) (filed : q.Filed) (dated : Dated handles freed q)
    (once : handles.Nodup) (few : ∀ index, freed index + releases index q log < UInt32.size) :
    Agenda.Follows (q.agenda handles) (log.map Note.deed) (p.agenda (handles ++ issued log)) ∧
      (handles ++ issued log).Nodup := by
  induction chain generalizing handles freed with
  | nil q => simpa [issued] using ⟨Agenda.Follows.nil _, once⟩
  | @cons q note log r took rest ih =>
    have little : ∀ index, freed index + released q note.after index < UInt32.size := fun index =>
      Nat.lt_of_le_of_lt (Nat.add_le_add_left (Nat.le_add_right ..) _) (few index)
    obtain ⟨dated', fresh⟩ := datedTook dated (tookStamped filed took) little
    have once' : (handles ++ note.issued?.toList).Nodup := by
      refine List.nodup_append.mpr ⟨once, by cases note.issued? <;> simp, ?_⟩
      rintro id old _ new rfl
      exact fresh id (by simpa using new) old
    have few' : ∀ index, freed index + released q note.after index +
        releases index note.after log < UInt32.size := by
      intro index
      rw [Nat.add_assoc]
      exact few index
    obtain ⟨follows, all⟩ := ih (tookFiled filed took) dated' once' few'
    have ids : handles ++ issued (note :: log) =
        handles ++ note.issued?.toList ++ issued log := by
      cases made : note.issued? <;> simp [issued, made]
    rw [ids]
    refine ⟨?_, all⟩
    obtain ⟨deed, p⟩ := note
    cases deed with
    | call request answer => exact .call (Queue.answerStep filed took fresh) follows
    | advance limit =>
      obtain ⟨quiet, rfl⟩ := took
      refine .advance (Queue.quietOf filed quiet) ?_
      rw [← Queue.setNowAgenda]
      simpa [Note.issued?] using follows

/-- Every run follows an agenda, in which each handle is issued once and never has an entry
again when it has lost it. -/
theorem timerMap (client : Client) {fuel : Nat} {q : Queue} {log : List Note}
    (ran : client.run fuel ({}, []) = some (q, log))
    (few : ∀ index, releases index {} log < UInt32.size) :
    Agenda.Follows .empty (log.map Note.deed) (q.agenda (issued log)) ∧ (issued log).Nodup ∧
    ∀ early late, log = early ++ late → ∃ a, Agenda.Follows .empty (early.map Note.deed) a ∧
      Agenda.Follows a (late.map Note.deed) (q.agenda (issued log)) ∧
        ∀ id, a.Retired id → q.slot? id = none := by
  obtain ⟨follows, once⟩ := chainFollows (Client.chain ran) Queue.filedEmpty datedEmpty .nil
    (by simpa using few)
  rw [List.nil_append] at follows once
  have start : Queue.agenda {} [] = .empty := by
    have none : Queue.find? {} = fun _ => none := by
      funext id
      simp [Queue.find?, Queue.slot?]
    simp only [Queue.agenda, Agenda.empty, none]
  rw [start] at follows
  refine ⟨follows, once, fun early late split => ?_⟩
  have both := follows
  rw [split, List.map_append] at both
  obtain ⟨a, first, last⟩ := Agenda.followsSplit both
  rw [← split] at last
  refine ⟨a, first, last, fun id retired => ?_⟩
  simpa [Queue.agenda, Queue.find?] using (Agenda.retiredFollows last retired).2

theorem releasesLe (index : Nat) : releases index q log ≤ log.length := by
  induction log generalizing q with
  | nil => exact Nat.le_refl _
  | cons note log ih =>
    have one : released q note.after index ≤ 1 := by
      unfold released
      split <;> decide
    have rest := ih (q := note.after)
    simp only [releases, List.length_cons]
    omega

theorem rotaMap : ∃ q log, rota.run 9 ({}, []) = some (q, log) ∧ log.length = 20 ∧
    (∀ index, releases index {} log < UInt32.size) ∧
    Agenda.Follows .empty (log.map Note.deed) (q.agenda (issued log)) ∧ (issued log).Nodup ∧
    ∀ early late, log = early ++ late → ∃ a, Agenda.Follows .empty (early.map Note.deed) a ∧
      Agenda.Follows a (late.map Note.deed) (q.agenda (issued log)) ∧
        ∀ id, a.Retired id → q.slot? id = none := by
  obtain ⟨q, log, ran, long⟩ := rotaRuns
  have few : ∀ index, releases index {} log < UInt32.size := fun index =>
    Nat.lt_of_le_of_lt (releasesLe index) (by rw [long]; decide)
  exact ⟨q, log, ran, long, few, timerMap rota ran few⟩

end

end Lockstep.Timer
