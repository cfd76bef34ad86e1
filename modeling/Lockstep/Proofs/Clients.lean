import Lockstep.Proofs.TimerOrder

/-! Clients of a timer queue. A client makes the public calls in any order, each chosen from
the answers so far, and advances the queue with callbacks that are clients themselves. The
log of a run is a chain of plain calls: an advance is pops until nothing is due, with what
the callbacks did between them. A part of a run up to some call is a run of its own, in
which the advances that have not returned are those pops. -/
namespace Lockstep.Timer

inductive Request where
  | schedule (owner : DeviceId) (delay period : Time) (param : Nat)
  | scheduleAt (owner : DeviceId) (time period : Time) (param : Nat)
  | allocate (owner : DeviceId) (param : Nat)
  | adjust (id : Id) (delay period : Time)
  | adjustAt (id : Id) (time period : Time)
  | cancel (id : Id)
  | remove (id : Id)
  | setEnabled (id : Id) (on : Bool)
  | setParam (id : Id) (param : Nat)
  | setNow (time : Time)
  | popDue (limit : Time)
  | now
  | size
  | isEmpty
  | isEnabled (id : Id)
  | fireTime (id : Id)
  | remaining (id : Id)
  | nextFireTime
  | untilNext
  | entries
  deriving DecidableEq, Repr

inductive Answer where
  | done
  | made (id : Id)
  | flag (on : Bool)
  | count (n : Nat)
  | time (time : Option Time)
  | popped (fired : Option Fired)
  | rows (rows : List Info)
  deriving DecidableEq, Repr

inductive Deed where
  | call (request : Request) (answer : Answer)
  | advance (limit : Time)
  deriving DecidableEq, Repr

structure Note where
  deed : Deed
  after : Queue

def Queue.answer (q : Queue) : Request → Queue × Answer
  | .schedule owner delay period param => (q.schedule owner delay period param).map id .made
  | .scheduleAt owner time period param => (q.scheduleAt owner time period param).map id .made
  | .allocate owner param => (q.allocate owner param).map id .made
  | .adjust id delay period => (q.adjust id delay period).map (fun q => q) .flag
  | .adjustAt id time period => (q.adjustAt id time period).map (fun q => q) .flag
  | .cancel id => (q.cancel id).map (fun q => q) .flag
  | .remove id => (q.remove id, .done)
  | .setEnabled id on => (q.setEnabled id on, .done)
  | .setParam id param => (q.setParam id param, .done)
  | .setNow time => (q.setNow time, .done)
  | .popDue limit =>
      match q.popDue limit with
      | some (fired, q) => (q, .popped (some fired))
      | none => (q, .popped none)
  | .now => (q, .time (some q.now))
  | .size => (q, .count q.size)
  | .isEmpty => (q, .flag q.isEmpty)
  | .isEnabled id => (q, .flag (q.isEnabled id))
  | .fireTime id => (q, .time (q.fireTime? id))
  | .remaining id => (q, .time (q.remaining? id))
  | .nextFireTime => (q, .time q.nextFireTime?)
  | .untilNext => (q, .time q.untilNext?)
  | .entries => (q, .rows q.entries)

inductive Client where
  | done
  | call (request : Request) (next : Answer → Client)
  | advance (limit : Time) (fire : List Note → Fired → Client) (next : List Note → Client)

def Client.run (fuel : Nat) : Client → Queue × List Note → Option (Queue × List Note)
  | .done, s => some s
  | .call request next, (q, log) =>
      let (q, answer) := q.answer request
      (next answer).run fuel (q, log ++ [⟨.call request answer, q⟩])
  | .advance limit fire next, s => do
      let (q, log) ← Queue.advanceTo (fun fired (q, log) =>
        let log := log ++ [⟨.call (.popDue limit) (.popped (some fired)), q⟩]
        (fire log fired).run fuel (q, log)) limit fuel s
      let log := log ++ [⟨.advance limit, q⟩]
      (next log).run fuel (q, log)

def Note.Took (q : Queue) : Note → Prop
  | ⟨.call request answer, p⟩ => q.answer request = (p, answer)
  | ⟨.advance limit, p⟩ => q.popDue limit = none ∧ p = q.setNow limit

def Note.key? (q : Queue) : Note → Option Key
  | ⟨.call _ (.popped (some fired)), _⟩ =>
      some ⟨fired.time, (q.slots[fired.id.slot]?).elim 0 Slot.seq, fired.id.slot⟩
  | _ => none

section
variable {q : Queue} {note : Note}

theorem tookCases (filed : q.Filed) (took : note.Took q) :
    Queue.Edited q note.after ∧ note.key? q = none ∨
    ∃ limit fired key rest s, Queue.Popped q limit fired note.after key rest s ∧
      note.key? q = some key := by
  obtain ⟨deed, p⟩ := note
  cases deed with
  | advance limit =>
    obtain ⟨-, rfl⟩ := took
    exact .inl ⟨Queue.setNowEdited limit, rfl⟩
  | call request answer =>
    cases request with
    | popDue limit =>
      simp only [Note.Took, Queue.answer] at took
      split at took
      · rename_i fired r popped
        cases took
        obtain ⟨key, rest, s, popped⟩ := Queue.popCases filed popped
        refine .inr ⟨limit, fired, key, rest, s, popped, ?_⟩
        rw [popped.reported]
        simp only [Note.key?, popped.found, Option.elim_some]
        rw [popped.same]
      · cases took
        exact .inl ⟨.refl q, rfl⟩
    | schedule => cases took; exact .inl ⟨Queue.scheduleAtEdited .., rfl⟩
    | scheduleAt => cases took; exact .inl ⟨Queue.scheduleAtEdited .., rfl⟩
    | allocate => cases took; exact .inl ⟨Queue.occupyEdited .., rfl⟩
    | adjust => cases took; exact .inl ⟨Queue.adjustAtEdited .., rfl⟩
    | adjustAt => cases took; exact .inl ⟨Queue.adjustAtEdited .., rfl⟩
    | cancel => cases took; exact .inl ⟨Queue.cancelEdited, rfl⟩
    | remove => cases took; exact .inl ⟨Queue.removeEdited, rfl⟩
    | setEnabled => cases took; exact .inl ⟨Queue.setEnabledEdited _, rfl⟩
    | setParam => cases took; exact .inl ⟨Queue.setParamEdited _, rfl⟩
    | setNow => cases took; exact .inl ⟨Queue.setNowEdited _, rfl⟩
    | _ => cases took; exact .inl ⟨.refl q, rfl⟩

theorem tookFiled (filed : q.Filed) (took : note.Took q) : note.after.Filed := by
  rcases tookCases filed took with ⟨edited, -⟩ | ⟨_, _, _, _, _, popped, -⟩
  · exact edited.filed filed
  · exact popped.filed filed

end

inductive Chain : Queue → List Note → Queue → Prop where
  | nil (q) : Chain q [] q
  | cons {q note log p} (took : note.Took q) (rest : Chain note.after log p) :
      Chain q (note :: log) p

namespace Chain
variable {q p r : Queue} {log more : List Note}

theorem append (first : Chain q log p) (rest : Chain p more r) : Chain q (log ++ more) r := by
  induction first with
  | nil q => exact rest
  | cons took tail ih => exact .cons took (ih rest)

end Chain

def Chained (s t : Queue × List Note) : Prop :=
  ∃ log, t.2 = s.2 ++ log ∧ Chain s.1 log t.1

theorem Chained.note {q : Queue} {log : List Note} {note : Note} {t : Queue × List Note}
    (took : note.Took q) (rest : Chained (note.after, log ++ [note]) t) : Chained (q, log) t := by
  obtain ⟨more, same, chain⟩ := rest
  exact ⟨note :: more, by simpa using same, .cons took chain⟩

theorem Chained.trans {s t u : Queue × List Note} (first : Chained s t) (rest : Chained t u) :
    Chained s u := by
  obtain ⟨log, same, chain⟩ := first
  obtain ⟨more, same', chain'⟩ := rest
  exact ⟨log ++ more, by rw [same', same, List.append_assoc], chain.append chain'⟩

theorem drainChained {limit : Time} {react : Fired → Queue × List Note → Option (Queue × List Note)}
    (reacts : ∀ fired q log t, react fired (q, log) = some t →
      Chained (q, log ++ [⟨.call (.popDue limit) (.popped (some fired)), q⟩]) t) :
    ∀ (fuel : Nat) (s t : Queue × List Note), Queue.drain react limit fuel s = some t →
      Chained s t ∧ t.1.popDue limit = none := by
  intro fuel
  induction fuel with
  | zero => intro s t h; cases h
  | succ fuel ih =>
    intro (q, log) t h
    simp only [Queue.drain] at h
    split at h
    · rename_i idle
      cases h
      exact ⟨⟨[], by simp, .nil q⟩, idle⟩
    · rename_i fired p popped
      obtain ⟨u, fires, rest⟩ := Option.bind_eq_some_iff.mp h
      obtain ⟨tail, idle⟩ := ih u t rest
      have took : Note.Took q ⟨.call (.popDue limit) (.popped (some fired)), p⟩ := by
        simp only [Note.Took, Queue.answer, popped]
      exact ⟨.note took ((reacts fired p log u fires).trans tail), idle⟩

theorem runChained (client : Client) :
    ∀ {s t : Queue × List Note}, client.run fuel s = some t → Chained s t := by
  induction client with
  | done =>
    intro (q, log) t h
    cases h
    exact ⟨[], by simp, .nil q⟩
  | call request next ih =>
    intro (q, log) t h
    simp only [Client.run] at h
    have took : Note.Took q ⟨.call request (q.answer request).2, (q.answer request).1⟩ := rfl
    exact .note took (ih _ h)
  | advance limit fire next fires ih =>
    intro s t h
    obtain ⟨u, advanced, rest⟩ := Option.bind_eq_some_iff.mp h
    obtain ⟨⟨p, log⟩, drained, last⟩ := Option.bind_eq_some_iff.mp advanced
    cases last
    obtain ⟨first, idle⟩ := drainChained (fun fired q log t ran => fires _ fired ran) fuel s _ drained
    have took : Note.Took p ⟨.advance limit, p.setNow limit⟩ := ⟨idle, rfl⟩
    exact first.trans (.note took (ih _ rest))

theorem Client.chain {client : Client} {fuel : Nat} {q : Queue} {log : List Note}
    (ran : client.run fuel ({}, []) = some (q, log)) : Chain {} log q := by
  obtain ⟨all, same, chain⟩ := runChained client ran
  rw [show log = all by simpa using same]
  exact chain

def rota : Client :=
  .call (.schedule ⟨0⟩ (.ofMicros 3) (.ofMicros 4) 0) fun _ =>
  .call (.allocate ⟨1⟩ 7) fun _ =>
  .call (.setNow (.ofMicros 5)) fun _ =>
  .advance (.ofMicros 12) (fun _ fired =>
    if fired.param = 0 then .call (.schedule ⟨1⟩ .zero .zero 1) fun _ => .done
    else .advance fired.time (fun _ _ => .done) fun _ => .call (.cancel fired.id) fun _ => .done)
  fun _ => .call .entries fun _ => .done

theorem rotaRuns : ∃ q log, rota.run 9 ({}, []) = some (q, log) ∧ log.length = 20 := by
  have runs : (rota.run 9 ({}, [])).map (fun r => r.2.length) = some 20 := by decide +kernel
  obtain ⟨⟨q, log⟩, ran, long⟩ := Option.map_eq_some_iff.mp runs
  exact ⟨q, log, ran, long⟩

end Lockstep.Timer
