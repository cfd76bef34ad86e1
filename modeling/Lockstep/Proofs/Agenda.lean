import Mathlib.Logic.Function.Basic
import Lockstep.Proofs.Clients

/-! What a timer queue is for its clients: a clock, a count of armings, and a map from handles
to entries. A handle is issued once. Every call reads or changes the entry of its own handle
and no other, and a call on a handle without an entry is refused and changes nothing. -/
namespace Lockstep.Timer

structure Entry where
  owner : DeviceId
  param : Nat
  time : Time
  period : Time
  armed : Option Nat
  persistent : Bool
  deriving DecidableEq, Repr

namespace Entry

def blank (owner : DeviceId) (param : Nat) (persistent : Bool) : Entry :=
  ⟨owner, param, .zero, .zero, none, persistent⟩

def fireTime? (e : Entry) : Option Time := if e.armed.isSome then some e.time else none

def info (id : Id) (e : Entry) : Info :=
  ⟨id, e.owner, e.param, e.time, e.period, e.armed.isSome, e.persistent⟩

end Entry

structure Agenda where
  now : Time
  armings : Nat
  issued : List Id
  find? : Id → Option Entry

namespace Agenda

def empty : Agenda := ⟨.zero, 0, [], fun _ => none⟩

def put (a : Agenda) (id : Id) (e : Option Entry) : Agenda :=
  { a with find? := Function.update a.find? id e }

def issue (a : Agenda) (id : Id) (e : Entry) : Agenda :=
  { a.put id (some e) with issued := a.issued ++ [id] }

def disarm (a : Agenda) (id : Id) (e : Entry) : Agenda := a.put id (some { e with armed := none })

def arm (a : Agenda) (id : Id) (e : Entry) (time period : Time) : Agenda :=
  { a.put id (some { e with time := max time a.now, period, armed := some a.armings }) with
    armings := a.armings + 1 }

def pass (a : Agenda) (time : Time) : Agenda := { a with now := max a.now time }

def fire (a : Agenda) (id : Id) (e : Entry) : Agenda :=
  if e.period.isZero then
    if e.persistent then (a.pass e.time).disarm id e else (a.pass e.time).put id none
  else
    { (a.pass e.time).put id
        (some { e with time := e.time + e.period, armed := some a.armings }) with
      armings := a.armings + 1 }

def Armed (a : Agenda) (id : Id) (e : Entry) : Prop := a.find? id = some e ∧ e.armed.isSome

def Sooner (a : Agenda) (x y : Id) : Prop :=
  ∃ e m f n, a.find? x = some e ∧ e.armed = some m ∧ a.find? y = some f ∧ f.armed = some n ∧
    (e.time < f.time ∨ e.time = f.time ∧ m < n)

def Quiet (a : Agenda) (limit : Time) : Prop := ∀ id e, a.Armed id e → limit < e.time

structure Lists (a : Agenda) (armed idle : List Id) : Prop where
  once : (armed ++ idle).Nodup
  waiting : ∀ id, id ∈ armed ↔ ∃ e, a.Armed id e
  resting : ∀ id, id ∈ idle ↔ ∃ e, a.find? id = some e ∧ e.armed = none
  order : armed.Pairwise a.Sooner
  slots : idle.Pairwise fun x y => x.slot < y.slot

end Agenda

def Request.target? : Request → Option Id
  | .adjustAt id _ _ | .cancel id | .remove id | .setEnabled id _ | .setParam id _
  | .isEnabled id | .fireTime id | .remaining id => some id
  | _ => none

def Request.refusal : Request → Answer
  | .adjustAt .. | .cancel _ | .isEnabled _ => .flag false
  | .fireTime _ | .remaining _ => .time none
  | _ => .done

namespace Agenda

inductive Step (a : Agenda) : Request → Answer → Agenda → Prop where
  | scheduleAt {id owner time period param} (fresh : id ∉ a.issued) :
      Step a (.scheduleAt owner time period param) (.made id)
        ((a.issue id (.blank owner param false)).arm id (.blank owner param false) time period)
  | schedule {answer b owner delay period param}
      (step : Step a (.scheduleAt owner (a.now + delay) period param) answer b) :
      Step a (.schedule owner delay period param) answer b
  | allocate {id owner param} (fresh : id ∉ a.issued) :
      Step a (.allocate owner param) (.made id) (a.issue id (.blank owner param true))
  | stale {request : Request} {id} (target : request.target? = some id)
      (unknown : a.find? id = none) : Step a request request.refusal a
  | adjustAt {id e time period} (known : a.find? id = some e) :
      Step a (.adjustAt id time period) (.flag true) (a.arm id e time period)
  | adjust {id answer b delay period}
      (step : Step a (.adjustAt id (a.now + delay) period) answer b) :
      Step a (.adjust id delay period) answer b
  | cancelKept {id e} (known : a.find? id = some e) (kept : e.persistent = true) :
      Step a (.cancel id) (.flag e.armed.isSome) (a.disarm id e)
  | cancelFreed {id e} (known : a.find? id = some e) (freed : e.persistent = false) :
      Step a (.cancel id) (.flag e.armed.isSome) (a.put id none)
  | remove {id e} (known : a.find? id = some e) : Step a (.remove id) .done (a.put id none)
  | enable {id e} (known : a.find? id = some e) (idle : e.armed = none) :
      Step a (.setEnabled id true) .done (a.arm id e e.time e.period)
  | enabled {id e} (known : a.find? id = some e) (armed : e.armed.isSome = true) :
      Step a (.setEnabled id true) .done a
  | disable {id e} (known : a.find? id = some e) :
      Step a (.setEnabled id false) .done (a.disarm id e)
  | setParam {id e param} (known : a.find? id = some e) :
      Step a (.setParam id param) .done (a.put id (some { e with param }))
  | setNow {time} : Step a (.setNow time) .done (a.pass time)
  | popNone {limit} (quiet : a.Quiet limit) : Step a (.popDue limit) (.popped none) a
  | pop {id e limit} (armed : a.Armed id e) (due : e.time ≤ limit)
      (first : ∀ other f, a.Armed other f → other ≠ id → a.Sooner id other) :
      Step a (.popDue limit) (.popped (some ⟨id, e.owner, e.param, e.time⟩)) (a.fire id e)
  | now : Step a .now (.time (some a.now)) a
  | size {armed idle} (lists : a.Lists armed idle) : Step a .size (.count armed.length) a
  | isEmpty {armed idle} (lists : a.Lists armed idle) : Step a .isEmpty (.flag armed.isEmpty) a
  | isEnabled {id e} (known : a.find? id = some e) :
      Step a (.isEnabled id) (.flag e.armed.isSome) a
  | fireTime {id e} (known : a.find? id = some e) :
      Step a (.fireTime id) (.time e.fireTime?) a
  | remaining {id e} (known : a.find? id = some e) :
      Step a (.remaining id) (.time (e.fireTime?.map (· - a.now))) a
  | nextFireTime {armed idle} (lists : a.Lists armed idle) :
      Step a .nextFireTime (.time ((armed.head?.bind a.find?).map Entry.time)) a
  | untilNext {armed idle} (lists : a.Lists armed idle) :
      Step a .untilNext (.time ((armed.head?.bind a.find?).map (·.time - a.now))) a
  | entries {armed idle} (lists : a.Lists armed idle) :
      Step a .entries
        (.rows ((armed ++ idle).filterMap fun id => (a.find? id).map (Entry.info id))) a

/-- An advance ends when nothing is due any more, and moves the clock. -/
inductive Follows : Agenda → List Deed → Agenda → Prop where
  | nil (a : Agenda) : Follows a [] a
  | call {a request answer b deeds c} (step : Step a request answer b)
      (rest : Follows b deeds c) : Follows a (.call request answer :: deeds) c
  | advance {a limit deeds c} (quiet : a.Quiet limit) (rest : Follows (a.pass limit) deeds c) :
      Follows a (.advance limit :: deeds) c

def Retired (a : Agenda) (id : Id) : Prop := id ∈ a.issued ∧ a.find? id = none

variable {a b c : Agenda} {id : Id} {e : Entry} {deeds more : List Deed}

theorem retiredPut {x : Option Entry} (retired : a.Retired id) {other : Id}
    (known : a.find? other = some e) : (a.put other x).Retired id := by
  refine ⟨retired.1, ?_⟩
  have different : id ≠ other := by
    rintro rfl
    rw [retired.2] at known
    cases known
  exact (Function.update_of_ne different ..).trans retired.2

theorem retiredIssue (retired : a.Retired id) {other : Id} (fresh : other ∉ a.issued) :
    (a.issue other e).Retired id := by
  have different : id ≠ other := by
    rintro rfl
    exact fresh retired.1
  exact ⟨List.mem_append_left _ retired.1, (Function.update_of_ne different ..).trans retired.2⟩

theorem issueSelf : (a.issue id e).find? id = some e := Function.update_self ..

theorem retiredStep {request : Request} {answer : Answer} (step : Step a request answer b)
    (retired : a.Retired id) : b.Retired id := by
  induction step with
  | scheduleAt fresh => exact retiredPut (retiredIssue retired fresh) issueSelf
  | schedule step ih => exact ih
  | allocate fresh => exact retiredIssue retired fresh
  | adjustAt known => exact retiredPut retired known
  | adjust step ih => exact ih
  | cancelKept known => exact retiredPut retired known
  | cancelFreed known => exact retiredPut retired known
  | remove known => exact retiredPut retired known
  | enable known => exact retiredPut retired known
  | disable known => exact retiredPut retired known
  | setParam known => exact retiredPut retired known
  | @pop other e limit armed due first =>
    have passed : (a.pass e.time).Retired id := retired
    unfold fire
    split
    · split <;> exact retiredPut passed armed.1
    · exact retiredPut passed armed.1
  | _ => exact retired

theorem retiredFollows (follows : Follows a deeds b) (retired : a.Retired id) : b.Retired id := by
  induction follows with
  | nil => exact retired
  | call step rest ih => exact ih (retiredStep step retired)
  | advance quiet rest ih => exact ih retired

theorem followsSplit (follows : Follows a (deeds ++ more) c) :
    ∃ b, Follows a deeds b ∧ Follows b more c := by
  induction deeds generalizing a with
  | nil => exact ⟨a, .nil a, follows⟩
  | cons deed deeds ih =>
    cases follows with
    | call step rest =>
      obtain ⟨b, first, last⟩ := ih rest
      exact ⟨b, .call step first, last⟩
    | advance quiet rest =>
      obtain ⟨b, first, last⟩ := ih rest
      exact ⟨b, .advance quiet first, last⟩

end Agenda

end Lockstep.Timer
