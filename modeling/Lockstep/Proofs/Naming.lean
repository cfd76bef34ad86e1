import Mathlib.Algebra.Group.Nat.Defs
import Mathlib.Data.List.Induction
import Mathlib.Logic.Relation
import Lockstep.Device.Tree
import Lockstep.Proofs.Run

/-! The names in a tree of devices. Whatever additions are asked for, a name stands for one
device, the one that the index of the names gives; a parent is older than its children and lists
them in the order of addition; and while there are handles left, an addition is refused for what
its name or its parent is, and for nothing else. -/
namespace Lockstep

namespace Tag

def Segmented (tag : String) : Prop :=
  ∃ parts : List (List Char), parts ≠ [] ∧ (∀ part ∈ parts, part ≠ [] ∧ ':' ∉ part) ∧
    tag.toList = [':'].intercalate parts

theorem segmentsSome (cs : List Char) : segments cs ≠ [] := by
  cases cs with
  | nil => simp [segments]
  | cons c rest =>
    unfold segments
    dsimp only
    split
    · simp
    · split <;> simp

theorem segmentsPlain {part : List Char} (plain : ':' ∉ part) : segments part = [part] := by
  induction part with
  | nil => rfl
  | cons c rest ih =>
    simp only [List.mem_cons, not_or] at plain
    simp [segments, ih plain.2, Ne.symm plain.1]

theorem segmentsAppend (front rest : List Char) :
    segments (front ++ ':' :: rest) = segments front ++ segments rest := by
  induction front with
  | nil => simp [segments]
  | cons c front ih =>
    simp only [List.cons_append, segments, ih]
    split
    · rfl
    · cases parts : segments front with
      | nil => exact absurd parts (segmentsSome front)
      | cons part others => rfl

theorem segmentsIntercalate {parts : List (List Char)} (some : parts ≠ [])
    (plain : ∀ part ∈ parts, ':' ∉ part) : segments ([':'].intercalate parts) = parts := by
  induction parts with
  | nil => exact absurd rfl some
  | cons part rest ih =>
    have first := segmentsPlain (plain part (List.mem_cons_self ..))
    cases rest with
    | nil => simpa using first
    | cons second rest =>
      have later := ih (by simp) fun part mem => plain part (List.mem_cons_of_mem _ mem)
      rw [List.intercalate_cons_cons, List.append_assoc, List.singleton_append, segmentsAppend,
        first, later, List.singleton_append]

theorem intercalateSegments (cs : List Char) : [':'].intercalate (segments cs) = cs := by
  induction cs with
  | nil => rfl
  | cons c rest ih =>
    unfold segments
    dsimp only
    cases parts : segments rest with
    | nil => exact absurd parts (segmentsSome rest)
    | cons part others =>
      rw [parts] at ih
      split
      · rename_i colon
        rw [List.intercalate_cons_cons, ih, colon]
        rfl
      · cases others with
        | nil => simpa using ih
        | cons second others =>
          rw [List.intercalate_cons_cons] at ih ⊢
          simpa using ih

theorem segmentsColonless (cs : List Char) : ∀ part ∈ segments cs, ':' ∉ part := by
  induction cs with
  | nil => simp [segments]
  | cons c rest ih =>
    unfold segments
    dsimp only
    split
    · simpa using ih
    · rename_i plain
      cases parts : segments rest with
      | nil => exact absurd parts (segmentsSome rest)
      | cons part others =>
        rw [parts, List.forall_mem_cons] at ih
        refine List.forall_mem_cons.mpr ⟨?_, ih.2⟩
        simpa only [List.mem_cons, not_or] using ⟨Ne.symm plain, ih.1⟩

theorem validSegmented {tag : String} : valid tag = true ↔ Segmented tag := by
  unfold valid
  simp only [List.all_eq_true, Bool.not_eq_true', List.isEmpty_eq_false_iff]
  constructor
  · intro filled
    exact ⟨segments tag.toList, segmentsSome _,
      fun part mem => ⟨filled part mem, segmentsColonless _ part mem⟩, (intercalateSegments _).symm⟩
  · rintro ⟨parts, some, each, same⟩
    rw [same, segmentsIntercalate some fun part mem => (each part mem).2]
    exact fun part mem => (each part mem).1

theorem joinToList (parent child : String) :
    (join parent child).toList = parent.toList ++ ':' :: child.toList := by
  simp [join]

theorem validJoin {parent child : String} (upper : valid parent = true)
    (own : valid child = true) : valid (join parent child) = true := by
  unfold valid at *
  rw [joinToList, segmentsAppend, List.all_append, upper, own]
  rfl

end Tag

namespace Tree
variable {δ : Type} {t t' : Tree δ} {id other : DeviceId} {n : Node δ}

structure Addition (δ : Type) where
  tag : String
  typeName : String
  clock : ClockRate
  parent : Option DeviceId
  device : δ

namespace Addition
variable {a : Addition δ}

def name (a : Addition δ) (t : Tree δ) : String :=
  a.parent.elim a.tag fun p => Tag.join (t.tag p) a.tag

def node (a : Addition δ) (t : Tree δ) : Node δ :=
  { tag := a.name t, typeName := a.typeName, clock := a.clock, parent := a.parent,
    device := a.device }

def addTo (a : Addition δ) (t : Tree δ) : Except ConfigError (Tree δ × DeviceId) :=
  t.add a.tag a.typeName a.clock a.parent a.device

end Addition

variable {a : Addition δ}

inductive Refused (t : Tree δ) (a : Addition δ) : ConfigError → Prop where
  | invalid (misnamed : ¬ Tag.Segmented a.tag) : Refused t a (.invalidTag a.tag)
  | parent (p : DeviceId) (named : Tag.Segmented a.tag) (below : a.parent = some p)
      (unknown : t.get? p = none) : Refused t a (.unknownParent p)
  | taken (there : DeviceId) (other : Node δ) (named : Tag.Segmented a.tag)
      (below : ∀ p, a.parent = some p → (t.get? p).isSome)
      (found : t.get? there = some other) (same : other.tag = a.name t) :
      Refused t a (.duplicateTag (a.name t))

def grow (t : Tree δ) (a : Addition δ) : Tree δ × Except ConfigError DeviceId :=
  match a.addTo t with
  | .ok (t', id) => (t', .ok id)
  | .error e => (t, .error e)

def growAll (additions : List (Addition δ)) : Tree δ :=
  additions.foldl (fun t a => (t.grow a).1) {}

def Under (t : Tree δ) (child parent : DeviceId) : Prop :=
  ∃ node, t.get? child = some node ∧ node.parent = some parent

def below (t : Tree δ) (id : DeviceId) : List DeviceId :=
  t.ids.filter fun child => (t.get? child).bind Node.parent = some id

structure Consistent (t : Tree δ) : Prop where
  segmented : ∀ {id node}, t.get? id = some node → Tag.Segmented node.tag
  distinct : ∀ {a b n m}, t.get? a = some n → t.get? b = some m → n.tag = m.tag → a = b
  older : ∀ {child parent}, t.Under child parent →
    parent.index < child.index ∧ (t.get? parent).isSome
  children : ∀ {id node}, t.get? id = some node → node.children = t.below id
  index : ∀ {name id}, t.find? name = some id ↔ ∃ node, t.get? id = some node ∧ node.tag = name

theorem tagOf (found : t.get? id = some n) : t.tag id = n.tag := by
  rw [tag, found, Option.elim_some]

theorem withinSize (found : t.get? id = some n) : id.index < t.size :=
  (Array.getElem?_eq_some_iff.mp found).1

theorem knownWithin : (t.get? id).isSome ↔ id.index < t.size := by
  simp [get?, size]

theorem memIds : id ∈ t.ids ↔ id.index < t.size := by
  simp only [ids, List.mem_map, List.mem_range]
  exact ⟨by rintro ⟨i, small, rfl⟩; exact small, fun small => ⟨id.index, small, rfl⟩⟩

theorem Consistent.find (fine : t.Consistent) (found : t.get? id = some n) :
    t.find? n.tag = some id :=
  fine.index.mpr ⟨n, found, rfl⟩

theorem Consistent.findNone {name : String} (fine : t.Consistent) (absent : t.find? name = none)
    (found : t.get? id = some n) : n.tag ≠ name := by
  rintro rfl
  cases absent.symm.trans (fine.find found)

theorem Consistent.search (fine : t.Consistent) (name : String) :
    t.find? name = t.ids.find? fun id => t.tag id == name := by
  cases sought : t.ids.find? fun id => t.tag id == name with
  | some id =>
    obtain ⟨n, found⟩ := Option.isSome_iff_exists.mp
      (knownWithin.mpr (memIds.mp (List.mem_of_find?_eq_some sought)))
    exact fine.index.mpr ⟨n, found, (tagOf found).symm.trans (beq_iff_eq.mp (List.find?_some sought :))⟩
  | none =>
    refine Option.eq_none_iff_forall_not_mem.mpr fun id found => ?_
    obtain ⟨n, there, rfl⟩ := fine.index.mp found
    exact List.find?_eq_none.mp sought id (memIds.mpr (withinSize there)) (by simp [tagOf there])

structure Added (t : Tree δ) (a : Addition δ) (t' : Tree δ) (id : DeviceId) : Prop where
  place : id = ⟨t.size⟩
  named : Tag.Segmented a.tag
  known : ∀ p, a.parent = some p → (t.get? p).isSome
  fresh : t.find? (a.name t) = none
  size : t'.size = t.size + 1
  names : t'.names = t.names.insert (a.name t) id
  get : ∀ other, t'.get? other =
    if other = id then some (a.node t)
    else (t.get? other).map fun n =>
      { n with children := n.children ++ if a.parent = some other then [id] else [] }

theorem fullTagInvalid (misnamed : ¬ Tag.Segmented a.tag) :
    t.fullTag a.tag a.parent = .error (.invalidTag a.tag) := by
  unfold fullTag
  rw [if_neg (mt Tag.validSegmented.mp misnamed)]

theorem fullTagUnknown {p : DeviceId} (named : Tag.Segmented a.tag) (below : a.parent = some p)
    (unknown : t.get? p = none) : t.fullTag a.tag a.parent = .error (.unknownParent p) := by
  simp only [fullTag, if_pos (Tag.validSegmented.mpr named), below, unknown]

theorem fullTagKnown (named : Tag.Segmented a.tag)
    (known : ∀ p, a.parent = some p → (t.get? p).isSome) :
    t.fullTag a.tag a.parent = .ok (a.name t) := by
  unfold fullTag
  rw [if_pos (Tag.validSegmented.mpr named)]
  cases below : a.parent with
  | none => simp [Addition.name, below]
  | some p =>
    obtain ⟨up, found⟩ := Option.isSome_iff_exists.mp (known p below)
    simp [Addition.name, below, found, tagOf found]

theorem pushedGet {parent : Option DeviceId} {new : Node δ} {names : Directory DeviceId}
    (other : DeviceId) :
    get? ⟨(match parent with
      | some p => t.nodes.modify p.index fun n =>
          { n with children := n.children ++ [(⟨t.size⟩ : DeviceId)] }
      | none => t.nodes).push new, names⟩ other =
    if other = ⟨t.size⟩ then some new
    else (t.get? other).map fun n =>
      { n with children := n.children ++ if parent = some other then [⟨t.size⟩] else [] } := by
  obtain ⟨i⟩ := other
  cases parent with
  | none => simp [get?, size, Array.getElem?_push]
  | some p =>
    obtain ⟨p⟩ := p
    simp only [get?, size, Array.getElem?_push, Array.size_modify, Array.getElem?_modify,
      DeviceId.mk.injEq, Option.some.injEq]
    split
    · rfl
    · split <;> simp_all

theorem addCases (t : Tree δ) (a : Addition δ) :
    (∃ t' id, a.addTo t = .ok (t', id) ∧ t.Added a t' id) ∨
    (∃ e, a.addTo t = .error e ∧ (t.Consistent → t.Refused a e)) ∨
    (capacity ≤ t.size ∧ a.addTo t = .error (.tooManyDevices (a.name t))) := by
  unfold Addition.addTo add
  by_cases named : Tag.Segmented a.tag
  · by_cases known : ∀ p, a.parent = some p → (t.get? p).isSome
    · rw [fullTagKnown named known]
      simp only [bind, Except.bind]
      by_cases taken : t.names.contains (a.name t) = true
      · rw [if_pos taken]
        refine .inr (.inl ⟨_, rfl, fun fine => ?_⟩)
        obtain ⟨there, place⟩ := Option.isSome_iff_exists.mp taken
        obtain ⟨other, found, same⟩ := fine.index.mp place
        exact .taken there other named known found same
      · rw [if_neg taken]
        by_cases full : capacity ≤ t.size
        · rw [if_pos full]
          exact .inr (.inr ⟨full, rfl⟩)
        · rw [if_neg full]
          refine .inl ⟨_, _, rfl, rfl, named, known, Option.not_isSome_iff_eq_none.mp taken, ?_, rfl,
            fun other => pushedGet other⟩
          cases a.parent <;> simp [size]
    · push Not at known
      obtain ⟨p, below, unknown⟩ := known
      have unknown := Option.not_isSome_iff_eq_none.mp unknown
      rw [fullTagUnknown named below unknown]
      exact .inr (.inl ⟨_, rfl, fun _ => .parent p named below unknown⟩)
  · rw [fullTagInvalid named]
    exact .inr (.inl ⟨_, rfl, fun _ => .invalid named⟩)

theorem addInv (done : a.addTo t = .ok (t', id)) : t.Added a t' id := by
  obtain ⟨_, _, done', made⟩ | ⟨e, failed, -⟩ | ⟨-, failed⟩ := t.addCases a
  · cases done.symm.trans done'
    exact made
  · cases done.symm.trans failed
  · cases done.symm.trans failed

theorem Refused.unique {e e' : ConfigError} (one : t.Refused a e) (two : t.Refused a e') :
    e = e' := by
  cases one <;> cases two <;> grind

theorem Added.accepted {e : ConfigError} (fine : t.Consistent) (made : t.Added a t' id) :
    ¬ t.Refused a e := by
  intro refused
  cases refused with
  | invalid misnamed => exact misnamed made.named
  | parent p named below unknown => simpa [unknown] using made.known p below
  | taken there other named below found same => exact fine.findNone made.fresh found same

theorem addRefused {e : ConfigError} (fine : t.Consistent) (small : t.size < capacity) :
    a.addTo t = .error e ↔ t.Refused a e := by
  obtain ⟨t', id, done, made⟩ | ⟨e', done, refused⟩ | ⟨full, -⟩ := t.addCases a
  · rw [done]
    exact ⟨by simp, fun refused => absurd refused (made.accepted fine)⟩
  · rw [done, Except.error.injEq]
    exact ⟨fun same => same ▸ refused fine, fun other => (refused fine).unique other⟩
  · exact absurd small (Nat.not_lt.mpr full)

namespace Added

theorem gotten (made : t.Added a t' id) (found : t'.get? other = some n) :
    other = id ∧ n = a.node t ∨ ∃ m, t.get? other = some m ∧
      n = { m with children := m.children ++ if a.parent = some other then [id] else [] } := by
  rw [made.get other] at found
  split at found <;> rename_i new
  · exact .inl ⟨new, (Option.some.inj found).symm⟩
  · obtain ⟨m, old, same⟩ := Option.map_eq_some_iff.mp found
    exact .inr ⟨m, old, same.symm⟩

theorem new (made : t.Added a t' id) : t'.get? id = some (a.node t) := by
  rw [made.get, if_pos rfl]

theorem unknown (made : t.Added a t' id) : t.get? id = none := by
  rw [made.place, ← Option.not_isSome_iff_eq_none, knownWithin]
  exact Nat.lt_irrefl _

theorem oldNew (made : t.Added a t' id) (found : t.get? other = some n) : other ≠ id := by
  rintro rfl
  cases made.unknown.symm.trans found

theorem kept (made : t.Added a t' id) (found : t.get? other = some n) :
    t'.get? other = some
      { n with children := n.children ++ if a.parent = some other then [id] else [] } := by
  rw [made.get, if_neg (made.oldNew found), found, Option.map_some]

theorem stillKnown (made : t.Added a t' id) (known : (t.get? other).isSome) :
    (t'.get? other).isSome := by
  obtain ⟨n, found⟩ := Option.isSome_iff_exists.mp known
  simp [made.kept found]

theorem tag (made : t.Added a t' id) {p : DeviceId} (known : (t.get? p).isSome) :
    t'.tag p = t.tag p := by
  obtain ⟨n, found⟩ := Option.isSome_iff_exists.mp known
  rw [tagOf (made.kept found), tagOf found]

theorem name {b : Addition δ} (made : t.Added a t' id)
    (known : ∀ p, b.parent = some p → (t.get? p).isSome) : b.name t' = b.name t := by
  unfold Addition.name
  cases below : b.parent with
  | none => rfl
  | some p => simp only [Option.elim_some, made.tag (known p below)]

theorem parent (made : t.Added a t' id) (other : DeviceId) :
    (t'.get? other).bind Node.parent =
      if other = id then a.parent else (t.get? other).bind Node.parent := by
  rw [made.get other]
  split
  · rfl
  · cases t.get? other <;> rfl

theorem below (made : t.Added a t' id) (other : DeviceId) :
    t'.below other = t.below other ++ if a.parent = some other then [id] else [] := by
  have longer : t'.ids = t.ids ++ [id] := by
    simp [ids, made.size, made.place, List.range_succ]
  unfold Tree.below
  rw [longer, List.filter_append]
  congr 1
  · refine List.filter_congr fun child mem => ?_
    obtain ⟨n, found⟩ := Option.isSome_iff_exists.mp (knownWithin.mpr (memIds.mp mem))
    simp only [made.parent, if_neg (made.oldNew found)]
  · simp [List.filter_cons, made.parent]

theorem find (made : t.Added a t' id) (name : String) :
    t'.find? name = if name = a.name t then some id else t.find? name := by
  rw [find?, made.names, Directory.find?_insert]
  rfl

theorem segmentedName (made : t.Added a t' id) (fine : t.Consistent) :
    Tag.Segmented (a.name t) := by
  unfold Addition.name
  cases upper : a.parent with
  | none => exact made.named
  | some p =>
    obtain ⟨up, found⟩ := Option.isSome_iff_exists.mp (made.known p upper)
    refine Tag.validSegmented.mp (Tag.validJoin ?_ (Tag.validSegmented.mpr made.named))
    rw [tagOf found]
    exact Tag.validSegmented.mpr (fine.segmented found)

theorem under (made : t.Added a t' id) {child parent : DeviceId}
    (lower : t'.Under child parent) :
    child = id ∧ a.parent = some parent ∨ t.Under child parent := by
  obtain ⟨n, found, upper⟩ := lower
  obtain ⟨rfl, rfl⟩ | ⟨m, old, rfl⟩ := made.gotten found
  · exact .inl ⟨rfl, upper⟩
  · exact .inr ⟨m, old, upper⟩

theorem childless (made : t.Added a t' id) (fine : t.Consistent) : t'.below id = [] := by
  have upper : a.parent ≠ some id := fun upper => by
    simpa [made.unknown] using made.known id upper
  rw [made.below, if_neg upper, List.append_nil, Tree.below, List.filter_eq_nil_iff]
  intro child _ lower
  obtain ⟨n, found, upper⟩ := Option.bind_eq_some_iff.mp (of_decide_eq_true lower)
  simpa [made.unknown] using (fine.older ⟨n, found, upper⟩).2

theorem consistent (made : t.Added a t' id) (fine : t.Consistent) : t'.Consistent where
  segmented found := by
    obtain ⟨-, rfl⟩ | ⟨m, old, rfl⟩ := made.gotten found
    · exact made.segmentedName fine
    · exact (fine.segmented old :)
  distinct foundX foundY same := by
    obtain ⟨rfl, rfl⟩ | ⟨m, oldX, rfl⟩ := made.gotten foundX <;>
      obtain ⟨rfl, rfl⟩ | ⟨m', oldY, rfl⟩ := made.gotten foundY
    · rfl
    · exact (fine.findNone made.fresh oldY same.symm).elim
    · exact (fine.findNone made.fresh oldX same).elim
    · exact fine.distinct oldX oldY same
  older lower := by
    obtain ⟨rfl, upper⟩ | old := made.under lower
    · have known := made.known _ upper
      exact ⟨by simpa [made.place] using knownWithin.mp known, made.stillKnown known⟩
    · exact ⟨(fine.older old).1, made.stillKnown (fine.older old).2⟩
  children found := by
    obtain ⟨rfl, rfl⟩ | ⟨m, old, rfl⟩ := made.gotten found
    · exact (made.childless fine).symm
    · rw [made.below, ← fine.children old]
  index {name other} := by
    rw [made.find]
    constructor
    · intro found
      split at found
      · rename_i same
        cases found
        exact ⟨_, made.new, same.symm⟩
      · obtain ⟨n, old, same⟩ := fine.index.mp found
        exact ⟨_, made.kept old, same⟩
    · rintro ⟨n, found, rfl⟩
      obtain ⟨rfl, rfl⟩ | ⟨m, old, rfl⟩ := made.gotten found
      · exact if_pos rfl
      · exact (if_neg (fine.findNone made.fresh old)).trans (fine.find old :)

end Added

theorem emptyGet (id : DeviceId) : get? ({} : Tree δ) id = none := by
  simp [get?]

theorem emptyConsistent : Consistent ({} : Tree δ) where
  segmented found := by cases (emptyGet _).symm.trans found
  distinct found := by cases (emptyGet _).symm.trans found
  older := by
    rintro _ _ ⟨n, found, -⟩
    cases (emptyGet _).symm.trans found
  children found := by cases (emptyGet _).symm.trans found
  index := by simp [find?, Directory.find?, emptyGet]

theorem Consistent.acyclic (fine : t.Consistent) : ¬ Relation.TransGen t.Under id id := by
  intro cycle
  have smaller {x y} (line : Relation.TransGen t.Under x y) : y.index < x.index := by
    induction line with
    | single lower => exact (fine.older lower).1
    | tail _ lower ih => exact Nat.lt_trans (fine.older lower).1 ih
  exact Nat.lt_irrefl _ (smaller cycle)

structure Stems (t : Tree δ) (a : Addition δ) (n : Node δ) : Prop where
  tag : n.tag = a.name t
  typeName : n.typeName = a.typeName
  clock : n.clock = a.clock
  parent : n.parent = a.parent
  device : n.device = a.device

theorem Stems.later {b : Addition δ} (stems : t.Stems b n) (fine : t.Consistent)
    (made : t.Added a t' id) (found : t.get? other = some n) :
    t'.Stems b { n with children := n.children ++ if a.parent = some other then [id] else [] } where
  tag := by
    rw [made.name fun p below => (fine.older ⟨n, found, stems.parent ▸ below⟩).2]
    exact stems.tag
  typeName := stems.typeName
  clock := stems.clock
  parent := stems.parent
  device := stems.device

theorem Added.stems (made : t.Added a t' id) : t'.Stems a (a.node t) :=
  ⟨(made.name made.known).symm, rfl, rfl, rfl, rfl⟩

section
variable {additions : List (Addition δ)}

theorem growCases (t : Tree δ) (a : Addition δ) :
    (∃ t' id, t.grow a = (t', .ok id) ∧ t.Added a t' id) ∨ ∃ e, t.grow a = (t, .error e) := by
  unfold grow
  cases done : a.addTo t with
  | ok row => exact .inl ⟨_, _, rfl, addInv done⟩
  | error e => exact .inr ⟨e, rfl⟩

theorem growRefused {e : ConfigError} (fine : t.Consistent) (small : t.size < capacity) :
    (t.grow a).2 = .error e ↔ t.Refused a e := by
  rw [← addRefused fine small, grow]
  cases a.addTo t <;> simp

theorem growFailed {e : ConfigError} (failed : (t.grow a).2 = .error e) : (t.grow a).1 = t := by
  obtain ⟨t', id, done, -⟩ | ⟨_, done⟩ := t.growCases a <;> rw [done] at failed ⊢
  cases failed

theorem growAllSnoc : growAll (additions ++ [a]) = ((growAll additions).grow a).1 := by
  rw [growAll, List.foldl_append]
  rfl

theorem growConsistent (fine : t.Consistent) (a : Addition δ) : (t.grow a).1.Consistent := by
  obtain ⟨t', id, done, made⟩ | ⟨_, done⟩ := t.growCases a <;> rw [done]
  · exact made.consistent fine
  · exact fine

theorem growAllConsistent (additions : List (Addition δ)) : (growAll additions).Consistent := by
  induction additions using List.reverseRecOn with
  | nil => exact emptyConsistent
  | append_singleton before a ih => exact growAllSnoc ▸ growConsistent ih a

theorem growAllSize (additions : List (Addition δ)) :
    (growAll additions).size ≤ additions.length := by
  induction additions using List.reverseRecOn with
  | nil => exact Nat.le_refl _
  | append_singleton before a ih =>
    rw [growAllSnoc, List.length_append, List.length_singleton]
    obtain ⟨t', id, done, made⟩ | ⟨_, done⟩ := (growAll before).growCases a <;> rw [done]
    · exact made.size ▸ Nat.succ_le_succ ih
    · exact Nat.le_succ_of_le ih

def Accepted (additions : List (Addition δ)) (a : Addition δ) (id : DeviceId) : Prop :=
  ∃ before after, additions = before ++ a :: after ∧ ((growAll before).grow a).2 = .ok id

theorem acceptedSnoc {b : Addition δ} : Accepted (additions ++ [b]) a id ↔
    Accepted additions a id ∨ a = b ∧ ((growAll additions).grow b).2 = .ok id := by
  constructor
  · rintro ⟨before, after, parts, done⟩
    cases after using List.reverseRecOn with
    | nil =>
      obtain ⟨rfl, same⟩ := List.append_inj' parts rfl
      cases List.singleton_inj.mp same
      exact .inr ⟨rfl, done⟩
    | append_singleton after last =>
      rw [← List.cons_append, ← List.append_assoc] at parts
      obtain ⟨rfl, -⟩ := List.append_inj' parts rfl
      exact .inl ⟨before, after, rfl, done⟩
  · rintro (⟨before, after, rfl, done⟩ | ⟨rfl, done⟩)
    · exact ⟨before, after ++ [b], by simp, done⟩
    · exact ⟨additions, [], rfl, done⟩

theorem deviceStems (found : (growAll additions).get? id = some n) :
    ∃ a, Accepted additions a id ∧ (growAll additions).Stems a n := by
  induction additions using List.reverseRecOn generalizing n with
  | nil => cases (emptyGet _).symm.trans found
  | append_singleton before b ih =>
    simp only [acceptedSnoc]
    rw [growAllSnoc] at found ⊢
    obtain ⟨t', new, done, made⟩ | ⟨_, done⟩ := (growAll before).growCases b <;>
      rw [done] at found ⊢
    · obtain ⟨rfl, rfl⟩ | ⟨m, old, rfl⟩ := made.gotten found
      · exact ⟨b, .inr ⟨rfl, rfl⟩, made.stems⟩
      · obtain ⟨a, accepted, stems⟩ := ih old
        exact ⟨a, .inl accepted, stems.later (growAllConsistent before) made old⟩
    · obtain ⟨a, accepted, stems⟩ := ih found
      exact ⟨a, .inl accepted, stems⟩

theorem acceptedStems (accepted : Accepted additions a id) :
    ∃ n, (growAll additions).get? id = some n ∧ (growAll additions).Stems a n := by
  induction additions using List.reverseRecOn with
  | nil =>
    obtain ⟨before, after, parts, -⟩ := accepted
    cases (List.append_eq_nil_iff.mp parts.symm).2
  | append_singleton before b ih =>
    rw [acceptedSnoc] at accepted
    rw [growAllSnoc]
    obtain ⟨t', new, done, made⟩ | ⟨_, done⟩ := (growAll before).growCases b <;>
      rw [done] at accepted ⊢ <;> obtain accepted | ⟨rfl, same⟩ := accepted
    · obtain ⟨n, found, stems⟩ := ih accepted
      exact ⟨_, made.kept found, stems.later (growAllConsistent before) made found⟩
    · cases same
      exact ⟨_, made.new, made.stems⟩
    · exact ih accepted
    · cases same

end

/-- Whatever is added to a tree and whatever of it is refused, the tree stays in order: names are
of segments and belong to one device each, which the index and a search through the tree both
give; handles are small; nothing is below itself, and children are listed as they were added. A
device came from an addition that was accepted and has its name, and an addition is refused for
one of the reasons and then changes nothing. -/
theorem additionsConsistent (additions : List (Addition δ)) (few : additions.length < 2 ^ 32) :
    let t := growAll additions
    t.Consistent ∧
    (∀ id n, t.get? id = some n → id.index < 2 ^ 32 ∧ t.find? (t.tag id) = some id ∧
      ∃ a, Accepted additions a id ∧ t.Stems a n) ∧
    (∀ a id, Accepted additions a id → ∃ n, t.get? id = some n ∧ t.Stems a n) ∧
    (∀ name id, t.find? name = some id → (t.get? id).isSome ∧ t.tag id = name) ∧
    (∀ name, t.find? name = t.ids.find? fun id => t.tag id == name) ∧
    (∀ id, ¬ Relation.TransGen t.Under id id) ∧
    ∀ a e, ((t.grow a).2 = .error e ↔ t.Refused a e) ∧
      ((t.grow a).2 = .error e → (t.grow a).1 = t) := by
  intro t
  have fine : t.Consistent := growAllConsistent additions
  have small : t.size < 2 ^ 32 := Nat.lt_of_le_of_lt (growAllSize additions) few
  refine ⟨fine, fun id n found => ⟨Nat.lt_trans (withinSize found) small, ?_, deviceStems found⟩,
    fun a id => acceptedStems, fun name id found => ?_, fine.search, fun id => fine.acyclic,
    fun a e => ⟨growRefused fine small, growFailed⟩⟩
  · rw [tagOf found]
    exact fine.find found
  · obtain ⟨n, there, same⟩ := fine.index.mp found
    exact ⟨by simp [there], (tagOf there).trans same⟩

def boardAdditions : List (Addition Nat) :=
  [⟨"board", "panel", .ofMhz 1, none, 0⟩, ⟨"cpu", "acc8", .ofMhz 8, some ⟨0⟩, 1⟩,
    ⟨"board:cpu", "acc8", .ofMhz 4, none, 2⟩, ⟨"ram:", "panel", .ofMhz 1, some ⟨0⟩, 3⟩,
    ⟨"rom", "panel", .ofMhz 1, some ⟨7⟩, 4⟩, ⟨"rom", "panel", .ofMhz 1, some ⟨0⟩, 5⟩]

theorem boardConsistent :
    let t := growAll boardAdditions
    boardAdditions.length < 2 ^ 32 ∧
    t.nodes.toList.map (fun n => (n.tag, n.children)) =
      [("board", [⟨1⟩, ⟨2⟩]), ("board:cpu", []), ("board:rom", [])] ∧
    t.Consistent ∧ (∀ id, ¬ Relation.TransGen t.Under id id) :=
  have few : boardAdditions.length < 2 ^ 32 := by decide
  have order := additionsConsistent boardAdditions few
  ⟨few, by decide +kernel, order.1, order.2.2.2.2.2.1⟩

end Tree

end Lockstep
