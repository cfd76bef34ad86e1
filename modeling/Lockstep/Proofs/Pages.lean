import Lockstep.Proofs.Footing

/-! A bank over equal pages of one block is as many memories of their own. Where a window looks is
told by the selected page and the offset from the origin of its range, however many ranges lead to
the bank and however an access falls into parts, and no two pages share a byte. So all that is done
with the bank can be followed on marks that say which page was written where: what is read is the
latest mark there, or what the page held at first. -/
namespace Lockstep

namespace Memory
open Bus (ByteOrder)

inductive Use where
  | select (index : Nat)
  | read (order : ByteOrder) (offsets : List Nat)
  | write (rows : List (Nat × UInt8))
  deriving DecidableEq, Repr

structure Mark where
  page : Nat
  offset : Nat
  byte : UInt8
  deriving DecidableEq, Repr

structure Pages where
  selected : Nat
  marks : List Mark := []
  deriving DecidableEq, Repr

namespace Pages
variable {initial : Nat → Nat → UInt8} {p : Pages} {page offset : Nat}

def byte (p : Pages) (initial : Nat → Nat → UInt8) (page offset : Nat) : UInt8 :=
  ((p.marks.find? fun mark => mark.page == page && mark.offset == offset).map Mark.byte).getD
    (initial page offset)

def mark (p : Pages) (row : Nat × UInt8) : Pages :=
  { p with marks := ⟨p.selected, row.1, row.2⟩ :: p.marks }

def use (p : Pages) (bank : Bank) (initial : Nat → Nat → UInt8) : Use → Reply × Pages
  | .select index =>
      if index < bank.count then (.ok, { p with selected := index })
      else (.fault (.bank (.entryOutOfRange bank.tag index bank.count)), p)
  | .read order offsets => (.word (order.assemble (offsets.map (p.byte initial p.selected))), p)
  | .write rows => (.ok, if bank.readOnly then p else rows.foldl mark p)

def useAll (bank : Bank) (initial : Nat → Nat → UInt8) : List Use → Pages → List Reply × Pages
  | [], p => ([], p)
  | use :: rest, p =>
      let (reply, p) := p.use bank initial use
      let (replies, p) := useAll bank initial rest p
      (reply :: replies, p)

theorem byteMark (p : Pages) (initial : Nat → Nat → UInt8) (row : Nat × UInt8)
    (page offset : Nat) : (p.mark row).byte initial page offset =
      if p.selected = page ∧ row.1 = offset then row.2 else p.byte initial page offset := by
  unfold byte mark
  rw [List.find?_cons]
  by_cases here : p.selected = page ∧ row.1 = offset
  · rw [if_pos here]
    simp [here]
  · rw [if_neg here]
    have away : (p.selected == page && row.1 == offset) = false := by simpa using here
    rw [away]

theorem useOther (bank : Bank) (use : Use) (away : page ≠ p.selected) :
    (p.use bank initial use).2.byte initial page offset = p.byte initial page offset := by
  cases use with
  | select index =>
    unfold Pages.use
    dsimp only
    split <;> rfl
  | read => rfl
  | write rows =>
    unfold Pages.use
    dsimp only
    split
    · rfl
    · induction rows generalizing p with
      | nil => rfl
      | cons row rest ih =>
        refine (ih (p := p.mark row) away).trans ?_
        rw [byteMark, if_neg fun here => away here.1.symm]

theorem useAllLocked {bank : Bank} (locked : bank.readOnly = true) (uses : List Use) (p : Pages) :
    (useAll bank initial uses p).2.marks = p.marks := by
  induction uses generalizing p with
  | nil => rfl
  | cons use rest ih =>
    refine (ih (p.use bank initial use).2).trans ?_
    cases use with
    | select index =>
      unfold Pages.use
      dsimp only
      split <;> rfl
    | read => rfl
    | write rows =>
      unfold Pages.use
      rw [locked]
      rfl

end Pages

def Use.Idle (bank : Bank) (p : Pages) (use : Use) : Prop :=
  ∃ index, use = .select index ∧ (index = p.selected ∨ bank.count ≤ index)

/-- The bank lies over pages of one block, all of them within it. -/
structure Paged (m : Memory) (k : BankId) (bank : Bank) (block : BlockId) (stride : Nat) :
    Prop where
  found : m.bank? k = some bank
  strides : bank.entries.toList = Bank.strides block stride bank.count
  enough : bank.count * stride ≤ m.blockLength block

def pageByte (m : Memory) (block : BlockId) (stride page offset : Nat) : UInt8 :=
  (m.byte? ⟨block, page * stride + offset⟩).getD 0

structure Mirrors (start : Memory) (k : BankId) (bank : Bank) (block : BlockId) (stride : Nat)
    (p : Pages) (m : Memory) : Prop where
  retains : start.Retains m
  bankTags : m.bankTags = start.bankTags
  looseTags : m.looseTags = start.looseTags
  here : ∃ inside, m.bank? k = some { bank with selected := p.selected, selected_lt := inside }
  others : ∀ other, other ≠ k → m.bank? other = start.bank? other
  pages : ∀ page < bank.count, ∀ offset < stride,
    m.byte? ⟨block, page * stride + offset⟩ =
      some (p.byte (start.pageByte block stride) page offset)
  rest : ∀ c : Cell, (c.block = block → bank.count * stride ≤ c.offset) → m.byte? c = start.byte? c

theorem retainsTrans {a b c : Memory} (first : a.Retains b) (rest : b.Retains c) :
    a.Retains c := by
  refine ⟨fun id => Nat.le_trans (first.blocks id) (rest.blocks id), fun id bank found => ?_⟩
  obtain ⟨bank', found', same⟩ := first.banks id bank found
  obtain ⟨bank'', found'', same'⟩ := rest.banks id bank' found'
  exact ⟨bank'', found'', same'.trans same⟩

theorem pageEnd {stride count page offset : Nat} (inside : page < count) (short : offset < stride) :
    page * stride + offset < count * stride := by
  have next := Nat.mul_le_mul_right stride (Nat.succ_le_of_lt inside)
  rw [Nat.succ_mul] at next
  omega

theorem pageApart {stride page offset page' offset' : Nat} (short : offset < stride)
    (short' : offset' < stride) :
    page * stride + offset = page' * stride + offset' ↔ page = page' ∧ offset = offset' := by
  refine ⟨fun same => ?_, fun ⟨page, offset⟩ => by rw [page, offset]⟩
  have pages := congrArg (· / stride) same
  have positive : 0 < stride := Nat.zero_lt_of_lt short
  simp only [Nat.mul_comm _ stride, Nat.mul_add_div positive, Nat.div_eq_of_lt short,
    Nat.div_eq_of_lt short', Nat.add_zero] at pages
  subst pages
  exact ⟨rfl, Nat.add_left_cancel same⟩

section
variable {start m : Memory} {k : BankId} {bank : Bank} {block : BlockId} {stride : Nat} {p : Pages}

theorem Paged.entry (paged : start.Paged k bank block stride) (sound : start.Sound) {index : Nat}
    (inside : index < bank.entries.size) : bank.entries[index] = (block, index * stride) := by
  have listed := congrArg (·[index]?) paged.strides
  have counted : index < bank.count := inside
  simp only [Bank.strides, List.getElem?_map, List.getElem?_range counted, Array.getElem?_toList,
    Array.getElem?_eq_getElem inside, Option.map_some, Option.some.injEq] at listed
  have within : index * stride ≤ bank.count * stride :=
    Nat.mul_le_mul_right stride (Nat.le_of_lt inside)
  have short := sound.short block
  have enough := paged.enough
  rw [listed, Word.mul, Word.clamp_of_le (by omega)]

theorem Paged.mirrors (paged : start.Paged k bank block stride) :
    start.Mirrors k bank block stride ⟨bank.selected, []⟩ start := by
  refine ⟨.refl start, rfl, rfl, ⟨bank.selected_lt, paged.found⟩, fun _ _ => rfl,
    fun page inside offset short => ?_, fun _ _ => rfl⟩
  have within := Nat.lt_of_lt_of_le (pageEnd inside short) paged.enough
  obtain ⟨byte, held⟩ : ∃ byte, start.byte? ⟨block, page * stride + offset⟩ = some byte :=
    Bus.Space.byteBacked within
  rw [Pages.byte, pageByte, held]
  rfl

theorem selectSame (found : m.bank? k = some bank) : m.selectBank k bank.selected = .ok m := by
  unfold selectBank Bank.select
  rw [found]
  dsimp only
  rw [dif_pos bank.selected_lt]
  have same : m.banks.setIfInBounds k.index bank = m.banks := by
    refine Array.ext_getElem? fun i => ?_
    rw [Array.getElem?_setIfInBounds]
    split
    · rename_i here
      subst here
      rw [if_pos (Array.getElem?_eq_some_iff.mp found).1]
      exact found.symm
    · rfl
  exact congrArg (fun banks => Except.ok { m with banks }) same

theorem Mirrors.turn (mirrors : start.Mirrors k bank block stride p m) {index : Nat}
    {memory : Memory} (ok : m.selectBank k index = .ok memory)
    (turned : m.Turned memory k { bank with selected := p.selected, selected_lt := mirrors.here.1 }
      index) : start.Mirrors k bank block stride { p with selected := index } memory := by
  have tags : memory.bankTags = m.bankTags ∧ memory.looseTags = m.looseTags := by
    obtain rfl | ⟨_, _, -, -, rfl⟩ := selectInv ok <;> exact ⟨rfl, rfl⟩
  have bytes : ∀ c, memory.byte? c = m.byte? c := fun c => by
    rw [byte?, byte?, block?, block?, turned.blocks]
  refine ⟨retainsTrans mirrors.retains (retainsSelect ok), tags.1.trans mirrors.bankTags,
    tags.2.trans mirrors.looseTags, turned.here, fun other away =>
      (turned.others other away).trans (mirrors.others other away),
    fun page inside offset short => ?_, fun c outside => ?_⟩
  · rw [bytes]
    exact mirrors.pages page inside offset short
  · rw [bytes]
    exact mirrors.rest c outside

theorem Mirrors.mark (mirrors : start.Mirrors k bank block stride p m) {offset : Nat}
    (short : offset < stride) (value : UInt8) : start.Mirrors k bank block stride
      (p.mark (offset, value)) (m.write block (p.selected * stride + offset) [value]) := by
  have bytes (c : Cell) := Machine.byteWrite m ⟨block, p.selected * stride + offset⟩ c value
  refine ⟨retainsTrans mirrors.retains (retainsWrite ..), mirrors.bankTags, mirrors.looseTags,
    mirrors.here, mirrors.others, fun page inside offset' short' => ?_, fun c outside => ?_⟩
  · rw [bytes, Pages.byteMark, mirrors.pages page inside offset' short', Option.map_some]
    simp only [Cell.mk.injEq, true_and, eq_comm (b := p.selected * stride + offset),
      pageApart short short']
    split <;> rfl
  · rw [bytes, if_neg fun same => ?_, mirrors.rest c outside]
    subst same
    have within := pageEnd mirrors.here.1 short
    exact Nat.not_lt_of_le (outside rfl) within

theorem Mirrors.unmarked (paged : start.Paged k bank block stride)
    (mirrors : start.Mirrors k bank block stride p m) (unmarked : p.marks = []) (c : Cell) :
    m.byte? c = start.byte? c := by
  by_cases outside : c.block = block → bank.count * stride ≤ c.offset
  · exact mirrors.rest c outside
  obtain ⟨rfl, within⟩ := Classical.not_imp.mp outside
  have within := Nat.lt_of_not_le within
  have positive : 0 < stride := Nat.pos_of_ne_zero fun zero => by simp [zero] at within
  have place : c.offset / stride * stride + c.offset % stride = c.offset := by
    rw [Nat.mul_comm]
    exact Nat.div_add_mod ..
  have inside : c.offset / stride < bank.count := (Nat.div_lt_iff_lt_mul positive).mpr within
  have now := mirrors.pages _ inside _ (Nat.mod_lt c.offset positive)
  have before := paged.mirrors.pages _ inside _ (Nat.mod_lt c.offset positive)
  rw [place] at now before
  rw [now, before, Pages.byte, Pages.byte, unmarked]

end

end Memory

namespace Bus.Space
variable {κ : Type} {s : Space κ} {start memory : Memory} {k : Memory.BankId}
  {bank : Memory.Bank} {block : Memory.BlockId} {stride : Nat} {p : Memory.Pages} {w : Width}
  {address a : Nat}

def Windowed (s : Space κ) (k : Memory.BankId) (stride address : Nat) : Prop :=
  ∃ e, s.lookup? address = some e ∧ e.handler = .bank k ∧ e.last - e.origin < stride

def windowOffset (s : Space κ) (address : Nat) : Nat :=
  (s.lookup? address).elim 0 fun e => s.shape.wrap address - e.origin

theorem windowShort (laid : Laid s.shape.maxAddress s.entries)
    (windowed : s.Windowed k stride a) : s.windowOffset a < stride := by
  obtain ⟨e, here, -, short⟩ := windowed
  have covers := ((coveringIff laid).mp here).2.2
  rw [windowOffset, here, Option.elim_some]
  omega

theorem windowCell (paged : start.Paged k bank block stride) (sound : start.Sound)
    (mirrors : start.Mirrors k bank block stride p memory) (windowed : s.Windowed k stride a) :
    s.cell? memory a =
      some (⟨block, p.selected * stride + s.windowOffset a⟩, !bank.readOnly) := by
  obtain ⟨e, here, handler, -⟩ := windowed
  obtain ⟨inside, found⟩ := mirrors.here
  rw [cellLookup here, handler, Handler.cell?, found, Option.map_some, windowOffset, here]
  have target : ({ bank with selected := p.selected, selected_lt := inside } : Memory.Bank).target =
    (block, p.selected * stride) := paged.entry sound inside
  rw [target]
  rfl

theorem windowReach (windowed : ∀ i < w.bytes, s.Windowed k stride (address + i)) :
    ∀ a ∈ s.reach w address, s.Windowed k stride a := by
  intro a mem
  obtain ⟨i, inside, rfl⟩ := List.mem_map.mp mem
  obtain ⟨e, here, rest⟩ := windowed i (List.mem_range.mp inside)
  refine ⟨e, ?_, rest⟩
  rwa [lookup?, Machine.wrapTwice]

theorem windowGrounded (windowed : ∀ i < w.bytes, s.Windowed k stride (address + i)) :
    s.Grounded w address := by
  intro i inside
  obtain ⟨e, here, handler, -⟩ := windowed i inside
  exact ⟨e, here, by rw [handler]; rfl⟩

theorem storeMirrors (paged : start.Paged k bank block stride) (sound : start.Sound)
    (laid : Laid s.shape.maxAddress s.entries) (writable : bank.readOnly = false)
    {rows : List (Nat × UInt8)} (windowed : ∀ row ∈ rows, s.Windowed k stride row.1)
    (mirrors : start.Mirrors k bank block stride p memory) :
    start.Mirrors k bank block stride
      ((rows.map fun row => (s.windowOffset row.1, row.2)).foldl Memory.Pages.mark p)
      (s.storeAll memory rows) := by
  induction rows generalizing p memory with
  | nil => exact mirrors
  | cons row rest ih =>
    obtain ⟨here, windowed⟩ := List.forall_mem_cons.mp windowed
    have stored : s.store memory row.1 row.2 = memory.write block
        (p.selected * stride + s.windowOffset row.1) [row.2] := by
      unfold store
      rw [windowCell paged sound mirrors here, writable]
      rfl
    have marked := mirrors.mark (windowShort laid here) row.2
    rw [← stored] at marked
    exact ih windowed marked

theorem shownMirrors (paged : start.Paged k bank block stride) (sound : start.Sound)
    (laid : Laid s.shape.maxAddress s.entries)
    (mirrors : start.Mirrors k bank block stride p memory) {addresses : List Nat}
    {bytes : List UInt8} (windowed : ∀ a ∈ addresses, s.Windowed k stride a)
    (shown : List.Forall₂ (s.Shown memory) addresses bytes) :
    bytes = (addresses.map s.windowOffset).map
      (p.byte (start.pageByte block stride) p.selected) := by
  induction shown with
  | nil => rfl
  | cons first _ ih =>
    obtain ⟨here, windowed⟩ := List.forall_mem_cons.mp windowed
    have held := first _ _ (windowCell paged sound mirrors here)
    rw [mirrors.pages _ mirrors.here.1 _ (windowShort laid here)] at held
    rw [List.map_cons, List.map_cons, ← ih windowed, Option.some.inj held]

end Bus.Space

namespace Machine
open Bus (ByteOrder Space Width)
open Memory (Bank BankId BlockId Pages Use)

/-- What a command does with a bank: it selects one of its pages, or makes an access all of which
goes through windows. -/
inductive Means (m : Machine) (k : BankId) (stride : Nat) : Command → Use → Prop where
  | select {tag index} (named : m.memory.bankId? tag = some k) :
      Means m k stride (.selectBank tag index) (.select index)
  | switch {tag index} (named : m.memory.bankTags.find? tag = some k) :
      Means m k stride (.switchBank tag index) (.select index)
  | read {route id s address w} (routed : m.resolve route = .ok id) (found : m.space? id = some s)
      (windowed : ∀ i < w.bytes, s.Windowed k stride (address + i)) :
      Means m k stride (.read route address w)
        (.read s.shape.byteOrder ((s.reach w address).map s.windowOffset))
  | write {route id s address w value} (routed : m.resolve route = .ok id)
      (found : m.space? id = some s) (windowed : ∀ i < w.bytes, s.Windowed k stride (address + i)) :
      Means m k stride (.write route address w value)
        (.write (((s.reach w address).map s.windowOffset).zip
          (s.shape.byteOrder.bytes w.bytes value)))

structure Charted (m m' : Machine) : Prop where
  tree : m'.tree = m.tree
  layout : ∀ id, (m'.space? id).map (·.layout) = (m.space? id).map (·.layout)

section
variable {m m' m'' : Machine} {k : BankId} {bank : Bank} {block : BlockId} {stride : Nat}
  {p : Pages} {call : Callback} {id : SpaceId} {s : Space Port}

theorem Charted.refl (m : Machine) : m.Charted m := ⟨rfl, fun _ => rfl⟩

theorem Charted.memory (charted : m.Charted m') (memory : Memory) : m.Charted { m' with memory } :=
  ⟨charted.tree, charted.layout⟩

theorem Charted.driven (charted : m.Charted m') (driven : Driven id m' m'') : m.Charted m'' := by
  cases driven with
  | same => exact charted
  | drive value =>
    have ported := spacePorted ⟨id, id⟩ m' id (f := (·.drive value)) fun _ => rfl
    exact ⟨charted.tree, fun other => (ported.layout other).trans (charted.layout other)⟩

theorem Charted.resolve (charted : m.Charted m') (route : Route) :
    m'.resolve route = m.resolve route := by
  cases route with
  | direct => rfl
  | owned => simp only [Machine.resolve, ownedSpace, charted.tree]

theorem Charted.shows (charted : m.Charted m') (found : m.space? id = some s) : m'.Shows id s :=
  (charted.layout id).trans (showsFound found)

structure Paging (m : Machine) (k : BankId) (bank : Bank) (block : BlockId) (stride : Nat)
    (p : Pages) (m' : Machine) : Prop where
  charted : m.Charted m'
  mirrors : m.memory.Mirrors k bank block stride p m'.memory

abbrev pageUse (m : Machine) (bank : Bank) (block : BlockId) (stride : Nat) (p : Pages)
    (use : Use) : Reply × Pages :=
  p.use bank (m.memory.pageByte block stride) use

theorem selectPaging (paging : m.Paging k bank block stride p m') (index : Nat) :
    ∃ m'', replaceMemory (m'.memory.selectBank k index) m' =
        some ((m.pageUse bank block stride p (.select index)).1, m'') ∧
      m.Paging k bank block stride (m.pageUse bank block stride p (.select index)).2 m'' ∧
      (index = p.selected ∨ bank.count ≤ index → m'' = m') := by
  obtain ⟨inside, found⟩ := paging.mirrors.here
  unfold pageUse Pages.use
  dsimp only
  rcases Memory.selectCases found index with ⟨within, memory, ok, turned⟩ | ⟨outside, refused⟩
  · have within : index < bank.count := within
    rw [ok, if_pos within]
    refine ⟨_, rfl, ⟨paging.charted.memory memory, paging.mirrors.turn ok turned⟩, fun idle => ?_⟩
    obtain rfl := idle.resolve_right (Nat.not_le_of_lt within)
    have same : m'.memory.selectBank k p.selected = .ok m'.memory := Memory.selectSame found
    cases same.symm.trans ok
    rfl
  · have outside : bank.count ≤ index := outside
    rw [refused, if_neg (Nat.not_lt_of_le outside)]
    exact ⟨m', rfl, paging, fun _ => rfl⟩

theorem commandPaging (paged : m.memory.Paged k bank block stride) (housed : m.Housed)
    (call : Callback) {command : Command} {use : Use} (means : m.Means k stride command use)
    (paging : m.Paging k bank block stride p m') : ∃ m'',
      command.run call m' = some ((m.pageUse bank block stride p use).1, m'') ∧
      m.Paging k bank block stride (m.pageUse bank block stride p use).2 m'' ∧
      (use.Idle bank p → m'' = m') := by
  obtain ⟨charted, mirrors⟩ := paging
  have idleSelect {index : Nat} (idle : (Use.select index).Idle bank p) :
      index = p.selected ∨ bank.count ≤ index := by
    obtain ⟨_, same, idle⟩ := idle
    cases same
    exact idle
  cases means with
  | @select tag index named =>
    unfold Command.run
    dsimp only
    have named' : m'.memory.bankId? tag = some k := by
      rw [← named, Memory.bankId?, Memory.bankId?, mirrors.bankTags, mirrors.looseTags]
    rw [Run.getBind, named']
    obtain ⟨m'', ran, paging, idle⟩ := selectPaging ⟨charted, mirrors⟩ index
    exact ⟨m'', ran, paging, idle ∘ idleSelect⟩
  | @switch tag index named =>
    unfold Command.run
    rw [Run.getBind, Memory.switch, mirrors.bankTags, named]
    obtain ⟨m'', ran, paging, idle⟩ := selectPaging ⟨charted, mirrors⟩ index
    exact ⟨m'', ran, paging, idle ∘ idleSelect⟩
  | @read route id s address w routed found windowed =>
    have laid := (housed.spaces id s found).laid
    have housed' : s.Housed m'.memory := ⟨laid, fun e mem =>
      Bus.backsRetained mirrors.retains ((housed.spaces id s found).backed e mem)⟩
    have grounded := Space.windowGrounded windowed
    obtain ⟨bytes, m'', ran, shown, memory, driven⟩ :=
      readShown housed' (charted.shows found) grounded.quiet call
    have held := Space.shownMirrors paged housed.memory laid mirrors (Space.windowReach windowed)
      shown
    refine ⟨m'', ?_, ⟨charted.driven (driven grounded), memory ▸ mirrors⟩,
      by rintro ⟨_, other, -⟩; cases other⟩
    unfold Command.run onSpace
    rw [Run.getBind, charted.resolve, routed]
    dsimp only
    rw [Run.bindSome ran, held]
    rfl
  | @write route id s address w value routed found windowed =>
    have laid := (housed.spaces id s found).laid
    have grounded := Space.windowGrounded windowed
    obtain ⟨m'', ran, memory, -, driven⟩ :=
      writeHeld laid (charted.shows found) grounded.quiet call value
    refine ⟨m'', ?_, ⟨(charted.memory _).driven (driven grounded), ?_⟩,
      by rintro ⟨_, other, -⟩; cases other⟩
    · unfold Command.run onSpace
      rw [Run.getBind, charted.resolve, routed]
      dsimp only
      rw [Run.bindSome ran]
      rfl
    · rw [memory]
      unfold pageUse Pages.use
      dsimp only
      have rows : ∀ row ∈ (s.reach w address).zip (s.shape.byteOrder.bytes w.bytes value),
          s.Windowed k stride row.1 :=
        fun row mem => Space.windowReach windowed row.1 (List.of_mem_zip mem).1
      cases locked : bank.readOnly with
      | true =>
        rw [if_pos rfl, Space.storeNone fun row mem c cell => ?_]
        · exact mirrors
        · rw [Space.windowCell paged housed.memory mirrors (rows row mem), locked] at cell
          cases cell
      | false =>
        rw [if_neg Bool.false_ne_true, List.zip_map_left]
        exact Space.storeMirrors paged housed.memory laid locked rows mirrors

theorem commandsPaging (paged : m.memory.Paged k bank block stride) (housed : m.Housed)
    (call : Callback) {commands : List Command} {uses : List Use}
    (means : List.Forall₂ (m.Means k stride) commands uses)
    (paging : m.Paging k bank block stride p m') : ∃ m'',
      commands.mapM (Command.run call) m' =
        some ((Pages.useAll bank (m.memory.pageByte block stride) uses p).1, m'') ∧
      m.Paging k bank block stride
        (Pages.useAll bank (m.memory.pageByte block stride) uses p).2 m'' := by
  induction means generalizing p m' with
  | nil => exact ⟨m', rfl, paging⟩
  | cons first _ ih =>
    obtain ⟨m₁, ran, paging, -⟩ := commandPaging paged housed call first paging
    obtain ⟨m₂, rans, paging⟩ := ih paging
    refine ⟨m₂, ?_, paging⟩
    rw [List.mapM_cons, Run.bindSome ran, Run.bindSome rans]
    rfl

/-- Pages behind a bank are memories of their own. Whatever commands select a page or make accesses
through windows that are no longer than one, a read answers the latest bytes that were written at
its offsets of the selected page, or what the page held at first, and nothing else in memory
changes. A command leaves all pages but the selected one; a page selected again, or one that there
is not, leaves all; and a bank that takes no writes keeps its bytes. -/
theorem pagesApart {rule : Rule} (reached : Reachable rule m)
    (paged : m.memory.Paged k bank block stride) (call : Callback) {commands : List Command}
    {uses : List Use} (means : List.Forall₂ (m.Means k stride) commands uses) :
    let initial := m.memory.pageByte block stride
    let after := Pages.useAll bank initial uses ⟨bank.selected, []⟩
    ∃ m', commands.mapM (Command.run call) m = some (after.1, m') ∧
      m.memory.Mirrors k bank block stride after.2 m'.memory ∧
      (bank.readOnly = true → ∀ c, m'.memory.byte? c = m.memory.byte? c) ∧
      ∀ command use, m.Means k stride command use → ∃ m'',
        command.run call m' = some ((after.2.use bank initial use).1, m'') ∧
        (use.Idle bank after.2 → m'' = m') ∧
        ∀ page < bank.count, page ≠ after.2.selected → ∀ offset < stride,
          m''.memory.byte? ⟨block, page * stride + offset⟩ =
            m'.memory.byte? ⟨block, page * stride + offset⟩ := by
  intro initial after
  have housed := reachableHoused reached
  obtain ⟨m', ran, paging⟩ := commandsPaging paged housed call means ⟨.refl m, paged.mirrors⟩
  refine ⟨m', ran, paging.mirrors, fun locked c => ?_, fun command use means => ?_⟩
  · exact paging.mirrors.unmarked paged (Pages.useAllLocked locked uses _) c
  · obtain ⟨m'', ran', paging', idle⟩ := commandPaging paged housed call means paging
    refine ⟨m'', ran', idle, fun page inside away offset short => ?_⟩
    rw [paging'.mirrors.pages page inside offset short,
      paging.mirrors.pages page inside offset short]
    exact congrArg some (Pages.useOther bank use away)

end

def shelfCommands : List Command :=
  [.selectBank "bank" 1, .write (.direct ⟨0⟩) 0x48 .word 0x1234, .switchBank "bank" 0,
    .read (.direct ⟨0⟩) 0x48 .word, .switchBank "bank" 3, .selectBank "bank" 1,
    .read (.direct ⟨0⟩) 0x48 .word]

def shelfUses : List Use :=
  [.select 1, .write [(8, 0x34), (9, 0x12)], .select 0, .read .little [8, 9], .select 3, .select 1,
    .read .little [8, 9]]

theorem shelfPages : Reachable free shelf ∧ List.Forall₂ (shelf.Means ⟨0⟩ 0x10) shelfCommands
    shelfUses ∧ ∃ m', shelfCommands.mapM (Command.run (invoke 1)) shelf = some ([.ok, .ok, .ok,
      .word 0x0707, .fault (.bank (.entryOutOfRange "bank" 3 3)), .ok, .word 0x1234], m') ∧
    m'.memory.byte? ⟨⟨0⟩, 0x28⟩ = shelf.memory.byte? ⟨⟨0⟩, 0x28⟩ := by
  have paged : shelf.memory.Paged ⟨0⟩ { shelfBank with selected := 2, selected_lt := by decide }
    ⟨0⟩ 0x10 := ⟨rfl, by decide, by decide⟩
  have windowed : ∀ i < Width.word.bytes, shelfSpace.Windowed ⟨0⟩ 0x10 (0x48 + i) := by
    intro i inside
    obtain _ | _ | i := i
    · exact ⟨_, rfl, rfl, by decide⟩
    · exact ⟨_, rfl, rfl, by decide⟩
    · exact absurd inside (Nat.not_lt_of_le (Nat.le_add_left 2 i))
  have read : shelf.Means ⟨0⟩ 0x10 (.read (.direct ⟨0⟩) 0x48 .word) (.read .little [8, 9]) :=
    .read rfl rfl windowed
  have write : shelf.Means ⟨0⟩ 0x10 (.write (.direct ⟨0⟩) 0x48 .word 0x1234)
    (.write [(8, 0x34), (9, 0x12)]) := .write rfl rfl windowed
  have means : List.Forall₂ (shelf.Means ⟨0⟩ 0x10) shelfCommands shelfUses :=
    .cons (.select rfl) (.cons write (.cons (.switch rfl) (.cons read (.cons (.switch rfl)
      (.cons (.select rfl) (.cons read .nil))))))
  obtain ⟨m', ran, mirrors, -⟩ := pagesApart shelfReached paged (invoke 1) means
  have page := mirrors.pages 2 (by decide) 8 (by decide)
  exact ⟨shelfReached, means, m', ran, page.trans (by decide)⟩

end Machine

end Lockstep
