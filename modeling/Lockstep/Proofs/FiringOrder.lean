import Lockstep.Proofs.Clients

/-! The order of firings over the life of a queue. Whatever has fired lies before all that is
armed, and behind neither the clock nor the count of armings, so nothing that is armed later
can come before it. -/
namespace Lockstep.Timer

def firings : Queue → List Note → List Key
  | _, [] => []
  | q, note :: log => (note.key? q).toList ++ firings note.after log

def armings : Queue → List Note → List (List Key)
  | _, [] => []
  | q, note :: log => note.after.order.filter (· ∉ q.order) :: armings note.after log

structure Behind (last : Key) (q : Queue) : Prop where
  order : ∀ key ∈ q.order, last.Before key
  clock : last.time ≤ q.now
  count : last.seq < q.nextSeq

variable {q p : Queue} {note : Note} {log : List Note} {last : Key}

theorem Behind.edited (behind : Behind last q) (edited : Queue.Edited q p) : Behind last p := by
  refine ⟨fun key mem => ?_, Nat.le_trans behind.clock edited.clock,
    Nat.lt_of_lt_of_le behind.count edited.count⟩
  rcases edited.added key mem with old | ⟨late, young⟩
  · exact behind.order key old
  · have after : last.time ≤ key.time := Nat.le_trans behind.clock late
    rcases Nat.lt_or_eq_of_le after with earlier | same
    · exact .inl earlier
    · exact .inr ⟨Time.ext same, Nat.lt_of_lt_of_le behind.count young⟩

theorem poppedBehind {limit : Time} {fired : Fired} {key : Key} {rest : List Key} {s : Slot}
    (filed : q.Filed) (popped : Queue.Popped q limit fired p key rest s) : Behind key p := by
  refine ⟨popped.later filed, ?_, Nat.lt_of_lt_of_le (filed.young key popped.head) popped.count⟩
  rw [popped.now, Time.le_def, Time.attos_max]
  exact Nat.le_max_right ..

theorem firedBehind (chain : Chain q log p) (filed : q.Filed) (behind : Behind last q) :
    (last :: firings q log).Pairwise Key.Before := by
  induction chain generalizing last with
  | nil => simp [firings]
  | @cons q note log r took rest ih =>
    have filed' := tookFiled filed took
    rcases tookCases filed took with ⟨edited, none⟩ | ⟨_, _, key, _, _, popped, some⟩
    · simpa [firings, none] using ih filed' (behind.edited edited)
    · have later := ih filed' (poppedBehind filed popped)
      have first := behind.order key popped.head
      simp only [firings, some, Option.toList_some, List.singleton_append]
      refine List.pairwise_cons.mpr ⟨fun other mem => ?_, later⟩
      rcases List.mem_cons.mp mem with rfl | mem
      · exact first
      · exact Key.beforeTrans first ((List.pairwise_cons.mp later).1 other mem)

theorem firedSorted (chain : Chain q log p) (filed : q.Filed) :
    (firings q log).Pairwise Key.Before := by
  induction chain with
  | nil => simp [firings]
  | @cons q note log r took rest ih =>
    have filed' := tookFiled filed took
    rcases tookCases filed took with ⟨-, none⟩ | ⟨_, _, _, _, _, popped, some⟩
    · simpa [firings, none] using ih filed'
    · simpa [firings, some] using firedBehind rest filed' (poppedBehind filed popped)

theorem tookNumbers (filed : q.Filed) (took : note.Took q) :
    q.nextSeq ≤ note.after.nextSeq ∧
      ∀ key ∈ note.after.order, key ∉ q.order → q.nextSeq ≤ key.seq := by
  rcases tookCases filed took with ⟨edited, -⟩ | ⟨_, _, _, _, _, popped, -⟩
  · refine ⟨edited.count, fun key mem fresh => ?_⟩
    rcases edited.added key mem with old | ⟨-, number⟩
    · exact absurd old fresh
    · exact number
  · exact ⟨popped.count, fun key mem fresh => (popped.added key mem).resolve_left fresh⟩

theorem armedFrom (chain : Chain q log p) (filed : q.Filed) :
    ∀ keys ∈ armings q log, ∀ key ∈ keys, q.nextSeq ≤ key.seq := by
  induction chain with
  | nil => simp [armings]
  | cons took rest ih =>
    obtain ⟨count, fresh⟩ := tookNumbers filed took
    intro keys mem key inside
    rcases List.mem_cons.mp mem with rfl | mem
    · simp only [List.mem_filter, decide_eq_true_eq] at inside
      exact fresh key inside.1 inside.2
    · exact Nat.le_trans count (ih (tookFiled filed took) keys mem key inside)

theorem armedInOrder (chain : Chain q log p) (filed : q.Filed) :
    (armings q log).Pairwise fun early late => ∀ a ∈ early, ∀ b ∈ late, a.seq < b.seq := by
  induction chain with
  | nil => simp [armings]
  | cons took rest ih =>
    have filed' := tookFiled filed took
    refine List.pairwise_cons.mpr ⟨fun keys mem a first b later => ?_, ih filed'⟩
    have young := filed'.young a (List.mem_filter.mp first).1
    exact Nat.lt_of_lt_of_le young (armedFrom rest filed' keys mem b later)

theorem advancedPast (chain : Chain q log p) (filed : q.Filed) {limit : Time} {r : Queue}
    (mem : ⟨.advance limit, r⟩ ∈ log) :
    limit ≤ r.now ∧ ∀ id time, r.fireTime? id = some time → limit < time := by
  induction chain with
  | nil => simp at mem
  | @cons q note log p took rest ih =>
    rcases List.mem_cons.mp mem with rfl | mem
    · obtain ⟨idle, rfl⟩ := took
      constructor
      · rw [Queue.nowSetNow, Time.le_def, Time.attos_max]
        exact Nat.le_max_right ..
      · intro id time fires
        have filed' := (Queue.setNowEdited limit).filed filed
        obtain ⟨key, listed, rfl⟩ := Queue.armedKey filed' fires
        rw [Queue.orderSetNow] at listed
        exact Queue.popNone filed idle key listed
    · exact ih (tookFiled filed took) mem

/-- Entries fire in order of their fire times, and those of one time in the order in which they
were armed; an advance leaves nothing that is due. -/
theorem firingOrder (client : Client) {fuel : Nat} {q : Queue} {log : List Note}
    (ran : client.run fuel ({}, []) = some (q, log)) :
    (firings {} log).Pairwise Key.Before ∧
    ((armings {} log).Pairwise fun early late => ∀ a ∈ early, ∀ b ∈ late, a.seq < b.seq) ∧
    ∀ limit p, ⟨.advance limit, p⟩ ∈ log →
      limit ≤ p.now ∧ ∀ id time, p.fireTime? id = some time → limit < time := by
  have chain := Client.chain ran
  exact ⟨firedSorted chain Queue.filedEmpty, armedInOrder chain Queue.filedEmpty,
    fun _ _ mem => advancedPast chain Queue.filedEmpty mem⟩

theorem rotaFirings : ∃ q log, rota.run 9 ({}, []) = some (q, log) ∧ log.length = 20 ∧
    (firings {} log).Pairwise Key.Before ∧
    ((armings {} log).Pairwise fun early late => ∀ a ∈ early, ∀ b ∈ late, a.seq < b.seq) ∧
    ∀ limit p, ⟨.advance limit, p⟩ ∈ log →
      limit ≤ p.now ∧ ∀ id time, p.fireTime? id = some time → limit < time := by
  obtain ⟨q, log, ran, long⟩ := rotaRuns
  exact ⟨q, log, ran, long, firingOrder rota ran⟩

end Lockstep.Timer
