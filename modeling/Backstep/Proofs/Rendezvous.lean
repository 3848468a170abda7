import Backstep.Rendezvous
/-!
# Every reader gets the word of its turn

Words and readers are both counted in the order in which they come, and the reader with some number
gets the word with the same number, however the two are interleaved and whenever tickets are shown.
A `Ledger` keeps both counts beside the channel. What the channel holds can be read off it: the
words beyond the last reader are buffered, the readers beyond the last word wait, and where both
have come, the word is laid aside until its ticket is shown. That is `Balanced`, and `Matched` says
the same of what a channel answers.
-/

namespace Backstep

def Reading.ticket? : Reading → Option Ticket
  | .ready _ => none
  | .pending t => some t

namespace Channel

/-- Something that is asked of a channel. -/
inductive Call
  | write (word : Word)
  | read
  | collect (ticket : Ticket)
  | take
deriving DecidableEq

/-- A channel together with what has been asked of it. -/
structure Ledger where
  channel : Channel := {}
  /-- The words that were written, in their order. -/
  written : List Word := []
  /-- What the readers got when they came, in their order. Who takes a word is a reader as well, but
  not who finds none to take. -/
  requests : List Reading := []
  /-- The tickets that were shown, each with the number of words written by then. -/
  shown : List (Ticket × Nat) := []

namespace Ledger

def after (r : Ledger) : Call → Ledger
  | .write w => { r with channel := (r.channel.write w).1, written := r.written ++ [w] }
  | .read =>
    { r with channel := r.channel.read.1, requests := r.requests ++ [r.channel.read.2.1] }
  | .collect t =>
    { r with channel := (r.channel.collect t).1, shown := r.shown ++ [(t, r.written.length)] }
  | .take =>
    { r with
      channel := r.channel.take.1
      requests := r.requests ++ (r.channel.take.2.map Reading.ready).toList }

/-- The ledger of a new channel after calls. -/
def ofCalls (cs : List Call) : Ledger := cs.foldl after {}

/-- A ticket was shown after the word with the number was written. -/
def Shown (r : Ledger) (t : Ticket) (i : Nat) : Prop := ∃ n, (t, n) ∈ r.shown ∧ i < n

/-- What a channel answers, told by who and what has come before. -/
structure Matched (r : Ledger) : Prop where
  /-- A reader that did not have to wait has got the word of its turn. -/
  ready : ∀ {i : Nat} {w : Word}, r.requests[i]? = some (.ready w) → r.written[i]? = some w
  /-- One that had to wait gets it for its ticket, the first time it is shown after the word was
  written. Before and afterwards there is nothing for the ticket. -/
  pending : ∀ {i : Nat} {t : Ticket}, r.requests[i]? = some (.pending t) →
    (¬ r.Shown t i → (r.channel.collect t).2 = r.written[i]?) ∧
      (r.Shown t i → (r.channel.collect t).2 = none)
  /-- There is nothing for a ticket that was never handed out. -/
  unknown : ∀ {t : Ticket}, Reading.pending t ∉ r.requests → (r.channel.collect t).2 = none
  distinct : (r.requests.filterMap Reading.ticket?).Nodup
  /-- No word is lost: the reader of its turn has it or a ticket for it, or it is buffered. -/
  kept : ∀ {i : Nat} {w : Word}, r.written[i]? = some w →
    r.requests[i]? = some (.ready w) ∨ (∃ t, r.requests[i]? = some (.pending t)) ∨
      r.requests.length ≤ i ∧ r.channel.buffer[i - r.requests.length]? = some w
  /-- Who comes next gets the word of its turn, if it has been written. -/
  served : ∀ {w : Word}, r.written[r.requests.length]? = some w →
    r.channel.read.2.1 = .ready w ∧ r.channel.take.2 = some w
  /-- If not, a reader gets a ticket that nobody has, and there is nothing to take. -/
  unserved : r.written.length ≤ r.requests.length →
    (∃ t, r.channel.read.2.1 = .pending t ∧ Reading.pending t ∉ r.requests) ∧
      r.channel.take.2 = none
  exclusive : r.channel.buffer = [] ∨ r.channel.waiting = []
  /-- The words beyond the last reader are buffered, in their order. -/
  buffer : r.channel.buffer = r.written.drop r.requests.length
  buffered : r.channel.buffer.length = r.written.length - r.requests.length
  waiting : r.channel.isWaiting = true ↔ r.written.length < r.requests.length

/-- What the channel holds agrees with the ledger. -/
structure Balanced (r : Ledger) : Prop where
  buffer : r.channel.buffer = r.written.drop r.requests.length
  waiting : r.requests.drop r.written.length = r.channel.waiting.map .pending
  ready : ∀ {i : Nat} {w : Word}, r.requests[i]? = some (.ready w) → r.written[i]? = some w
  tickets : r.requests.filterMap Reading.ticket? = List.range r.channel.nextTicket
  delivered : ∀ {t : Ticket} {w : Word}, (t, w) ∈ r.channel.delivered ↔
    ∃ i, r.requests[i]? = some (.pending t) ∧ r.written[i]? = some w ∧ ¬ r.Shown t i
  keys : (r.channel.delivered.map (·.1)).Nodup
  shown : ∀ {t : Ticket} {n : Nat}, (t, n) ∈ r.shown → n ≤ r.written.length

end Ledger

private theorem getElem?_concat_eq_some_iff {α : Type} {l : List α} {a b : α} {i : Nat} :
    (l ++ [a])[i]? = some b ↔ l[i]? = some b ∨ i = l.length ∧ b = a := by
  grind

/-! ### Showing a ticket -/

theorem eq_of_mem_delivered {c : Channel} (hkeys : (c.delivered.map (·.1)).Nodup) {t : Ticket}
    {v w : Word} (hv : (t, v) ∈ c.delivered) (hw : (t, w) ∈ c.delivered) : v = w := by
  obtain ⟨i, hi, hvi⟩ := List.mem_iff_getElem.1 hv
  obtain ⟨j, hj, hwj⟩ := List.mem_iff_getElem.1 hw
  have hi' : i < (c.delivered.map (·.1)).length := by rwa [List.length_map]
  have hj' : j < (c.delivered.map (·.1)).length := by rwa [List.length_map]
  have hkey : (c.delivered.map (·.1))[i] = (c.delivered.map (·.1))[j] := by simp [hvi, hwj]
  have hsame : i = j := (List.getElem_inj hkeys).1 hkey
  subst hsame
  exact (Prod.mk.inj (hvi.symm.trans hwj)).2

/-- A ticket is answered with the word laid aside for it. -/
theorem collect_eq_some_iff {c : Channel} (hkeys : (c.delivered.map (·.1)).Nodup) {t : Ticket}
    {w : Word} : (c.collect t).2 = some w ↔ (t, w) ∈ c.delivered := by
  unfold collect
  cases hfind : c.delivered.find? (·.1 == t) with
  | none =>
    have hnone := List.find?_eq_none.1 hfind
    constructor
    · intro h
      cases h
    · intro hmem
      exact absurd (by simp) (hnone _ hmem)
  | some e =>
    obtain ⟨s, v⟩ := e
    obtain rfl : s = t := by simpa using List.find?_some hfind
    have hv := List.mem_of_find?_eq_some hfind
    simp only [Option.some.injEq]
    constructor
    · rintro rfl
      exact hv
    · exact eq_of_mem_delivered hkeys hv

/-- Showing a ticket takes away what is laid aside for it, and nothing else. -/
theorem mem_delivered_collect {c : Channel} (hkeys : (c.delivered.map (·.1)).Nodup) {t s : Ticket}
    {v : Word} : (s, v) ∈ (c.collect t).1.delivered ↔ (s, v) ∈ c.delivered ∧ s ≠ t := by
  unfold collect
  cases hfind : c.delivered.find? (·.1 == t) with
  | none =>
    have hnone := List.find?_eq_none.1 hfind
    simp only [iff_self_and]
    rintro hmem rfl
    exact hnone _ hmem (by simp)
  | some e =>
    by_cases hst : s = t
    · subst hst
      simp only [ne_eq, not_true_eq_false, and_false, iff_false]
      intro hmem
      have hkeys' := hkeys
      obtain ⟨a, before, behind, hbefore, ha, hlist, herase⟩ :=
        List.exists_of_eraseP (List.mem_of_find?_eq_some hfind) (List.find?_some hfind)
      rw [herase] at hmem
      rw [hlist, List.map_append, List.map_cons, List.nodup_append] at hkeys'
      obtain ⟨-, hbehind, hapart⟩ := hkeys'
      have hkey : a.1 = s := by simpa using ha
      rcases List.mem_append.1 hmem with hmem | hmem
      · exact hbefore _ hmem (by simp)
      · exact (List.nodup_cons.1 hbehind).1 (hkey ▸ List.mem_map_of_mem hmem)
    · simp only [ne_eq, hst, not_false_eq_true, and_true]
      exact List.mem_eraseP_of_neg (by simpa using hst)

/-- Showing a ticket changes nothing but what is laid aside. -/
theorem collect_eq (c : Channel) (t : Ticket) :
    ∃ delivered, (c.collect t).1 = { c with delivered } ∧ delivered.Sublist c.delivered := by
  unfold collect
  cases c.delivered.find? (·.1 == t) with
  | none => exact ⟨c.delivered, rfl, List.Sublist.refl _⟩
  | some e => exact ⟨_, rfl, List.eraseP_sublist⟩

/-! ### Every call keeps the balance -/

namespace Ledger

namespace Balanced

variable {r : Ledger} (h : Balanced r)

include h

/-- No two readers have the same ticket. -/
theorem reader_inj {i j : Nat} {t : Ticket} (hi : r.requests[i]? = some (.pending t))
    (hj : r.requests[j]? = some (.pending t)) : i = j := by
  have hnodup : (r.requests.filterMap Reading.ticket?).Nodup := by
    rw [h.tickets]
    exact List.nodup_range
  have hapart := List.pairwise_iff_getElem.1 (List.pairwise_filterMap.1 hnodup)
  obtain ⟨hilt, hi⟩ := List.getElem?_eq_some_iff.1 hi
  obtain ⟨hjlt, hj⟩ := List.getElem?_eq_some_iff.1 hj
  rcases Nat.lt_trichotomy i j with hlt | heq | hgt
  · exact absurd rfl (hapart i j hilt hjlt hlt t (by rw [hi]; rfl) t (by rw [hj]; rfl))
  · exact heq
  · exact absurd rfl (hapart j i hjlt hilt hgt t (by rw [hj]; rfl) t (by rw [hi]; rfl))

theorem ticket_lt {t : Ticket} (ht : Reading.pending t ∈ r.requests) :
    t < r.channel.nextTicket := by
  have hmem : t ∈ r.requests.filterMap Reading.ticket? := List.mem_filterMap.2 ⟨_, ht, rfl⟩
  rw [h.tickets] at hmem
  exact List.mem_range.1 hmem

/-- A word is not shown for before it is written. -/
theorem not_shown (t : Ticket) : ¬ r.Shown t r.written.length := by
  rintro ⟨n, hmem, hn⟩
  have := h.shown hmem
  omega

theorem collect_eq_some_iff {t : Ticket} {w : Word} : (r.channel.collect t).2 = some w ↔
    ∃ i, r.requests[i]? = some (.pending t) ∧ r.written[i]? = some w ∧ ¬ r.Shown t i := by
  rw [Channel.collect_eq_some_iff h.keys, h.delivered]

/-- The readers have come at least as far as the words if one of them waits. -/
theorem written_lt {t : Ticket} {ts : List Ticket} (hwaiting : r.channel.waiting = t :: ts) :
    r.written.length < r.requests.length ∧
      r.requests[r.written.length]? = some (.pending t) ∧ r.channel.buffer = [] := by
  have hdrop := h.waiting
  rw [hwaiting, List.map_cons] at hdrop
  have hturn : r.requests[r.written.length]? = some (.pending t) := by
    have hhead := congrArg (fun l : List Reading => l[0]?) hdrop
    simpa using hhead
  have hlt := (List.getElem?_eq_some_iff.1 hturn).1
  refine ⟨hlt, hturn, ?_⟩
  rw [h.buffer, List.drop_eq_nil_iff]
  exact Nat.le_of_lt hlt

/-- The words have come at least as far as the readers if one of them is buffered. -/
theorem requests_lt {w : Word} {ws : List Word} (hbuffer : r.channel.buffer = w :: ws) :
    r.requests.length < r.written.length ∧
      r.written[r.requests.length]? = some w ∧ r.channel.waiting = [] := by
  have hdrop := h.buffer
  rw [hbuffer] at hdrop
  have hturn : r.written[r.requests.length]? = some w := by
    have hhead := congrArg (fun l : List Word => l[0]?) hdrop
    simpa using hhead.symm
  have hlt := (List.getElem?_eq_some_iff.1 hturn).1
  refine ⟨hlt, hturn, ?_⟩
  have hnone : r.requests.drop r.written.length = [] := List.drop_eq_nil_iff.2 (Nat.le_of_lt hlt)
  rwa [h.waiting, List.map_eq_nil_iff] at hnone

theorem requests_le_of_waiting (hwaiting : r.channel.waiting = []) :
    r.requests.length ≤ r.written.length := by
  rw [← List.drop_eq_nil_iff, h.waiting, hwaiting, List.map_nil]

theorem written_le_of_buffer (hbuffer : r.channel.buffer = []) :
    r.written.length ≤ r.requests.length := by
  rw [← List.drop_eq_nil_iff, ← h.buffer, hbuffer]

/-- A word goes to the reader that waits for its turn, or waits itself for the reader. -/
theorem after_write (w : Word) : Balanced (r.after (.write w)) := by
  have hready : ∀ {i : Nat} {v : Word}, r.requests[i]? = some (.ready v) →
      (r.written ++ [w])[i]? = some v :=
    fun hi => getElem?_concat_eq_some_iff.2 (.inl (h.ready hi))
  have hshown : ∀ {t : Ticket} {n : Nat}, (t, n) ∈ r.shown → n ≤ (r.written ++ [w]).length := by
    intro t n hmem
    rw [List.length_append]
    exact Nat.le_add_right_of_le (h.shown hmem)
  -- Only the reader whose turn it is can be given more than before.
  have hdelivered : ∀ {t : Ticket} {v : Word},
      (∃ i, r.requests[i]? = some (.pending t) ∧ (r.written ++ [w])[i]? = some v ∧ ¬ r.Shown t i) ↔
        (t, v) ∈ r.channel.delivered ∨
          (r.requests[r.written.length]? = some (.pending t) ∧ v = w) := by
    intro t v
    rw [h.delivered]
    constructor
    · rintro ⟨i, hi, hv, hnot⟩
      rcases getElem?_concat_eq_some_iff.1 hv with hv | ⟨rfl, rfl⟩
      · exact .inl ⟨i, hi, hv, hnot⟩
      · exact .inr ⟨hi, rfl⟩
    · rintro (⟨i, hi, hv, hnot⟩ | ⟨hi, rfl⟩)
      · exact ⟨i, hi, getElem?_concat_eq_some_iff.2 (.inl hv), hnot⟩
      · exact ⟨_, hi, List.getElem?_concat_length, h.not_shown t⟩
  cases hwaiting : r.channel.waiting with
  | nil =>
    have hle := h.requests_le_of_waiting hwaiting
    have hafter : r.after (.write w) = { r with
        channel := { r.channel with buffer := r.channel.buffer ++ [w] }
        written := r.written ++ [w] } := by
      simp only [after, write, hwaiting]
    rw [hafter]
    refine ⟨?_, ?_, hready, h.tickets, ?_, h.keys, hshown⟩
    · simp only [h.buffer, List.drop_append_of_le_length hle]
    · simp only [hwaiting, List.map_nil, List.drop_eq_nil_iff, List.length_append]
      exact Nat.le_add_right_of_le hle
    · intro t v
      refine Iff.trans ?_ hdelivered.symm
      simp only [List.getElem?_eq_none hle, reduceCtorEq, false_and, or_false]
  | cons t ts =>
    obtain ⟨hlt, hturn, hbuffer⟩ := h.written_lt hwaiting
    have hafter : r.after (.write w) = { r with
        channel := { r.channel with
          waiting := ts
          delivered := r.channel.delivered ++ [(t, w)] }
        written := r.written ++ [w] } := by
      simp only [after, write, hwaiting]
    have hdrop := h.waiting
    rw [hwaiting, List.map_cons, List.drop_eq_getElem_cons hlt] at hdrop
    rw [hafter]
    refine ⟨?_, ?_, hready, h.tickets, ?_, ?_, hshown⟩
    · simp only [hbuffer]
      rw [eq_comm, List.drop_eq_nil_iff, List.length_append, List.length_singleton]
      exact hlt
    · simp only [List.length_append, List.length_singleton]
      exact (List.cons.inj hdrop).2
    · intro s v
      refine Iff.trans ?_ hdelivered.symm
      simp only [List.mem_append, List.mem_singleton, hturn, Option.some.injEq,
        Reading.pending.injEq, Prod.mk.injEq, eq_comm (a := s)]
    · rw [List.map_append, List.map_singleton, List.nodup_append]
      refine ⟨h.keys, by simp, ?_⟩
      intro s hs s' hs' hsame
      obtain rfl := List.mem_singleton.1 hs'
      obtain ⟨e, he, hkey⟩ := List.mem_map.1 hs
      obtain ⟨i, hi, hv, -⟩ := h.delivered.1 (show (e.1, e.2) ∈ r.channel.delivered from he)
      rw [hkey, hsame] at hi
      have hilt := (List.getElem?_eq_some_iff.1 hv).1
      exact absurd (h.reader_inj hi hturn) (Nat.ne_of_lt hilt)

/-- A reader that finds a word gets the one of its turn. -/
theorem of_served {w : Word} {ws : List Word} (hbuffer : r.channel.buffer = w :: ws) :
    Balanced { r with
      channel := { r.channel with buffer := ws }
      requests := r.requests ++ [.ready w] } := by
  obtain ⟨hlt, hturn, hwaiting⟩ := h.requests_lt hbuffer
  have hdrop := h.buffer
  rw [hbuffer, List.drop_eq_getElem_cons hlt] at hdrop
  refine ⟨?_, ?_, ?_, ?_, ?_, h.keys, h.shown⟩
  · simp only [List.length_append, List.length_singleton]
    exact (List.cons.inj hdrop).2
  · simp only [hwaiting, List.map_nil, List.drop_eq_nil_iff, List.length_append,
      List.length_singleton]
    exact hlt
  · intro i v hv
    rcases getElem?_concat_eq_some_iff.1 hv with hold | ⟨rfl, hlast⟩
    · exact h.ready hold
    · cases hlast
      exact hturn
  · simp only [List.filterMap_append, h.tickets, List.filterMap_cons, Reading.ticket?,
      List.filterMap_nil, List.append_nil]
  · intro t v
    rw [h.delivered]
    simp only [getElem?_concat_eq_some_iff, reduceCtorEq, and_false, or_false]
    exact Iff.rfl

/-- A reader that finds no word leaves with the next ticket. -/
theorem after_read : Balanced (r.after .read) := by
  cases hbuffer : r.channel.buffer with
  | cons w ws =>
    have hafter : r.after .read = { r with
        channel := { r.channel with buffer := ws }
        requests := r.requests ++ [.ready w] } := by
      simp only [after, read, hbuffer]
    rw [hafter]
    exact h.of_served hbuffer
  | nil =>
    have hle := h.written_le_of_buffer hbuffer
    have hafter : r.after .read = { r with
        channel := { r.channel with
          waiting := r.channel.waiting ++ [r.channel.nextTicket]
          nextTicket := r.channel.nextTicket + 1 }
        requests := r.requests ++ [.pending r.channel.nextTicket] } := by
      simp only [after, read, hbuffer]
    rw [hafter]
    refine ⟨?_, ?_, ?_, ?_, ?_, h.keys, h.shown⟩
    · simp only [hbuffer]
      rw [eq_comm, List.drop_eq_nil_iff, List.length_append]
      exact Nat.le_add_right_of_le hle
    · rw [List.drop_append_of_le_length hle, h.waiting, List.map_append, List.map_singleton]
    · intro i v hv
      rcases getElem?_concat_eq_some_iff.1 hv with hold | ⟨-, hlast⟩
      · exact h.ready hold
      · cases hlast
    · rw [List.filterMap_append, h.tickets, List.range_succ]
      rfl
    · intro t v
      rw [h.delivered]
      constructor
      · rintro ⟨i, hi, hv, hnot⟩
        exact ⟨i, getElem?_concat_eq_some_iff.2 (.inl hi), hv, hnot⟩
      · rintro ⟨i, hi, hv, hnot⟩
        rcases getElem?_concat_eq_some_iff.1 hi with hi | ⟨rfl, -⟩
        · exact ⟨i, hi, hv, hnot⟩
        · -- The new reader has come before its word.
          rw [List.getElem?_eq_none hle] at hv
          cases hv

theorem after_take : Balanced (r.after .take) := by
  cases hbuffer : r.channel.buffer with
  | cons w ws =>
    have hafter : r.after .take = { r with
        channel := { r.channel with buffer := ws }
        requests := r.requests ++ [.ready w] } := by
      simp only [after, take, hbuffer, Option.map_some, Option.toList_some]
    rw [hafter]
    exact h.of_served hbuffer
  | nil =>
    have hafter : r.after .take = r := by
      simp only [after, take, hbuffer, Option.map_none, Option.toList_none, List.append_nil]
    rw [hafter]
    exact h

/-- A ticket that is shown is done with, if its word was there. -/
theorem after_collect (t : Ticket) : Balanced (r.after (.collect t)) := by
  obtain ⟨delivered, hchannel, hsublist⟩ := r.channel.collect_eq t
  have hmem : ∀ {s : Ticket} {v : Word},
      (s, v) ∈ delivered ↔ (s, v) ∈ r.channel.delivered ∧ s ≠ t := by
    intro s v
    have := mem_delivered_collect h.keys (t := t) (s := s) (v := v)
    rwa [hchannel] at this
  have hafter : r.after (.collect t) = { r with
      channel := { r.channel with delivered }
      shown := r.shown ++ [(t, r.written.length)] } := by
    simp only [after, hchannel]
  rw [hafter]
  refine ⟨h.buffer, h.waiting, h.ready, h.tickets, ?_, h.keys.sublist (hsublist.map _), ?_⟩
  · intro s v
    rw [hmem, h.delivered]
    simp only [Shown, List.mem_append, List.mem_singleton, Prod.mk.injEq]
    constructor
    · rintro ⟨⟨i, hi, hv, hnot⟩, hst⟩
      refine ⟨i, hi, hv, ?_⟩
      rintro ⟨n, hn | ⟨rfl, -⟩, hin⟩
      · exact hnot ⟨n, hn, hin⟩
      · exact hst rfl
    · rintro ⟨i, hi, hv, hnot⟩
      refine ⟨⟨i, hi, hv, ?_⟩, ?_⟩
      · rintro ⟨n, hn, hin⟩
        exact hnot ⟨n, .inl hn, hin⟩
      · rintro rfl
        exact hnot ⟨_, .inr ⟨rfl, rfl⟩, (List.getElem?_eq_some_iff.1 hv).1⟩
  · intro s n hn
    rcases List.mem_append.1 hn with hn | hn
    · exact h.shown hn
    · cases List.mem_singleton.1 hn
      exact Nat.le_refl _

theorem after (c : Call) : Balanced (r.after c) := by
  cases c with
  | write w => exact h.after_write w
  | read => exact h.after_read
  | collect t => exact h.after_collect t
  | take => exact h.after_take

/-- What a channel answers follows from what it holds. -/
theorem matched : Matched r where
  ready := h.ready
  pending {i t} hi := by
    have hanswer : ∀ {w : Word}, (r.channel.collect t).2 = some w ↔
        r.written[i]? = some w ∧ ¬ r.Shown t i := by
      intro w
      rw [h.collect_eq_some_iff]
      constructor
      · rintro ⟨j, hj, hw⟩
        obtain rfl := h.reader_inj hi hj
        exact hw
      · exact fun hw => ⟨i, hi, hw⟩
    constructor
    · intro hnot
      apply Option.ext
      intro w
      simp only [hanswer, hnot, not_false_eq_true, and_true]
    · intro hshown
      rw [Option.eq_none_iff_forall_ne_some]
      intro w hw
      exact (hanswer.1 hw).2 hshown
  unknown {t} ht := by
    rw [Option.eq_none_iff_forall_ne_some]
    intro w hw
    obtain ⟨i, hi, -⟩ := h.collect_eq_some_iff.1 hw
    exact ht (List.mem_of_getElem? hi)
  distinct := by
    rw [h.tickets]
    exact List.nodup_range
  kept {i w} hw := by
    rcases Nat.lt_or_ge i r.requests.length with hlt | hge
    · cases hreading : r.requests[i] with
      | ready v =>
        have hready := h.ready (List.getElem?_eq_some_iff.2 ⟨hlt, hreading⟩)
        cases hw.symm.trans hready
        exact .inl (List.getElem?_eq_some_iff.2 ⟨hlt, hreading⟩)
      | pending t => exact .inr (.inl ⟨t, List.getElem?_eq_some_iff.2 ⟨hlt, hreading⟩⟩)
    · refine .inr (.inr ⟨hge, ?_⟩)
      rw [h.buffer, List.getElem?_drop, Nat.add_sub_cancel' hge, hw]
  served {w} hw := by
    obtain ⟨ws, hbuffer⟩ : ∃ ws, r.channel.buffer = w :: ws := by
      obtain ⟨hlt, hget⟩ := List.getElem?_eq_some_iff.1 hw
      exact ⟨_, by rw [h.buffer, List.drop_eq_getElem_cons hlt, hget]⟩
    simp only [read, take, hbuffer, and_self]
  unserved hle := by
    have hbuffer : r.channel.buffer = [] := by rw [h.buffer, List.drop_eq_nil_iff.2 hle]
    simp only [read, take, hbuffer, and_true]
    exact ⟨_, rfl, fun hmem => Nat.lt_irrefl _ (h.ticket_lt hmem)⟩
  exclusive := by
    cases hwaiting : r.channel.waiting with
    | nil => exact .inr rfl
    | cons t ts => exact .inl (h.written_lt hwaiting).2.2
  buffer := h.buffer
  buffered := by rw [h.buffer, List.length_drop]
  waiting := by
    have hlength := congrArg List.length h.waiting
    rw [List.length_drop, List.length_map] at hlength
    rw [isWaiting, Bool.not_eq_true', List.isEmpty_eq_false_iff, ← List.length_pos_iff, ← hlength]
    omega

end Balanced

theorem balanced_ofCalls (cs : List Call) : Balanced (ofCalls cs) := by
  have hstart : Balanced {} := by
    refine ⟨rfl, rfl, ?_, rfl, ?_, List.nodup_nil, ?_⟩ <;> simp
  unfold ofCalls
  generalize ({} : Ledger) = r at hstart
  induction cs generalizing r with
  | nil => exact hstart
  | cons c cs ih => exact ih _ (hstart.after c)

/-- After any calls in any order, every word is with the reader of its turn or can only go there. -/
theorem matched_ofCalls (cs : List Call) : Matched (ofCalls cs) := (balanced_ofCalls cs).matched

end Ledger

end Channel

end Backstep
