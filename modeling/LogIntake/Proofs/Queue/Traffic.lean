import LogIntake.Proofs.Queue.Flow
import Mathlib.Data.List.Nodup
import Mathlib.Data.List.Perm.Basic
import Mathlib.Data.List.Range

/-!
# What has gone through a queue

Producers, the consumer and the clock act on a queue one after the other, in any order. The traffic of such a
run is what they know of it: which pushes have begun, which of them wait, how the others have ended, and what
the consumer has been handed. Traffic and queue agree after every run: what has been handed out and what the
queue still holds are the records of the pushes that have succeeded, in the order in which they did.
-/

namespace LogIntake

def Push.result? : Push → Option PushResult
  | .done result => some result
  | .waits _ => none

namespace Queue

/-! ## Operations -/

inductive Operation where
  | push (now : Instant) (record : Record)
  /-- The producer of a push that waits asks for its result. -/
  | resume (ticket : Nat)
  | expire (now : Instant)
  | addProducer
  | dropProducer
  | tryRecv
  | recv
  | drain (n : Nat)
  | recvBatch (n : Nat)
  | close
  deriving DecidableEq, Repr

def apply (q : Queue) : Operation → Queue
  | .push now r => (q.push now r).1
  | .resume ticket => (q.resume ticket).1
  | .expire now => q.expire now
  | .addProducer => q.addProducer
  | .dropProducer => q.dropProducer
  | .tryRecv => q.tryRecv.1
  | .recv => q.recv.1
  | .drain n => (q.drain n).1
  | .recvBatch n => (q.recvBatch n).1
  | .close => q.close

/-- The result of the push that ends with an operation, if one does. -/
def result? (q : Queue) : Operation → Option PushResult
  | .push now r => (q.push now r).2.result?
  | .resume ticket => (q.resume ticket).2
  | _ => none

/-- What an operation hands to the consumer. -/
def given (q : Queue) : Operation → List Record
  | .tryRecv => q.tryRecv.2.toList
  | .recv => polled Option.toList q.recv.2
  | .drain n => (q.drain n).2
  | .recvBatch n => polled id (q.recvBatch n).2
  | _ => []

/-! ## Traffic -/

structure Traffic where
  /-- The records of all pushes that have begun. The number of a push is its place among them. -/
  begun : List Record := []
  /-- The tickets of the pushes that have not ended, each with the number of its push. -/
  waiting : List (Nat × Nat) := []
  /-- The numbers of the pushes that have ended, with their results, in the order in which they did. -/
  ended : List (Nat × PushResult) := []
  /-- What the consumer has been handed. -/
  handed : List Record := []
  deriving DecidableEq, Repr

namespace Traffic

def recordOf? (begun : List Record) (p : Nat × PushResult) : Option Record :=
  if p.2 = .taken then begun[p.1]? else none

/-- The records whose pushes have succeeded, in the order in which they did. -/
def entered (t : Traffic) : List Record :=
  t.ended.filterMap (recordOf? t.begun)

def begin (t : Traffic) (r : Record) : Push → Traffic
  | .done result => { t with begun := t.begun ++ [r], ended := t.ended ++ [(t.begun.length, result)] }
  | .waits ticket => { t with begun := t.begun ++ [r], waiting := t.waiting ++ [(ticket, t.begun.length)] }

/-- The push that waits with a ticket ends. -/
def settle (t : Traffic) (ticket : Nat) (result : PushResult) : Traffic :=
  { t with
    waiting := t.waiting.filter (·.1 != ticket)
    ended := t.ended ++ (t.waiting.filter (·.1 == ticket)).map fun p => (p.2, result) }

/-- Takes note of an operation on a queue. -/
def note (t : Traffic) (q : Queue) : Operation → Traffic
  | .push now r => t.begin r (q.push now r).2
  | .resume ticket => (q.resume ticket).2.elim t (t.settle ticket)
  | op => { t with handed := t.handed ++ q.given op }

end Traffic

def perform (s : Queue × Traffic) (op : Operation) : Queue × Traffic :=
  (s.1.apply op, s.2.note s.1 op)

def run (s : Queue × Traffic) (ops : List Operation) : Queue × Traffic :=
  ops.foldl perform s

/-! ## Tickets -/

/-- The tickets of all pushes whose producers have not got a result yet. -/
def tickets (q : Queue) : List Nat :=
  q.pending.map (·.ticket) ++ q.failed.map (·.1)

variable {q q' : Queue} {t : Traffic}

theorem tickets_push_of_done {now : Instant} {r : Record} {result : PushResult}
    (h : q.push now r = (q', .done result)) : q'.tickets = q.tickets ∧ q'.nextTicket = q.nextTicket := by
  unfold push finish at h
  split at h
  · cases h
    exact ⟨rfl, rfl⟩
  · split at h
    · cases h
      exact ⟨rfl, rfl⟩
    · split at h
      · cases h
        exact ⟨rfl, rfl⟩
      · split at h
        · cases h
          exact ⟨rfl, rfl⟩
        · cases h

theorem tickets_push_of_waits {now : Instant} {r : Record} {ticket : Nat}
    (h : q.push now r = (q', .waits ticket)) :
    q'.tickets.Perm (q.tickets ++ [ticket]) ∧ ticket = q.nextTicket ∧ q'.nextTicket = q.nextTicket + 1 := by
  unfold push finish at h
  split at h
  · cases h
  · split at h
    · cases h
    · split at h
      · cases h
      · split at h
        · cases h
        · cases h
          refine ⟨?_, rfl, rfl⟩
          simp only [tickets, pending, List.map_append, List.map_cons, List.map_nil, List.append_assoc]
          exact (List.perm_append_comm.append_left _).append_left _

theorem filter_ne_of_not_mem {ns : List Nat} {n : Nat} (h : n ∉ ns) : ns.filter (· != n) = ns :=
  List.filter_eq_self.mpr fun _ hm => bne_iff_ne.mpr fun hmn => h (hmn ▸ hm)

theorem map_filter_ne {α : Type} (f : α → Nat) (as : List α) (n : Nat) :
    (as.filter (f · != n)).map f = (as.map f).filter (· != n) := by
  rw [List.filter_map]
  rfl

theorem tickets_resume {ticket : Nat} {result : PushResult} (hnodup : q.tickets.Nodup)
    (h : q.resume ticket = (q', some result)) :
    ticket ∈ q.tickets ∧ q'.tickets = q.tickets.filter (· != ticket) ∧ q'.nextTicket = q.nextTicket := by
  simp only [tickets, pending, List.map_append, List.append_assoc] at hnodup ⊢
  unfold resume at h
  split at h
  · next w hw =>
      cases h
      have hticket : w.ticket = ticket := by simpa using List.find?_some hw
      have hmem : ticket ∈ q.granted.map (·.ticket) := hticket ▸ List.mem_map_of_mem (List.mem_of_find?_eq_some hw)
      have hrest := fun hrest => (List.nodup_append.mp hnodup).2.2 ticket hmem ticket hrest rfl
      refine ⟨List.mem_append_left _ hmem, ?_, rfl⟩
      rw [List.filter_append, filter_ne_of_not_mem hrest, ← map_filter_ne]
      rfl
  · next hnone =>
      split at h
      · next e hlookup =>
          cases h
          have hgranted : ticket ∉ q.granted.map (·.ticket) := by
            intro hmem
            obtain ⟨w, hw, hticket⟩ := List.mem_map.mp hmem
            exact List.find?_eq_none.mp hnone w hw (beq_iff_eq.mpr hticket)
          have hmem : ticket ∈ q.failed.map (·.1) := by
            obtain ⟨before, after, hfailed, -⟩ := List.lookup_eq_some_iff.mp hlookup
            rw [hfailed, List.map_append]
            exact List.mem_append_right _ List.mem_cons_self
          have hwaiting : ticket ∉ q.waiting.map (·.ticket) := fun hw =>
            (List.nodup_append.mp (List.nodup_append.mp hnodup).2.1).2.2 ticket hw ticket hmem rfl
          refine ⟨List.mem_append_right _ (List.mem_append_right _ hmem), ?_, rfl⟩
          rw [List.filter_append, List.filter_append, filter_ne_of_not_mem hgranted, filter_ne_of_not_mem hwaiting,
            ← map_filter_ne]
          rfl
      · cases h

theorem perm_filter_append {α : Type} (f : α → Nat) (p : α → Bool) (as : List α) :
    ((as.filter (!p ·)).map f ++ (as.filter p).map f).Perm (as.map f) := by
  rw [← List.map_append]
  exact (List.perm_append_comm.trans (List.filter_append_perm p as)).map f

theorem tickets_expire (q : Queue) (now : Instant) : (q.expire now).tickets.Perm q.tickets := by
  simp only [tickets, pending, expire, List.map_append, List.map_map, List.append_assoc]
  refine List.Perm.append_left _ ((List.perm_append_comm.append_left _).trans ?_)
  rw [← List.append_assoc]
  exact (perm_filter_append (·.ticket) _ q.waiting).append_right _

theorem tickets_close (q : Queue) : q.close.tickets.Perm q.tickets := by
  simp only [tickets, pending, close, List.map_append, List.map_map, List.append_nil, List.nil_append, List.map_nil]
  exact List.perm_append_comm

theorem tickets_popped (q : Queue) (n : Nat) :
    (q.popped n).tickets = q.tickets ∧ (q.popped n).nextTicket = q.nextTicket := by
  unfold popped
  split
  · exact ⟨rfl, rfl⟩
  · simp only [tickets, pending_grant]
    exact ⟨rfl, rfl⟩

theorem tickets_drain (q : Queue) (n : Nat) :
    (q.drain n).1.tickets = q.tickets ∧ (q.drain n).1.nextTicket = q.nextTicket :=
  tickets_popped { q with buffered := q.buffered.drop n } _

theorem tickets_recv (q : Queue) : q.recv.1.tickets = q.tickets ∧ q.recv.1.nextTicket = q.nextTicket := by
  unfold recv
  split
  · exact ⟨rfl, rfl⟩
  · exact tickets_drain q 1

theorem tickets_recvBatch (q : Queue) (n : Nat) :
    (q.recvBatch n).1.tickets = q.tickets ∧ (q.recvBatch n).1.nextTicket = q.nextTicket := by
  unfold recvBatch
  split
  · exact ⟨rfl, rfl⟩
  · split
    · exact ⟨rfl, rfl⟩
    · exact tickets_drain q n

/-! ## Agreement -/

namespace Traffic

theorem entered_begin {begun : List Record} {ended : List (Nat × PushResult)} (h : ∀ p ∈ ended, p.1 < begun.length)
    (r : Record) : ended.filterMap (recordOf? (begun ++ [r])) = ended.filterMap (recordOf? begun) := by
  refine List.filterMap_congr fun p hp => ?_
  unfold recordOf?
  rw [List.getElem?_append_left (h p hp)]

end Traffic

/-- What is known of a queue is so: the records are where they belong, each push has ended or waits, and the
pushes that wait are the ones that the queue knows. -/
structure Agrees (q : Queue) (t : Traffic) : Prop where
  records : t.handed ++ q.buffered = t.entered
  numbers : (t.ended.map (·.1) ++ t.waiting.map (·.2)).Perm (List.range t.begun.length)
  waits : ∀ w ∈ q.pending, ∃ n, (w.ticket, n) ∈ t.waiting ∧ t.begun[n]? = some w.record
  tickets : (t.waiting.map (·.1)).Perm q.tickets
  nodup : q.tickets.Nodup
  fresh : ∀ ticket ∈ q.tickets, ticket < q.nextTicket
  owing : q.Owing

theorem owing_start (o : QueueOptions) : (start o).Owing :=
  ⟨fun hne => absurd rfl hne, fun _ hn => nomatch hn⟩

theorem agrees_start (o : QueueOptions) : (start o).Agrees {} := by
  refine ⟨rfl, .refl _, ?_, .refl _, List.nodup_nil, ?_, owing_start o⟩
  · intro w hw; cases hw
  · intro ticket ht; cases ht

theorem Agrees.lt_of_ended (h : q.Agrees t) (p : Nat × PushResult) (hp : p ∈ t.ended) : p.1 < t.begun.length :=
  List.mem_range.mp (h.numbers.subset (List.mem_append_left _ (List.mem_map_of_mem hp)))

theorem Agrees.nodup_ended (h : q.Agrees t) : (t.ended.map (·.1)).Nodup :=
  (List.nodup_append.mp (h.numbers.nodup_iff.mpr List.nodup_range)).1

theorem Agrees.length_entered (h : q.Agrees t) :
    t.entered.length = (t.ended.map (·.2)).count .taken := by
  unfold Traffic.entered
  have hrecord : ∀ p ∈ t.ended, (Traffic.recordOf? t.begun p).isSome = (p.2 == .taken) := by
    intro p hp
    have hlt := h.lt_of_ended p hp
    unfold Traffic.recordOf?
    split
    · next htaken => simp [hlt, htaken]
    · next hfailed => simp [hfailed]
  rw [List.length_filterMap_eq_countP, List.countP_congr fun p hp => by rw [hrecord p hp], List.count, List.countP_map]
  rfl

theorem mem_tickets_of_pending {w : Waiter} (hw : w ∈ q.pending) : w.ticket ∈ q.tickets :=
  List.mem_append_left _ (List.mem_map_of_mem hw)

/-- No push begins or ends. -/
theorem Agrees.of_flow {given : List Record} (h : q.Agrees t) (hflow : Flow q q' [] given)
    (htickets : q'.tickets.Perm q.tickets) (hnext : q'.nextTicket = q.nextTicket) :
    q'.Agrees { t with handed := t.handed ++ given } := by
  have hrecords := hflow.records
  rw [List.append_nil] at hrecords
  refine ⟨?_, h.numbers, fun w hw => ?_, h.tickets.trans htickets.symm, htickets.nodup_iff.mpr h.nodup,
    fun ticket ht => ?_, hflow.owing h.owing⟩
  · rw [List.append_assoc, ← hrecords]
    exact h.records
  · have hlt := h.fresh w.ticket (htickets.subset (mem_tickets_of_pending hw))
    exact h.waits w (hflow.mem_of_lt hw hlt)
  · rw [hnext]
    exact h.fresh ticket (htickets.subset ht)

theorem Agrees.waits_append (h : q.Agrees t) (r : Record) {w : Waiter} (hw : w ∈ q.pending) :
    ∃ n, (w.ticket, n) ∈ t.waiting ∧ (t.begun ++ [r])[n]? = some w.record := by
  obtain ⟨n, hn, hrecord⟩ := h.waits w hw
  refine ⟨n, hn, ?_⟩
  rw [List.getElem?_append_left (List.getElem?_eq_some_iff.mp hrecord).1]
  exact hrecord

/-- A push begins and ends at once. -/
theorem Agrees.begin_done (h : q.Agrees t) (r : Record) (result : PushResult)
    (hflow : Flow q q' (if result = .taken then [r] else []) []) (htickets : q'.tickets = q.tickets)
    (hnext : q'.nextTicket = q.nextTicket) : q'.Agrees (t.begin r (.done result)) := by
  have hrecords := hflow.records
  rw [List.nil_append] at hrecords
  refine ⟨?_, ?_, fun w hw => ?_, htickets ▸ h.tickets, htickets ▸ h.nodup, ?_, hflow.owing h.owing⟩
  · have hentered : (t.begin r (.done result)).entered = t.entered ++ if result = .taken then [r] else [] := by
      unfold Traffic.entered Traffic.begin
      simp only [List.filterMap_append]
      rw [Traffic.entered_begin h.lt_of_ended]
      cases result with
      | taken => simp [Traffic.recordOf?]
      | failed e => simp [Traffic.recordOf?]
    rw [hentered, ← hrecords, ← h.records]
    exact (List.append_assoc ..).symm
  · simp only [Traffic.begin, List.map_append, List.map_cons, List.map_nil, List.length_append, List.length_cons,
      List.length_nil, Nat.zero_add, List.range_succ, List.append_assoc]
    exact (List.perm_append_comm.append_left _).trans (List.append_assoc .. ▸ h.numbers.append_right _)
  · have hlt := h.fresh w.ticket (htickets ▸ mem_tickets_of_pending hw)
    exact h.waits_append r (hflow.mem_of_lt hw hlt)
  · rw [htickets, hnext]
    exact h.fresh

/-- A push begins and has to wait. -/
theorem Agrees.begin_waits (h : q.Agrees t) (r : Record) (hflow : Flow q q' [] [])
    (hpending : ∀ w ∈ q'.pending, w ∈ q.pending ∨ w.record = r)
    (htickets : q'.tickets.Perm (q.tickets ++ [q.nextTicket])) (hnext : q'.nextTicket = q.nextTicket + 1) :
    q'.Agrees (t.begin r (.waits q.nextTicket)) := by
  have hrecords := hflow.records
  rw [List.append_nil, List.nil_append] at hrecords
  have hold : ∀ w ∈ q.pending, ∃ n, (w.ticket, n) ∈ t.waiting ++ [(q.nextTicket, t.begun.length)] ∧
      (t.begun ++ [r])[n]? = some w.record := by
    intro w hw
    obtain ⟨n, hn, hrecord⟩ := h.waits_append r hw
    exact ⟨n, List.mem_append_left _ hn, hrecord⟩
  refine ⟨?_, ?_, fun w hw => ?_, ?_, ?_, fun ticket ht => ?_, hflow.owing h.owing⟩
  · unfold Traffic.entered Traffic.begin
    rw [Traffic.entered_begin h.lt_of_ended, ← hrecords]
    exact h.records
  · simp only [Traffic.begin, List.map_append, List.map_cons, List.map_nil, List.length_append, List.length_cons,
      List.length_nil, Nat.zero_add, List.range_succ]
    rw [← List.append_assoc]
    exact h.numbers.append_right _
  · rcases hflow.pending w hw with hw | ⟨hle, hlt⟩
    · exact hold w hw
    · rcases hpending w hw with hw | hrecord
      · exact hold w hw
      · refine ⟨t.begun.length, List.mem_append_right _ ?_, ?_⟩
        · rw [show w.ticket = q.nextTicket by omega]
          exact List.mem_singleton_self _
        · rw [hrecord]
          exact List.getElem?_concat_length
  · simp only [Traffic.begin, List.map_append, List.map_cons, List.map_nil]
    exact (h.tickets.append_right _).trans htickets.symm
  · refine htickets.nodup_iff.mpr (List.nodup_append.mpr ⟨h.nodup, List.nodup_singleton _, fun k hk n hn => ?_⟩)
    rw [List.mem_singleton.mp hn]
    exact Nat.ne_of_lt (h.fresh k hk)
  · rw [hnext]
    rcases List.mem_append.mp (htickets.subset ht) with hold | hnew
    · exact Nat.lt_succ_of_lt (h.fresh ticket hold)
    · rw [List.mem_singleton.mp hnew]
      exact Nat.lt_succ_self _

theorem Agrees.push (h : q.Agrees t) (now : Instant) (r : Record) :
    (q.push now r).1.Agrees (t.begin r (q.push now r).2) := by
  have hpushed := q.pushed_push now r
  cases hpush : q.push now r with
  | mk q' p =>
      rw [hpush] at hpushed
      cases hpushed with
      | taken hflow =>
          obtain ⟨htickets, hnext⟩ := tickets_push_of_done hpush
          exact h.begin_done r .taken hflow htickets hnext
      | failed e hflow =>
          obtain ⟨htickets, hnext⟩ := tickets_push_of_done hpush
          exact h.begin_done r (.failed e) hflow htickets hnext
      | waits hflow _ hpending =>
          obtain ⟨htickets, -, hnext⟩ := tickets_push_of_waits hpush
          exact h.begin_waits r hflow hpending htickets hnext

theorem filter_of_nodup {ps : List (Nat × Nat)} (h : (ps.map (·.1)).Nodup) {k n : Nat} (hmem : (k, n) ∈ ps) :
    ps.filter (·.1 == k) = [(k, n)] := by
  induction ps with
  | nil => cases hmem
  | cons p ps ih =>
      rw [List.map_cons, List.nodup_cons] at h
      rcases List.mem_cons.mp hmem with rfl | hmem
      · have hnone : ps.filter (·.1 == k) = [] := by
          refine List.filter_eq_nil_iff.mpr fun p hp hk => h.1 ?_
          exact List.mem_map.mpr ⟨p, hp, beq_iff_eq.mp hk⟩
        rw [List.filter_cons, if_pos (beq_self_eq_true k), hnone]
      · have hne : ¬ (p.1 == k) = true := by
          intro hk
          exact h.1 (beq_iff_eq.mp hk ▸ List.mem_map_of_mem hmem)
        rw [List.filter_cons, if_neg hne, ih h.2 hmem]

/-- A push that waits ends; exactly one push waits with its ticket. -/
theorem Agrees.settle (h : q.Agrees t) {ticket : Nat} {result : PushResult} {added : List Record}
    (hflow : Flow q q' added [])
    (hadded : ∀ n, (ticket, n) ∈ t.waiting → added = (Traffic.recordOf? t.begun (n, result)).toList)
    (hticket : ticket ∈ q.tickets) (htickets : q'.tickets = q.tickets.filter (· != ticket))
    (hnext : q'.nextTicket = q.nextTicket) : q'.Agrees (t.settle ticket result) := by
  have hrecords := hflow.records
  rw [List.nil_append] at hrecords
  obtain ⟨n, hn⟩ : ∃ n, (ticket, n) ∈ t.waiting := by
    obtain ⟨⟨k, n⟩, hn, rfl⟩ := List.mem_map.mp (h.tickets.symm.subset hticket)
    exact ⟨n, hn⟩
  have hone := filter_of_nodup (h.tickets.nodup_iff.mpr h.nodup) hn
  have hsub : ∀ k ∈ q'.tickets, k ∈ q.tickets ∧ k ≠ ticket := by
    intro k hk
    rw [htickets, List.mem_filter] at hk
    exact ⟨hk.1, bne_iff_ne.mp hk.2⟩
  refine ⟨?_, ?_, fun w hw => ?_, ?_, ?_, fun k hk => ?_, hflow.owing h.owing⟩
  · have hentered : (t.settle ticket result).entered = t.entered ++ added := by
      unfold Traffic.entered Traffic.settle
      simp only [List.filterMap_append, hone, hadded n hn]
      cases hr : Traffic.recordOf? t.begun (n, result) with
      | none => simp [hr]
      | some r => simp [hr]
    rw [hentered, ← hrecords, ← h.records]
    exact (List.append_assoc ..).symm
  · simp only [Traffic.settle, List.map_append, List.map_map, List.append_assoc]
    refine List.Perm.trans (List.Perm.append_left _ ?_) h.numbers
    exact List.perm_append_comm.trans (perm_filter_append (·.2) (·.1 == ticket) t.waiting)
  · obtain ⟨hmem, hne⟩ := hsub w.ticket (mem_tickets_of_pending hw)
    obtain ⟨n, hn, hrecord⟩ := h.waits w (hflow.mem_of_lt hw (h.fresh w.ticket hmem))
    exact ⟨n, List.mem_filter.mpr ⟨hn, bne_iff_ne.mpr hne⟩, hrecord⟩
  · rw [htickets]
    exact map_filter_ne _ t.waiting ticket ▸ h.tickets.filter _
  · rw [htickets]
    exact h.nodup.filter _
  · rw [hnext]
    exact h.fresh k (hsub k hk).1

theorem Agrees.resume (h : q.Agrees t) (ticket : Nat) :
    (q.resume ticket).1.Agrees ((q.resume ticket).2.elim t (t.settle ticket)) := by
  have hresumed := q.resumed_resume ticket
  cases hresume : q.resume ticket with
  | mk q' result? =>
      rw [hresume] at hresumed
      cases hresumed with
      | taken w hw hticket hflow =>
          obtain ⟨hmem, htickets, hnext⟩ := tickets_resume h.nodup hresume
          refine h.settle hflow (fun n hn => ?_) hmem htickets hnext
          obtain ⟨m, hm, hrecord⟩ := h.waits w hw
          rw [hticket] at hm
          obtain rfl : m = n := congrArg Prod.snd
            (List.inj_on_of_nodup_map (h.tickets.nodup_iff.mpr h.nodup) hm hn rfl)
          simp [Traffic.recordOf?, hrecord]
      | failed e hflow =>
          obtain ⟨hmem, htickets, hnext⟩ := tickets_resume h.nodup hresume
          exact h.settle hflow (fun _ _ => rfl) hmem htickets hnext
      | waits => exact h

theorem Agrees.perform (h : q.Agrees t) (op : Operation) :
    (Queue.perform (q, t) op).1.Agrees (Queue.perform (q, t) op).2 := by
  cases op with
  | push now r => exact h.push now r
  | resume ticket => exact h.resume ticket
  | expire now => exact h.of_flow (q.flow_expire now) (q.tickets_expire now) rfl
  | addProducer => exact h.of_flow q.flow_addProducer (.refl _) rfl
  | dropProducer => exact h.of_flow q.flow_dropProducer (.refl _) rfl
  | tryRecv => exact h.of_flow q.flow_tryRecv (.of_eq (q.tickets_drain 1).1) (q.tickets_drain 1).2
  | recv => exact h.of_flow q.flow_recv (.of_eq q.tickets_recv.1) q.tickets_recv.2
  | drain n => exact h.of_flow (q.flow_drain n) (.of_eq (q.tickets_drain n).1) (q.tickets_drain n).2
  | recvBatch n => exact h.of_flow (q.flow_recvBatch n) (.of_eq (q.tickets_recvBatch n).1) (q.tickets_recvBatch n).2
  | close => exact h.of_flow q.flow_close q.tickets_close rfl

theorem Agrees.run (h : q.Agrees t) (ops : List Operation) :
    (Queue.run (q, t) ops).1.Agrees (Queue.run (q, t) ops).2 := by
  induction ops generalizing q t with
  | nil => exact h
  | cons op ops ih => exact ih (h.perform op)

/-! ## Runs -/

theorem ended_perform (s : Queue × Traffic) (op : Operation) : s.2.ended <+: (perform s op).2.ended := by
  cases op with
  | push now r =>
      show s.2.ended <+: (s.2.begin r (s.1.push now r).2).ended
      cases (s.1.push now r).2 with
      | done result => exact List.prefix_append ..
      | waits ticket => exact List.prefix_refl _
  | resume ticket =>
      show s.2.ended <+: ((s.1.resume ticket).2.elim s.2 (s.2.settle ticket)).ended
      cases (s.1.resume ticket).2 with
      | none => exact List.prefix_refl _
      | some result => exact List.prefix_append ..
  | _ => exact List.prefix_refl _

theorem ended_run (s : Queue × Traffic) (ops : List Operation) : s.2.ended <+: (run s ops).2.ended := by
  induction ops generalizing s with
  | nil => exact List.prefix_refl _
  | cons op ops ih => exact (ended_perform s op).trans (ih _)

/-- A push ends once: if it has failed it does not succeed. -/
theorem Agrees.not_taken (h : q.Agrees t) {n : Nat} {e : PushError} (hn : (n, .failed e) ∈ t.ended) :
    (n, .taken) ∉ t.ended := by
  intro htaken
  have hsame := List.inj_on_of_nodup_map h.nodup_ended hn htaken rfl
  cases hsame

/-! ## Operations of others -/

theorem flow_apply (q : Queue) (op : Operation) : ∃ taken, q.Flow (q.apply op) taken (q.given op) := by
  cases op with
  | push now r =>
      show ∃ taken, q.Flow (q.push now r).1 taken []
      have hpushed := q.pushed_push now r
      generalize q.push now r = result at *
      cases hpushed with
      | taken hflow => exact ⟨_, hflow⟩
      | failed e hflow => exact ⟨_, hflow⟩
      | waits hflow => exact ⟨_, hflow⟩
  | resume ticket =>
      show ∃ taken, q.Flow (q.resume ticket).1 taken []
      have hresumed := q.resumed_resume ticket
      generalize q.resume ticket = result at *
      cases hresumed with
      | taken w _ _ hflow => exact ⟨_, hflow⟩
      | failed e hflow => exact ⟨_, hflow⟩
      | waits => exact ⟨_, .refl q⟩
  | expire now => exact ⟨_, q.flow_expire now⟩
  | addProducer => exact ⟨_, q.flow_addProducer⟩
  | dropProducer => exact ⟨_, q.flow_dropProducer⟩
  | tryRecv => exact ⟨_, q.flow_tryRecv⟩
  | recv => exact ⟨_, q.flow_recv⟩
  | drain n => exact ⟨_, q.flow_drain n⟩
  | recvBatch n => exact ⟨_, q.flow_recvBatch n⟩
  | close => exact ⟨_, q.flow_close⟩

/-- A queue to which pushes have come as they should: with tickets of their own. -/
def Regular (q : Queue) : Prop :=
  ∃ t, q.Agrees t

theorem regular_start (o : QueueOptions) : (start o).Regular :=
  ⟨{}, agrees_start o⟩

theorem Regular.apply (h : q.Regular) (op : Operation) : (q.apply op).Regular := by
  obtain ⟨t, hagrees⟩ := h
  exact ⟨_, hagrees.perform op⟩

theorem Regular.abandon (h : q.Regular) : q.abandon.Regular := by
  obtain ⟨t, hagrees⟩ := h
  exact ⟨_, hagrees.of_flow q.flow_abandon (tickets_close { q with buffered := [] }) rfl⟩

theorem Regular.owing (h : q.Regular) : q.Owing := by
  obtain ⟨t, hagrees⟩ := h
  exact hagrees.owing

theorem Regular.ticketed (h : q.Regular) : q.Ticketed := by
  obtain ⟨t, hagrees⟩ := h
  exact fun w hw => hagrees.fresh w.ticket (mem_tickets_of_pending hw)

/-- A push keeps its ticket until its producer asks for the result. -/
theorem Regular.mem_tickets_apply (h : q.Regular) {ticket : Nat} {op : Operation} (hne : op ≠ .resume ticket)
    (hticket : ticket ∈ q.tickets) : ticket ∈ (q.apply op).tickets := by
  obtain ⟨t, hagrees⟩ := h
  cases op with
  | push now r =>
      cases hpush : q.push now r with
      | mk q' p =>
          have happly : q.apply (.push now r) = q' := congrArg Prod.fst hpush
          rw [happly]
          cases p with
          | done result =>
              rw [(tickets_push_of_done hpush).1]
              exact hticket
          | waits new => exact (tickets_push_of_waits hpush).1.symm.subset (List.mem_append_left _ hticket)
  | resume other =>
      cases hresume : q.resume other with
      | mk q' result? =>
          have happly : q.apply (.resume other) = q' := congrArg Prod.fst hresume
          rw [happly]
          cases result? with
          | none =>
              have hresumed := q.resumed_resume other
              rw [hresume] at hresumed
              cases hresumed
              exact hticket
          | some result =>
              rw [(tickets_resume hagrees.nodup hresume).2.1]
              refine List.mem_filter.mpr ⟨hticket, bne_iff_ne.mpr fun hsame => hne ?_⟩
              rw [hsame]
  | expire now => exact (q.tickets_expire now).symm.subset hticket
  | close => exact q.tickets_close.symm.subset hticket
  | addProducer => exact hticket
  | dropProducer => exact hticket
  | tryRecv => exact (q.tickets_drain 1).1 ▸ hticket
  | recv => exact q.tickets_recv.1 ▸ hticket
  | drain n => exact (q.tickets_drain n).1 ▸ hticket
  | recvBatch n => exact (q.tickets_recvBatch n).1 ▸ hticket

/-! ## Conservation -/

/-- What the consumer has been handed and what the queue still holds are the records whose pushes have
succeeded, in the order in which they came in. Each push that has begun has ended once or waits, and one that has
failed never succeeds. -/
theorem handed_append_buffered (o : QueueOptions) (ops : List Operation) :
    let s := run (start o, {}) ops
    s.2.handed ++ s.1.buffered = s.2.entered ∧
      (s.2.ended.map (·.1) ++ s.2.waiting.map (·.2)).Perm (List.range s.2.begun.length) ∧
      (∀ ticket, ticket ∈ s.1.tickets ↔ ∃ n, (ticket, n) ∈ s.2.waiting) ∧
      ∀ n e, (n, .failed e) ∈ s.2.ended → ∀ more, (n, .taken) ∉ (run s more).2.ended := by
  intro s
  have h : s.1.Agrees s.2 := (agrees_start o).run ops
  refine ⟨h.records, h.numbers, fun ticket => ?_, fun n e hn more => ?_⟩
  · rw [← h.tickets.mem_iff]
    simp
  · exact (h.run more).not_taken ((ended_run s more).subset hn)

end Queue

end LogIntake
