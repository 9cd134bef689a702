import LogIntake.Proofs.Queue.Traffic

/-!
# Pushes that wait

Pushes wait only for a place in a full queue, and none of them longer than the timeout. `Punctual` says so of a
queue at a point of time: whatever is done to the queue then leaves it so, and so does time that passes. Meanwhile
those who wait keep their tickets (`Orderly`).
-/

namespace LogIntake.Queue

/-- The pushes that wait do so at a full queue, and their time is not up. -/
structure Punctual (o : QueueOptions) (now : Instant) (q : Queue) : Prop where
  pushTimeout : q.pushTimeout = o.pushTimeout
  backpressure : q.backpressure = o.backpressure
  full : q.waiting ≠ [] → q.isFull = true
  early : ∀ v ∈ q.waiting, now.nanos < v.deadline.nanos
  due : ∀ v ∈ q.pending, v.deadline.nanos ≤ now.nanos + o.pushTimeout.nanos
  waits : q.waiting ≠ [] → o.backpressure = .wait

variable {o : QueueOptions} {now t : Instant} {q q' : Queue}

theorem punctual_of_nil (htimeout : q.pushTimeout = o.pushTimeout) (hback : q.backpressure = o.backpressure)
    (hwaiting : q.waiting = []) (hdue : ∀ v ∈ q.granted, v.deadline.nanos ≤ now.nanos + o.pushTimeout.nanos) :
    q.Punctual o now := by
  refine ⟨htimeout, hback, ?_, ?_, ?_, ?_⟩
  · simp [hwaiting]
  · simp [hwaiting]
  · rw [pending, hwaiting, List.append_nil]
    exact hdue
  · simp [hwaiting]

/-- What waits is as before, and so is the number of places taken. -/
theorem Punctual.of_eq (h : q.Punctual o now) (htimeout : q'.pushTimeout = q.pushTimeout)
    (hback : q'.backpressure = q.backpressure) (hcapacity : q'.capacity = q.capacity)
    (hwaiting : q'.waiting = q.waiting) (hoccupied : q'.occupied = q.occupied)
    (hgranted : ∀ v ∈ q'.granted, v ∈ q.granted) : q'.Punctual o now := by
  refine ⟨htimeout.trans h.pushTimeout, hback.trans h.backpressure, ?_, ?_, fun v hv => h.due v ?_, ?_⟩
  · rw [isFull, hwaiting, hcapacity, hoccupied]
    exact h.full
  · rw [hwaiting]
    exact h.early
  · rw [pending, hwaiting] at hv
    exact List.mem_append.mpr ((List.mem_append.mp hv).imp_left (hgranted v))
  · rw [hwaiting]
    exact h.waits

theorem Punctual.report (h : q.Punctual o now) (result : PushResult) : (q.report result).Punctual o now := by
  cases result with
  | taken => exact h.of_eq rfl rfl rfl rfl rfl fun _ => id
  | failed e => exact h.of_eq rfl rfl rfl rfl rfl fun _ => id

/-! ## Operations -/

theorem Punctual.push (h : q.Punctual o now) (r : Record) : (q.push now r).1.Punctual o now := by
  unfold Queue.push finish
  split
  · exact h.report _
  · split
    · next hroom =>
        -- Nobody waits for a place as long as there is one.
        have hnobody : q.waiting = [] := by
          by_contra hne
          simp [h.full hne] at hroom
        have htaken : (q.take r).Punctual o now :=
          punctual_of_nil h.pushTimeout h.backpressure hnobody fun v hv => h.due v (List.mem_append_left _ hv)
        exact htaken.report _
    · next hfull =>
        split
        · exact h.report _
        · next hwait =>
            split
            · exact h.report _
            · next htimeout =>
                have hpositive : 0 < o.pushTimeout.nanos := by
                  rw [← h.pushTimeout]
                  simp only [Duration.isZero, beq_iff_eq] at htimeout
                  omega
                have hisfull : q.isFull = true := by simpa using hfull
                have hdeadline : (now.plus q.pushTimeout).nanos = now.nanos + o.pushTimeout.nanos := by
                  rw [h.pushTimeout]
                  rfl
                refine ⟨h.pushTimeout, h.backpressure, fun _ => hisfull, fun v hv => ?_, fun v hv => ?_,
                  fun _ => h.backpressure.symm.trans hwait⟩
                · rcases List.mem_append.mp hv with hold | hnew
                  · exact h.early v hold
                  · obtain rfl := List.mem_singleton.mp hnew
                    simp only [hdeadline]
                    omega
                · rw [pending, ← List.append_assoc] at hv
                  rcases List.mem_append.mp hv with hold | hnew
                  · exact h.due v hold
                  · obtain rfl := List.mem_singleton.mp hnew
                    exact hdeadline.le

theorem Regular.nodup (h : q.Regular) : q.tickets.Nodup := by
  obtain ⟨t, hagrees⟩ := h
  exact hagrees.nodup

/-- One place is granted to each push. -/
theorem Regular.length_granted (h : q.Regular) {ticket : Nat} {w : Waiter}
    (hw : q.granted.find? (·.ticket == ticket) = some w) :
    (q.granted.filter (·.ticket != ticket)).length + 1 = q.granted.length := by
  have hticket : w.ticket = ticket := by simpa using List.find?_some hw
  have hmem : ticket ∈ q.granted.map (·.ticket) := hticket ▸ List.mem_map_of_mem (List.mem_of_find?_eq_some hw)
  have hnodup : (q.granted.map (·.ticket)).Nodup := by
    have htickets := h.nodup
    rw [tickets, pending, List.map_append, List.append_assoc] at htickets
    exact (List.nodup_append.mp htickets).1
  have hperm := List.perm_cons_erase hmem
  rw [hnodup.erase_eq_filter, ← map_filter_ne] at hperm
  simpa using hperm.length_eq.symm

/-- A record takes the place that has been granted to it, and leaves the queue as full as it was. -/
theorem Punctual.resume (h : q.Punctual o now) (hregular : q.Regular) (ticket : Nat) :
    (q.resume ticket).1.Punctual o now := by
  unfold Queue.resume
  split
  · next w hw =>
      have hlength := hregular.length_granted hw
      have hserved : (take { q with granted := q.granted.filter (·.ticket != ticket) } w.record).Punctual o now := by
        refine h.of_eq rfl rfl rfl rfl ?_ fun v hv => (List.mem_filter.mp hv).1
        simp only [occupied, take, List.length_append, List.length_singleton]
        omega
      exact hserved.report .taken
  · split
    · next e _ =>
        refine Punctual.report ?_ (.failed e)
        refine ⟨h.pushTimeout, h.backpressure, fun hne => ?_, h.early, h.due, h.waits⟩
        have hnone := hregular.owing.outstanding hne
        simpa [isFull, occupied, hnone] using h.full hne
    · exact h

/-- What still waits when the clock has run on has time left. -/
theorem Punctual.expire (h : q.Punctual o now) (hle : now.nanos ≤ t.nanos) : (q.expire t).Punctual o t := by
  have hkept {v : Waiter} (hv : v ∈ (q.expire t).waiting) : v ∈ q.waiting ∧ t.nanos < v.deadline.nanos := by
    simpa [Queue.expire] using hv
  have hsome (hne : (q.expire t).waiting ≠ []) : q.waiting ≠ [] := by
    obtain ⟨v, hv⟩ := List.exists_mem_of_ne_nil _ hne
    exact List.ne_nil_of_mem (hkept hv).1
  refine ⟨h.pushTimeout, h.backpressure, fun hne => h.full (hsome hne), fun v hv => (hkept hv).2, fun v hv => ?_,
    fun hne => h.waits (hsome hne)⟩
  have hpending : v ∈ q.pending :=
    List.mem_append.mpr ((List.mem_append.mp hv).imp_right fun hwaiting => (hkept hwaiting).1)
  exact Nat.le_trans (h.due v hpending) (Nat.add_le_add_right hle _)

theorem isFull_grant (h : q.grant.waiting ≠ []) : q.grant.isFull = true := by
  have hlength : q.capacity - q.occupied < q.waiting.length := by
    by_contra hle
    exact h (List.drop_eq_nil_of_le (Nat.not_lt.mp hle))
  have htaken : (q.waiting.take (q.capacity - q.occupied)).length = q.capacity - q.occupied :=
    List.length_take_of_le hlength.le
  simp only [occupied] at htaken
  simp only [isFull, occupied, Queue.grant, List.length_append, htaken, decide_eq_true_eq]
  omega

/-- A place that becomes free is granted at once. -/
theorem Punctual.grant (htimeout : q.pushTimeout = o.pushTimeout) (hback : q.backpressure = o.backpressure)
    (hearly : ∀ v ∈ q.waiting, now.nanos < v.deadline.nanos)
    (hdue : ∀ v ∈ q.pending, v.deadline.nanos ≤ now.nanos + o.pushTimeout.nanos)
    (hwaits : q.waiting ≠ [] → o.backpressure = .wait) : q.grant.Punctual o now := by
  have hkept {v : Waiter} (hv : v ∈ q.grant.waiting) : v ∈ q.waiting := List.mem_of_mem_drop hv
  refine ⟨htimeout, hback, isFull_grant, fun v hv => hearly v (hkept hv), ?_, fun hne => ?_⟩
  · rw [pending_grant]
    exact hdue
  · obtain ⟨v, hv⟩ := List.exists_mem_of_ne_nil _ hne
    exact hwaits (List.ne_nil_of_mem (hkept hv))

theorem Punctual.drain (h : q.Punctual o now) (n : Nat) : (q.drain n).1.Punctual o now := by
  show (popped { q with buffered := q.buffered.drop n } (q.buffered.take n).length).Punctual o now
  unfold popped
  split
  · next hnone =>
      refine h.of_eq rfl rfl rfl rfl ?_ fun _ => id
      simp only [occupied, List.length_drop]
      simp only [List.length_take] at hnone
      omega
  · exact .grant h.pushTimeout h.backpressure h.early h.due h.waits

theorem Punctual.recv (h : q.Punctual o now) : q.recv.1.Punctual o now := by
  unfold Queue.recv
  split
  · exact h
  · exact h.drain 1

theorem Punctual.recvBatch (h : q.Punctual o now) (n : Nat) : (q.recvBatch n).1.Punctual o now := by
  unfold Queue.recvBatch
  split
  · exact h
  · split
    · exact h
    · exact h.drain n

/-- Whether users of a queue can do something to it at a point of time. Time passes of itself. -/
def Operation.isAt (now : Instant) : Operation → Bool
  | .push t _ => t = now
  | .expire _ => false
  | _ => true

theorem Punctual.apply (h : q.Punctual o now) (hregular : q.Regular) {op : Operation} (hat : op.isAt now = true) :
    (q.apply op).Punctual o now := by
  cases op with
  | push t r =>
      obtain rfl : t = now := by simpa [Operation.isAt] using hat
      exact h.push r
  | resume ticket => exact h.resume hregular ticket
  | expire t => cases hat
  | addProducer => exact h.of_eq rfl rfl rfl rfl rfl fun _ => id
  | dropProducer => exact h.of_eq rfl rfl rfl rfl rfl fun _ => id
  | tryRecv => exact h.drain 1
  | recv => exact h.recv
  | drain n => exact h.drain n
  | recvBatch n => exact h.recvBatch n
  | close => exact punctual_of_nil h.pushTimeout h.backpressure rfl fun _ hv => nomatch hv

/-! ## Tickets in hand -/

theorem Regular.lt_of_mem_tickets (h : q.Regular) {n : Nat} (hn : n ∈ q.tickets) : n < q.nextTicket := by
  obtain ⟨t, hagrees⟩ := h
  exact hagrees.fresh n hn

/-- A queue at a point of time, whose users have these tickets in hand: each of them can ask for the result of a push
of its own. -/
structure Orderly (o : QueueOptions) (now : Instant) (ns : List Nat) (q : Queue) : Prop where
  regular : q.Regular
  punctual : q.Punctual o now
  nodup : ns.Nodup
  known : ∀ n ∈ ns, n ∈ q.tickets

variable {ns ms : List Nat} {n : Nat}

theorem orderly_start (o : QueueOptions) (now : Instant) : (start o).Orderly o now [] :=
  ⟨regular_start o, punctual_of_nil rfl rfl rfl (fun _ hv => nomatch hv), List.nodup_nil, fun _ hn => nomatch hn⟩

theorem Orderly.perm (h : q.Orderly o now ns) (hperm : ms.Perm ns) : q.Orderly o now ms :=
  ⟨h.regular, h.punctual, hperm.nodup_iff.mpr h.nodup, fun n hn => h.known n (hperm.subset hn)⟩

theorem Orderly.sublist (h : q.Orderly o now ns) (hsub : ms.Sublist ns) : q.Orderly o now ms :=
  ⟨h.regular, h.punctual, h.nodup.sublist hsub, fun n hn => h.known n (hsub.subset hn)⟩

/-- A ticket in hand is older than any push that is still to come. -/
theorem Orderly.lt_nextTicket (h : q.Orderly o now ns) (hn : n ∈ ns) : n < q.nextTicket :=
  h.regular.lt_of_mem_tickets (h.known n hn)

theorem Orderly.apply (h : q.Orderly o now ns) (op : Operation) (hat : op.isAt now = true)
    (hothers : ∀ n ∈ ns, op ≠ .resume n) : (q.apply op).Orderly o now ns :=
  ⟨h.regular.apply op, h.punctual.apply h.regular hat, h.nodup,
    fun n hn => h.regular.mem_tickets_apply (hothers n hn) (h.known n hn)⟩

theorem Orderly.expire (h : q.Orderly o now ns) (hle : now.nanos ≤ t.nanos) : (q.expire t).Orderly o t ns :=
  ⟨h.regular.apply (.expire t), h.punctual.expire hle, h.nodup,
    fun n hn => (q.tickets_expire t).symm.subset (h.known n hn)⟩

theorem Orderly.abandon (h : q.Orderly o now ns) : q.abandon.Orderly o now ns :=
  have hpunctual : q.abandon.Punctual o now :=
    punctual_of_nil h.punctual.pushTimeout h.punctual.backpressure rfl fun _ hv => nomatch hv
  ⟨h.regular.abandon, hpunctual, h.nodup,
    fun n hn => (tickets_close { q with buffered := [] }).symm.subset (h.known n hn)⟩

/-- A push that has to wait gets a ticket that nobody has. -/
theorem Orderly.push_waits (h : q.Orderly o now ns) {r : Record} (hpush : q.push now r = (q', .waits n)) :
    q'.Orderly o now (n :: ns) := by
  have hpushed : q'.Orderly o now ns := by
    have happly : q.apply (.push now r) = q' := congrArg Prod.fst hpush
    rw [← happly]
    exact h.apply _ (by simp [Operation.isAt]) fun _ _ => Operation.noConfusion
  obtain ⟨hperm, rfl, -⟩ := tickets_push_of_waits hpush
  refine ⟨hpushed.regular, hpushed.punctual, List.nodup_cons.mpr ⟨fun hn => ?_, h.nodup⟩, fun m hm => ?_⟩
  · exact Nat.lt_irrefl _ (h.lt_nextTicket hn)
  · rcases List.mem_cons.mp hm with rfl | hm
    · exact hperm.symm.subset (List.mem_append_right _ (List.mem_singleton_self _))
    · exact hpushed.known m hm

/-- With the result of a push its ticket is given up. -/
theorem Orderly.resume (h : q.Orderly o now (n :: ns)) : (q.resume n).1.Orderly o now ns := by
  refine (h.sublist (List.sublist_cons_self n ns)).apply (.resume n) rfl fun m hm hsame => ?_
  obtain rfl := Operation.resume.inj hsame
  exact (List.nodup_cons.mp h.nodup).1 hm

end LogIntake.Queue
