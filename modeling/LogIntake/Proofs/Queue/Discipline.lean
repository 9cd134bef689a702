import LogIntake.Proofs.Queue.Watch

/-!
# The discipline of waiting

Where pushes wait (`Patient`), they wait only for a place in a full queue, and are served first come, first served.
Each of them returns when its timeout is over at the latest, and gives up only then and only if all places went to
others before it. Where they do not (`Impatient`), a push is told that the queue is full if it is. Whatever is done to
a queue and whatever time passes, it keeps this discipline (`waiting_discipline`).
-/

namespace LogIntake.Queue

namespace Watch

/-- A push has begun to wait and has not returned. -/
def Waits (s : Watch) (n : Nat) : Prop :=
  n ∈ begun s.log ∧ ∀ t result, (t, .returns n result) ∉ s.log

/-- A move of the clock or of a push that waits. -/
def Move.isIdle : Move → Bool
  | .poll _ => true
  | .elapse _ => true
  | _ => false

structure Patient (o : QueueOptions) (s : Watch) : Prop where
  /-- When nothing can go on, pushes wait only for an open queue that is full. -/
  full : s.rests = true → ∀ n, s.Waits n →
    s.queue.closed = false ∧ s.queue.buffered.length = max 1 o.capacity
  /-- Tickets are given out in order, and so are places to those who have them. -/
  ordered : (begun s.log).Pairwise (· < ·) ∧ (admitted s.log ++ s.queue.waiting.map Waiter.ticket).Pairwise (· < ·)
  /-- Nobody gets a place at once while others wait for one. -/
  newcomers : ∀ r, (s.queue.push s.now r).2 = .done .taken → s.queue.waiting = []
  admitted : ∀ u n, (u, .returns n .taken) ∈ s.log → n ∈ admitted s.log
  early : ∀ t n, (t, .waits n) ∈ s.log → ∀ u result, (u, .returns n result) ∈ s.log →
    u.nanos ≤ t.nanos + o.pushTimeout.nanos
  due : ∀ t n, (t, .waits n) ∈ s.log → t.nanos + o.pushTimeout.nanos < s.now.nanos →
    ∃ u result, (u, .returns n result) ∈ s.log
  /-- A push returns even if nobody else does anything. -/
  returns : ∀ n ∈ begun s.log, ∃ ms, (∀ m ∈ ms, m.isIdle = true) ∧ ∃ u result, (u, .returns n result) ∈ (s.run ms).log
  timedOut : ∀ before between after t u n waited,
    s.log = before ++ (t, .waits n) :: between ++ (u, .returns n (.failed (.timedOut waited))) :: after →
    u = t.plus o.pushTimeout ∧ Served n between
  /-- A push gives up at once only if it may not wait at all. -/
  atOnce : ∀ t waited, (t, .ends (.failed (.timedOut waited))) ∈ s.log → o.pushTimeout.isZero = true
  neverFull : ∀ t capacity, (t, .ends (.failed (.full capacity))) ∉ s.log ∧
    ∀ n, (t, .returns n (.failed (.full capacity))) ∉ s.log

structure Impatient (o : QueueOptions) (s : Watch) : Prop where
  nobody : begun s.log = [] ∧ s.queue.tickets = []
  full : s.queue.closed = false → ∀ r,
    (∃ capacity, (s.queue.push s.now r).2 = .done (.failed (.full capacity))) ↔
      s.queue.buffered.length = max 1 o.capacity

variable {o : QueueOptions} {s : Watch} {n : Nat} {t u : Instant}

/-! ## Places -/

theorem Watched.mem_tickets (h : s.Watched o) (hn : s.Waits n) : n ∈ s.queue.tickets := by
  rcases h.logged.kept n hn.1 with hin | ⟨t, result, hreturned⟩
  · exact hin
  · exact absurd hreturned (hn.2 t result)

theorem Watched.waits_iff (h : s.Watched o) : s.Waits n ↔ n ∈ s.queue.tickets := by
  refine ⟨h.mem_tickets, fun hn => ⟨?_, h.untold n hn⟩⟩
  rcases s.queue.line.mem_tickets_iff.mp hn with ⟨w, hw, rfl⟩ | ⟨e, he⟩
  · exact (h.logged.pending w hw).1
  · exact (h.logged.failed n e he).2.begun

theorem Watched.full_at_rest (h : s.Watched o) (hrests : s.rests = true) (hn : s.Waits n) :
    s.queue.closed = false ∧ s.queue.buffered.length = max 1 o.capacity := by
  have hin := h.mem_tickets hn
  obtain ⟨hgranted, hfailed, -⟩ := rests_iff.mp hrests
  have hwaiting : s.queue.waiting ≠ [] := by
    intro hnil
    simp [tickets, pending, hgranted, hfailed, hnil] at hin
  constructor
  · by_contra hclosed
    have hshut := h.allotted.shut (by simpa using hclosed)
    exact hwaiting (List.append_eq_nil_iff.mp hshut).2
  · have hfull : s.queue.capacity ≤ s.queue.occupied := by
      simpa [isFull] using h.allotted.full hwaiting
    have hbounded := h.allotted.bounded
    rw [h.regular.owing.occupied_of_nil hgranted hfailed] at hfull hbounded
    rw [← h.allotted.capacity]
    exact Nat.le_antisymm hbounded hfull

theorem isFull_of_taken {q : Queue} {now : Instant} {r : Record} (h : (q.push now r).2 = .done .taken) :
    q.isFull = false := by
  unfold Queue.push finish at h
  split at h
  · cases h
  · split at h
    · next hroom => simpa using hroom
    · split at h
      · cases h
      · split at h <;> cases h

theorem Watched.waiting_of_taken (h : s.Watched o) {r : Record} (hpush : (s.queue.push s.now r).2 = .done .taken) :
    s.queue.waiting = [] := by
  by_contra hne
  have hfull := h.allotted.full hne
  rw [isFull_of_taken hpush] at hfull
  cases hfull

/-! ## Times -/

/-- A ticket is given out once. -/
theorem Watched.unique (h : s.Watched o) (ht : (t, .waits n) ∈ s.log) (hu : (u, .waits n) ∈ s.log) : t = u := by
  have hordered := h.logged.ordered
  rw [begun, List.pairwise_filterMap, List.pairwise_iff_getElem] at hordered
  have hnot {i j : Nat} (hi : i < s.log.length) (hj : j < s.log.length) (hlt : i < j) (hin : s.log[i].2 = .waits n)
      (hjn : s.log[j].2 = .waits n) : False :=
    Nat.lt_irrefl n (hordered i j hi hj hlt n (by rw [hin]; rfl) n (by rw [hjn]; rfl))
  obtain ⟨i, hi, hit⟩ := List.mem_iff_getElem.mp ht
  obtain ⟨j, hj, hju⟩ := List.mem_iff_getElem.mp hu
  rcases Nat.lt_trichotomy i j with hlt | rfl | hgt
  · exact (hnot hi hj hlt (by rw [hit]) (by rw [hju])).elim
  · exact congrArg Prod.fst (hit.symm.trans hju)
  · exact (hnot hj hi hgt (by rw [hju]) (by rw [hit])).elim

theorem Watched.early (h : s.Watched o) (ht : (t, .waits n) ∈ s.log) {result : PushResult}
    (hu : (u, .returns n result) ∈ s.log) : u.nanos ≤ t.nanos + o.pushTimeout.nanos := by
  obtain ⟨i, hi⟩ := List.getElem?_of_mem hu
  have hsettled := h.logged.returned i u n result hi
  obtain ⟨t', ht'⟩ := mem_begun_iff.mp hsettled.begun
  obtain rfl := h.unique ht (List.mem_of_mem_take ht')
  exact hsettled.early t ht'

theorem Watched.admitted (h : s.Watched o) (hu : (u, .returns n .taken) ∈ s.log) : n ∈ admitted s.log := by
  obtain ⟨i, hi⟩ := List.getElem?_of_mem hu
  have hin := (h.logged.returned i u n .taken hi).taken rfl
  exact ((List.take_sublist i s.log).filterMap _).subset hin

theorem Watched.due (h : s.Watched o) (ht : (t, .waits n) ∈ s.log)
    (hlate : t.nanos + o.pushTimeout.nanos < s.now.nanos) : ∃ u result, (u, .returns n result) ∈ s.log := by
  rcases h.logged.kept n (mem_begun_iff.mpr ⟨t, ht⟩) with hin | hreturned
  · rcases (Line.mem_tickets_iff _).mp hin with ⟨w, hw, rfl⟩ | ⟨e, he⟩
    · obtain ⟨-, hearly, hdeadline⟩ := h.logged.pending w hw
      rw [hdeadline t ht] at hearly
      exact absurd hlate (Nat.not_lt_of_le hearly)
    · exact absurd hlate (Nat.not_lt_of_le ((h.logged.failed n e he).2.early t ht))
  · exact hreturned

theorem Watched.timedOut (h : s.Watched o) {before between after : Log} {waited : Duration}
    (hlog : s.log = before ++ (t, .waits n) :: between ++ (u, .returns n (.failed (.timedOut waited))) :: after) :
    u = t.plus o.pushTimeout ∧ Served n between := by
  have hreturns : s.log[(before ++ (t, .waits n) :: between).length]?
      = some (u, .returns n (.failed (.timedOut waited))) := by
    rw [hlog, List.getElem?_append_right (Nat.le_refl _), Nat.sub_self]
    rfl
  have hsettled := h.logged.returned _ u n _ hreturns
  rw [hlog, List.take_left] at hsettled
  obtain ⟨-, hbefore⟩ := hsettled.timedOut waited rfl
  have hwaits : (before ++ (t, .waits n) :: between)[before.length]? = some (t, .waits n) := by
    rw [List.getElem?_append_right (Nat.le_refl _), Nat.sub_self]
    rfl
  have hbetween : (before ++ (t, .waits n) :: between).drop (before.length + 1) = between := by
    rw [List.drop_length_add_append]
    rfl
  have hend := hbefore before.length t hwaits
  rwa [hbetween] at hend

/-! ## Progress -/

theorem exists_resume {q : Queue} (h : n ∈ q.resumable) : ∃ q' result, q.resume n = (q', some result) := by
  unfold Queue.resume
  split
  · exact ⟨_, _, rfl⟩
  · next hnone =>
      split
      · exact ⟨_, _, rfl⟩
      · next hlookup =>
          rcases List.mem_append.mp h with hgranted | hfailed
          · obtain ⟨w, hw, rfl⟩ := List.mem_map.mp hgranted
            exact absurd (beq_self_eq_true w.ticket) (List.find?_eq_none.mp hnone w hw)
          · obtain ⟨p, hp, rfl⟩ := List.mem_map.mp hfailed
            simpa using List.lookup_eq_none_iff.mp hlookup p hp

/-- As long as a watch does not rest, there is a push that ends when it is polled. -/
theorem Watched.exists_poll (h : s.Watched o) (hrests : s.rests = false) :
    ∃ n q' result, s.queue.poll s.now n = (q', some result) := by
  by_cases hgoes : s.queue.resumable = []
  · have hdue : ∃ w ∈ s.queue.waiting, w.isDue s.now = true := by simpa [rests, hgoes] using hrests
    obtain ⟨w, hw, hdue⟩ := hdue
    exact ⟨w.ticket, _, _, h.regular.poll_of_isDue hw hdue⟩
  · obtain ⟨n, hn⟩ := List.exists_mem_of_ne_nil _ hgoes
    refine ⟨n, exists_resume ?_⟩
    rw [resumable, Queue.giveUp, List.map_append, ← List.append_assoc]
    exact List.mem_append_left _ hn

theorem Watched.exists_fewer (h : s.Watched o) (hrests : s.rests = false) :
    ∃ n, (s.step (.poll n)).queue.tickets.length < s.queue.tickets.length := by
  obtain ⟨n, q', result, hpoll⟩ := h.exists_poll hrests
  have hqueue : (s.step (.poll n)).queue = q' := congrArg Prod.fst hpoll
  refine ⟨n, ?_⟩
  rw [hqueue]
  exact tickets_poll h.regular hpoll

/-- The pushes that can go on can all do so before time passes. -/
theorem Watched.exists_rest (h : s.Watched o) : ∃ ns : List Nat, (s.run (ns.map .poll)).rests = true := by
  induction hk : s.queue.tickets.length using Nat.strongRecOn generalizing s with
  | ind k ih =>
      subst hk
      cases hrests : s.rests with
      | true => exact ⟨[], hrests⟩
      | false =>
          obtain ⟨n, hless⟩ := h.exists_fewer hrests
          obtain ⟨ns, hrest⟩ := ih _ hless (h.step (.poll n)) rfl
          exact ⟨n :: ns, hrest⟩

theorem allows_elapse (hrests : s.rests = true) (hle : s.now.nanos ≤ t.nanos)
    (hdue : ∀ w ∈ s.queue.waiting, t.nanos ≤ w.deadline.nanos) : s.allows (.elapse t) = true := by
  simp only [allows, Bool.and_eq_true, decide_eq_true_eq, List.all_eq_true]
  exact ⟨⟨hrests, hle⟩, hdue⟩

theorem exists_first {ws : List Waiter} (h : ws ≠ []) :
    ∃ w ∈ ws, ∀ v ∈ ws, w.deadline.nanos ≤ v.deadline.nanos := by
  cases hmin : (ws.map (·.deadline.nanos)).min? with
  | none => exact absurd (List.map_eq_nil_iff.mp (List.min?_eq_none_iff.mp hmin)) h
  | some least =>
      obtain ⟨hmem, hleast⟩ := List.min?_eq_some_iff.mp hmin
      obtain ⟨w, hw, rfl⟩ := List.mem_map.mp hmem
      exact ⟨w, hw, fun v hv => hleast _ (List.mem_map_of_mem hv)⟩

/-- The clock comes to any point of time even if nobody does anything to the queue. -/
theorem Watched.exists_later (h : s.Watched o) (t : Instant) :
    ∃ ms, (∀ m ∈ ms, Move.isIdle m = true) ∧ t.nanos ≤ (s.run ms).now.nanos := by
  induction hk : s.queue.tickets.length using Nat.strongRecOn generalizing s with
  | ind k ih =>
      subst hk
      -- One push ends.
      have hpoll {s' : Watch} (h : s'.Watched o) (hle : s'.queue.tickets.length ≤ s.queue.tickets.length)
          (hrests : s'.rests = false) : ∃ ms, (∀ m ∈ ms, Move.isIdle m = true) ∧ t.nanos ≤ (s'.run ms).now.nanos := by
        obtain ⟨n, hless⟩ := h.exists_fewer hrests
        obtain ⟨ms, hidle, hlater⟩ := ih _ (Nat.lt_of_lt_of_le hless hle) (h.step (.poll n)) rfl
        exact ⟨.poll n :: ms, List.forall_mem_cons.mpr ⟨rfl, hidle⟩, hlater⟩
      cases hrests : s.rests with
      | false => exact hpoll h (Nat.le_refl _) hrests
      | true =>
          have hstep {u : Instant} (hle : s.now.nanos ≤ u.nanos)
              (hdue : ∀ w ∈ s.queue.waiting, u.nanos ≤ w.deadline.nanos) : s.step (.elapse u) = { s with now := u } :=
            if_pos (allows_elapse hrests hle hdue)
          by_cases hwaiting : ∀ w ∈ s.queue.waiting, t.nanos ≤ w.deadline.nanos
          · rcases Nat.le_total t.nanos s.now.nanos with hpast | hle
            · exact ⟨[], nofun, hpast⟩
            · refine ⟨[.elapse t], List.forall_mem_singleton.mpr rfl, ?_⟩
              rw [run_cons, hstep hle hwaiting]
              exact Nat.le_refl _
          · -- The time of the first of those who wait is up.
            have hne : s.queue.waiting ≠ [] := fun hnil => hwaiting (by simp [hnil])
            obtain ⟨w, hw, hfirst⟩ := exists_first hne
            have hup := hstep (Nat.le_of_lt ((rests_iff.mp hrests).2.2 w hw)) hfirst
            have hdue : (s.step (.elapse w.deadline)).rests = false := by
              rw [hup]
              refine Bool.eq_false_iff.mpr fun hrests => ?_
              exact Nat.lt_irrefl _ ((rests_iff.mp hrests).2.2 w hw)
            have hsame : (s.step (.elapse w.deadline)).queue = s.queue := by rw [hup]
            obtain ⟨ms, hidle, hlater⟩ := hpoll (h.step (.elapse w.deadline)) (by rw [hsame]) hdue
            exact ⟨.elapse w.deadline :: ms, List.forall_mem_cons.mpr ⟨rfl, hidle⟩, hlater⟩

theorem log_happen (s : Watch) (m : Move) : s.log <+: (s.happen m).log := by
  cases m with
  | act op => exact List.prefix_append ..
  | poll ticket => exact List.prefix_append ..
  | elapse t => exact List.prefix_refl _
  | abandon => exact List.prefix_refl _

theorem log_run (s : Watch) (ms : List Move) : s.log <+: (s.run ms).log := by
  induction ms generalizing s with
  | nil => exact List.prefix_refl _
  | cons m ms ih =>
      refine List.IsPrefix.trans ?_ (ih (s.step m))
      unfold Watch.step
      split
      · exact s.log_happen m
      · exact List.prefix_refl _

theorem Watched.returns (h : s.Watched o) (hn : n ∈ begun s.log) :
    ∃ ms, (∀ m ∈ ms, Move.isIdle m = true) ∧ ∃ u result, (u, .returns n result) ∈ (s.run ms).log := by
  obtain ⟨t, ht⟩ := mem_begun_iff.mp hn
  obtain ⟨ms, hidle, hlater⟩ := h.exists_later ⟨t.nanos + o.pushTimeout.nanos + 1⟩
  exact ⟨ms, hidle, (h.run ms).due ((s.log_run ms).subset ht) hlater⟩

/-! ## The discipline -/

theorem Watched.neverFull (h : s.Watched o) (hwait : o.backpressure = .wait) (t : Instant) (capacity : Nat) :
    (t, .ends (.failed (.full capacity))) ∉ s.log ∧ ∀ n, (t, .returns n (.failed (.full capacity))) ∉ s.log := by
  refine ⟨fun hends => ?_, fun n hreturns => ?_⟩
  · have hreject : o.backpressure = .reject := h.logged.ended t _ hends
    rw [hwait] at hreject
    cases hreject
  · obtain ⟨i, hi⟩ := List.getElem?_of_mem hreturns
    exact (h.logged.returned i t n _ hi).full capacity rfl

theorem Watched.patient (h : s.Watched o) (hwait : o.backpressure = .wait) : s.Patient o where
  full hrests _ hn := h.full_at_rest hrests hn
  ordered := ⟨h.logged.ordered, h.logged.served⟩
  newcomers _ hpush := h.waiting_of_taken hpush
  admitted _ _ hu := h.admitted hu
  early _ _ ht _ _ hu := h.early ht hu
  due _ _ ht hlate := h.due ht hlate
  returns _ hn := h.returns hn
  timedOut _ _ _ _ _ _ _ hlog := h.timedOut hlog
  atOnce t _ hends := (h.logged.ended t _ hends).2
  neverFull := h.neverFull hwait

theorem push_of_reject {q : Queue} (hopen : q.closed = false) (hback : q.backpressure = .reject) (now : Instant)
    (r : Record) :
    (q.push now r).2 = if q.isFull then .done (.failed (.full q.capacity)) else .done .taken := by
  unfold Queue.push finish
  rw [hopen, hback]
  cases q.isFull with
  | true => rfl
  | false => rfl

theorem Watched.impatient (h : s.Watched o) (hreject : o.backpressure = .reject) : s.Impatient o := by
  have hbegun : begun s.log = [] := by
    by_contra hne
    rw [h.logged.waits hne] at hreject
    cases hreject
  have hpending : s.queue.pending = [] := by
    by_contra hne
    rw [h.allotted.waits hne] at hreject
    cases hreject
  have hfailed : s.queue.failed = [] := by
    refine List.eq_nil_iff_forall_not_mem.mpr fun p hp => ?_
    have hin := (h.logged.failed p.1 p.2 hp).2.begun
    rw [hbegun] at hin
    cases hin
  refine ⟨⟨hbegun, by rw [tickets, hpending, hfailed]; rfl⟩, fun hopen r => ?_⟩
  have hoccupied : s.queue.occupied = s.queue.buffered.length :=
    h.regular.owing.occupied_of_nil (List.append_eq_nil_iff.mp hpending).1 hfailed
  have hbounded := h.allotted.bounded
  rw [hoccupied] at hbounded
  rw [push_of_reject hopen (h.allotted.backpressure.trans hreject), ← h.allotted.capacity, isFull, hoccupied]
  by_cases hfull : s.queue.capacity ≤ s.queue.buffered.length
  · rw [decide_eq_true hfull, if_pos rfl]
    exact ⟨fun _ => Nat.le_antisymm hbounded hfull, fun _ => ⟨_, rfl⟩⟩
  · rw [decide_eq_false hfull, if_neg Bool.false_ne_true]
    refine ⟨fun hgot => ?_, fun hsame => absurd hsame.ge hfull⟩
    obtain ⟨capacity, hsame⟩ := hgot
    cases hsame

/-- In every run pushes wait with discipline, or do not wait at all. -/
theorem waiting_discipline (o : QueueOptions) (now : Instant) (ms : List Move) :
    let s := (start o now).run ms
    match o.backpressure with
    | .wait => s.Patient o
    | .reject => s.Impatient o := by
  have hwatched := (watched_start o now).run ms
  cases hback : o.backpressure with
  | wait => exact hwatched.patient hback
  | reject => exact hwatched.impatient hback

/-- The first push has the place; the time of two others is up together. One of them gives up before the place becomes
free, and the other has not been polled yet. -/
example :
    let r : Record := ⟨[97], .v4 ⟨192, 0, 2, 10⟩ 40000, 0, 0⟩
    let o : QueueOptions := { capacity := 1, backpressure := .wait, pushTimeout := ⟨5⟩ }
    let push := Move.act (.push ⟨0⟩ r)
    ((start o ⟨0⟩).run [push, push, push, .elapse ⟨5⟩, .poll 0, .act .tryRecv, .poll 1]).log =
      [(⟨0⟩, .ends .taken), (⟨0⟩, .waits 0), (⟨0⟩, .waits 1), (⟨5⟩, .returns 0 (.failed (.timedOut ⟨5⟩))),
        (⟨5⟩, .frees (some 1)), (⟨5⟩, .returns 1 .taken)] := by
  decide +kernel

end Watch

end LogIntake.Queue
