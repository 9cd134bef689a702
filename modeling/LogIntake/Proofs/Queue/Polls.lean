import LogIntake.Proofs.Queue.Punctual

/-!
# Pushes one by one

When a clock runs on, a queue can give up all pushes whose time is up (`expire`). In truth each of them has to be polled
before it gives up, and others may use the queue before its turn comes: a place that becomes free meanwhile goes to it
all the same. For the push that is polled, it makes no difference whether all have been given up before
(`resume_expire`).
-/

namespace LogIntake

def Waiter.isDue (w : Waiter) (now : Instant) : Bool :=
  w.deadline.nanos ≤ now.nanos

namespace Queue

/-- Some of the pushes that wait give up. -/
def giveUp (q : Queue) (due : Waiter → Bool) : Queue :=
  { q with
    waiting := q.waiting.filter (!due ·)
    failed := q.failed ++ (q.waiting.filter due).map fun w => (w.ticket, .timedOut q.pushTimeout) }

/-- Polls a push. It gives up if its time is up, but not if a place has been granted to it: then it does not wait. -/
def poll (q : Queue) (now : Instant) (ticket : Nat) : Queue × Option PushResult :=
  (q.giveUp fun w => w.ticket == ticket && w.isDue now).resume ticket

/-- A push leaves the line. -/
def leave (q : Queue) (ticket : Nat) : Queue :=
  { q with waiting := q.waiting.filter (·.ticket != ticket) }

variable {q q' : Queue} {now : Instant} {due : Waiter → Bool} {w : Waiter} {ticket : Nat}

theorem giveUp_of_forall (h : ∀ w ∈ q.waiting, due w = false) : q.giveUp due = q := by
  have hkept : q.waiting.filter (!due ·) = q.waiting := List.filter_eq_self.mpr fun w hw => by rw [h w hw]; rfl
  have hgone : q.waiting.filter due = [] := List.filter_eq_nil_iff.mpr fun w hw => by simp [h w hw]
  simp [giveUp, hkept, hgone]

theorem tickets_giveUp (q : Queue) (due : Waiter → Bool) : (q.giveUp due).tickets.Perm q.tickets := by
  simp only [tickets, pending, giveUp, List.map_append, List.map_map, List.append_assoc]
  refine List.Perm.append_left _ ((List.perm_append_comm.append_left _).trans ?_)
  rw [← List.append_assoc]
  exact (perm_filter_append (·.ticket) due q.waiting).append_right _

theorem flow_giveUp (q : Queue) (due : Waiter → Bool) : Flow q (q.giveUp due) [] [] :=
  q.flow_fail _ _

theorem Regular.giveUp (h : q.Regular) (due : Waiter → Bool) : (q.giveUp due).Regular := by
  obtain ⟨t, hagrees⟩ := h
  exact ⟨_, hagrees.of_flow (q.flow_giveUp due) (q.tickets_giveUp due) rfl⟩

theorem Regular.poll (h : q.Regular) (now : Instant) (ticket : Nat) : (q.poll now ticket).1.Regular :=
  (h.giveUp _).apply (.resume ticket)

/-- A push that has been polled with a result is no longer there. -/
theorem tickets_poll {n : Nat} {result : PushResult} (h : q.Regular) (hpoll : q.poll now n = (q', some result)) :
    q'.tickets.length < q.tickets.length := by
  obtain ⟨hmem, htickets, -⟩ := tickets_resume (h.giveUp _).nodup hpoll
  rw [htickets, ← (q.tickets_giveUp _).length_eq]
  exact List.length_filter_lt_length_iff_exists.mpr ⟨n, hmem, by simp⟩

/-! ## Who is polled -/

/-- A push that waits has neither a place nor a result. -/
theorem Regular.of_mem_waiting (h : q.Regular) (hw : w ∈ q.waiting) :
    q.granted.find? (·.ticket == w.ticket) = none ∧ q.failed.lookup w.ticket = none ∧
      ∀ v ∈ q.waiting, v.ticket = w.ticket → v = w := by
  have hnodup := h.nodup
  simp only [tickets, pending, List.map_append, List.append_assoc] at hnodup
  obtain ⟨-, hrest, hgranted⟩ := List.nodup_append.mp hnodup
  obtain ⟨hwaiting, -, hfailed⟩ := List.nodup_append.mp hrest
  have hticket : w.ticket ∈ q.waiting.map Waiter.ticket := List.mem_map_of_mem hw
  refine ⟨List.find?_eq_none.mpr fun v hv hsame => ?_, List.lookup_eq_none_iff.mpr fun p hp => ?_, fun v hv hsame => ?_⟩
  · exact hgranted v.ticket (List.mem_map_of_mem hv) w.ticket (List.mem_append_left _ hticket) (beq_iff_eq.mp hsame)
  · simpa using hfailed w.ticket hticket p.1 (List.mem_map_of_mem hp)
  · exact List.inj_on_of_nodup_map hwaiting hv hw hsame

theorem lookup_map_of_mem {ws : List Waiter} (hw : w ∈ ws) (e : PushError) :
    (ws.map fun v => (v.ticket, e)).lookup w.ticket = some e := by
  induction ws with
  | nil => cases hw
  | cons v ws ih =>
      rw [List.map_cons, List.lookup_cons]
      split
      · rfl
      · next hne =>
          rcases List.mem_cons.mp hw with rfl | hw
          · simp at hne
          · exact ih hw

/-- A push that has given up gets its result, and those who have given up with it stay where they are. -/
theorem Regular.resume_giveUp_of_mem (h : q.Regular) (hw : w ∈ q.waiting) (hdue : due w = true) :
    (q.giveUp due).resume w.ticket =
      (((q.leave w.ticket).giveUp due).report (.failed (.timedOut q.pushTimeout)),
        some (.failed (.timedOut q.pushTimeout))) := by
  obtain ⟨hgranted, hfailed, hunique⟩ := h.of_mem_waiting hw
  have hlookup : (q.giveUp due).failed.lookup w.ticket = some (.timedOut q.pushTimeout) := by
    rw [Queue.giveUp, List.lookup_append, hfailed, Option.none_or]
    exact lookup_map_of_mem (List.mem_filter.mpr ⟨hw, hdue⟩) _
  have hwaiting : q.waiting.filter (!due ·) = (q.leave w.ticket).waiting.filter (!due ·) := by
    rw [leave, List.filter_filter]
    refine List.filter_congr fun v hv => ?_
    by_cases hsame : v.ticket = w.ticket
    · rw [hunique v hv hsame, hdue]
      rfl
    · rw [bne_iff_ne.mpr hsame, Bool.and_true]
  have hrest : (q.giveUp due).failed.filter (·.1 != w.ticket) = ((q.leave w.ticket).giveUp due).failed := by
    have hold : q.failed.filter (·.1 != w.ticket) = q.failed :=
      List.filter_eq_self.mpr fun p hp => (bne_comm ..).trans (List.lookup_eq_none_iff.mp hfailed p hp)
    rw [Queue.giveUp, List.filter_append, hold, List.filter_map, List.filter_comm]
    rfl
  have hnone : q.outstanding = [] := h.owing.outstanding (List.ne_nil_of_mem hw)
  have hplaces : (q.giveUp due).outstanding.filter (· != w.ticket) = q.outstanding := by
    show q.outstanding.filter _ = _
    rw [hnone, List.filter_nil]
  unfold Queue.resume
  rw [show (q.giveUp due).granted = q.granted from rfl, hgranted]
  simp only [hlookup]
  rw [hrest, hplaces]
  simp only [Queue.giveUp, hwaiting]
  rfl

/-- It does not matter to a push that others give up. -/
theorem resume_giveUp_of_forall (h : ∀ w ∈ q.waiting, w.ticket = ticket → due w = false) :
    (q.giveUp due).resume ticket = ((q.resume ticket).1.giveUp due, (q.resume ticket).2) := by
  have hothers : ∀ p ∈ (q.waiting.filter due).map fun w => (w.ticket, PushError.timedOut q.pushTimeout),
      p.1 ≠ ticket := by
    intro p hp hsame
    obtain ⟨w, hw, rfl⟩ := List.mem_map.mp hp
    obtain ⟨hmem, hdue⟩ := List.mem_filter.mp hw
    rw [h w hmem hsame] at hdue
    cases hdue
  have hlookup : (q.giveUp due).failed.lookup ticket = q.failed.lookup ticket := by
    have hnone := List.lookup_eq_none_iff.mpr fun p hp => bne_iff_ne.mpr (hothers p hp).symm
    rw [Queue.giveUp, List.lookup_append, hnone, Option.or_none]
  have hrest : (q.giveUp due).failed.filter (·.1 != ticket) = q.failed.filter (·.1 != ticket)
      ++ (q.waiting.filter due).map fun w => (w.ticket, PushError.timedOut q.pushTimeout) := by
    rw [Queue.giveUp, List.filter_append]
    exact congrArg (_ ++ ·) (List.filter_eq_self.mpr fun p hp => bne_iff_ne.mpr (hothers p hp))
  unfold Queue.resume
  rw [show (q.giveUp due).granted = q.granted from rfl]
  split
  · rfl
  · simp only [hlookup]
    split
    · rw [hrest]
      rfl
    · rfl

theorem Regular.poll_of_isDue (h : q.Regular) (hw : w ∈ q.waiting) (hdue : w.isDue now = true) :
    q.poll now w.ticket =
      ((q.leave w.ticket).report (.failed (.timedOut q.pushTimeout)), some (.failed (.timedOut q.pushTimeout))) := by
  have hnobody : (q.leave w.ticket).giveUp (fun v => v.ticket == w.ticket && v.isDue now) = q.leave w.ticket := by
    refine giveUp_of_forall fun v hv => ?_
    rw [beq_eq_false_iff_ne.mpr (bne_iff_ne.mp (List.mem_filter.mp hv).2)]
    rfl
  rw [Queue.poll, h.resume_giveUp_of_mem hw (by rw [beq_self_eq_true, hdue]; rfl), hnobody]

/-- What is polled is a push whose time is up and that has got no place, or one that finds what there is for it. -/
inductive Polled (q : Queue) (now : Instant) : Nat → Queue × Option PushResult → Prop
  | timedOut (w : Waiter) : w ∈ q.waiting → w.isDue now = true → Polled q now w.ticket
      ((q.leave w.ticket).report (.failed (.timedOut q.pushTimeout)), some (.failed (.timedOut q.pushTimeout)))
  | resumed (ticket : Nat) : (∀ w ∈ q.waiting, w.ticket = ticket → w.isDue now = false) →
      Polled q now ticket (q.resume ticket)

theorem Regular.polled (h : q.Regular) (now : Instant) (ticket : Nat) : q.Polled now ticket (q.poll now ticket) := by
  by_cases hw : ∃ w ∈ q.waiting, w.ticket = ticket ∧ w.isDue now = true
  · obtain ⟨w, hmem, rfl, hdue⟩ := hw
    rw [h.poll_of_isDue hmem hdue]
    exact .timedOut w hmem hdue
  · have hnever : ∀ w ∈ q.waiting, w.ticket = ticket → w.isDue now = false := by
      intro w hmem hticket
      exact Bool.eq_false_iff.mpr fun hdue => hw ⟨w, hmem, hticket, hdue⟩
    have hnobody : q.giveUp (fun w => w.ticket == ticket && w.isDue now) = q := by
      refine giveUp_of_forall fun w hmem => Bool.and_eq_false_imp.mpr fun hticket => ?_
      exact hnever w hmem (beq_iff_eq.mp hticket)
    rw [Queue.poll, hnobody]
    exact .resumed ticket hnever

/-- A push that is polled fares as if all whose time is up had been given up before. -/
theorem Regular.resume_expire (h : q.Regular) (now : Instant) (ticket : Nat) :
    (q.expire now).resume ticket = ((q.poll now ticket).1.expire now, (q.poll now ticket).2) := by
  show (q.giveUp (·.isDue now)).resume ticket = _
  have hpolled := h.polled now ticket
  generalize q.poll now ticket = polled at hpolled
  cases hpolled with
  | timedOut w hw hdue => exact h.resume_giveUp_of_mem hw hdue
  | resumed ticket hnever => exact resume_giveUp_of_forall hnever

end Queue

end LogIntake
