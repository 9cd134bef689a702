import LogIntake.Proofs.Queue.Places

/-!
# A queue under watch

A watch has a queue, a clock, and a log of what has happened to pushes and places. The clock runs on only when no push
can go on, and no further than to the next point of time at which the time of one is up. Each push has to be polled
before it goes on or gives up, in any order, and others may use the queue before. The log agrees with the queue after
every move (`Logged`): it tells of each push when it began to wait and to whom the places went that have become free
since then.
-/

namespace LogIntake.Queue

/-! ## Logs -/

abbrev Log := List (Instant × Event)

def Event.begun? : Event → Option Nat
  | .waits ticket => some ticket
  | _ => none

def Event.admitted? : Event → Option Nat
  | .frees taker => taker
  | _ => none

/-- The tickets of the pushes that have begun to wait, in the order in which they did. -/
def begun (log : Log) : List Nat :=
  log.filterMap (·.2.begun?)

/-- The tickets of the pushes that have been given a place, in the order in which they were. -/
def admitted (log : Log) : List Nat :=
  log.filterMap (·.2.admitted?)

/-- The result of the push that ends. -/
def Event.result? : Event → Option PushResult
  | .ends result => some result
  | .returns _ result => some result
  | _ => none

/-- The results of all pushes that have ended, in the order in which they did. -/
def results (log : Log) : List PushResult :=
  log.filterMap (·.2.result?)

/-- All places went to pushes that began before this one. -/
def Served (n : Nat) (log : Log) : Prop :=
  ∀ t taker, (t, .frees taker) ∈ log → ∃ m < n, taker = some m

/-- A push that has waited has this result at a point of time: it is not later than its timeout. If its time is up, the
timeout is over to the point, and all places went to others before it. -/
structure Settled (o : QueueOptions) (log : Log) (n : Nat) (now : Instant) (result : PushResult) : Prop where
  begun : n ∈ begun log
  early : ∀ t, (t, .waits n) ∈ log → now.nanos ≤ t.nanos + o.pushTimeout.nanos
  taken : result = .taken → n ∈ admitted log
  timedOut : ∀ waited, result = .failed (.timedOut waited) → waited = o.pushTimeout ∧
    ∀ i t, log[i]? = some (t, .waits n) → now = t.plus o.pushTimeout ∧ Served n (log.drop (i + 1))
  full : ∀ capacity, result ≠ .failed (.full capacity)

variable {o : QueueOptions} {now t : Instant} {log : Log} {e : Event} {n : Nat} {result : PushResult}

theorem mem_begun_iff : n ∈ begun log ↔ ∃ t, (t, .waits n) ∈ log := by
  simp only [begun, List.mem_filterMap, Prod.exists]
  refine ⟨fun ⟨t, e, hmem, he⟩ => ?_, fun ⟨t, hmem⟩ => ⟨t, _, hmem, rfl⟩⟩
  cases e with
  | waits m =>
      cases he
      exact ⟨t, hmem⟩
  | _ => cases he

theorem begun_concat (log : Log) (now : Instant) (e : Event) :
    begun (log ++ [(now, e)]) = begun log ++ e.begun?.toList := by
  cases he : e.begun? <;> simp [begun, he]

theorem admitted_concat (log : Log) (now : Instant) (e : Event) :
    admitted (log ++ [(now, e)]) = admitted log ++ e.admitted?.toList := by
  cases he : e.admitted? <;> simp [admitted, he]

theorem results_append (log more : Log) : results (log ++ more) = results log ++ results more :=
  List.filterMap_append

theorem begun_append (log more : Log) : begun (log ++ more) = begun log ++ begun more :=
  List.filterMap_append

theorem mem_of_mem_concat {entry : Instant × Event} (h : entry ∈ log ++ [(now, e)]) (hne : entry.2 ≠ e) :
    entry ∈ log := by
  rcases List.mem_append.mp h with hold | hnew
  · exact hold
  · rw [List.mem_singleton.mp hnew] at hne
    exact absurd rfl hne

theorem getElem?_concat {i : Nat} {entry : Instant × Event} (h : (log ++ [(now, e)])[i]? = some entry) :
    (i < log.length ∧ log[i]? = some entry) ∨ (i = log.length ∧ entry = (now, e)) := by
  rcases Nat.lt_or_ge i log.length with hlt | hge
  · rw [List.getElem?_append_left hlt] at h
    exact Or.inl ⟨hlt, h⟩
  · rw [List.getElem?_append_right hge, List.getElem?_singleton] at h
    split at h
    · exact Or.inr ⟨by omega, (Option.some.inj h).symm⟩
    · cases h

/-- An entry of a log that is not the last stands where it stood before. -/
theorem getElem?_of_concat {i : Nat} {entry : Instant × Event} (h : (log ++ [(now, e)])[i]? = some entry)
    (hne : entry.2 ≠ e) :
    log[i]? = some entry ∧ (log ++ [(now, e)]).drop (i + 1) = log.drop (i + 1) ++ [(now, e)] := by
  rcases getElem?_concat h with ⟨hlt, hold⟩ | ⟨-, rfl⟩
  · exact ⟨hold, List.drop_append_of_le_length hlt⟩
  · exact absurd rfl hne

theorem Settled.concat (h : Settled o log n now (.failed .closed)) (he : e ≠ .waits n) :
    Settled o (log ++ [(now, e)]) n now (.failed .closed) := by
  refine ⟨?_, fun t hmem => h.early t (mem_of_mem_concat hmem (Ne.symm he)), nofun, nofun, nofun⟩
  rw [begun_concat]
  exact List.mem_append_left _ h.begun

theorem Served.concat (h : Served n log) (he : ∀ taker, e = .frees taker → ∃ m < n, taker = some m) :
    Served n (log ++ [(now, e)]) := by
  intro t taker hmem
  rcases List.mem_append.mp hmem with hmem | hmem
  · exact h t taker hmem
  · cases List.mem_singleton.mp hmem
    exact he taker rfl

/-! ## What a log says by itself -/

structure Chronicle (o : QueueOptions) (nextTicket : Nat) (log : Log) : Prop where
  fresh : ∀ n ∈ begun log, n < nextTicket
  ordered : (begun log).Pairwise (· < ·)
  known : ∀ n ∈ admitted log, n ∈ begun log
  ended : ∀ t result, (t, .ends result) ∈ log → AtOnce o result
  returned : ∀ i t n result, log[i]? = some (t, .returns n result) → Settled o (log.take i) n t result
  waits : begun log ≠ [] → o.backpressure = .wait

variable {nextTicket : Nat}

theorem Chronicle.returned_concat (h : Chronicle o nextTicket log)
    (hreturns : ∀ n result, e = .returns n result → Settled o log n now result) (i : Nat) (t : Instant) (n : Nat)
    (result : PushResult) (hi : (log ++ [(now, e)])[i]? = some (t, .returns n result)) :
    Settled o ((log ++ [(now, e)]).take i) n t result := by
  rcases getElem?_concat hi with ⟨hlt, hold⟩ | ⟨rfl, hnew⟩
  · rw [List.take_append_of_le_length hlt.le]
    exact h.returned i t n result hold
  · cases hnew
    rw [List.take_left]
    exact hreturns n result rfl

theorem Chronicle.ended_concat (h : Chronicle o nextTicket log) (hends : ∀ result, e = .ends result → AtOnce o result)
    (t : Instant) (result : PushResult) (hmem : (t, .ends result) ∈ log ++ [(now, e)]) : AtOnce o result := by
  rcases List.mem_append.mp hmem with hold | hnew
  · exact h.ended t result hold
  · cases List.mem_singleton.mp hnew
    exact hends result rfl

/-- Nobody begins to wait. -/
theorem Chronicle.concat (h : Chronicle o nextTicket log) (hbegun : e.begun? = none)
    (hends : ∀ result, e = .ends result → AtOnce o result)
    (hreturns : ∀ n result, e = .returns n result → Settled o log n now result)
    (hfrees : ∀ n, e = .frees (some n) → n ∈ begun log) : Chronicle o nextTicket (log ++ [(now, e)]) := by
  have hsame : begun (log ++ [(now, e)]) = begun log := by rw [begun_concat, hbegun]; exact List.append_nil _
  refine ⟨?_, ?_, fun n hn => ?_, h.ended_concat hends, h.returned_concat hreturns, ?_⟩
  · rw [hsame]
    exact h.fresh
  · rw [hsame]
    exact h.ordered
  · rw [hsame]
    rw [admitted_concat] at hn
    rcases List.mem_append.mp hn with hold | hnew
    · exact h.known n hold
    · refine hfrees n ?_
      cases e with
      | frees taker => exact congrArg Event.frees (Option.mem_toList.mp hnew)
      | _ => cases hnew
  · rw [hsame]
    exact h.waits

theorem Chronicle.concat_waits (h : Chronicle o nextTicket log) (hwait : o.backpressure = .wait) (now : Instant) :
    Chronicle o (nextTicket + 1) (log ++ [(now, .waits nextTicket)]) := by
  refine ⟨fun n hn => ?_, ?_, fun n hn => ?_, h.ended_concat nofun, h.returned_concat nofun, fun _ => hwait⟩
  · rw [begun_concat] at hn
    rcases List.mem_append.mp hn with hold | hnew
    · exact Nat.lt_succ_of_lt (h.fresh n hold)
    · rw [List.mem_singleton.mp hnew]
      exact Nat.lt_succ_self _
  · rw [begun_concat]
    refine List.pairwise_append.mpr ⟨h.ordered, List.pairwise_singleton .., fun m hm n hn => ?_⟩
    rw [List.mem_singleton.mp hn]
    exact h.fresh m hm
  · rw [admitted_concat] at hn
    rw [begun_concat]
    exact List.mem_append_left _ (h.known n ((List.append_nil (admitted log)) ▸ hn))

/-! ## What a log says of the pushes that have not ended -/

structure Logged (o : QueueOptions) (now : Instant) (l : Line) (log : Log) : Prop
    extends Chronicle o l.nextTicket log where
  served : (admitted log ++ l.waiting.map Waiter.ticket).Pairwise (· < ·)
  granted : ∀ w ∈ l.granted, w.ticket ∈ admitted log
  pending : ∀ w ∈ l.granted ++ l.waiting, w.ticket ∈ begun log ∧ now.nanos ≤ w.deadline.nanos ∧
    ∀ t, (t, .waits w.ticket) ∈ log → w.deadline = t.plus o.pushTimeout
  waiting : ∀ w ∈ l.waiting, ∀ i t, log[i]? = some (t, .waits w.ticket) → Served w.ticket (log.drop (i + 1))
  failed : ∀ n e, (n, e) ∈ l.failed → e = .closed ∧ Settled o log n now (.failed .closed)
  kept : ∀ n ∈ begun log, n ∈ l.tickets ∨ ∃ t result, (t, .returns n result) ∈ log

variable {l l' : Line}

theorem Logged.settled (h : Logged o now l log) {w : Waiter} (hw : w ∈ l.granted ++ l.waiting)
    (htaken : result = .taken → w.ticket ∈ admitted log)
    (hother : result = .taken ∨ result = .failed .closed) : Settled o log w.ticket now result := by
  obtain ⟨hbegun, hearly, hdeadline⟩ := h.pending w hw
  refine ⟨hbegun, fun t ht => ?_, htaken, fun waited hwaited => ?_, fun capacity hfull => ?_⟩
  · have hdue := congrArg Duration.nanos (hdeadline t ht)
    exact Nat.le_trans hearly (Nat.le_of_eq hdue)
  · rcases hother with rfl | rfl <;> cases hwaited
  · rcases hother with rfl | rfl <;> cases hfull

/-- A push whose time is up has waited as long as it may, and has seen all places go to pushes before it. -/
theorem Logged.lapsed (h : Logged o now l log) {w : Waiter} (hw : w ∈ l.waiting) (hdue : w.deadline.nanos ≤ now.nanos) :
    Settled o log w.ticket now (.failed (.timedOut o.pushTimeout)) := by
  obtain ⟨hbegun, hearly, hdeadline⟩ := h.pending w (List.mem_append_right _ hw)
  have hnow : now = w.deadline := congrArg Duration.mk (Nat.le_antisymm hearly hdue)
  refine ⟨hbegun, fun t ht => ?_, nofun, fun waited hwaited => ?_, nofun⟩
  · rw [hnow, hdeadline t ht]
    exact Nat.le_refl _
  · cases hwaited
    exact ⟨rfl, fun i t hi => ⟨hnow.trans (hdeadline t (List.mem_of_getElem? hi)), h.waiting w hw i t hi⟩⟩

theorem Logged.closed (h : Logged o now l log) : Logged o now l.closed log := by
  have hfailed : ∀ n e, (n, e) ∈ l.closed.failed → e = .closed ∧ Settled o log n now (.failed .closed) := by
    intro n e hmem
    rcases List.mem_append.mp hmem with hold | hnew
    · exact h.failed n e hold
    · obtain ⟨w, hw, hsame⟩ := List.mem_map.mp hnew
      cases hsame
      exact ⟨rfl, h.settled hw nofun (Or.inr rfl)⟩
  refine ⟨h.toChronicle, ?_, nofun, nofun, nofun, hfailed, fun n hn => ?_⟩
  · rw [Line.closed, List.map_nil, List.append_nil]
    exact (List.pairwise_append.mp h.served).1
  · refine (h.kept n hn).imp_left fun hmem => ?_
    rcases l.mem_tickets_iff.mp hmem with ⟨w, hw, rfl⟩ | ⟨e, he⟩
    · exact l.closed.mem_tickets_iff.mpr (Or.inr ⟨.closed, List.mem_append_right _ (List.mem_map_of_mem hw)⟩)
    · exact l.closed.mem_tickets_iff.mpr (Or.inr ⟨e, List.mem_append_left _ he⟩)

theorem begun?_ne_waits (h : e.begun? = none) (n : Nat) : e ≠ .waits n := by
  rintro rfl
  cases h

/-- Nobody begins to wait, and who waits has waited before. -/
theorem Logged.concat (h : Logged o now l log) (hbegun : e.begun? = none)
    (hchronicle : Chronicle o l'.nextTicket (log ++ [(now, e)]))
    (hserved : (admitted log ++ e.admitted?.toList ++ l'.waiting.map Waiter.ticket).Sublist
      (admitted log ++ l.waiting.map Waiter.ticket))
    (hgranted : ∀ w ∈ l'.granted, w ∈ l.granted ∨ e.admitted? = some w.ticket)
    (hpending : ∀ w ∈ l'.granted ++ l'.waiting, w ∈ l.granted ++ l.waiting)
    (hwaiting : ∀ w ∈ l'.waiting, w ∈ l.waiting ∧ ∀ taker, e = .frees taker → ∃ m < w.ticket, taker = some m)
    (hfailed : ∀ p ∈ l'.failed, p ∈ l.failed)
    (hkept : ∀ n ∈ l.tickets, n ∈ l'.tickets ∨ ∃ result, e = .returns n result) :
    Logged o now l' (log ++ [(now, e)]) := by
  have hne := begun?_ne_waits hbegun
  have hsame : begun (log ++ [(now, e)]) = begun log := by rw [begun_concat, hbegun]; exact List.append_nil _
  refine ⟨hchronicle, ?_, fun w hw => ?_, fun w hw => ?_, fun w hw i t hi => ?_, fun n x hx => ?_, fun n hn => ?_⟩
  · rw [admitted_concat]
    exact h.served.sublist hserved
  · rw [admitted_concat]
    rcases hgranted w hw with hold | hnew
    · exact List.mem_append_left _ (h.granted w hold)
    · exact List.mem_append_right _ (Option.mem_toList.mpr hnew)
  · obtain ⟨hmem, hearly, hdeadline⟩ := h.pending w (hpending w hw)
    refine ⟨?_, hearly, fun t ht => hdeadline t (mem_of_mem_concat ht (Ne.symm (hne _)))⟩
    rwa [hsame]
  · obtain ⟨hmem, hfrees⟩ := hwaiting w hw
    obtain ⟨hold, hdrop⟩ := getElem?_of_concat hi (Ne.symm (hne _))
    rw [hdrop]
    exact (h.waiting w hmem i t hold).concat hfrees
  · exact (h.failed n x (hfailed _ hx)).imp_right fun hsettled => hsettled.concat (hne n)
  · rw [hsame] at hn
    rcases h.kept n hn with hin | ⟨t, result, hreturned⟩
    · rcases hkept n hin with hin | ⟨result, rfl⟩
      · exact Or.inl hin
      · exact Or.inr ⟨now, result, List.mem_append_right _ (List.mem_singleton_self _)⟩
    · exact Or.inr ⟨t, result, List.mem_append_left _ hreturned⟩

theorem Logged.concat_waits (h : Logged o now l log) (hwait : o.backpressure = .wait) (r : Record) :
    Logged o now
      { l with
        waiting := l.waiting ++ [⟨l.nextTicket, r, now.plus o.pushTimeout⟩]
        nextTicket := l.nextTicket + 1 }
      (log ++ [(now, .waits l.nextTicket)]) := by
  have hbegun : begun (log ++ [(now, .waits l.nextTicket)]) = begun log ++ [l.nextTicket] := begun_concat ..
  have hadmitted : admitted (log ++ [(now, .waits l.nextTicket)]) = admitted log := by
    rw [admitted_concat]
    exact List.append_nil _
  have hother {w : Waiter} (hw : w ∈ l.granted ++ l.waiting) : Event.waits w.ticket ≠ .waits l.nextTicket := by
    intro hsame
    exact Nat.lt_irrefl _ (Event.waits.inj hsame ▸ h.fresh _ (h.pending w hw).1)
  have hnever {t : Instant} (hmem : (t, Event.waits l.nextTicket) ∈ log) : False :=
    Nat.lt_irrefl _ (h.fresh _ (mem_begun_iff.mpr ⟨t, hmem⟩))
  refine ⟨h.toChronicle.concat_waits hwait now, ?_, ?_, fun w hw => ?_, fun w hw i t hi => ?_, fun n x hx => ?_,
    fun n hn => ?_⟩
  · rw [hadmitted, List.map_append, ← List.append_assoc]
    refine List.pairwise_append.mpr ⟨h.served, List.pairwise_singleton .., fun m hm n hn => ?_⟩
    rw [List.mem_singleton.mp hn]
    rcases List.mem_append.mp hm with hm | hm
    · exact h.fresh m (h.known m hm)
    · obtain ⟨w, hw, rfl⟩ := List.mem_map.mp hm
      exact h.fresh _ (h.pending w (List.mem_append_right _ hw)).1
  · rw [hadmitted]
    exact h.granted
  · rw [hbegun]
    rw [← List.append_assoc] at hw
    rcases List.mem_append.mp hw with hold | hnew
    · obtain ⟨hmem, hearly, hdeadline⟩ := h.pending w hold
      exact ⟨List.mem_append_left _ hmem, hearly, fun t ht => hdeadline t (mem_of_mem_concat ht (hother hold))⟩
    · obtain rfl := List.mem_singleton.mp hnew
      refine ⟨List.mem_append_right _ (List.mem_singleton_self _), Nat.le_add_right .., fun t ht => ?_⟩
      rcases List.mem_append.mp ht with hold | hnew
      · exact (hnever hold).elim
      · cases List.mem_singleton.mp hnew
        rfl
  · rcases List.mem_append.mp hw with hold | hnew
    · obtain ⟨hin, hdrop⟩ := getElem?_of_concat hi (hother (List.mem_append_right _ hold))
      rw [hdrop]
      exact (h.waiting w hold i t hin).concat nofun
    · obtain rfl := List.mem_singleton.mp hnew
      rcases getElem?_concat hi with ⟨-, hin⟩ | ⟨rfl, -⟩
      · exact (hnever (List.mem_of_getElem? hin)).elim
      · -- Nothing has happened since.
        rw [List.drop_eq_nil_of_le (by simp)]
        exact nofun
  · refine (h.failed n x hx).imp_right fun hsettled => hsettled.concat fun hsame => ?_
    exact Nat.lt_irrefl _ (Event.waits.inj hsame ▸ h.fresh n hsettled.begun)
  · rw [hbegun] at hn
    rcases List.mem_append.mp hn with hold | hnew
    · rcases h.kept n hold with hin | ⟨t, result, hreturned⟩
      · refine Or.inl ((Line.mem_tickets_iff _).mpr ((l.mem_tickets_iff.mp hin).imp_left fun ⟨w, hw, hticket⟩ => ?_))
        exact ⟨w, by rw [← List.append_assoc]; exact List.mem_append_left _ hw, hticket⟩
      · exact Or.inr ⟨t, result, List.mem_append_left _ hreturned⟩
    · refine Or.inl ((Line.mem_tickets_iff _).mpr (Or.inl ⟨⟨l.nextTicket, r, now.plus o.pushTimeout⟩, ?_, ?_⟩))
      · rw [← List.append_assoc]
        exact List.mem_append_right _ (List.mem_singleton_self _)
      · exact (List.mem_singleton.mp hnew).symm

/-- A push returns, and the others stay. -/
theorem Logged.concat_returns (h : Logged o now l log) (hsettled : Settled o log n now result)
    (hnext : l'.nextTicket = l.nextTicket) (hgranted : l'.granted.Sublist l.granted)
    (hwaiting : l'.waiting.Sublist l.waiting) (hfailed : l'.failed.Sublist l.failed)
    (hpending : ∀ w ∈ l.granted ++ l.waiting, w.ticket ≠ n → w ∈ l'.granted ++ l'.waiting)
    (hothers : ∀ p ∈ l.failed, p.1 ≠ n → p ∈ l'.failed) : Logged o now l' (log ++ [(now, .returns n result)]) := by
  have hchronicle : Chronicle o l.nextTicket (log ++ [(now, .returns n result)]) := by
    refine h.toChronicle.concat rfl nofun ?_ nofun
    rintro _ _ ⟨⟩
    exact hsettled
  refine h.concat rfl (hnext ▸ hchronicle) ?_ (fun w hw => Or.inl (hgranted.subset hw))
    (fun w hw => (hgranted.append hwaiting).subset hw) (fun w hw => ⟨hwaiting.subset hw, nofun⟩)
    (fun p hp => hfailed.subset hp) (fun m hm => ?_)
  · show (admitted log ++ [] ++ _).Sublist _
    rw [List.append_nil]
    exact (hwaiting.map Waiter.ticket).append_left _
  · by_cases hsame : m = n
    · exact Or.inr ⟨result, by rw [hsame]⟩
    · refine Or.inl ((Line.mem_tickets_iff _).mpr ((l.mem_tickets_iff.mp hm).imp ?_ ?_))
      · exact fun ⟨w, hw, hticket⟩ => ⟨w, hpending w hw (hticket ▸ hsame), hticket⟩
      · exact fun ⟨x, hx⟩ => ⟨x, hothers _ hx hsame⟩

theorem Logged.step (h : Logged o now l log) (hstep : l.Step o now e l') :
    Logged o now l' (log ++ [(now, e)]) := by
  have hsame : (admitted log ++ [] ++ l.waiting.map Waiter.ticket).Sublist
      (admitted log ++ l.waiting.map Waiter.ticket) := by rw [List.append_nil]
  have hothers {n : Nat} {ws : List Waiter} {w : Waiter} (hw : w ∈ ws) (hne : w.ticket ≠ n) :
      w ∈ ws.filter (·.ticket != n) := List.mem_filter.mpr ⟨hw, bne_iff_ne.mpr hne⟩
  cases hstep with
  | ends _ result hresult =>
      refine h.concat rfl (h.toChronicle.concat rfl ?_ nofun nofun) hsame (fun w hw => Or.inl hw) (fun w hw => hw)
        (fun w hw => ⟨hw, nofun⟩) (fun p hp => hp) (fun n hn => Or.inl hn)
      rintro _ ⟨⟩
      exact hresult
  | waits _ r hwait => exact h.concat_waits hwait r
  | takes _ w hw =>
      have hsettled : Settled o log w.ticket now .taken :=
        h.settled (List.mem_append_left _ hw) (fun _ => h.granted w hw) (Or.inl rfl)
      refine h.concat_returns hsettled rfl List.filter_sublist (.refl _) (.refl _) (fun v hv hne => ?_)
        fun p hp _ => hp
      exact List.mem_append.mpr ((List.mem_append.mp hv).imp_left fun hv => hothers hv hne)
  | fails _ ticket x hx =>
      obtain ⟨rfl, hsettled⟩ := h.failed ticket x hx
      exact h.concat_returns hsettled rfl (.refl _) (.refl _) List.filter_sublist (fun v hv _ => hv)
        fun p hp hne => List.mem_filter.mpr ⟨hp, bne_iff_ne.mpr hne⟩
  | lapses _ w hw hdue =>
      refine h.concat_returns (h.lapsed hw hdue) rfl (.refl _) List.filter_sublist (.refl _) (fun v hv hne => ?_)
        fun p hp _ => hp
      exact List.mem_append.mpr ((List.mem_append.mp hv).imp_right fun hv => hothers hv hne)
  | grants granted w waiting failed nextTicket =>
      have hbegun := (h.pending w (List.mem_append_right _ List.mem_cons_self)).1
      refine h.concat rfl (h.toChronicle.concat rfl nofun nofun ?_) ?_ (fun v hv => ?_) (fun v hv => ?_)
        (fun v hv => ⟨List.mem_cons_of_mem w hv, ?_⟩) (fun p hp => hp) (fun n hn => Or.inl ?_)
      · rintro _ ⟨⟩
        exact hbegun
      · exact (List.append_assoc ..) ▸ List.Sublist.refl _
      · exact (List.mem_append.mp hv).imp_right fun hv => by rw [List.mem_singleton.mp hv]; rfl
      · rwa [List.append_assoc] at hv
      · rintro _ ⟨⟩
        have hserved := (List.pairwise_append.mp h.served).2.1
        rw [List.map_cons, List.pairwise_cons] at hserved
        exact ⟨w.ticket, hserved.1 v.ticket (List.mem_map_of_mem hv), rfl⟩
      · rw [Line.mem_tickets_iff] at hn ⊢
        rwa [List.append_assoc]
  | vacates _ hnil =>
      refine h.concat rfl (h.toChronicle.concat rfl nofun nofun nofun) hsame (fun w hw => Or.inl hw) (fun w hw => hw)
        (fun w hw => ?_) (fun p hp => hp) (fun n hn => Or.inl hn)
      rw [hnil] at hw
      cases hw

theorem Logged.chain {es : List Event} (h : Logged o now l log) (hchain : l.Chain o now es l') :
    Logged o now l' (log ++ es.map (now, ·)) := by
  induction hchain generalizing log with
  | refl l => rwa [List.map_nil, List.append_nil]
  | closes l =>
      rw [List.map_nil, List.append_nil]
      exact h.closed
  | cons hstep _ ih =>
      have hrest := ih (h.step hstep)
      rwa [List.append_assoc] at hrest

/-- Time passes until the time of the next push is up. -/
theorem Logged.elapse (h : Logged o now l log) (hgranted : l.granted = []) (hfailed : l.failed = [])
    (hdue : ∀ w ∈ l.waiting, t.nanos ≤ w.deadline.nanos) : Logged o t l log := by
  refine ⟨h.toChronicle, h.served, h.granted, fun w hw => ?_, h.waiting, fun n e he => ?_, h.kept⟩
  · obtain ⟨hbegun, -, hdeadline⟩ := h.pending w hw
    rw [hgranted] at hw
    exact ⟨hbegun, hdue w hw, hdeadline⟩
  · rw [hfailed] at he
    cases he

/-! ## Tickets -/

variable {q : Queue} {ticket : Nat}

/-- A push keeps its ticket only until it returns. -/
theorem of_mem_tickets_resume (hnodup : q.tickets.Nodup) (hn : n ∈ (q.resume ticket).1.tickets) :
    n ∈ q.tickets ∧ ∀ result, .returns n result ∉ ((q.resume ticket).2.map (Event.returns ticket)).toList := by
  have hresumed := q.resumed_resume ticket
  cases hresume : q.resume ticket with
  | mk q' result? =>
      rw [hresume] at hresumed hn
      cases result? with
      | none =>
          cases hresumed
          exact ⟨hn, nofun⟩
      | some result =>
          obtain ⟨-, htickets, -⟩ := tickets_resume hnodup hresume
          rw [htickets] at hn
          obtain ⟨hmem, hne⟩ := List.mem_filter.mp hn
          refine ⟨hmem, fun _ hreturns => bne_iff_ne.mp hne ?_⟩
          exact (Event.returns.inj (List.mem_singleton.mp hreturns)).1

theorem Regular.of_mem_tickets_poll (h : q.Regular) (hn : n ∈ (q.poll now ticket).1.tickets) :
    n ∈ q.tickets ∧ ∀ result, .returns n result ∉ ((q.poll now ticket).2.map (Event.returns ticket)).toList := by
  obtain ⟨hmem, hreturns⟩ := of_mem_tickets_resume (h.giveUp _).nodup hn
  exact ⟨(q.tickets_giveUp _).subset hmem, hreturns⟩

theorem not_mem_freed (q q' : Queue) (k n : Nat) (result : PushResult) : Event.returns n result ∉ q.freed q' k := by
  intro hmem
  obtain ⟨taker, -, hfrees⟩ := List.mem_map.mp hmem
  cases hfrees

/-- A ticket is an old one whose push has not returned, or a new one. -/
theorem Regular.of_mem_tickets_apply (h : q.Regular) {op : Operation} (hn : n ∈ (q.apply op).tickets) :
    (n ∈ q.tickets ∨ q.nextTicket ≤ n) ∧ ∀ result, .returns n result ∉ q.events op := by
  cases op with
  | push t r =>
      refine ⟨?_, fun result hreturns => ?_⟩
      · cases hpush : q.push t r with
        | mk q' p =>
            have happly : q.apply (.push t r) = q' := congrArg Prod.fst hpush
            rw [happly] at hn
            cases p with
            | done result =>
                rw [(tickets_push_of_done hpush).1] at hn
                exact Or.inl hn
            | waits new =>
                obtain ⟨htickets, rfl, -⟩ := tickets_push_of_waits hpush
                refine (List.mem_append.mp (htickets.subset hn)).imp_right fun hnew => ?_
                exact Nat.le_of_eq (List.mem_singleton.mp hnew).symm
      · have hends := List.mem_singleton.mp hreturns
        cases hpush : (q.push t r).2 with
        | done result =>
            rw [hpush] at hends
            cases hends
        | waits ticket =>
            rw [hpush] at hends
            cases hends
  | resume ticket => exact (of_mem_tickets_resume h.nodup hn).imp_left Or.inl
  | expire t => exact ⟨Or.inl ((q.tickets_expire t).subset hn), not_mem_freed _ _ _ _⟩
  | close => exact ⟨Or.inl (q.tickets_close.subset hn), not_mem_freed _ _ _ _⟩
  | addProducer => exact ⟨Or.inl hn, not_mem_freed _ _ _ _⟩
  | dropProducer => exact ⟨Or.inl hn, not_mem_freed _ _ _ _⟩
  | tryRecv => exact ⟨Or.inl ((q.tickets_drain 1).1 ▸ hn), not_mem_freed _ _ _ _⟩
  | recv => exact ⟨Or.inl (q.tickets_recv.1 ▸ hn), not_mem_freed _ _ _ _⟩
  | drain k => exact ⟨Or.inl ((q.tickets_drain k).1 ▸ hn), not_mem_freed _ _ _ _⟩
  | recvBatch k => exact ⟨Or.inl ((q.tickets_recvBatch k).1 ▸ hn), not_mem_freed _ _ _ _⟩

/-! ## Watches -/

/-- A queue, the clock, and what has happened so far. -/
structure Watch where
  queue : Queue
  now : Instant
  log : Log := []
  deriving DecidableEq, Repr

namespace Watch

inductive Move where
  | act (op : Operation)
  /-- The turn of a push that waits has come. -/
  | poll (ticket : Nat)
  | elapse (t : Instant)
  /-- The consumer goes away. -/
  | abandon
  deriving DecidableEq, Repr

def start (o : QueueOptions) (now : Instant) : Watch :=
  { queue := .start o, now }

/-- No push can go on. -/
def rests (s : Watch) : Bool :=
  s.queue.resumable.isEmpty && s.queue.waiting.all (!·.isDue s.now)

/-- Whether something can happen. The clock waits for the pushes that can go on. -/
def allows (s : Watch) : Move → Bool
  | .act op => op.isAt s.now
  | .poll _ => true
  | .elapse t => s.rests && s.now.nanos ≤ t.nanos && s.queue.waiting.all (t.nanos ≤ ·.deadline.nanos)
  | .abandon => true

def happen (s : Watch) : Move → Watch
  | .act op => { s with queue := s.queue.apply op, log := s.log ++ (s.queue.events op).map (s.now, ·) }
  | .poll ticket =>
    let (queue, result) := s.queue.poll s.now ticket
    { s with queue, log := s.log ++ (result.map (Event.returns ticket)).toList.map (s.now, ·) }
  | .elapse t => { s with now := t }
  | .abandon => { s with queue := s.queue.abandon }

/-- What cannot happen does not. -/
def step (s : Watch) (m : Move) : Watch :=
  if s.allows m then s.happen m else s

def run (s : Watch) (ms : List Move) : Watch :=
  ms.foldl step s

/-- What a move hands to the consumer. -/
def given (s : Watch) : Move → List Record
  | .act op => s.queue.given op
  | _ => []

/-- What the consumer is handed in a run. -/
def handed (s : Watch) : List Move → List Record
  | [] => []
  | m :: ms => s.given m ++ (s.step m).handed ms

theorem run_cons (s : Watch) (m : Move) (ms : List Move) : s.run (m :: ms) = (s.step m).run ms := rfl

theorem run_append (s : Watch) (ms more : List Move) : s.run (ms ++ more) = (s.run ms).run more :=
  List.foldl_append

theorem handed_cons (s : Watch) (m : Move) (ms : List Move) :
    s.handed (m :: ms) = s.given m ++ (s.step m).handed ms := rfl

/-- What cannot happen hands out nothing. -/
theorem given_of_not_allows {s : Watch} {m : Move} (h : s.allows m = false) : s.given m = [] := by
  cases m with
  | act op =>
      cases op with
      | push t r => rfl
      | expire t => rfl
      | _ => cases h
  | _ => rfl

/-- The queue is as it should be, and the log agrees with it. -/
structure Watched (o : QueueOptions) (s : Watch) : Prop where
  regular : s.queue.Regular
  allotted : s.queue.Allotted o
  logged : Logged o s.now s.queue.line s.log
  /-- A push has its ticket only as long as it has not returned. -/
  untold : ∀ n ∈ s.queue.tickets, ∀ t result, (t, .returns n result) ∉ s.log

variable {s : Watch}

theorem rests_iff : s.rests = true ↔
    s.queue.granted = [] ∧ s.queue.failed = [] ∧ ∀ w ∈ s.queue.waiting, s.now.nanos < w.deadline.nanos := by
  simp [rests, resumable, Waiter.isDue, and_assoc]

theorem watched_start (o : QueueOptions) (now : Instant) : (start o now).Watched o :=
  ⟨regular_start o, allotted_start o, ⟨⟨nofun, .nil, nofun, nofun, nofun, fun hne => absurd rfl hne⟩, .nil,
    nofun, nofun, nofun, nofun, nofun⟩, nofun⟩

/-- Who returns has begun to wait, and its ticket is not given out again. -/
theorem Watched.not_mem_of_le (h : s.Watched o) (hn : s.queue.nextTicket ≤ n) : (t, .returns n result) ∉ s.log := by
  intro hmem
  obtain ⟨i, hi⟩ := List.getElem?_of_mem hmem
  have hbegun := (h.logged.returned i t n result hi).begun
  have hfresh := h.logged.fresh n (((List.take_sublist i s.log).filterMap _).subset hbegun)
  exact absurd hn (Nat.not_le_of_lt hfresh)

theorem Watched.untold_append (h : s.Watched o) {es : List Event}
    (hn : (n ∈ s.queue.tickets ∨ s.queue.nextTicket ≤ n) ∧ ∀ result, .returns n result ∉ es) (t : Instant)
    (result : PushResult) : (t, .returns n result) ∉ s.log ++ es.map (s.now, ·) := by
  intro hmem
  rcases List.mem_append.mp hmem with hold | hnew
  · exact hn.1.elim (fun hin => h.untold n hin t result hold) fun hle => h.not_mem_of_le hle hold
  · obtain ⟨e, he, hsame⟩ := List.mem_map.mp hnew
    cases hsame
    exact hn.2 result he

theorem Watched.act (h : s.Watched o) {op : Operation} (hat : op.isAt s.now = true) :
    (s.happen (.act op)).Watched o :=
  ⟨h.regular.apply op, h.allotted.apply h.regular op, h.logged.chain (chain_apply h.allotted hat),
    fun _ hn => h.untold_append (h.regular.of_mem_tickets_apply hn)⟩

theorem Watched.poll (h : s.Watched o) (ticket : Nat) : (s.happen (.poll ticket)).Watched o :=
  ⟨h.regular.poll s.now ticket, h.allotted.poll h.regular s.now ticket,
    h.logged.chain (chain_poll h.allotted h.regular s.now ticket),
    fun _ hn => h.untold_append ((h.regular.of_mem_tickets_poll hn).imp_left Or.inl)⟩

theorem Watched.elapse (h : s.Watched o) {t : Instant} (hallows : s.allows (.elapse t) = true) :
    (s.happen (.elapse t)).Watched o := by
  simp only [allows, Bool.and_eq_true, decide_eq_true_eq, List.all_eq_true] at hallows
  obtain ⟨⟨hrests, -⟩, hdue⟩ := hallows
  obtain ⟨hgranted, hfailed, -⟩ := rests_iff.mp hrests
  exact ⟨h.regular, h.allotted, h.logged.elapse hgranted hfailed hdue, h.untold⟩

theorem Watched.abandon (h : s.Watched o) : (s.happen .abandon).Watched o :=
  ⟨h.regular.abandon, h.allotted.abandon, h.logged.closed,
    fun n hn => h.untold n ((tickets_close { s.queue with buffered := [] }).subset hn)⟩

theorem Watched.step (h : s.Watched o) (m : Move) : (s.step m).Watched o := by
  unfold Watch.step
  split
  · next hallows =>
      cases m with
      | act op => exact h.act hallows
      | poll ticket => exact h.poll ticket
      | elapse t => exact h.elapse hallows
      | abandon => exact h.abandon
  · exact h

theorem Watched.run (h : s.Watched o) (ms : List Move) : (s.run ms).Watched o := by
  induction ms generalizing s with
  | nil => exact h
  | cons m ms ih => exact ih (h.step m)

end Watch

end LogIntake.Queue
