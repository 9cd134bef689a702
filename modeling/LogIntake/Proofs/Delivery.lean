import LogIntake.Proofs.Listener
import LogIntake.Proofs.Site
import Mathlib.Data.List.Nodup

/-!
# Records are delivered once and in order

The records that have been in the queue of a site are, connection by connection, the first records of the
bytes that have come on the connection, each once and in order. The invariant `Delivers` says so of every
conversation, and of its worker that it goes on from there; each move of the site keeps it.
-/

namespace LogIntake.Site

/-! ## The invariant -/

/-- The records of a conversation are those of these payloads, and its worker goes on from there. -/
structure Tells (s : Site) (c : Conversation) (ps : List Bytes) : Prop where
  records : s.records.filter (·.connection == c.connection) = c.records ps
  told : c.Told s.listener.options.worker ps
  serves : ∀ w ∈ s.intake.workers, w.connection = c.connection → w.Serves c s.intake.queue ps

structure Delivers (s : Site) : Prop where
  ticketed : s.intake.queue.Ticketed
  kept : s.consumer = true → s.abandoned = []
  gone : s.consumer = false → s.intake.queue.Shut ∧ s.intake.queue.buffered = []
  options : ∀ w ∈ s.intake.workers, w.options = s.listener.options.worker
  workers : (s.intake.workers.map (·.connection)).Nodup
  conversations : (s.conversations.map (·.connection)).Nodup
  fresh : ∀ c ∈ s.conversations, c.connection < s.listener.nextConnection
  served : ∀ w ∈ s.intake.workers, ∃ c ∈ s.conversations, c.connection = w.connection
  known : ∀ r ∈ s.records, ∃ c ∈ s.conversations, c.connection = r.connection
  told : ∀ c ∈ s.conversations, ∃ ps, s.Tells c ps

theorem delivers_start (o : ListenerOptions) (queue : QueueOptions) (localAddress : Option SocketAddress)
    (offers : List Offer) : (start o queue localAddress offers).Delivers := by
  refine ⟨?_, fun _ => rfl, ?_, ?_, List.nodup_nil, List.nodup_nil, ?_, ?_, ?_, ?_⟩
  · intro w hw; cases hw
  · intro hconsumer; cases hconsumer
  · intro w hw; cases hw
  · intro c hc; cases hc
  · intro w hw; cases hw
  · intro r hr; cases hr
  · intro c hc; cases hc

variable {s t : Site}

/-- Moves that concern neither workers nor conversations. -/
theorem Delivers.of_flow {taken given : List Record} (h : s.Delivers)
    (hflow : s.intake.queue.Flow t.intake.queue taken given) (hrecords : t.records = s.records)
    (hworkers : t.intake.workers = s.intake.workers) (hconversations : t.conversations = s.conversations)
    (hoptions : t.listener.options = s.listener.options)
    (hnext : t.listener.nextConnection = s.listener.nextConnection)
    (hkept : t.consumer = true → t.abandoned = [])
    (hgone : t.consumer = false → t.intake.queue.Shut ∧ t.intake.queue.buffered = []) : t.Delivers := by
  refine ⟨hflow.ticketed h.ticketed, hkept, hgone, ?_, ?_, ?_, ?_, ?_, ?_, ?_⟩
  · rw [hworkers, hoptions]; exact h.options
  · rw [hworkers]; exact h.workers
  · rw [hconversations]; exact h.conversations
  · rw [hconversations, hnext]; exact h.fresh
  · rw [hworkers, hconversations]; exact h.served
  · rw [hrecords, hconversations]; exact h.known
  · rw [hconversations]
    intro c hc
    obtain ⟨ps, htells⟩ := h.told c hc
    refine ⟨ps, ?_, ?_, fun w hw hconnection => ?_⟩
    · rw [hrecords]; exact htells.records
    · rw [hoptions]; exact htells.told
    · rw [hworkers] at hw
      exact (htells.serves w hw hconnection).of_flow hflow

/-! ## The consumer, time, and the signal to shut down -/

theorem Delivers.consume (h : s.Delivers) {queue : Queue} {records : List Record}
    (hflow : s.intake.queue.Flow queue [] records) : (s.consume queue records).Delivers := by
  unfold Site.consume
  split
  · next hconsumer =>
      have hbuffered := hflow.records
      rw [List.append_nil] at hbuffered
      refine h.of_flow hflow ?_ rfl rfl rfl rfl h.kept fun hgone => hflow.empty (h.gone hgone)
      simp only [Site.records, h.kept hconsumer, hbuffered, List.append_nil, List.append_assoc]
  · exact h

theorem Delivers.leave (h : s.Delivers) : (s.step .leave).Delivers := by
  refine h.of_flow s.intake.queue.flow_abandon ?_ rfl rfl rfl rfl (fun hconsumer => nomatch hconsumer)
    fun _ => ⟨s.intake.queue.shut_abandon, rfl⟩
  show s.handed ++ (s.abandoned ++ s.intake.queue.buffered) ++ [] = s.records
  rw [List.append_nil, ← List.append_assoc]
  rfl

theorem Delivers.stop (h : s.Delivers) : s.stop.Delivers :=
  h.of_flow (.refl _) rfl rfl rfl rfl rfl h.kept h.gone

theorem Delivers.release (h : s.Delivers) : s.release.Delivers :=
  h.of_flow (.refl _) rfl rfl rfl rfl rfl h.kept h.gone

theorem Delivers.elapse (h : s.Delivers) (t : Instant) : (s.step (.elapse t)).Delivers :=
  have hflow := s.intake.queue.flow_expire t
  h.of_flow hflow rfl rfl rfl rfl rfl h.kept fun hgone => hflow.empty (h.gone hgone)

/-! ## The listener -/

theorem Delivers.filter_records_eq_nil (h : s.Delivers) {connection : Nat}
    (hnew : s.listener.nextConnection ≤ connection) : s.records.filter (·.connection == connection) = [] := by
  refine List.filter_eq_nil_iff.mpr fun r hr => ?_
  obtain ⟨c, hc, hconnection⟩ := h.known r hr
  have hlt := h.fresh c hc
  rw [beq_iff_eq]
  omega

theorem nodup_concat {ns : List Nat} {n : Nat} (h : ns.Nodup) (hlt : ∀ m ∈ ns, m < n) : (ns ++ [n]).Nodup := by
  refine List.nodup_append.mpr ⟨h, List.nodup_cons.mpr ⟨List.not_mem_nil, List.nodup_nil⟩, fun m hm k hk => ?_⟩
  obtain rfl := List.mem_singleton.mp hk
  exact Nat.ne_of_lt (hlt m hm)

theorem Delivers.lt_nextConnection (h : s.Delivers) {w : Worker} (hw : w ∈ s.intake.workers) :
    w.connection < s.listener.nextConnection := by
  obtain ⟨c, hc, hconnection⟩ := h.served w hw
  rw [← hconnection]
  exact h.fresh c hc

/-- A connection has been taken on: there are its conversation and its worker, and all else is as it was. -/
structure Accepted (s t : Site) (peer : SocketAddress) (steps : List Source.Step) : Prop where
  options : t.listener.options = s.listener.options
  nextConnection : t.listener.nextConnection = s.listener.nextConnection + 1
  flow : s.intake.queue.Flow t.intake.queue [] []
  records : t.records = s.records
  consumer : t.consumer = s.consumer
  abandoned : t.abandoned = s.abandoned
  workers : t.intake.workers
    = s.intake.workers ++ [.start s.listener.nextConnection peer s.listener.options.worker steps]
  conversations : t.conversations
    = s.conversations ++ [{ connection := s.listener.nextConnection, peer, sent := (Source.mk steps none).content }]

variable {peer : SocketAddress} {steps : List Source.Step}

theorem Accepted.mem_workers (h : Accepted s t peer steps) {w : Worker} (hw : w ∈ t.intake.workers) :
    w ∈ s.intake.workers ∨ w = .start s.listener.nextConnection peer s.listener.options.worker steps := by
  rw [h.workers, List.mem_append, List.mem_singleton] at hw
  exact hw

theorem Tells.of_accepted {c : Conversation} {ps : List Bytes} (h : s.Tells c ps) (haccepted : Accepted s t peer steps)
    (hlt : c.connection < s.listener.nextConnection) : t.Tells c ps := by
  refine ⟨?_, ?_, fun w hw hconnection => ?_⟩
  · rw [haccepted.records]
    exact h.records
  · rw [haccepted.options]
    exact h.told
  · rcases haccepted.mem_workers hw with hold | rfl
    · exact (h.serves w hold hconnection).of_flow haccepted.flow
    · exact absurd hconnection (Nat.ne_of_gt hlt)

/-- A new connection has a number of its own, under which there is nothing yet. -/
theorem Delivers.tells_accepted (h : s.Delivers) (haccepted : Accepted s t peer steps) :
    t.Tells { connection := s.listener.nextConnection, peer, sent := (Source.mk steps none).content } [] := by
  have hstart := fun q => Worker.serves_start s.listener.nextConnection peer s.listener.options.worker steps q
  refine ⟨?_, ?_, fun w hw hconnection => ?_⟩
  · rw [haccepted.records]
    exact h.filter_records_eq_nil (Nat.le_refl _)
  · rw [haccepted.options]
    exact (hstart t.intake.queue).told
  · rcases haccepted.mem_workers hw with hold | rfl
    · exact absurd hconnection (Nat.ne_of_lt (h.lt_nextConnection hold))
    · exact hstart t.intake.queue

theorem Delivers.accepted (h : s.Delivers) (haccepted : Accepted s t peer steps) : t.Delivers := by
  refine ⟨haccepted.flow.ticketed h.ticketed, ?_, ?_, ?_, ?_, ?_, ?_, ?_, ?_, ?_⟩
  · rw [haccepted.consumer, haccepted.abandoned]
    exact h.kept
  · rw [haccepted.consumer]
    exact fun hgone => haccepted.flow.empty (h.gone hgone)
  · intro w hw
    rw [haccepted.options]
    rcases haccepted.mem_workers hw with hold | rfl
    · exact h.options w hold
    · rfl
  · rw [haccepted.workers, List.map_append]
    refine nodup_concat h.workers fun n hn => ?_
    obtain ⟨w, hw, rfl⟩ := List.mem_map.mp hn
    exact h.lt_nextConnection hw
  · rw [haccepted.conversations, List.map_append]
    refine nodup_concat h.conversations fun n hn => ?_
    obtain ⟨c, hc, rfl⟩ := List.mem_map.mp hn
    exact h.fresh c hc
  · rw [haccepted.conversations, haccepted.nextConnection]
    intro c hc
    rcases List.mem_append.mp hc with hc | hc
    · exact Nat.lt_succ_of_lt (h.fresh c hc)
    · obtain rfl := List.mem_singleton.mp hc
      exact Nat.lt_succ_self _
  · rw [haccepted.conversations]
    intro w hw
    rcases haccepted.mem_workers hw with hold | rfl
    · obtain ⟨c, hc, hconnection⟩ := h.served w hold
      exact ⟨c, List.mem_append_left _ hc, hconnection⟩
    · exact ⟨_, List.mem_append_right _ (List.mem_singleton.mpr rfl), rfl⟩
  · rw [haccepted.records, haccepted.conversations]
    intro r hr
    obtain ⟨c, hc, hconnection⟩ := h.known r hr
    exact ⟨c, List.mem_append_left _ hc, hconnection⟩
  · rw [haccepted.conversations]
    intro c hc
    rcases List.mem_append.mp hc with hc | hc
    · obtain ⟨ps, htells⟩ := h.told c hc
      exact ⟨ps, htells.of_accepted haccepted (h.fresh c hc)⟩
    · obtain rfl := List.mem_singleton.mp hc
      exact ⟨[], h.tells_accepted haccepted⟩

theorem Delivers.stepListener (h : s.Delivers) (allowance : Nat) : (s.stepListener allowance).Delivers := by
  have hstepped := Listener.stepped_step s.listener s.intake allowance
  unfold Site.stepListener
  generalize s.listener.step s.intake allowance = result at *
  obtain ⟨l, i, status⟩ := result
  simp only at hstepped ⊢
  cases hstepped with
  | idle options nextConnection accepted queue workers =>
      have hbegun : begun s.listener l = [] := if_pos accepted
      rw [hbegun, List.append_nil]
      have hflow : s.intake.queue.Flow i.queue [] [] := by
        rw [queue]
        exact .refl _
      refine h.of_flow hflow ?_ workers rfl options nextConnection h.kept fun hgone => hflow.empty (h.gone hgone)
      simp only [Site.records, queue]
  | served at_ peer steps rest offers options nextConnection accepted queue workers =>
      have hbegun : begun s.listener l
          = [{ connection := s.listener.nextConnection, peer, sent := (Source.mk steps none).content }] := by
        rw [begun, if_neg (by omega), offers]
      rw [hbegun]
      have hflow : s.intake.queue.Flow i.queue [] [] := by
        rw [queue]
        exact Queue.flow_addProducer _
      have hrecords : s.handed ++ s.abandoned ++ i.queue.buffered = s.records := by
        rw [queue]
        rfl
      exact h.accepted ⟨options, nextConnection, hflow, hrecords, rfl, rfl, workers, rfl⟩

/-! ## Workers -/

@[simp] theorem connection_advance (s : Site) (w : Worker) (allowance : Nat) (c : Conversation) :
    (s.advance w allowance c).connection = c.connection := by
  unfold advance
  split
  · rfl
  · rfl

theorem Delivers.eq_of_connection (h : s.Delivers) {c d : Conversation} (hc : c ∈ s.conversations)
    (hd : d ∈ s.conversations) (hconnection : c.connection = d.connection) : c = d :=
  List.inj_on_of_nodup_map h.conversations hc hd hconnection

/-- What a step leaves of the workers: the others, and the one that took it unless it has ended. -/
theorem mem_workers_stepped {i j : Intake} {w u : Worker} {turn : Worker.Turn} (h : i.Stepped w turn j)
    (hsame : ∀ v, turn.next.worker? = some v → v.connection = w.connection) (hu : u ∈ j.workers) :
    turn.next.worker? = some u ∨ (u ∈ i.workers ∧ u.connection ≠ w.connection) := by
  cases h with
  | left v next queue workers =>
      rw [workers] at hu
      rcases Intake.mem_replace hu with rfl | ⟨hold, hne⟩
      · exact Or.inl next
      · rw [hsame v next] at hne
        exact Or.inr ⟨hold, hne⟩
  | ended next queue workers =>
      rw [workers, List.mem_filter] at hu
      exact Or.inr ⟨hu.1, by simpa using hu.2⟩

theorem nodup_workers_stepped {i j : Intake} {w : Worker} {turn : Worker.Turn} (h : i.Stepped w turn j)
    (hnodup : (i.workers.map (·.connection)).Nodup) : (j.workers.map (·.connection)).Nodup := by
  cases h with
  | left v next queue workers =>
      rw [workers, Intake.map_connection_replace]
      exact hnodup
  | ended next queue workers =>
      rw [workers]
      exact hnodup.sublist (List.filter_sublist.map _)

theorem flow_stepped {i j : Intake} {w : Worker} {turn : Worker.Turn} (h : i.Stepped w turn j) :
    turn.queue.Flow j.queue [] [] := by
  cases h with
  | left v next queue workers =>
      rw [queue]
      exact .refl _
  | ended next queue workers =>
      rw [queue]
      exact turn.queue.flow_dropProducer

/-- A step of a worker, as the others and the conversations see it. -/
structure Advanced (s t : Site) (w : Worker) (c c' : Conversation) (ps : List Bytes) (added : Option Bytes) : Prop where
  flow : s.intake.queue.Flow t.intake.queue (added.toList.map (c.record ps.length)) []
  records : t.records = s.records ++ added.toList.map (c.record ps.length)
  told : c'.Told w.options (ps ++ added.toList)
  same : c'.records = c.records
  workers : ∀ u ∈ t.intake.workers, (u.options = w.options ∧ u.Serves c' t.intake.queue (ps ++ added.toList)) ∨
    (u ∈ s.intake.workers ∧ u.connection ≠ w.connection)
  nodup : (t.intake.workers.map (·.connection)).Nodup

theorem Delivers.advanced (h : s.Delivers) {w : Worker} (hw : w ∈ s.intake.workers) (allowance : Nat)
    {c : Conversation} (hcw : c.connection = w.connection) {ps : List Bytes} (htells : s.Tells c ps) :
    ∃ added, Advanced s { s with
      intake := (s.intake.stepWorker w allowance).1
      conversations := s.conversations.map (s.advance w allowance) } w c (s.advance w allowance c) ps added := by
  have hstepped := s.intake.stepped_stepWorker w allowance
  have hkeeps := (htells.serves w hw hcw.symm).step s.intake.now s.intake.stopping h.ticketed allowance
  obtain ⟨added, hflow, hevents, htold, hnext⟩ := hkeeps
  have hadvance : s.advance w allowance c = { c with
      received := c.received ++ w.readIn s.intake.now s.intake.stopping s.intake.queue allowance
      pushed := c.pushed + added.toList.length } := by
    rw [advance, if_pos hcw, hevents]
  have hflow' := hflow.trans_nil (flow_stepped hstepped)
  have hbuffered := hflow'.records
  refine ⟨added, hflow', ?_, ?_, ?_, fun u hu => ?_, nodup_workers_stepped hstepped h.workers⟩
  · rw [List.nil_append] at hbuffered
    rw [Site.records, ← hbuffered, ← List.append_assoc]
    rfl
  · rw [hadvance]
    exact htold
  · rw [hadvance]
    rfl
  · rcases mem_workers_stepped hstepped (fun v hv => (hnext v hv).2.connection.symm.trans hcw) hu with hv | hold
    · obtain ⟨hoptions, hserves⟩ := hnext u hv
      rw [hadvance]
      exact Or.inl ⟨hoptions, hserves.of_flow (flow_stepped hstepped)⟩
    · exact Or.inr hold

theorem Tells.advanced {w : Worker} {c c' : Conversation} {ps : List Bytes} {added : Option Bytes}
    (h : s.Tells c ps) (hadvanced : Advanced s t w c c' ps added) (hsame : c'.connection = c.connection)
    (hcw : c.connection = w.connection) (hoptions : w.options = t.listener.options.worker) :
    t.Tells c' (ps ++ added.toList) := by
  refine ⟨?_, ?_, fun u hu hconnection => ?_⟩
  · have hall : ∀ r ∈ added.toList.map (c.record ps.length), (r.connection == c.connection) = true := by
      intro r hr
      rw [Conversation.connection_of_mem_records hr, beq_self_eq_true]
    rw [hadvanced.records, hadvanced.same, hsame, List.filter_append, h.records, List.filter_eq_self.mpr hall,
      Conversation.records_append]
  · rw [← hoptions]
    exact hadvanced.told
  · rcases hadvanced.workers u hu with ⟨-, hserves⟩ | ⟨-, hne⟩
    · exact hserves
    · exact absurd (hconnection.trans (hsame.trans hcw)) hne

/-- The other conversations stay as they are. -/
theorem Tells.of_advanced {w : Worker} {c c' d : Conversation} {ps qs : List Bytes} {added : Option Bytes}
    (h : s.Tells d qs) (hadvanced : Advanced s t w c c' ps added) (hsame : c'.connection = c.connection)
    (hcw : c.connection = w.connection) (hne : d.connection ≠ w.connection)
    (hoptions : t.listener.options = s.listener.options) : t.Tells d qs := by
  refine ⟨?_, ?_, fun u hu hconnection => ?_⟩
  · have hnone : ∀ r ∈ added.toList.map (c.record ps.length), ¬ (r.connection == d.connection) = true := by
      intro r hr
      rw [Conversation.connection_of_mem_records hr, hcw, beq_iff_eq]
      exact hne.symm
    rw [hadvanced.records, List.filter_append, h.records, List.filter_eq_nil_iff.mpr hnone, List.append_nil]
  · rw [hoptions]
    exact h.told
  · rcases hadvanced.workers u hu with ⟨-, hserves⟩ | ⟨hold, -⟩
    · exact absurd (hconnection.symm.trans (hserves.connection.symm.trans (hsame.trans hcw))) hne
    · exact (h.serves u hold hconnection).of_flow hadvanced.flow

theorem Delivers.stepped (h : s.Delivers) {w : Worker} (hw : w ∈ s.intake.workers) (allowance : Nat) :
    Delivers { s with
      intake := (s.intake.stepWorker w allowance).1
      conversations := s.conversations.map (s.advance w allowance) } := by
  obtain ⟨c, hc, hcw⟩ := h.served w hw
  obtain ⟨ps, htells⟩ := h.told c hc
  obtain ⟨added, hadvanced⟩ := h.advanced hw allowance hcw htells
  refine ⟨hadvanced.flow.ticketed h.ticketed, h.kept, fun hgone => hadvanced.flow.empty (h.gone hgone), ?_,
    hadvanced.nodup, ?_, ?_, ?_, ?_, ?_⟩
  · intro u hu
    rcases hadvanced.workers u hu with ⟨hoptions, -⟩ | ⟨hold, -⟩
    · exact hoptions.trans (h.options w hw)
    · exact h.options u hold
  · have hsame : (s.conversations.map (s.advance w allowance)).map (·.connection)
        = s.conversations.map (·.connection) := by
      rw [List.map_map]
      exact List.map_congr_left fun d _ => connection_advance s w allowance d
    simp only [hsame]
    exact h.conversations
  · intro d hd
    obtain ⟨d₀, hd₀, rfl⟩ := List.mem_map.mp hd
    rw [connection_advance]
    exact h.fresh d₀ hd₀
  · intro u hu
    rcases hadvanced.workers u hu with ⟨-, hserves⟩ | ⟨hold, -⟩
    · exact ⟨s.advance w allowance c, List.mem_map_of_mem hc, hserves.connection⟩
    · obtain ⟨d, hd, hconnection⟩ := h.served u hold
      exact ⟨s.advance w allowance d, List.mem_map_of_mem hd, (connection_advance ..).trans hconnection⟩
  · intro r hr
    have hfound : ∃ d ∈ s.conversations, d.connection = r.connection := by
      rw [hadvanced.records] at hr
      rcases List.mem_append.mp hr with hold | hnew
      · exact h.known r hold
      · exact ⟨c, hc, (Conversation.connection_of_mem_records hnew).symm⟩
    obtain ⟨d, hd, hconnection⟩ := hfound
    exact ⟨s.advance w allowance d, List.mem_map_of_mem hd, (connection_advance ..).trans hconnection⟩
  · intro d hd
    obtain ⟨d₀, hd₀, rfl⟩ := List.mem_map.mp hd
    by_cases hd₀w : d₀.connection = w.connection
    · obtain rfl := h.eq_of_connection hd₀ hc (hd₀w.trans hcw.symm)
      exact ⟨_, htells.advanced hadvanced (connection_advance ..) hcw (h.options w hw)⟩
    · obtain ⟨qs, htells₀⟩ := h.told d₀ hd₀
      have hstill : s.advance w allowance d₀ = d₀ := if_neg hd₀w
      rw [hstill]
      exact ⟨qs, htells₀.of_advanced hadvanced (connection_advance ..) hcw hd₀w rfl⟩

/-! ## Runs -/

theorem Delivers.stepWorker (h : s.Delivers) {w : Worker} (hw : w ∈ s.intake.workers) (allowance : Nat) :
    (s.stepWorker w allowance).Delivers := by
  have hstepped := h.stepped hw allowance
  unfold Site.stepWorker
  simp only
  split
  · split
    · exact hstepped.stop.release
    · exact hstepped.release
  · split
    · exact hstepped.stop
    · exact hstepped

theorem Delivers.step (h : s.Delivers) (m : Move) : (s.step m).Delivers := by
  cases m with
  | listener allowance => exact h.stepListener allowance
  | worker connection allowance =>
      show ((s.intake.worker? connection).elim s (s.stepWorker · allowance)).Delivers
      cases hw : s.intake.worker? connection with
      | none => exact h
      | some w => exact h.stepWorker (List.mem_of_find?_eq_some hw) allowance
  | drain n => exact h.consume (s.intake.queue.flow_drain n)
  | tryRecv => exact h.consume s.intake.queue.flow_tryRecv
  | recv => exact h.consume s.intake.queue.flow_recv
  | recvBatch n => exact h.consume (s.intake.queue.flow_recvBatch n)
  | close => exact h.consume s.intake.queue.flow_close
  | leave => exact h.leave
  | stop => exact h.stop
  | elapse t => exact h.elapse t

theorem Delivers.run (h : s.Delivers) (moves : List Move) : (s.run moves).Delivers := by
  induction moves generalizing s with
  | nil => exact h
  | cons m moves ih => exact ih (h.step m)

/-! ## What has been delivered -/

theorem nodup_numbers {rs : List Record}
    (h : ∀ r ∈ rs, ((rs.filter (·.connection == r.connection)).map (·.sequence)).Nodup) :
    (rs.map fun r => (r.connection, r.sequence)).Nodup := by
  induction rs with
  | nil => exact List.nodup_nil
  | cons r rs ih =>
      have hrest : ∀ v ∈ rs, ((rs.filter (·.connection == v.connection)).map (·.sequence)).Nodup := fun v hv =>
        (h v (List.mem_cons_of_mem _ hv)).sublist (((List.sublist_cons_self r rs).filter _).map _)
      refine List.nodup_cons.mpr ⟨fun hmem => ?_, ih hrest⟩
      obtain ⟨v, hv, hsame⟩ := List.mem_map.mp hmem
      obtain ⟨hconnection, hsequence⟩ := Prod.mk.inj hsame
      have hown := h r List.mem_cons_self
      rw [List.filter_cons_of_pos (p := fun v : Record => v.connection == r.connection) (beq_self_eq_true _),
        List.map_cons, List.nodup_cons] at hown
      refine hown.1 (List.mem_map.mpr ⟨v, List.mem_filter.mpr ⟨hv, ?_⟩, hsequence⟩)
      exact beq_iff_eq.mpr hconnection

theorem options_step (s : Site) (m : Move) : (s.step m).listener.options = s.listener.options := by
  have hconsume : ∀ queue records, (s.consume queue records).listener.options = s.listener.options := by
    intro queue records
    unfold consume
    split
    · rfl
    · rfl
  cases m with
  | listener allowance =>
      cases Listener.stepped_step s.listener s.intake allowance with
      | idle options => exact options
      | served _ _ _ _ _ options => exact options
  | worker connection allowance =>
      show ((s.intake.worker? connection).elim s (s.stepWorker · allowance)).listener.options = s.listener.options
      cases s.intake.worker? connection with
      | none => rfl
      | some w =>
          simp only [Option.elim_some, stepWorker]
          split
          · split
            · rfl
            · rfl
          · split
            · rfl
            · rfl
  | leave => rfl
  | stop => rfl
  | elapse t => rfl
  | _ => exact hconsume _ _

theorem options_run (s : Site) (moves : List Move) : (s.run moves).listener.options = s.listener.options := by
  induction moves generalizing s with
  | nil => rfl
  | cons m moves ih => exact (ih (s.step m)).trans (options_step s m)

/-- What the consumer has been handed and what is left for it, when nothing has been thrown away. -/
theorem Delivers.records_of_consumer (h : s.Delivers) (hconsumer : s.consumer = true) :
    s.records = s.handed ++ s.intake.queue.buffered := by
  rw [Site.records, h.kept hconsumer, List.append_nil]

theorem Delivers.isPrefix (h : s.Delivers) : s.handed ++ s.intake.queue.buffered <+: s.records := by
  cases hconsumer : s.consumer with
  | true => exact h.records_of_consumer hconsumer ▸ List.prefix_refl _
  | false =>
      rw [Site.records, (h.gone hconsumer).2, List.append_nil, List.append_nil]
      exact List.prefix_append ..

theorem Delivers.numbered (h : s.Delivers) (connection : Nat) :
    ∃ n, (s.records.filter (·.connection == connection)).map (·.sequence) = List.range n := by
  by_cases hbegun : ∃ c ∈ s.conversations, c.connection = connection
  · obtain ⟨c, hc, rfl⟩ := hbegun
    obtain ⟨ps, htells⟩ := h.told c hc
    exact ⟨ps.length, by rw [htells.records, Conversation.map_sequence_records]⟩
  · have hnone : s.records.filter (·.connection == connection) = [] := by
      refine List.filter_eq_nil_iff.mpr fun r hr hconnection => hbegun ?_
      obtain ⟨c, hc, hr⟩ := h.known r hr
      exact ⟨c, hc, hr.trans (beq_iff_eq.mp hconnection)⟩
    exact ⟨0, by rw [hnone]; rfl⟩

theorem Delivers.nodup_numbers (h : s.Delivers) : (s.records.map fun r => (r.connection, r.sequence)).Nodup := by
  refine Site.nodup_numbers fun r _ => ?_
  obtain ⟨n, hn⟩ := h.numbered r.connection
  rw [hn]
  exact List.nodup_range

/-- Each record that has been in the queue was there once, and those of a connection are the first of what has
come on it, as many as its worker has pushed, in order. A consumer that is still there has been handed them or
finds them in the queue. -/
theorem delivered_once_in_order (o : ListenerOptions) (queue : QueueOptions) (localAddress : Option SocketAddress)
    (offers : List Offer) (moves : List Move) :
    let s := (start o queue localAddress offers).run moves
    s.handed ++ s.intake.queue.buffered <+: s.records ∧
      (s.consumer = true → s.records = s.handed ++ s.intake.queue.buffered) ∧
      (s.records.map fun r => (r.connection, r.sequence)).Nodup ∧
      (s.conversations.map (·.connection)).Nodup ∧
      (∀ r ∈ s.records, ∃ c ∈ s.conversations, c.connection = r.connection) ∧
      ∀ c ∈ s.conversations,
        let rs := s.records.filter (·.connection == c.connection)
        let frames := (c.parse o.worker).frames
        c.received <+: c.sent ∧
          (∀ r ∈ rs, r.peer = c.peer) ∧
          rs.map (·.sequence) = List.range c.pushed ∧
          c.pushed ≤ (payloads frames).length ∧
          rs.map (·.payload) = (payloads frames).take c.pushed ∧
          (o.worker.policy = .terminate → rs.map (·.payload) <+: payloads (frames.takeWhile Frame.isRecord)) := by
  intro s
  have h : s.Delivers := (delivers_start o queue localAddress offers).run moves
  have hoptions : s.listener.options = o := options_run _ moves
  refine ⟨h.isPrefix, h.records_of_consumer, h.nodup_numbers, h.conversations, h.known, fun c hc => ?_⟩
  obtain ⟨ps, htells⟩ := h.told c hc
  obtain ⟨hpushed, hsent, hframes, hterminate⟩ := htells.told
  rw [hoptions] at hframes hterminate
  simp only [htells.records, Conversation.map_sequence_records, Conversation.map_payload_records, hpushed]
  exact ⟨hsent, Conversation.peer_of_mem_records, trivial, hframes.length_le, List.prefix_iff_eq_take.mp hframes,
    hterminate⟩

end LogIntake.Site
