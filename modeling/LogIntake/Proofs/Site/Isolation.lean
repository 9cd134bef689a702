import LogIntake.Proofs.Execution
import LogIntake.Proofs.Site.Fares

/-!
# Connections do not disturb each other

In two runs of a listener the same script of offers may bring different things on the connections. A connection on
which the same comes, and whose pushes find room at once, ends alike in both. No connection ends the listener.
-/

namespace LogIntake

theorem ok_of_bind_ok {first : Except IntakeError Unit} {next : Unit → Except IntakeError Unit}
    (h : (first >>= next) = .ok ()) : next () = .ok () := by
  cases first with
  | ok passed => exact h
  | error e => cases h

theorem ListenerOptions.readTimeout_pos {o : ListenerOptions} (h : o.validate = .ok ()) :
    0 < o.worker.readTimeout.nanos := by
  have hworker : o.worker.validate = .ok () := ok_of_bind_ok (ok_of_bind_ok (ok_of_bind_ok h))
  have htimeout : require (!o.worker.readTimeout.isZero) "read_timeout" "must be greater than 0" = .ok () :=
    ok_of_bind_ok (ok_of_bind_ok hworker)
  cases hzero : o.worker.readTimeout.isZero with
  | false => exact Nat.pos_of_ne_zero (by simpa [Duration.isZero] using hzero)
  | true =>
      rw [hzero] at htimeout
      cases htimeout

namespace Site

variable {s : Site} {o : ListenerOptions} {as : List Listener.Admission} {connection : Nat} {t : Terms} {v : Verdict}
  {cutoff : Option Cutoff}

/-- The connection for which a worker has begun when the offer `k` was taken. -/
def connection? (s : Site) (moves : List Move) (k : Nat) : Option Nat :=
  ((s.admissions moves)[k]?.bind (·.begun.head?)).map (·.connection)

def closingsOf (s : Site) (connection : Nat) : List Closing :=
  s.intake.ledger.closings.filter (·.summary.connection == connection)

/-- The signal is not given late. -/
def Timely (s : Site) (cutoff : Option Cutoff) : Prop :=
  s.intake.stopping = false → ∀ c, cutoff = some c → s.intake.now.nanos ≤ c.at_.nanos

theorem Timely.step (h : s.Timely cutoff) {m : Move} (hheeds : s.heeds connection cutoff m = true) :
    (s.step m).Timely cutoff := by
  intro hquiet
  have hbefore : s.intake.stopping = false := by
    cases hstopping : s.intake.stopping with
    | false => rfl
    | true => cases hquiet.symm.trans (stopping_step hstopping m)
  rcases s.now_step m with ⟨later, rfl⟩ | hnow
  · exact le_of_heeds hheeds hbefore
  · rw [hnow]
    exact h hbefore

theorem Timely.run (h : s.Timely cutoff) {moves : List Move} (hsuits : s.suits connection cutoff moves = true) :
    (s.run moves).Timely cutoff := by
  induction moves generalizing s with
  | nil => exact h
  | cons m moves ih =>
      simp only [suits, Bool.and_eq_true] at hsuits
      exact ih (h.step hsuits.1.1) hsuits.2

theorem Fares.exists_closing (h : s.Fares connection t v) (hadmits : s.listener.Admits o s.intake as)
    (htimely : s.Timely t.cutoff) (hconnection : 0 < connection) (hlate : v.at_.nanos < s.intake.now.nanos) :
    s.closingsOf connection ≠ [] := by
  have hknown := h.known
  rw [hadmits.nextConnection] at hknown
  have hroll : connection ∈ s.intake.roll := hadmits.roll.mem_iff.mpr (List.mem_range'_1.mpr (by omega))
  rcases List.mem_append.mp hroll with hended | hserved
  · obtain ⟨k, hk, rfl⟩ := List.mem_map.mp hended
    exact List.ne_nil_of_mem (List.mem_filter.mpr ⟨hk, beq_self_eq_true _⟩)
  · obtain ⟨w, hw, rfl⟩ := List.mem_map.mp hserved
    have hle := (h.works w hw rfl).le htimely
    omega

theorem zipIdx_isPrefix {α : Type} {as bs : List α} (h : as <+: bs) : as.zipIdx <+: bs.zipIdx := by
  obtain ⟨more, rfl⟩ := h
  rw [List.zipIdx_append]
  exact List.prefix_append ..

/-- How a connection has come to where it is in the end of a run. -/
structure Course (o : ListenerOptions) (offers : List Offer) (k : Nat) (cutoff : Option Cutoff) (s : Site)
    (connection : Nat) : Prop where
  positive : 0 < connection
  admits : ∃ as, s.listener.Admits o s.intake as
  delivers : s.Delivers
  timely : s.Timely cutoff
  fares : ∃ peer steps begin_, (offers[k]?).map (·.accepted) = some (.connection peer steps) ∧
    (Listener.timetable o.acceptBackoff ⟨0⟩ offers)[k]? = some begin_ ∧
    s.Fares connection ⟨o.worker, peer, cutoff⟩ (Terms.verdict ⟨o.worker, peer, cutoff⟩ steps begin_) ∧
    s.Carries connection (Source.mk steps none).content

theorem after_map_own (s : Site) (moves : List Move) : s.after (moves.map .own) = s.run moves :=
  List.foldl_map

theorem course_run (o : ListenerOptions) (qo : QueueOptions) (localAddress : Option SocketAddress)
    (offers : List Offer) (moves : List Move) (k : Nat) (hvalid : o.validate = .ok ())
    (htimed : (start o qo localAddress offers).isTimed (moves.map .own) = true)
    (hbegun : (start o qo localAddress offers).connection? moves k = some connection)
    (hsuits : (start o qo localAddress offers).suits connection cutoff moves = true) :
    Course o offers k cutoff ((start o qo localAddress offers).run moves) connection := by
  obtain ⟨w, hw, rfl⟩ := Option.map_eq_some_iff.mp hbegun
  obtain ⟨a, ha, hhead⟩ := Option.bind_eq_some_iff.mp hw
  have hprompt : (start o qo localAddress offers).Prompt ⟨0⟩ := ⟨Listener.prompt_start o localAddress offers, rfl⟩
  obtain ⟨before, allowance, after, ⟨rfl, hadmission, hoffer, hquiet⟩, htime⟩ := hprompt.exists_admission htimed ha
  have hadmits := admits_run (Listener.admits_start o localAddress offers (.start qo)) before
    (s := start o qo localAddress offers)
  have hdelivers := (delivers_start o qo localAddress offers).run before
  have htimely : (start o qo localAddress offers).Timely cutoff := fun _ _ _ => Nat.zero_le _
  have hlate := htimely.run hsuits
  obtain ⟨peer, steps, haccepted, hbegins⟩ := begins_of_admission hadmission (List.mem_of_mem_head? hhead)
  rw [List.map_append, isTimed_append, after_map_own, Bool.and_eq_true] at htimed
  rw [suits_append, Bool.and_eq_true] at hsuits
  obtain ⟨-, htimed⟩ := htimed
  obtain ⟨-, hsuits⟩ := hsuits
  simp only [List.map_cons, isTimed, Bool.and_eq_true] at htimed
  simp only [suits, Bool.and_eq_true] at hsuits
  rw [run_append] at hlate ⊢
  have hnext := admits_step hadmits (.listener allowance)
  have hfares := (hbegins.fares hadmits hquiet cutoff).run (ListenerOptions.readTimeout_pos hvalid) htimed.2 hsuits.2
  have hcarries := (hbegins.carries hadmits).run hnext (hdelivers.step _) after
  refine ⟨?_, ⟨_, admits_run hnext after⟩, (hdelivers.step _).run after, hlate, peer, steps, _, ?_, htime, hfares,
    hcarries⟩
  · rw [hbegins.worker]
    show 0 < ((start o qo localAddress offers).run before).listener.nextConnection
    rw [hadmits.nextConnection]
    exact Nat.succ_pos _
  · rw [← haccepted]
    exact hoffer

def sharingOptions : ListenerOptions :=
  { worker := { framing := .octetCounting, recvBufferSize := 5 } }

def sharingOffers (others own : List Source.Step) : List Offer :=
  [⟨⟨0⟩, .connection (.v4 ⟨192, 0, 2, 20⟩ 50000) others⟩, ⟨⟨0⟩, .connection (.v4 ⟨192, 0, 2, 10⟩ 40000) own⟩]

def sharing (others own : List Source.Step) : Site :=
  start sharingOptions {} none (sharingOffers others own)

end Site

end LogIntake
