import LogIntake.Proofs.Connection.Worker

/-!
# What workers do to the queue

A step of a worker begins a push, ends the push that waits, or leaves the queue as it is (`Dealing`). A worker that
has been told to shut down begins no push but that of the record in its hand, and each step brings it nearer to its
end as long as its push does not wait (`nearer_step`).
-/

namespace LogIntake.Worker

/-- Whether a worker has a record in its hand. -/
def isHolding (w : Worker) : Bool :=
  match w.phase with
  | .holding _ => true
  | _ => false

/-- What a turn has to do with the queue. -/
inductive Dealing (w : Worker) (now : Instant) (stopping : Bool) (q : Queue) (t : Turn) : Prop where
  | leaves (queue : t.queue = q) (ticket : ∀ v, t.next.worker? = some v → v.ticket? = w.ticket?)
  | pushes (r : Record) (result : PushResult) (free : w.ticket? = none) (hand : stopping = true → w.isHolding = true)
      (push : q.push now r = (t.queue, .done result)) (ticket : ∀ v, t.next.worker? = some v → v.ticket? = none)
  | begins (r : Record) (n : Nat) (free : w.ticket? = none) (hand : stopping = true → w.isHolding = true)
      (push : q.push now r = (t.queue, .waits n)) (ticket : ∀ v, t.next.worker? = some v → v.ticket? = some n)
  | resumes (n : Nat) (result : PushResult) (holds : w.ticket? = some n)
      (resume : q.resume n = (t.queue, some result)) (ticket : ∀ v, t.next.worker? = some v → v.ticket? = none)

variable {w : Worker} {now deadline : Instant} {stopping : Bool} {q : Queue} {events : List Event} {allowance : Nat}

theorem Dealing.of_reader {reader : Reader} {t : Turn} (h : Dealing { w with reader } now stopping q t) :
    w.Dealing now stopping q t := by
  cases h with
  | leaves queue ticket => exact .leaves queue ticket
  | pushes r result free hand push ticket => exact .pushes r result free hand push ticket
  | begins r n free hand push ticket => exact .begins r n free hand push ticket
  | resumes n result holds resume ticket => exact .resumes n result holds resume ticket

/-- A turn after which the worker is in a phase without a ticket, or has ended. -/
theorem dealing_idle {t : Turn} (hfree : w.ticket? = none) (hqueue : t.queue = q)
    (hnext : ∀ v, t.next.worker? = some v → v.ticket? = none) : w.Dealing now stopping q t :=
  .leaves hqueue fun v hv => (hnext v hv).trans hfree.symm

theorem queue_afterPush (w : Worker) (q : Queue) (events : List Event) (allowance : Nat) (result : PushResult) :
    (w.afterPush q events allowance result).queue = q := by
  cases result with
  | taken => rfl
  | failed e => rfl

theorem ticket?_afterPush {result : PushResult} {v : Worker}
    (h : (w.afterPush q events allowance result).next.worker? = some v) : v.ticket? = none := by
  cases result with
  | taken =>
      obtain rfl := Option.some.inj h
      rfl
  | failed e => cases h

theorem dealing_handleRecord (hfree : w.ticket? = none) (hhand : stopping = true → w.isHolding = true)
    (payload : Bytes) : w.Dealing now stopping q (w.handleRecord now q events allowance payload) := by
  unfold handleRecord
  split
  · refine dealing_idle hfree rfl fun v hv => ?_
    obtain rfl := Option.some.inj hv
    rfl
  · split
    · next q' result hpush =>
        refine .pushes ⟨payload, w.peer, w.connection, w.records⟩ result hfree hhand ?_ fun v hv => ticket?_afterPush hv
        rw [queue_afterPush]
        exact hpush
    · next q' n hpush =>
        refine .begins _ n hfree hhand hpush fun v hv => ?_
        obtain rfl := Option.some.inj hv
        rfl

theorem dealing_handleMalformed (hfree : w.ticket? = none) (unit : Malformed) :
    w.Dealing now stopping q (w.handleMalformed q events allowance unit) := by
  unfold handleMalformed
  simp only
  split
  · refine dealing_idle hfree rfl fun v hv => ?_
    obtain rfl := Option.some.inj hv
    rfl
  · exact dealing_idle hfree rfl fun v hv => nomatch hv

theorem dealing_await (hfree : w.ticket? = none) {next : Worker → Next} (hnext : ∀ v, (next v).worker? = some v) :
    w.Dealing now stopping q (w.await now deadline q events allowance next) := by
  unfold await
  split
  · exact dealing_idle hfree rfl fun v hv => nomatch hv
  · refine dealing_idle hfree rfl fun v hv => ?_
    rw [hnext] at hv
    obtain rfl := Option.some.inj hv
    rfl

theorem dealing_begin (hfree : w.ticket? = none) :
    w.Dealing now stopping q (w.begin now deadline stopping q allowance) := by
  unfold begin
  split
  · exact .leaves rfl fun v hv => congrArg _ (Option.some.inj hv).symm
  · split
    · exact dealing_idle hfree rfl fun v hv => nomatch hv
    · next hgoing =>
        unfold takeFrame
        generalize w.reader.next now (w.newest? q) allowance = result
        have hread : { w with reader := result.reader }.ticket? = none := hfree
        simp only
        split
        · exact .of_reader (dealing_handleRecord hread (fun hstop => absurd hstop hgoing) _)
        · exact .of_reader (dealing_handleMalformed hread _)
        · exact dealing_idle hfree rfl fun v hv => nomatch hv
        · exact dealing_idle hfree rfl fun v hv => nomatch hv
        · exact dealing_idle hfree rfl fun v hv => nomatch hv
        · exact .of_reader (dealing_await hread fun _ => rfl)
        · exact .of_reader (dealing_await hread fun _ => rfl)

theorem dealing_step (w : Worker) (now : Instant) (stopping : Bool) (q : Queue) (allowance : Nat) :
    w.Dealing now stopping q (w.step now stopping q allowance) := by
  unfold Worker.step
  cases hphase : w.phase with
  | starting =>
      refine dealing_idle (by rw [ticket?, hphase]) rfl fun v hv => ?_
      obtain rfl := Option.some.inj hv
      rfl
  | ready => exact dealing_begin (by rw [ticket?, hphase])
  | waiting deadline => exact dealing_begin (by rw [ticket?, hphase])
  | holding payload => exact dealing_handleRecord (by rw [ticket?, hphase]) (fun _ => by rw [isHolding, hphase]) payload
  | pushing n =>
      have hholds : w.ticket? = some n := by rw [ticket?, hphase]
      simp only
      split
      · next q' result hresume =>
          refine .resumes n result hholds ?_ fun v hv => ticket?_afterPush hv
          rw [queue_afterPush]
          exact hresume
      · exact .leaves rfl fun v hv => congrArg _ (Option.some.inj hv).symm

/-! ## After the signal -/

/-- After how many steps a worker that has been told to shut down is at its end, if its push does not wait. -/
def distance (w : Worker) : Nat :=
  match w.phase with
  | .ready | .waiting _ => 1
  | .starting | .pushing _ => 2
  | .holding _ => 3

theorem distance_le (w : Worker) : w.distance ≤ 3 := by
  unfold distance
  split
  · exact Nat.le_add_left 1 2
  · exact Nat.le_add_left 1 2
  · exact Nat.le_add_left 2 1
  · exact Nat.le_add_left 2 1
  · exact Nat.le_refl 3

theorem distance_of_isHolding (h : w.isHolding = true) : w.distance = 3 := by
  unfold isHolding at h
  unfold distance
  cases hphase : w.phase with
  | holding payload => rfl
  | _ => simp [hphase] at h

/-- A worker waits in a push to which the queue has no answer yet. -/
def Waits (w : Worker) (q : Queue) : Prop :=
  ∃ n, w.phase = .pushing n ∧ (q.resume n).2 = none

theorem nearer_handleRecord {payload : Bytes} (hphase : w.phase = .holding payload) {v : Worker}
    (hv : (w.handleRecord now q events allowance payload).next.worker? = some v) :
    (v = w ∧ allowance = 0) ∨ v.distance < w.distance := by
  have hfar : w.distance = 3 := distance_of_isHolding (by rw [isHolding, hphase])
  unfold handleRecord at hv
  split at hv
  · next hspent =>
      obtain rfl := Option.some.inj hv
      exact Or.inl ⟨by rw [← hphase], hspent.2⟩
  · refine Or.inr ?_
    rw [hfar]
    split at hv
    · next result _ =>
        cases result with
        | taken =>
            obtain rfl := Option.some.inj hv
            exact Nat.lt_of_sub_eq_succ rfl
        | failed e => cases hv
    · obtain rfl := Option.some.inj hv
      exact Nat.lt_succ_self 2

/-- A worker that has been told to shut down ends or comes nearer to its end, unless it has no allowance or its push
waits. -/
theorem nearer_step {v : Worker} (hv : (w.step now true q allowance).next.worker? = some v) :
    (v = w ∧ (allowance = 0 ∨ w.Waits q)) ∨ v.distance < w.distance := by
  have hbegin {deadline : Instant} (hbegun : (w.begin now deadline true q allowance).next.worker? = some v) :
      v = w ∧ allowance = 0 := by
    unfold begin at hbegun
    split at hbegun
    · next hspent => exact ⟨(Option.some.inj hbegun).symm, hspent⟩
    · cases hbegun
  unfold Worker.step at hv
  cases hphase : w.phase with
  | starting =>
      rw [hphase] at hv
      obtain rfl := Option.some.inj hv
      refine Or.inr ?_
      simp only [distance, hphase]
      exact Nat.lt_succ_self 1
  | ready =>
      rw [hphase] at hv
      exact Or.inl ((hbegin hv).imp_right Or.inl)
  | waiting deadline =>
      rw [hphase] at hv
      exact Or.inl ((hbegin hv).imp_right Or.inl)
  | holding payload =>
      rw [hphase] at hv
      exact (nearer_handleRecord hphase hv).imp_left fun h => h.imp_right Or.inl
  | pushing n =>
      rw [hphase] at hv
      simp only at hv
      split at hv
      · next result _ =>
          cases result with
          | taken =>
              obtain rfl := Option.some.inj hv
              refine Or.inr ?_
              simp only [distance, hphase]
              exact Nat.lt_succ_self 1
          | failed e => cases hv
      · next q' hnone => exact Or.inl ⟨(Option.some.inj hv).symm, Or.inr ⟨n, hphase, by rw [hnone]⟩⟩

end LogIntake.Worker
