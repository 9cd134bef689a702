import LogIntake.Proofs.Connection.Balance
import LogIntake.Proofs.Connection.Prospect
import LogIntake.Proofs.Connection.Sound

/-!
# What workers attend to

A step of a worker does what its phase asks for (`Does`). If it looks at the connection, it finds what is heard of
the prospect there and deals with that (`Finds`). So all the time what a worker has before it is what is to come of
the connection behind the frames that it has taken (`Attends`).
-/

namespace LogIntake

/-! ## What is to come behind frames -/

namespace Prospect

def Heard.frame? : Heard → Option Frame
  | .frame f _ => some f
  | _ => none

/-- What is to come behind the next frame. -/
def next : Prospect → Prospect
  | .frame _ rest => rest
  | .pause _ rest => rest.next
  | p => p

/-- What is to come behind so many frames. -/
def beyond (p : Prospect) : Nat → Prospect
  | 0 => p
  | n + 1 => (p.beyond n).next

/-- What is to come when so much has been heard is what was to come before. -/
def Heard.Leaves (p : Prospect) : Heard → Prop
  | .frame _ rest => p.next = rest
  | .blocked rest _ | .spent rest _ => p.next = rest.next
  | _ => True

theorem leaves_hear (p : Prospect) (now : Instant) (pausedUntil : Option Instant) (allowance : Nat) :
    (p.hear now pausedUntil allowance).Leaves p := by
  induction p generalizing pausedUntil allowance with
  | frame f rest => rfl
  | pause span rest ih =>
      unfold hear
      simp only
      split
      · rfl
      · split
        · exact ih none (allowance - 1)
        · rfl
  | silence => rfl
  | _ => trivial

end Prospect

def Assignment.prospect (a : Assignment) : Prospect :=
  a.options.framing.prospect a.options.maxRecordSize [] a.steps

/-! ## Readers that wait -/

/-- A source that gives nothing at this point of time: it is silent for good, or a pause that has begun is not over. -/
inductive Source.Stalled (now : Instant) : Source → Prop where
  | silence (rest : List Step) : Stalled now ⟨.silence :: rest, none⟩
  | pause (span : Duration) (stop : Instant) (rest : List Step) (later : now.nanos < stop.nanos) :
      Stalled now ⟨.pause span :: rest, some stop⟩

theorem Source.stalled_of_blocked {now : Instant} {room : Nat} {pausedUntil : Option Instant} {signalled : Bool}
    {allowance : Nat} {steps : List Step}
    (h : (readSteps now room pausedUntil signalled allowance steps).result = .blocked) :
    (readSteps now room pausedUntil signalled allowance steps).rest.Stalled now := by
  induction steps generalizing pausedUntil signalled allowance with
  | nil => cases h
  | cons step rest ih =>
      cases step with
      | data bytes =>
          unfold readSteps at h ⊢
          split at h
          · next hnil =>
              rw [if_pos hnil]
              exact ih h
          · split at h
            · cases h
            · cases h
      | pause span =>
          unfold readSteps at h ⊢
          simp only at h ⊢
          split at h
          · cases h
          · next hspare =>
              rw [if_neg hspare]
              split at h
              · next hover =>
                  rw [if_pos hover]
                  exact ih h
              · next hlater =>
                  rw [if_neg hlater]
                  exact .pause span _ rest (Nat.not_le.mp hlater)
      | failure cause => cases h
      | signal => exact ih h
      | silence => exact .silence rest

/-- However often one looks, there is nothing, and nothing changes. -/
theorem Source.Stalled.read {s : Source} {now : Instant} (h : s.Stalled now) (room : Nat) {n : Nat} (hn : n ≠ 0) :
    s.read now room n = ⟨s, .blocked, false, n⟩ := by
  cases h with
  | silence rest => rfl
  | pause span stop rest later =>
      simp only [Source.read, readSteps, Option.getD_some, if_neg hn, if_neg (Nat.not_le.mpr later)]

theorem Source.Stalled.due?_eq {s : Source} {now : Instant} (h : s.Stalled now) : s.due? = s.pausedUntil := by
  cases h with
  | silence rest => rfl
  | pause span stop rest later => rfl

namespace Reader

/-- A reader finds nothing at a point of time, as often as it looks; if it waits for the end of a pause, that is the one
in front. -/
structure Still (r : Reader) (now : Instant) : Prop where
  next : ∀ newest n, n ≠ 0 → r.next now newest n = ⟨r, .blocked, false, n⟩
  due : r.source.due? = r.source.pausedUntil

variable {r : Reader} {now : Instant} {newest : Option Nat} {signalled : Bool} {allowance : Nat}

theorem reserve_of_room {n : Nat} (h : n ≤ r.storage.room r.decoder.buffer.length) (newest : Option Nat) :
    r.reserve newest n = r := by
  rw [reserve, Storage.reserve, if_pos h]

/-- A reader that has made room for what it needs has room. -/
theorem room_of_reserve (r : Reader) (newest : Option Nat) (n : Nat) :
    max n 1 ≤ ((r.reserve newest n).reserve newest 1).storage.room r.decoder.buffer.length := by
  have hfirst : n ≤ (r.reserve newest n).storage.room r.decoder.buffer.length := Storage.le_room_reserve ..
  have hsecond : 1 ≤ ((r.reserve newest n).reserve newest 1).storage.room r.decoder.buffer.length :=
    Storage.le_room_reserve ..
  cases n with
  | zero => exact hsecond
  | succ n =>
      rw [reserve_of_room (r := r.reserve newest (n + 1)) (Nat.le_trans (Nat.le_add_left 1 n) hfirst)]
      exact Nat.max_le.mpr ⟨hfirst, Nat.le_trans (Nat.le_add_left 1 n) hfirst⟩

theorem finish_arrives (r : Reader) (signalled : Bool) (allowance : Nat) :
    (r.finish signalled allowance).arrival ≠ .blocked ∧ (r.finish signalled allowance).arrival ≠ .spent := by
  unfold finish
  split
  · exact ⟨Arrival.noConfusion, Arrival.noConfusion⟩
  · exact ⟨Arrival.noConfusion, Arrival.noConfusion⟩
  · exact ⟨Arrival.noConfusion, Arrival.noConfusion⟩

theorem still_of_stalled (hstage : r.stage = .filling)
    (hroom : max r.decoder.wanted 1 ≤ r.storage.room r.decoder.buffer.length) (h : r.source.Stalled now) :
    r.Still now := by
  refine ⟨fun newest n hn => ?_, h.due?_eq⟩
  obtain ⟨hwanted, hone⟩ := Nat.max_le.mp hroom
  have hready : (r.reserve newest r.decoder.wanted).reserve newest 1 = r := by
    rw [reserve_of_room hwanted, reserve_of_room hone]
  rw [Reader.next, hstage]
  simp only
  rw [fill]
  simp only [hready, h.read _ hn]
  split
  case h_4 => rfl
  all_goals next heq => rw [h.read _ hn] at heq; cases heq

/-- A reader that waits has handed out all that it has received, and if it waits for the clock it goes on to wait. -/
theorem waits_fill (hstage : r.stage = .filling) :
    ((fill now newest r signalled allowance).arrival = .blocked →
        (fill now newest r signalled allowance).reader.Still now) ∧
      ((fill now newest r signalled allowance).arrival = .blocked ∨
          (fill now newest r signalled allowance).arrival = .spent →
        (fill now newest r signalled allowance).reader.stage = .filling) := by
  fun_induction fill now newest r signalled allowance with
  | case1 => exact ⟨Arrival.noConfusion, fun h => h.elim Arrival.noConfusion Arrival.noConfusion⟩
  | case2 r signalled allowance ready reading _ _ bytes hbytes fed d hd ih => exact ih (stage_settle ..)
  | case3 => exact ⟨Arrival.noConfusion, fun h => h.elim Arrival.noConfusion Arrival.noConfusion⟩
  | case4 r signalled allowance ready reading _ rest =>
      obtain ⟨hblocked, hspent⟩ := finish_arrives rest (signalled || reading.signalled) reading.allowance
      exact ⟨fun h => absurd h hblocked, fun h => (h.elim hblocked hspent).elim⟩
  | case5 => exact ⟨Arrival.noConfusion, fun h => h.elim Arrival.noConfusion Arrival.noConfusion⟩
  | case6 r signalled allowance ready reading _ rest hblocked =>
      have hroom := r.room_of_reserve newest r.decoder.wanted
      exact ⟨fun _ => still_of_stalled hstage hroom (Source.stalled_of_blocked hblocked), fun _ => hstage⟩
  | case7 => exact ⟨Arrival.noConfusion, fun _ => hstage⟩

theorem waits_next (r : Reader) (now : Instant) (newest : Option Nat) (allowance : Nat) :
    ((r.next now newest allowance).arrival = .blocked → (r.next now newest allowance).reader.Still now) ∧
      ((r.next now newest allowance).arrival = .blocked ∨ (r.next now newest allowance).arrival = .spent →
        (r.next now newest allowance).reader.stage = .filling) := by
  unfold Reader.next
  cases hstage : r.stage with
  | filling => exact waits_fill hstage
  | ending =>
      obtain ⟨hblocked, hspent⟩ := r.finish_arrives false allowance
      exact ⟨fun h => absurd h hblocked, fun h => (h.elim hblocked hspent).elim⟩
  | framing =>
      simp only
      split
      · exact ⟨Arrival.noConfusion, fun h => h.elim Arrival.noConfusion Arrival.noConfusion⟩
      · exact waits_fill (stage_settle ..)
      · exact ⟨Arrival.noConfusion, fun h => h.elim Arrival.noConfusion Arrival.noConfusion⟩

theorem Result.Renders.frame?_eq {result : Result} {framing : Framing} {limit : Nat} {heard : Prospect.Heard}
    (h : result.Renders framing limit heard) : result.arrival.frame? = heard.frame? := by
  cases heard with
  | frame f rest => rw [h.1]; rfl
  | ended tail => rw [h.1]; rfl
  | failed cause => rw [h.1]; rfl
  | desync =>
      obtain ⟨⟨reason, harrival⟩, -⟩ := h
      rw [harrival]
      rfl
  | blocked rest until_ => rw [h.1]; rfl
  | spent rest until_ => rw [h.1]; rfl

end Reader

/-! ## Steps of a worker -/

namespace Worker

/-- What a turn makes of a result that is what is heard of the prospect. -/
inductive Finds (w : Worker) (now deadline : Instant) (q : Queue) (framing : Framing) (limit : Nat)
    (result : Reader.Result) : Prospect.Heard → Turn → Prop where
  | record {rest : Prospect} (payload : Bytes) (events : List Event)
      (arrival : result.arrival = .frame (.record payload)) (plays : result.reader.Plays framing limit rest)
      (due : result.reader.source.due? = none) (quiet : Quiet events) :
      Finds w now deadline q framing limit result (.frame (.record payload) rest)
        ({ w with reader := result.reader }.handleRecord now q events result.allowance payload)
  | malformed {rest : Prospect} (unit : Malformed) (events : List Event)
      (arrival : result.arrival = .frame (.malformed unit)) (plays : result.reader.Plays framing limit rest)
      (due : result.reader.source.due? = none) (quiet : Quiet events) :
      Finds w now deadline q framing limit result (.frame (.malformed unit) rest)
        ({ w with reader := result.reader }.handleMalformed q events result.allowance unit)
  | ended (events : List Event) (quiet : Quiet events) :
      Finds w now deadline q framing limit result (.ended result.reader.decoder.discarded)
        ⟨q, { w with reader := result.reader }.close .eof none, events, result.allowance⟩
  | failed (cause : IoError) (events : List Event) (whole : result.reader.decoder.discarded = 0)
      (quiet : Quiet events) : Finds w now deadline q framing limit result (.failed cause)
        ⟨q, { w with reader := result.reader }.close .io (some (.connection w.peer cause)), events, result.allowance⟩
  | desync (reason : String) (events : List Event) (whole : result.reader.decoder.discarded = 0)
      (quiet : Quiet events) : Finds w now deadline q framing limit result .desync
        ⟨q, { w with reader := result.reader }.close .framing (some (.framing w.peer reason)), events,
          result.allowance⟩
  | blocked {rest : Prospect} (events : List Event) (arrival : result.arrival = .blocked)
      (plays : result.reader.Plays framing limit rest) (filling : result.reader.stage = .filling)
      (still : result.reader.Still now) (quiet : Quiet events) :
      Finds w now deadline q framing limit result (.blocked rest result.reader.source.due?)
        ({ w with reader := result.reader }.await now deadline q events result.allowance .blocked)
  | spent {rest : Prospect} (events : List Event) (arrival : result.arrival = .spent)
      (plays : result.reader.Plays framing limit rest) (filling : result.reader.stage = .filling)
      (quiet : Quiet events) : Finds w now deadline q framing limit result (.spent rest result.reader.source.due?)
        ({ w with reader := result.reader }.await now deadline q events result.allowance .spent)

/-- Until when a worker looks at its connection, if it does. -/
def deadline? (w : Worker) (now : Instant) : Option Instant :=
  match w.phase with
  | .ready => some (now.plus w.options.readTimeout)
  | .waiting deadline => some deadline
  | _ => none

/-- What a step does for which so much is to come, and the frame that it takes. -/
inductive Does (w : Worker) (now : Instant) (stopping : Bool) (q : Queue) (framing : Framing) (limit : Nat)
    (p : Prospect) (allowance : Nat) : Option Frame → Turn → Prop where
  | starts (phase : w.phase = .starting) : Does w now stopping q framing limit p allowance none
      ⟨q, .goesOn { w with phase := .ready }, [.started], allowance⟩
  | spends {deadline : Instant} (looks : w.deadline? now = some deadline) (spent : allowance = 0) :
      Does w now stopping q framing limit p allowance none ⟨q, .spent w, [], 0⟩
  | stops {deadline : Instant} (looks : w.deadline? now = some deadline) (spare : allowance ≠ 0)
      (told : stopping = true) : Does w now stopping q framing limit p allowance none
      ⟨q, w.close .shutdown none, [], allowance⟩
  | finds {deadline : Instant} {t : Turn} (looks : w.deadline? now = some deadline) (spare : allowance ≠ 0)
      (running : stopping = false)
      (found : w.Finds now deadline q framing limit (w.reader.next now (w.newest? q) allowance)
        (p.hear now w.reader.source.due? allowance) t) :
      Does w now stopping q framing limit p allowance (p.hear now w.reader.source.due? allowance).frame? t
  | pushes (payload : Bytes) (phase : w.phase = .holding payload) :
      Does w now stopping q framing limit p allowance none (w.handleRecord now q [] allowance payload)
  | resumes (ticket : Nat) (q' : Queue) (result : PushResult) (phase : w.phase = .pushing ticket)
      (resume : q.resume ticket = (q', some result)) :
      Does w now stopping q framing limit p allowance none (w.afterPush q' [] (allowance - 1) result)
  | waits (ticket : Nat) (phase : w.phase = .pushing ticket) (unsettled : (q.resume ticket).2 = none) :
      Does w now stopping q framing limit p allowance none ⟨q, .blocked w, [], allowance⟩

variable {w : Worker} {now deadline : Instant} {stopping : Bool} {q : Queue} {framing : Framing} {limit : Nat}
  {p : Prospect} {allowance : Nat} {events : List Event}

theorem quiet_signalled (signalled : Bool) : Quiet (if signalled then [.signalled] else []) := by
  cases signalled with
  | true => exact ⟨rfl, rfl⟩
  | false => exact ⟨rfl, rfl⟩

theorem finds_takeFrame (h : w.reader.Plays framing limit p) (now deadline : Instant) (q : Queue) (allowance : Nat) :
    w.Finds now deadline q framing limit (w.reader.next now (w.newest? q) allowance)
      (p.hear now w.reader.source.due? allowance) (w.takeFrame now deadline q allowance) := by
  have hrenders := h.next now (w.newest? q) allowance
  have hwaits := w.reader.waits_next now (w.newest? q) allowance
  unfold takeFrame
  generalize w.reader.next now (w.newest? q) allowance = result at *
  have hquiet := quiet_signalled result.signalled
  simp only
  generalize (if result.signalled then [Event.signalled] else []) = events at *
  generalize p.hear now w.reader.source.due? allowance = heard at *
  cases heard with
  | frame f rest =>
      obtain ⟨harrival, hplays, hdue⟩ := hrenders
      rw [harrival]
      cases f with
      | record payload => exact .record payload events harrival hplays hdue hquiet
      | malformed unit => exact .malformed unit events harrival hplays hdue hquiet
  | ended tail =>
      obtain ⟨harrival, rfl⟩ := hrenders
      rw [harrival]
      exact .ended events hquiet
  | failed cause =>
      obtain ⟨harrival, hwhole⟩ := hrenders
      rw [harrival]
      exact .failed cause events hwhole hquiet
  | desync =>
      obtain ⟨⟨reason, harrival⟩, hwhole⟩ := hrenders
      rw [harrival]
      exact .desync reason events hwhole hquiet
  | blocked rest until_ =>
      obtain ⟨harrival, hplays, rfl⟩ := hrenders
      rw [harrival]
      exact .blocked events harrival hplays (hwaits.2 (.inl harrival)) (hwaits.1 harrival) hquiet
  | spent rest until_ =>
      obtain ⟨harrival, hplays, rfl⟩ := hrenders
      rw [harrival]
      exact .spent events harrival hplays (hwaits.2 (.inr harrival)) hquiet

theorem does_begin (h : w.reader.Plays framing limit p) (hlooks : w.deadline? now = some deadline) :
    let look := if allowance = 0 ∨ stopping = true then none else some (w.reader.next now (w.newest? q) allowance)
    w.Does now stopping q framing limit p allowance (look.bind (·.arrival.frame?))
      (w.begin now deadline stopping q allowance) := by
  unfold begin
  by_cases hspent : allowance = 0
  · simp only [if_pos hspent, if_pos (Or.inl hspent : allowance = 0 ∨ stopping = true)]
    exact .spends hlooks hspent
  · by_cases hstop : stopping = true
    · simp only [if_neg hspent, if_pos hstop, if_pos (Or.inr hstop : allowance = 0 ∨ stopping = true)]
      exact .stops hlooks hspent hstop
    · simp only [if_neg hspent, if_neg hstop, if_neg (not_or.mpr ⟨hspent, hstop⟩), Option.bind_some]
      rw [(h.next now (w.newest? q) allowance).frame?_eq]
      exact .finds hlooks hspent (Bool.eq_false_iff.mpr hstop) (finds_takeFrame h now deadline q allowance)

theorem does_step (h : w.reader.Plays framing limit p) (now : Instant) (stopping : Bool) (q : Queue)
    (allowance : Nat) :
    w.Does now stopping q framing limit p allowance (w.frame? now stopping q allowance)
      (w.step now stopping q allowance) := by
  unfold Worker.step frame? look?
  cases hphase : w.phase with
  | starting => exact .starts hphase
  | ready => exact does_begin h (by rw [deadline?, hphase])
  | waiting deadline => exact does_begin h (by rw [deadline?, hphase])
  | holding payload => exact .pushes payload hphase
  | pushing ticket =>
      simp only
      split
      · next q' result hresume => exact .resumes ticket q' result hphase hresume
      · next q' hresume => exact .waits ticket hphase (congrArg Prod.snd hresume)

/-! ## What is before a worker -/

/-- A worker has before it what is to come of its connection behind so many frames. Pauses can have begun only while
it waits for a frame. -/
def Attends (a : Assignment) (w : Worker) (n : Nat) : Prop :=
  ∃ p, w.reader.Plays a.options.framing a.options.maxRecordSize p ∧ p.next = a.prospect.beyond (n + 1) ∧
    (w.isWaiting = false → w.reader.source.due? = none ∧ p = a.prospect.beyond n)

variable {a : Assignment} {n : Nat} {v : Worker}

theorem attends_of_plays (h : w.reader.Plays a.options.framing a.options.maxRecordSize (a.prospect.beyond n))
    (hdue : w.reader.source.due? = none) : w.Attends a n :=
  ⟨_, h, rfl, fun _ => ⟨hdue, rfl⟩⟩

/-- A push has nothing to do with the connection, and a worker that pushes does not wait for a frame. -/
theorem aside_handleRecord {payload : Bytes}
    (hv : (w.handleRecord now q events allowance payload).next.worker? = some v) :
    v.reader = w.reader ∧ v.isWaiting = false := by
  unfold handleRecord at hv
  split at hv
  · obtain rfl := Option.some.inj hv
    exact ⟨rfl, rfl⟩
  · split at hv
    · next q' result _ =>
        cases result with
        | taken =>
            obtain rfl := Option.some.inj hv
            exact ⟨rfl, rfl⟩
        | failed e => cases hv
    · obtain rfl := Option.some.inj hv
      exact ⟨rfl, rfl⟩

theorem aside_handleMalformed {unit : Malformed}
    (hv : (w.handleMalformed q events allowance unit).next.worker? = some v) :
    v.reader = w.reader ∧ v.isWaiting = false := by
  unfold handleMalformed at hv
  simp only at hv
  split at hv
  · obtain rfl := Option.some.inj hv
    exact ⟨rfl, rfl⟩
  · cases hv

theorem reason_handleRecord {payload : Bytes} {k : Closing}
    (hk : (w.handleRecord now q events allowance payload).next.closing? = some k) : k.summary.reason = .queue := by
  unfold handleRecord at hk
  split at hk
  · cases hk
  · split at hk
    · next q' result _ =>
        cases result with
        | taken => cases hk
        | failed e =>
            obtain rfl := Option.some.inj hk
            rfl
    · cases hk

theorem reason_handleMalformed {unit : Malformed} {k : Closing}
    (hk : (w.handleMalformed q events allowance unit).next.closing? = some k) : k.summary.reason = .decode := by
  unfold handleMalformed at hk
  simp only at hk
  split at hk
  · cases hk
  · obtain rfl := Option.some.inj hk
    rfl

/-- A worker that waits has seen its deadline, and it has not come. -/
theorem waits_of_await {next : Worker → Next} (hnext : ∀ v, (next v).worker? = some v)
    (hv : (w.await now deadline q events allowance next).next.worker? = some v) :
    now.nanos < deadline.nanos ∧ v = { w with phase := .waiting deadline } := by
  unfold await at hv
  split at hv
  · cases hv
  · next hearly =>
      rw [hnext] at hv
      exact ⟨Nat.not_le.mp hearly, (Option.some.inj hv).symm⟩

/-- A worker that is blocked waits for a frame or for the result of a push. -/
theorem phase_of_blocked (h : w.reader.Plays framing limit p)
    (hblocked : (w.step now stopping q allowance).next = .blocked v) :
    (∃ deadline, v.phase = .waiting deadline) ∨ ∃ ticket, v.phase = .pushing ticket := by
  have hrecord {w : Worker} {events : List Event} {left : Nat} {payload : Bytes}
      (hnext : (w.handleRecord now q events left payload).next = .blocked v) : ∃ ticket, v.phase = .pushing ticket := by
    unfold handleRecord at hnext
    split at hnext
    · cases hnext
    · split at hnext
      · next q' result _ =>
          cases result with
          | taken => cases hnext
          | failed e => cases hnext
      · next q' ticket _ =>
          cases hnext
          exact ⟨ticket, rfl⟩
  have hdoes := does_step h now stopping q allowance
  generalize w.frame? now stopping q allowance = taken at *
  generalize w.step now stopping q allowance = t at *
  cases hdoes with
  | pushes payload => exact .inr (hrecord hblocked)
  | resumes ticket q' result =>
      cases result with
      | taken => cases hblocked
      | failed e => cases hblocked
  | waits ticket hphase =>
      cases hblocked
      exact .inr ⟨ticket, hphase⟩
  | finds hlooks hspare hrunning hfound =>
      have hv : ∀ {t : Turn}, t.next = .blocked v → t.next.worker? = some v := fun hnext => by
        rw [hnext]
        rfl
      generalize p.hear now w.reader.source.due? allowance = heard at *
      cases hfound with
      | record payload => exact .inr (hrecord hblocked)
      | malformed unit =>
          unfold handleMalformed at hblocked
          simp only at hblocked
          split at hblocked
          · cases hblocked
          · cases hblocked
      | blocked events =>
          obtain ⟨-, rfl⟩ := waits_of_await (fun _ => rfl) (hv hblocked)
          exact .inl ⟨_, rfl⟩
      | spent events =>
          obtain ⟨-, rfl⟩ := waits_of_await (fun _ => rfl) (hv hblocked)
          exact .inl ⟨_, rfl⟩
      | ended => cases hblocked
      | failed => cases hblocked
      | desync => cases hblocked
  | _ => cases hblocked

/-- A worker that waits has taken no frame in this step, and it has looked at its connection with that deadline. -/
theorem looks_of_waiting (h : w.reader.Plays framing limit p)
    (hv : (w.step now stopping q allowance).next.worker? = some v) (hphase : v.phase = .waiting deadline) :
    w.frame? now stopping q allowance = none ∧ w.deadline? now = some deadline := by
  have hwaiting : v.isWaiting ≠ false := by
    rw [isWaiting, hphase]
    exact nofun
  have hdoes := does_step h now stopping q allowance
  generalize w.frame? now stopping q allowance = taken at *
  generalize w.step now stopping q allowance = t at *
  cases hdoes with
  | starts =>
      obtain rfl := Option.some.inj hv
      exact absurd rfl hwaiting
  | spends =>
      obtain rfl := Option.some.inj hv
      exact ⟨rfl, by rw [deadline?, hphase]⟩
  | stops => cases hv
  | pushes => exact absurd (aside_handleRecord hv).2 hwaiting
  | resumes ticket q' result =>
      cases result with
      | taken =>
          obtain rfl := Option.some.inj hv
          exact absurd rfl hwaiting
      | failed e => cases hv
  | waits ticket hpushing =>
      obtain rfl := Option.some.inj hv
      cases hpushing.symm.trans hphase
  | finds hlooks hspare hrunning hfound =>
      generalize p.hear now w.reader.source.due? allowance = heard at *
      generalize w.reader.next now (w.newest? q) allowance = result at *
      cases hfound with
      | record => exact absurd (aside_handleRecord hv).2 hwaiting
      | malformed => exact absurd (aside_handleMalformed hv).2 hwaiting
      | blocked =>
          obtain ⟨-, rfl⟩ := waits_of_await (fun _ => rfl) hv
          cases hphase
          exact ⟨rfl, hlooks⟩
      | spent =>
          obtain ⟨-, rfl⟩ := waits_of_await (fun _ => rfl) hv
          cases hphase
          exact ⟨rfl, hlooks⟩
      | ended => cases hv
      | failed => cases hv
      | desync => cases hv

theorem Attends.step (h : w.Attends a n) (now : Instant) (stopping : Bool) (q : Queue) (allowance : Nat)
    (hv : (w.step now stopping q allowance).next.worker? = some v) :
    v.Attends a (n + (w.frame? now stopping q allowance).toList.length) := by
  obtain ⟨p, hplays, hnext, hbetween⟩ := h
  have hdoes := does_step hplays now stopping q allowance
  generalize w.frame? now stopping q allowance = taken at *
  generalize w.step now stopping q allowance = t at *
  -- A worker that does not wait for a frame has nothing else before it than before.
  have hsame (hphase : w.isWaiting = false) (hreader : v.reader = w.reader) : v.Attends a n := by
    obtain ⟨hdue, rfl⟩ := hbetween hphase
    rw [← hreader] at hplays hdue
    exact attends_of_plays hplays hdue
  cases hdoes with
  | starts hphase =>
      obtain rfl := Option.some.inj hv
      exact hsame (by rw [isWaiting, hphase]) rfl
  | spends =>
      obtain rfl := Option.some.inj hv
      exact ⟨p, hplays, hnext, hbetween⟩
  | stops => cases hv
  | pushes payload hphase => exact hsame (by rw [isWaiting, hphase]) (aside_handleRecord hv).1
  | resumes ticket q' result hphase hresume =>
      cases result with
      | taken =>
          obtain rfl := Option.some.inj hv
          exact hsame (by rw [isWaiting, hphase]) rfl
      | failed e => cases hv
  | waits ticket hphase =>
      obtain rfl := Option.some.inj hv
      exact ⟨p, hplays, hnext, hbetween⟩
  | finds hlooks hspare hrunning hfound =>
      have hleaves := p.leaves_hear now w.reader.source.due? allowance
      generalize p.hear now w.reader.source.due? allowance = heard at *
      generalize w.reader.next now (w.newest? q) allowance = result at *
      cases hfound with
      | record payload events harrival hrest hdue =>
          have hreader : v.reader = result.reader := (aside_handleRecord hv).1
          rw [hleaves.symm.trans hnext, ← hreader] at hrest
          exact attends_of_plays hrest (hreader ▸ hdue)
      | malformed unit events harrival hrest hdue =>
          have hreader : v.reader = result.reader := (aside_handleMalformed hv).1
          rw [hleaves.symm.trans hnext, ← hreader] at hrest
          exact attends_of_plays hrest (hreader ▸ hdue)
      | blocked events harrival hrest =>
          obtain ⟨-, rfl⟩ := waits_of_await (fun _ => rfl) hv
          exact ⟨_, hrest, hleaves.symm.trans hnext, nofun⟩
      | spent events harrival hrest =>
          obtain ⟨-, rfl⟩ := waits_of_await (fun _ => rfl) hv
          exact ⟨_, hrest, hleaves.symm.trans hnext, nofun⟩
      | ended => cases hv
      | failed => cases hv
      | desync => cases hv

theorem attends_start (a : Assignment) : a.worker.Attends a 0 :=
  attends_of_plays (Reader.plays_start a.steps (.start a.options.recvBufferSize) a.options.framing
    a.options.maxRecordSize) (Source.due?_none a.steps)

end Worker

/-! ## Stints -/

namespace Stint

variable {a : Assignment} {s : Stint}

/-- The worker of a stint has before it what is to come behind the frames that are in the book. -/
def Attends (a : Assignment) (s : Stint) : Prop :=
  s.closing = none → s.worker.Attends a s.book.frames.length

theorem attends_start (a : Assignment) (o : QueueOptions) : (start a o).Attends a :=
  fun _ => Worker.attends_start a

theorem Attends.turn (h : s.Attends a) (hopen : s.closing = none) (now : Instant) (allowance : Nat) :
    (s.turn now allowance).Attends a := by
  intro hgoing
  obtain ⟨v, hv⟩ := Worker.worker_of_going hgoing
  have hstep := (h hopen).step now s.stopping s.queue allowance hv
  have hworker : (s.turn now allowance).worker = v := by
    rw [Stint.turn]
    simp only [hv, Option.getD_some]
  have hframes : (s.turn now allowance).book.frames.length
      = s.book.frames.length + (s.worker.frame? now s.stopping s.queue allowance).toList.length := List.length_append
  rw [hworker, hframes]
  exact hstep

/-- What a move comes to: a turn of a worker that serves its connection, or something that does not concern it. -/
inductive Steps (s : Stint) : Move → Stint → Prop where
  | turn (now : Instant) (allowance : Nat) (opened : s.closing = none) :
      Steps s (.turn now allowance) (s.turn now allowance)
  | beside (m : Move) (s' : Stint) (worker : s'.worker = s.worker) (closing : s'.closing = s.closing)
      (book : s'.book = s.book) (idle : s.closing.isSome ∨ ∀ now allowance, m ≠ .turn now allowance) : Steps s m s'

theorem steps (s : Stint) (m : Move) : s.Steps m (s.step m) := by
  cases m with
  | turn now allowance =>
      simp only [step]
      split
      · next hclosed => exact .beside _ s rfl rfl rfl (.inl hclosed)
      · next hopen => exact .turn now allowance (Option.not_isSome_iff_eq_none.mp hopen)
  | other op =>
      simp only [step]
      split
      · exact .beside _ s rfl rfl rfl (.inr nofun)
      · exact .beside _ _ rfl rfl rfl (.inr nofun)
  | leave => exact .beside _ _ rfl rfl rfl (.inr nofun)
  | signal => exact .beside _ _ rfl rfl rfl (.inr nofun)

theorem Attends.step (h : s.Attends a) (m : Move) : (s.step m).Attends a := by
  have hsteps := s.steps m
  generalize s.step m = s' at *
  cases hsteps with
  | turn now allowance opened => exact h.turn opened now allowance
  | beside _ _ worker closing book =>
      intro hgoing
      rw [worker, book]
      exact h (closing.symm.trans hgoing)

theorem Attends.run (h : s.Attends a) (moves : List Move) : (s.run moves).Attends a := by
  induction moves generalizing s with
  | nil => exact h
  | cons m moves ih => exact ih (h.step m)

end Stint

end LogIntake
