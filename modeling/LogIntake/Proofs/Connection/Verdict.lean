import LogIntake.Execution
import LogIntake.Proofs.Connection.Prospect

/-!
# Verdicts

As long as the pushes of a worker find room at once, when and how its connection ends is decided by what is to come
of it and by the signal to shut down. That is its verdict (`Prospect.verdict`). It does not change when something
comes, nor while nothing does.
-/

namespace LogIntake

/-! ## What a verdict depends on -/

/-- When the signal to shut down is given, and whether all that is due then is done before. -/
structure Cutoff where
  at_ : Instant
  late : Bool
  deriving DecidableEq, Repr

/-- Whether the signal leaves something at a point of time undisturbed. -/
def Cutoff.spares (cutoff : Option Cutoff) (now : Instant) : Bool :=
  cutoff.all fun c => now.nanos < c.at_.nanos || c.late && now.nanos == c.at_.nanos

theorem Cutoff.le_of_spares {cutoff : Option Cutoff} {now : Instant} (h : Cutoff.spares cutoff now = true) :
    ∀ c, cutoff = some c → now.nanos ≤ c.at_.nanos := by
  rintro c rfl
  simp only [Cutoff.spares, Option.all_some, Bool.or_eq_true, decide_eq_true_eq, Bool.and_eq_true, beq_iff_eq] at h
  omega

/-- The terms on which a connection is served. -/
structure Terms where
  options : WorkerOptions
  peer : SocketAddress
  cutoff : Option Cutoff := none
  deriving DecidableEq, Repr

/-- How far the service of a connection has got. -/
structure Standing where
  now : Instant
  deadline : Instant
  pausedUntil : Option Instant := none
  /-- The allowance that is left once the deadline has come; earlier it does not matter. -/
  left : Nat := Execution.allowance
  records : Nat := 0
  malformed : Nat := 0
  deriving DecidableEq, Repr

/-- When and how a connection ends. -/
structure Verdict where
  at_ : Instant
  records : Nat
  malformed : Nat
  discarded : Nat := 0
  reason : CloseReason
  error : Option IntakeError := none
  deriving DecidableEq, Repr

namespace Standing

def close (st : Standing) (at_ : Instant) (reason : CloseReason) (error : Option IntakeError) : Verdict :=
  { at_, records := st.records, malformed := st.malformed, reason, error }

/-- The signal comes first. -/
def cutOff (st : Standing) (t : Terms) : Verdict :=
  st.close (t.cutoff.elim ⟨0⟩ (·.at_)) .shutdown none

/-- No frame comes in time. -/
def expire (st : Standing) (t : Terms) : Verdict :=
  if Cutoff.spares t.cutoff st.deadline then
    st.close st.deadline .timeout (some (.readTimeout t.peer t.options.readTimeout))
  else st.cutOff t

/-- A frame has come, and the time for the next one begins. -/
def renew (st : Standing) (t : Terms) : Standing :=
  { st with deadline := st.now.plus t.options.readTimeout, pausedUntil := none, left := Execution.allowance }

/-- A pause in front has ended. -/
def resume (st : Standing) (stop : Instant) : Standing :=
  { st with
    now := stop, pausedUntil := none
    left := (if st.now.nanos < st.deadline.nanos then Execution.allowance else st.left) - 1 }

variable {t : Terms}

theorem le_cutOff (st : Standing) (hcutoff : ∀ c, t.cutoff = some c → st.now.nanos ≤ c.at_.nanos) {stop : Instant}
    (hspares : Cutoff.spares t.cutoff stop ≠ true) : st.now.nanos ≤ (st.cutOff t).at_.nanos := by
  cases hc : t.cutoff with
  | none =>
      rw [hc] at hspares
      exact absurd rfl hspares
  | some c =>
      rw [cutOff, hc]
      exact hcutoff c hc

theorem le_expire (st : Standing) (hdeadline : st.now.nanos ≤ st.deadline.nanos)
    (hcutoff : ∀ c, t.cutoff = some c → st.now.nanos ≤ c.at_.nanos) : st.now.nanos ≤ (st.expire t).at_.nanos := by
  unfold expire
  split
  · exact hdeadline
  · next hspares => exact st.le_cutOff hcutoff hspares

end Standing

/-- The verdict on a connection of which so much is to come. The words in which a loss of synchronisation is reported
are left out. -/
def Prospect.verdict (t : Terms) (st : Standing) : Prospect → Verdict
  | .frame (.record _) rest => rest.verdict t { st.renew t with records := st.records + 1 }
  | .frame (.malformed unit) rest =>
    match t.options.policy with
    | .drop => rest.verdict t { st.renew t with malformed := st.malformed + 1 }
    | .terminate =>
      { st.close st.now .decode (some (.decode t.peer unit)) with malformed := st.malformed + 1 }
  | .pause span rest =>
    let stop := st.pausedUntil.getD (st.now.plus span)
    if stop.nanos ≤ st.deadline.nanos ∧ (st.now.nanos < st.deadline.nanos ∨ 0 < st.left) then
      if Cutoff.spares t.cutoff stop then rest.verdict t (st.resume stop) else st.cutOff t
    else st.expire t
  | .ended tail => { st.close st.now .eof none with discarded := tail }
  | .failed cause => st.close st.now .io (some (.connection t.peer cause))
  | .desync => st.close st.now .framing (some (.framing t.peer ""))
  | .silence => st.expire t

def Terms.verdict (t : Terms) (steps : List Source.Step) (now : Instant) : Verdict :=
  let st : Standing := { now, deadline := now.plus t.options.readTimeout }
  if Cutoff.spares t.cutoff now then
    (t.options.framing.prospect t.options.maxRecordSize [] steps).verdict t st
  else st.cutOff t

namespace Prospect

def Heard.verdict (t : Terms) (st : Standing) : Heard → Verdict
  | .frame f rest => (Prospect.frame f rest).verdict t st
  | .ended tail => (Prospect.ended tail).verdict t st
  | .failed cause => (Prospect.failed cause).verdict t st
  | .desync => Prospect.desync.verdict t st
  | .blocked rest pausedUntil | .spent rest pausedUntil =>
    if st.now.nanos < st.deadline.nanos then rest.verdict t { st with pausedUntil } else st.expire t

variable {t : Terms} {st : Standing}

theorem le_stop {now : Instant} {pausedUntil : Option Instant}
    (hpaused : ∀ stop, pausedUntil = some stop → now.nanos ≤ stop.nanos) (span : Duration) :
    now.nanos ≤ (pausedUntil.getD (now.plus span)).nanos := by
  cases hp : pausedUntil with
  | none => exact Nat.le_add_right _ _
  | some stop => exact hpaused stop hp

/-- Before the deadline the allowance does not matter. -/
theorem verdict_left (st : Standing) (hearly : st.now.nanos < st.deadline.nanos) (left : Nat) (p : Prospect) :
    p.verdict t { st with left } = p.verdict t st := by
  cases p with
  | frame f rest =>
      cases f with
      | record payload => rfl
      | malformed unit => rfl
  | pause span rest =>
      have hresume (stop : Instant) : { st with left }.resume stop = st.resume stop := by
        simp only [Standing.resume, if_pos hearly]
      simp only [verdict, hearly, true_or, and_true]
      rw [hresume]
      rfl
  | _ => rfl

theorem Heard.verdict_eq {st' : Standing} (heard : Heard)
    (hsame : st' = { st with pausedUntil := st'.pausedUntil, left := st'.left }) :
    heard.verdict t st' = heard.verdict t st := by
  have hwaits (rest : Prospect) (pausedUntil : Option Instant) :
      (if st'.now.nanos < st'.deadline.nanos then rest.verdict t { st' with pausedUntil } else st'.expire t)
        = if st.now.nanos < st.deadline.nanos then rest.verdict t { st with pausedUntil } else st.expire t := by
    rw [hsame]
    split
    · next hearly => exact verdict_left { st with pausedUntil } hearly st'.left rest
    · rfl
  cases heard with
  | frame f rest =>
      rw [hsame]
      cases f with
      | record payload => rfl
      | malformed unit => rfl
  | blocked rest until_ => exact hwaits rest until_
  | spent rest until_ => exact hwaits rest until_
  | _ =>
      rw [hsame]
      rfl

/-- What comes at a point of time decides the verdict with what is to come then. -/
theorem verdict_hear (p : Prospect) (hspares : Cutoff.spares t.cutoff st.now = true)
    (hdeadline : st.now.nanos ≤ st.deadline.nanos)
    (hpaused : ∀ stop, st.pausedUntil = some stop → st.now.nanos ≤ stop.nanos) {allowance : Nat}
    (hleft : st.now.nanos < st.deadline.nanos ∨ st.left = allowance) :
    p.verdict t st = (p.hear st.now st.pausedUntil allowance).verdict t st := by
  induction p generalizing st allowance with
  | frame f rest => rfl
  | pause span rest ih =>
      have hstop := le_stop hpaused span
      -- When nothing comes, the pause has begun, and at the deadline it is too late.
      have hwaits (hlate : st.now.nanos < st.deadline.nanos ∨ st.left = 0
          ∨ st.now.nanos < (st.pausedUntil.getD (st.now.plus span)).nanos) :
          (pause span rest).verdict t st = if st.now.nanos < st.deadline.nanos then
              (pause span rest).verdict t { st with pausedUntil := some (st.pausedUntil.getD (st.now.plus span)) }
            else st.expire t := by
        split
        · rfl
        · rw [verdict, if_neg (by omega)]
      unfold hear
      simp only
      split
      · next hspent => exact hwaits (by omega)
      · next hallowance =>
          split
          · next hover =>
              have hsame : st.pausedUntil.getD (st.now.plus span) = st.now :=
                congrArg Duration.mk (Nat.le_antisymm hover hstop)
              have hresume : (pause span rest).verdict t st = rest.verdict t (st.resume st.now) := by
                rw [verdict, if_pos (by omega), hsame, if_pos hspares]
              have hrest := @ih (st.resume st.now) hspares hdeadline (by simp [Standing.resume]) (allowance - 1)
                (by simp only [Standing.resume]; split <;> omega)
              rw [hresume, hrest]
              exact Heard.verdict_eq _ rfl
          · next hlater => exact hwaits (by omega)
  | silence =>
      show st.expire t
        = if st.now.nanos < st.deadline.nanos then { st with pausedUntil := none }.expire t else st.expire t
      split
      · rfl
      · rfl
  | _ => rfl

/-! ## Waiting -/

/-- Nothing comes before a pause that has begun is over, or ever. -/
def Rests (now : Instant) (pausedUntil : Option Instant) : Prospect → Prop
  | .pause _ _ => ∃ stop, pausedUntil = some stop ∧ now.nanos ≤ stop.nanos
  | .silence => pausedUntil = none
  | _ => False

/-- If nothing comes now, what is to come rests. -/
def Heard.Waits (now : Instant) : Heard → Prop
  | .blocked rest pausedUntil => rest.Rests now pausedUntil ∧ ∀ stop, pausedUntil = some stop → now.nanos < stop.nanos
  | .spent rest pausedUntil => rest.Rests now pausedUntil
  | _ => True

theorem waits_hear (p : Prospect) {now : Instant} {pausedUntil : Option Instant}
    (hpaused : ∀ stop, pausedUntil = some stop → now.nanos ≤ stop.nanos) (allowance : Nat) :
    (p.hear now pausedUntil allowance).Waits now := by
  induction p generalizing pausedUntil allowance with
  | pause span p ih =>
      have hstop := le_stop hpaused span
      unfold hear
      simp only
      split
      · exact ⟨_, rfl, hstop⟩
      · split
        · exact @ih none (by simp) _
        · next hlater =>
            refine ⟨⟨_, rfl, hstop⟩, fun stop heq => ?_⟩
            obtain rfl := Option.some.inj heq
            omega
  | silence => exact ⟨rfl, by simp⟩
  | _ => trivial

/-- While nothing comes, the time at which one looks does not matter. -/
theorem Rests.verdict_eq (st : Standing) {p : Prospect} (h : p.Rests st.now st.pausedUntil)
    (hleft : st.left = Execution.allowance) (later : Instant) :
    p.verdict t { st with now := later } = p.verdict t st := by
  have hpos : 0 < st.left := by
    rw [hleft]
    decide
  cases p with
  | pause span rest =>
      obtain ⟨stop, hstop, -⟩ := h
      have hresume : { st with now := later }.resume stop = st.resume stop := by
        simp only [Standing.resume, hleft, ite_self]
      have hstep (st' : Standing) (hbegun : st'.pausedUntil = some stop) (hmay : 0 < st'.left) :
          (pause span rest).verdict t st' = if stop.nanos ≤ st'.deadline.nanos then
              if Cutoff.spares t.cutoff stop then rest.verdict t (st'.resume stop) else st'.cutOff t
            else st'.expire t := by
        simp only [verdict, hbegun, Option.getD_some, hmay, or_true, and_true]
      rw [hstep st hstop hpos, hstep { st with now := later } hstop hpos, hresume]
      rfl
  | silence => rfl
  | _ => cases h

/-- When all that is due from now on is cut off, nothing more comes. -/
theorem Rests.verdict_cutOff (st : Standing) {p : Prospect} (h : p.Rests st.now st.pausedUntil)
    (hstop : ∀ stop, st.pausedUntil = some stop → Cutoff.spares t.cutoff stop = false)
    (hdeadline : Cutoff.spares t.cutoff st.deadline = false) : p.verdict t st = st.cutOff t := by
  have hexpire : st.expire t = st.cutOff t := by
    rw [Standing.expire, hdeadline]
    rfl
  cases p with
  | pause span rest =>
      obtain ⟨stop, hbegun, -⟩ := h
      simp only [verdict, hbegun, Option.getD_some, hstop stop hbegun, hexpire]
      split
      · rfl
      · rfl
  | silence => exact hexpire
  | _ => cases h

theorem Rests.later {p : Prospect} {now later : Instant} {pausedUntil : Option Instant} (h : p.Rests now pausedUntil)
    (hlater : ∀ stop, pausedUntil = some stop → later.nanos ≤ stop.nanos) : p.Rests later pausedUntil := by
  cases p with
  | pause span rest =>
      obtain ⟨stop, hbegun, -⟩ := h
      exact ⟨stop, hbegun, hlater stop hbegun⟩
  | silence => exact h
  | _ => cases h

theorem Rests.le {now : Instant} {pausedUntil : Option Instant} {p : Prospect} (h : p.Rests now pausedUntil) :
    ∀ stop, pausedUntil = some stop → now.nanos ≤ stop.nanos := by
  rintro stop rfl
  cases p with
  | pause span rest =>
      obtain ⟨stop, heq, hle⟩ := h
      obtain rfl := Option.some.inj heq
      exact hle
  | _ => cases h

/-- A verdict does not come before the time at which it is looked for. -/
theorem le_verdict (st : Standing) (p : Prospect) (hdeadline : st.now.nanos ≤ st.deadline.nanos)
    (hpaused : ∀ stop, st.pausedUntil = some stop → st.now.nanos ≤ stop.nanos)
    (hcutoff : ∀ c, t.cutoff = some c → st.now.nanos ≤ c.at_.nanos) :
    st.now.nanos ≤ (p.verdict t st).at_.nanos := by
  induction p generalizing st with
  | frame f rest ih =>
      have hrenewed (records malformed : Nat) := @ih { st.renew t with records, malformed } (Nat.le_add_right _ _)
        (by simp [Standing.renew]) hcutoff
      cases f with
      | record payload => exact hrenewed (st.records + 1) st.malformed
      | malformed unit =>
          unfold verdict
          split
          · exact hrenewed st.records (st.malformed + 1)
          · exact Nat.le_refl _
  | pause span rest ih =>
      have hstop := le_stop hpaused span
      unfold verdict
      simp only
      split
      · next hintime =>
          split
          · next hspares =>
              have hrest := @ih (st.resume _) hintime.1 (by simp [Standing.resume]) (Cutoff.le_of_spares hspares)
              exact Nat.le_trans hstop hrest
          · next hspares => exact st.le_cutOff hcutoff hspares
      · exact st.le_expire hdeadline hcutoff
  | silence => exact st.le_expire hdeadline hcutoff
  | _ => exact Nat.le_refl _

end Prospect

end LogIntake
