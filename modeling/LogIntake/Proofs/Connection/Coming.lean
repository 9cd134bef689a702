import LogIntake.Proofs.Connection.Attention
import LogIntake.Proofs.Connection.Verdict

/-!
# When something comes

A prospect with pauses in front says when something comes of it that is not a pause, and what (`Prospect.comesAt?`,
`Prospect.news`). Neither changes while one looks whether it has come, nor while one waits for the end of a pause that
has begun; but each pause that has ended is one less to wait for.
-/

namespace LogIntake

namespace Prospect

/-- When something comes; the pause in front may already have begun. -/
def comesAt? (now : Instant) (pausedUntil : Option Instant) : Prospect → Option Instant
  | .pause span rest => rest.comesAt? (pausedUntil.getD (now.plus span)) none
  | .silence => none
  | _ => some now

/-- What then comes, with all that is to come after it. -/
def news : Prospect → Prospect
  | .pause _ rest => rest.news
  | p => p

/-- How many pauses there are before. -/
def pauses : Prospect → Nat
  | .pause _ rest => rest.pauses + 1
  | _ => 0

/-- What is left when one has looked is what there was: something comes as before, and with no more pauses. -/
def Heard.Agrees (p : Prospect) (now : Instant) (pausedUntil : Option Instant) : Heard → Prop
  | .frame f rest => p.comesAt? now pausedUntil = some now ∧ p.news = .frame f rest
  | .ended tail => p.comesAt? now pausedUntil = some now ∧ p.news = .ended tail
  | .failed cause => p.comesAt? now pausedUntil = some now ∧ p.news = .failed cause
  | .desync => p.comesAt? now pausedUntil = some now ∧ p.news = .desync
  | .blocked rest due | .spent rest due =>
    rest.comesAt? now due = p.comesAt? now pausedUntil ∧ rest.news = p.news ∧ rest.pauses ≤ p.pauses

/-- One who has not come far enough has come past a pause. -/
def Heard.Passes (p : Prospect) : Heard → Prop
  | .spent rest _ => rest.pauses < p.pauses
  | _ => True

variable {p : Prospect} {now later stop t : Instant} {pausedUntil : Option Instant} {allowance : Nat} {heard : Heard}

theorem Heard.Agrees.of_pause {span : Duration} (h : heard.Agrees p now none)
    (hstop : pausedUntil.getD (now.plus span) = now) : heard.Agrees (.pause span p) now pausedUntil := by
  have hcomes : comesAt? now pausedUntil (.pause span p) = p.comesAt? now none := by rw [comesAt?, hstop]
  cases heard with
  | blocked rest due => exact ⟨h.1.trans hcomes.symm, h.2.1, Nat.le_succ_of_le h.2.2⟩
  | spent rest due => exact ⟨h.1.trans hcomes.symm, h.2.1, Nat.le_succ_of_le h.2.2⟩
  | _ => exact ⟨hcomes.trans h.1, h.2⟩

/-- Before a pause has begun there is no end of it. -/
theorem le_of_none (now stop : Instant) (h : none = some stop) : now.nanos ≤ stop.nanos := by
  cases h

theorem agrees_hear (p : Prospect) (now : Instant) (pausedUntil : Option Instant)
    (hpaused : ∀ stop, pausedUntil = some stop → now.nanos ≤ stop.nanos) (allowance : Nat) :
    (p.hear now pausedUntil allowance).Agrees p now pausedUntil := by
  induction p generalizing pausedUntil allowance with
  | frame f rest => exact ⟨rfl, rfl⟩
  | pause span rest ih =>
      have hstop := le_stop hpaused span
      unfold hear
      simp only
      split
      · exact ⟨rfl, rfl, Nat.le_refl _⟩
      · split
        · next hover =>
            have hsame : pausedUntil.getD (now.plus span) = now := congrArg Duration.mk (Nat.le_antisymm hover hstop)
            exact (ih none (le_of_none now) (allowance - 1)).of_pause hsame
        · exact ⟨rfl, rfl, Nat.le_refl _⟩
  | silence => exact ⟨rfl, rfl, Nat.le_refl _⟩
  | _ => exact ⟨rfl, rfl⟩

/-- With an allowance one comes past a pause at least, or as far as there is something. -/
theorem passes_hear (p : Prospect) (now : Instant) (pausedUntil : Option Instant) (hspare : allowance ≠ 0) :
    (p.hear now pausedUntil allowance).Passes p := by
  cases p with
  | pause span rest =>
      unfold hear
      simp only [if_neg hspare]
      split
      · cases hheard : rest.hear now none (allowance - 1) with
        | spent left due =>
            have hagrees := agrees_hear rest now none (le_of_none now) (allowance - 1)
            rw [hheard] at hagrees
            exact Nat.lt_succ_of_le hagrees.2.2
        | _ => trivial
      · trivial
  | _ => trivial

/-- A pause that is over is one less to wait for. -/
theorem pauses_of_over (h : p.Rests now (some stop)) (hover : stop.nanos ≤ now.nanos) (hspare : allowance ≠ 0)
    {rest : Prospect} {due : Option Instant}
    (hheard : p.hear now (some stop) allowance = .blocked rest due ∨
      p.hear now (some stop) allowance = .spent rest due) : rest.pauses < p.pauses := by
  cases p with
  | pause span p =>
      have hpast : hear now (some stop) allowance (.pause span p) = p.hear now none (allowance - 1) := by
        rw [hear]
        simp only [Option.getD_some, if_neg hspare, if_pos hover]
      have hagrees := agrees_hear p now none (le_of_none now) (allowance - 1)
      rw [hpast] at hheard
      rcases hheard with hheard | hheard
      · rw [hheard] at hagrees
        exact Nat.lt_succ_of_le hagrees.2.2
      · rw [hheard] at hagrees
        exact Nat.lt_succ_of_le hagrees.2.2
  | silence => cases h
  | _ => cases h

/-- Nothing comes before it is looked for. -/
theorem le_comesAt? (p : Prospect) (now : Instant) (pausedUntil : Option Instant)
    (hpaused : ∀ stop, pausedUntil = some stop → now.nanos ≤ stop.nanos) (h : p.comesAt? now pausedUntil = some t) :
    now.nanos ≤ t.nanos := by
  induction p generalizing now pausedUntil with
  | pause span rest ih => exact Nat.le_trans (le_stop hpaused span) (ih _ none (le_of_none _) h)
  | silence => cases h
  | _ => exact Nat.le_of_eq (congrArg Duration.nanos (Option.some.inj h))

/-- While nothing comes, the time at which one looks does not matter. -/
theorem Rests.comesAt?_eq (h : p.Rests now pausedUntil) (later : Instant) :
    p.comesAt? later pausedUntil = p.comesAt? now pausedUntil := by
  cases p with
  | pause span rest =>
      obtain ⟨stop, rfl, -⟩ := h
      rfl
  | silence => rfl
  | _ => cases h

end Prospect

end LogIntake
