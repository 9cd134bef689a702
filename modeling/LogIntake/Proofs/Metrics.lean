import LogIntake.Queue.Basic

/-!
# Counters and gauges

Adding to a counter and setting a gauge leave the others as they are. When two parts count, each in counters of
its own, what they have counted together is what each of them has.
-/

namespace LogIntake.Metrics

section Put

variable {κ ν : Type} [DecidableEq κ]

theorem lookup_filter_ne {k l : κ} (h : l ≠ k) (entries : List (κ × ν)) :
    (entries.filter (fun e => !(e.1 == k))).lookup l = entries.lookup l := by
  induction entries with
  | nil => rfl
  | cons e entries ih =>
      obtain ⟨key, value⟩ := e
      by_cases hkey : key = k
      · subst hkey
        rw [List.filter_cons_of_neg (by simp), ih, List.lookup_cons, beq_false_of_ne h]
      · rw [List.filter_cons_of_pos (by simpa using hkey), List.lookup_cons, List.lookup_cons, ih]

theorem lookup_put (k l : κ) (v : ν) (entries : List (κ × ν)) :
    (put k v entries).lookup l = if l = k then some v else entries.lookup l := by
  rw [put, List.lookup_cons]
  by_cases hkey : l = k
  · rw [if_pos hkey, beq_iff_eq.mpr hkey]
  · rw [if_neg hkey, beq_false_of_ne hkey, lookup_filter_ne hkey]

theorem key_of_mem_put {k : κ} {v : ν} {entries : List (κ × ν)} {e : κ × ν} (h : e ∈ put k v entries) :
    e.1 = k ∨ e ∈ entries := by
  rcases List.mem_cons.mp h with rfl | hold
  · exact Or.inl rfl
  · exact Or.inr (List.mem_filter.mp hold).1

theorem lookup_eq_none {l : κ} {entries : List (κ × ν)} (h : ∀ e ∈ entries, e.1 ≠ l) : entries.lookup l = none := by
  induction entries with
  | nil => rfl
  | cons e entries ih =>
      obtain ⟨key, value⟩ := e
      have hne : l ≠ key := fun heq => h _ List.mem_cons_self heq.symm
      rw [List.lookup_cons, beq_false_of_ne hne, ih fun e he => h e (List.mem_cons_of_mem _ he)]

end Put

@[simp] theorem count_add (m : Metrics) (c d : Counter) (n : Nat) :
    (m.add c n).count d = m.count d + if d = c then n else 0 := by
  rw [count, add, lookup_put]
  split
  · next heq => rw [heq, Option.getD_some]
  · rfl

@[simp] theorem count_set (m : Metrics) (g : Gauge) (n : Nat) (c : Counter) : (m.set g n).count c = m.count c :=
  rfl

@[simp] theorem gauge?_add (m : Metrics) (c : Counter) (n : Nat) (g : Gauge) : (m.add c n).gauge? g = m.gauge? g :=
  rfl

@[simp] theorem gauge?_set (m : Metrics) (g : Gauge) (n : Nat) : (m.set g n).gauge? g = some n := by
  rw [gauge?, set, lookup_put, if_pos rfl]

@[simp] theorem count_shift (m : Metrics) (g : Gauge) (f : Nat → Nat) (c : Counter) :
    (m.shift g f).count c = m.count c :=
  rfl

@[simp] theorem gauge?_shift (m : Metrics) (g : Gauge) (f : Nat → Nat) :
    (m.shift g f).gauge? g = some (f ((m.gauge? g).getD 0)) :=
  gauge?_set ..

/-! ## Two parts -/

/-- Only these counters and this gauge have been touched. -/
structure Within (m : Metrics) (p : Counter → Bool) (g : Gauge) : Prop where
  counters : ∀ e ∈ m.counters, p e.1 = true
  gauges : ∀ e ∈ m.gauges, e.1 = g

variable {m n : Metrics} {p : Counter → Bool} {g : Gauge}

theorem within_empty (p : Counter → Bool) (g : Gauge) : Within {} p g :=
  ⟨fun _ he => (List.not_mem_nil he).elim, fun _ he => (List.not_mem_nil he).elim⟩

theorem Within.add (h : m.Within p g) {c : Counter} (hc : p c = true) (n : Nat) : (m.add c n).Within p g := by
  refine ⟨fun e he => ?_, h.gauges⟩
  rcases key_of_mem_put he with heq | hold
  · rw [heq]
    exact hc
  · exact h.counters e hold

theorem Within.set (h : m.Within p g) (n : Nat) : (m.set g n).Within p g := by
  refine ⟨h.counters, fun e he => ?_⟩
  rcases key_of_mem_put he with heq | hold
  · exact heq
  · exact h.gauges e hold

theorem Within.shift (h : m.Within p g) (f : Nat → Nat) : (m.shift g f).Within p g :=
  h.set _

theorem Within.lookup_eq_none (h : m.Within p g) {c : Counter} (hc : p c = false) : m.counters.lookup c = none := by
  refine Metrics.lookup_eq_none fun e he heq => ?_
  rw [← heq, h.counters e he] at hc
  cases hc

end LogIntake.Metrics

namespace LogIntake

/-- Whether the queue counts in a counter; in the others the listener and its workers do. -/
def Counter.ofQueue : Counter → Bool
  | .pushed | .popped | .pushFailures _ => true
  | _ => false

/-- One part has been counted outside the queue, and the other by it. -/
structure Metrics.Apart (m n : Metrics) : Prop where
  outside : m.Within (!·.ofQueue) .activeConnections
  queue : n.Within Counter.ofQueue .queueDepth

namespace Metrics

variable {m n : Metrics}

theorem Apart.count_join (h : m.Apart n) (c : Counter) :
    (m.join n).count c = if c.ofQueue then n.count c else m.count c := by
  rw [count, join, List.lookup_append]
  cases hc : c.ofQueue with
  | true => rw [h.outside.lookup_eq_none (by rw [hc]; rfl), Option.none_or]; rfl
  | false => rw [h.queue.lookup_eq_none hc, Option.or_none]; rfl

theorem Apart.gauge?_join (h : m.Apart n) :
    (m.join n).gauge? .activeConnections = m.gauge? .activeConnections := by
  have hnone : n.gauges.lookup .activeConnections = none := by
    refine lookup_eq_none fun e he heq => ?_
    rw [h.queue.gauges e he] at heq
    cases heq
  rw [gauge?, join, List.lookup_append, hnone, Option.or_none]
  rfl

end Metrics

end LogIntake
