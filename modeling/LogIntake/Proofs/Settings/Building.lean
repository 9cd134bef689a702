import LogIntake.Daemon.Program

/-!
# What valid settings can be built into

Settings are judged twice: once as they are written, and once more when they become options. The demands on the
settings as written cover those on the options in all but one point. The options bound the number of connections
from above, by what a semaphore can hold, and the settings do not. So valid settings with a larger number pass the
check, and are refused when the service is built.
-/

namespace LogIntake

/-! ## Demands and names -/

@[simp] theorem require_eq_ok_iff {met : Bool} {field reason : String} :
    require met field reason = .ok () ↔ met = true := by
  cases met <;> simp [require]

@[simp] theorem mapError_ok {ε ε' α : Type} (f : ε → ε') (a : α) : (Except.ok a).mapError f = .ok a :=
  rfl

@[simp] theorem mapError_error {ε ε' α : Type} (f : ε → ε') (e : ε) :
    (Except.error e : Except ε α).mapError f = .error (f e) :=
  rfl

/-- A name of one of the listed things is found. -/
theorem exists_find?_name {α : Type} (name : α → String) (all : List α) {text : String}
    (h : text ∈ all.map name) : ∃ a, all.find? (name · == text) = some a := by
  obtain ⟨a, ha, rfl⟩ := List.mem_map.mp h
  exact Option.isSome_iff_exists.mp (List.find?_isSome.mpr ⟨a, ha, beq_self_eq_true _⟩)

theorem Framing.parse_of_mem {name : String} (h : name ∈ Settings.framings) :
    ∃ framing, Framing.parse name = .ok framing := by
  obtain ⟨framing, hfound⟩ := exists_find?_name Framing.name Framing.all h
  exact ⟨framing, by simp [Framing.parse, Framing.ofName?, hfound]⟩

theorem DecodeErrorPolicy.parse_of_mem {name : String} (h : name ∈ Settings.decodeErrorPolicies) :
    ∃ policy, DecodeErrorPolicy.parse name = .ok policy := by
  obtain ⟨policy, hfound⟩ := exists_find?_name DecodeErrorPolicy.name DecodeErrorPolicy.all h
  exact ⟨policy, by simp [DecodeErrorPolicy.parse, DecodeErrorPolicy.ofName?, hfound]⟩

theorem Backpressure.parse_of_mem {name : String} (h : name ∈ Settings.backpressures) :
    ∃ mode, Backpressure.parse name = .ok mode := by
  obtain ⟨mode, hfound⟩ := exists_find?_name Backpressure.name Backpressure.all h
  exact ⟨mode, by simp [Backpressure.parse, Backpressure.ofName?, hfound]⟩

/-- The error for more connections than a semaphore can count. -/
def tooManyConnections : IntakeError :=
  .setting "max_connections" s!"must be 1-{maxPermits}"

/-- Options that meet the other demands are judged by their number of connections alone. -/
theorem ListenerOptions.validate_of_positive (o : ListenerOptions) (haddress : Text.allBlank o.bindAddress = false)
    (hbacklog : 0 < o.backlog.toNat) (hconnections : 0 < o.maxConnections) (hworker : o.worker.validate = .ok ()) :
    o.validate = if o.maxConnections ≤ maxPermits then .ok () else .error tooManyConnections := by
  have hfirst : require (!Text.allBlank o.bindAddress) "bind_address" "must not be empty" = .ok () := by simp [haddress]
  have hsecond : require (0 < o.backlog.toNat) "backlog" "must be greater than 0" = .ok () := by simp [hbacklog]
  simp only [validate, hfirst, hsecond, hworker, bind, Except.bind]
  by_cases hle : o.maxConnections ≤ maxPermits <;> simp [require, tooManyConnections, hconnections, hle]

namespace Settings

variable {s : Settings}

/-! ## Valid settings -/

/-- What valid settings meet. -/
structure Valid (s : Settings) : Prop where
  logLevel : s.general.logLevel ∈ logLevels
  logFormat : s.general.logFormat ∈ logFormats
  bindAddress : Text.allBlank s.ingest.bindAddress = false
  backlog : 0 < s.ingest.backlog.toNat
  maxConnections : 0 < s.ingest.maxConnections.toNat
  readTimeoutSecs : 0 < s.ingest.readTimeoutSecs.toNat
  maxRecordSize : 0 < s.ingest.maxRecordSize.toNat ∧ s.ingest.maxRecordSize.toNat ≤ maxRecordSizeLimit
  recvBufferSize : 0 < s.ingest.recvBufferSize.toNat
  framing : s.ingest.framing ∈ framings
  decodeErrorPolicy : s.ingest.decodeErrorPolicy ∈ decodeErrorPolicies
  capacity : 0 < s.queue.capacity.toNat ∧ s.queue.capacity.toNat ≤ maxQueueCapacity
  backpressure : s.queue.backpressure ∈ backpressures
  pushTimeoutMs : 0 < s.queue.pushTimeoutMs.toNat
  metricsPort : s.metrics.enabled = false ∨ s.metrics.port ≠ 0

theorem validate_eq_ok_iff_demands : s.validate = .ok () ↔ ∀ d ∈ s.demands, d.met = true := by
  simp only [validate]
  split
  next d hd => simpa using ⟨d, List.mem_of_find?_eq_some hd, by simpa using List.find?_some hd⟩
  next hnone => simpa using hnone

theorem validate_eq_ok_iff : s.validate = .ok () ↔ s.Valid := by
  rw [validate_eq_ok_iff_demands]
  simp only [demands, Demand.oneOf, Demand.positive, Demand.upTo, List.forall_mem_cons, List.contains_iff_mem,
    Bool.not_eq_true', decide_eq_true_eq, Bool.and_eq_true, Bool.and_eq_false_iff, beq_eq_false_iff_ne]
  constructor
  · rintro ⟨h1, h2, h3, h4, h5, h6, h7, h8, h9, h10, h11, h12, h13, h14, -⟩
    exact ⟨h1, h2, h3, h4, h5, h6, h7, h8, h9, h10, h11, h12, h13, h14⟩
  · rintro ⟨h1, h2, h3, h4, h5, h6, h7, h8, h9, h10, h11, h12, h13, h14⟩
    exact ⟨h1, h2, h3, h4, h5, h6, h7, h8, h9, h10, h11, h12, h13, h14, by simp⟩

/-! ## Building -/

/-- Valid settings of a queue become options, and these are valid. -/
theorem Valid.queueOptions (h : s.Valid) : ∃ o, QueueOptions.ofSettings s.queue = .ok o ∧ o.validate = .ok () := by
  obtain ⟨backpressure, hbackpressure⟩ := Backpressure.parse_of_mem h.backpressure
  let o : QueueOptions :=
    { capacity := s.queue.capacity.toNat, backpressure, pushTimeout := .ofMillis s.queue.pushTimeoutMs.toNat }
  have ho : o.validate = .ok () := by
    have hcapacity := h.capacity.1
    have hwait := h.pushTimeoutMs
    simp [o, QueueOptions.validate, require, Duration.isZero, Duration.ofMillis, hcapacity, bind, Except.bind]
    omega
  exact ⟨o, by simp only [QueueOptions.ofSettings, hbackpressure, bind, Except.bind]; rw [ho]; rfl, ho⟩

/-- Valid settings of a listener become valid options if the number of connections allows it. -/
theorem Valid.listenerOptions (h : s.Valid) :
    (s.ingest.maxConnections.toNat ≤ maxPermits →
      ∃ o, ListenerOptions.ofSettings s.ingest = .ok o ∧ o.validate = .ok ()) ∧
    (maxPermits < s.ingest.maxConnections.toNat →
      ListenerOptions.ofSettings s.ingest = .error tooManyConnections) := by
  obtain ⟨framing, hframing⟩ := Framing.parse_of_mem h.framing
  obtain ⟨policy, hpolicy⟩ := DecodeErrorPolicy.parse_of_mem h.decodeErrorPolicy
  let o : ListenerOptions :=
    { bindAddress := s.ingest.bindAddress
      port := s.ingest.port
      backlog := s.ingest.backlog
      maxConnections := s.ingest.maxConnections.toNat
      acceptBackoff := .ofMillis s.ingest.acceptBackoffMs.toNat
      shutdownGrace := .ofSecs s.ingest.shutdownGraceSecs.toNat
      worker :=
        { framing
          maxRecordSize := s.ingest.maxRecordSize.toNat
          recvBufferSize := s.ingest.recvBufferSize.toNat
          readTimeout := .ofSecs s.ingest.readTimeoutSecs.toNat
          policy } }
  have hworker : o.worker.validate = .ok () := by
    have hsize := h.maxRecordSize.1
    have hbuffer := h.recvBufferSize
    have hwait := h.readTimeoutSecs
    simp [o, WorkerOptions.validate, require, Duration.isZero, Duration.ofSecs, hsize, hbuffer, bind, Except.bind]
    omega
  have hjudged := ListenerOptions.validate_of_positive o h.bindAddress h.backlog h.maxConnections hworker
  have hmade : ListenerOptions.ofSettings s.ingest = o.validate.map fun _ => o := by
    simp only [ListenerOptions.ofSettings, hframing, hpolicy, bind, Except.bind]
    rfl
  refine ⟨fun hle => ⟨o, ?_, ?_⟩, fun hlt => ?_⟩
  · rw [hmade, hjudged, if_pos hle]; rfl
  · rw [hjudged, if_pos hle]
  · rw [hmade, hjudged, if_neg (Nat.not_le.mpr hlt)]; rfl

/-- The service that settings describe, if it can be built. -/
def service (s : Settings) : Except IntakeError Service :=
  (ServiceOptions.ofSettings s).bind Service.build

/-- Valid settings become a service if the number of connections allows it. -/
theorem Valid.service (h : s.Valid) :
    (s.ingest.maxConnections.toNat ≤ maxPermits → ∃ v, s.service = .ok v) ∧
    (maxPermits < s.ingest.maxConnections.toNat → s.service = .error tooManyConnections) := by
  obtain ⟨queue, hqueue, hqueueValid⟩ := h.queueOptions
  refine ⟨fun hle => ?_, fun hlt => ?_⟩
  · obtain ⟨listener, hlistener, hvalid⟩ := h.listenerOptions.1 hle
    refine ⟨{ options := { listener, queue }, intake := { queue := .start queue } }, ?_⟩
    simp [Settings.service, ServiceOptions.ofSettings, Service.build, hlistener, hqueue, hvalid, hqueueValid,
      bind, Except.bind, pure, Except.pure]
  · simp [Settings.service, ServiceOptions.ofSettings, h.listenerOptions.2 hlt, bind, Except.bind]

end Settings

/-! ## The program -/

/-- A daemon whose settings allow too many connections is not built. -/
theorem Daemon.build_of_tooMany {s : Settings} (h : s.Valid) (hlt : maxPermits < s.ingest.maxConnections.toNat)
    (host : Host) : ∃ e, (Daemon.build host s).2 = .error e := by
  have hservice (lines : List Daemon.Line) : (Daemon.ofService s lines).2 = .error (.build tooManyConnections) := by
    have hnone : (ServiceOptions.ofSettings s).bind Service.build = .error tooManyConnections := h.service.2 hlt
    simp only [Daemon.ofService, hnone]
  have hcheck : s.check = .ok () := by
    simp [Settings.check, Settings.validate_eq_ok_iff.mpr h]
  simp only [Daemon.build, hcheck]
  split
  · split
    · exact ⟨_, rfl⟩
    · exact ⟨_, hservice _⟩
  · exact ⟨_, hservice _⟩

namespace Program

@[simp] theorem exitCode_withLog (o : Outcome) (filter : LogFilter) (s : Settings.General) (lines : List Daemon.Line) :
    (o.withLog filter s lines).exitCode = o.exitCode := by
  simp only [Outcome.withLog]
  split <;> rfl

/-- The settings that the program goes on with are valid. -/
theorem valid_of_settings {line : CommandLine} {file : Settings.FileState} {env : Environment} {s : Settings}
    (h : settings line file env = .ok s) : s.Valid := by
  simp only [settings] at h
  cases hfile : Settings.ofFile line.path file with
  | error e => simp [hfile, bind, Except.bind] at h
  | ok base =>
      simp only [hfile, mapError_ok, bind, Except.bind] at h
      cases hvalid : Settings.validate ((base.overlay env.layer).overlay line.layer) with
      | error e => simp [Settings.check, hvalid] at h
      | ok _ =>
          simp only [Settings.check, hvalid, mapError_ok, pure, Except.pure, Except.ok.injEq] at h
          exact Settings.validate_eq_ok_iff.mp (h ▸ hvalid)

/-- A program that only checks its settings says that valid ones are OK. -/
theorem runLine_of_validate {around : Surroundings} (line : CommandLine) {s : Settings}
    (hsettings : settings line (around.file line.path) around.environment = .ok s) (hcheck : line.validate = true) :
    runLine around line = { exitCode := 0, output := ["configuration OK: " ++ line.path] } := by
  simp only [runLine, hsettings, hcheck, if_true]

/-- A program that has been given too many connections fails, unless it only checks its settings. -/
theorem exitCode_of_tooMany {around : Surroundings} (line : CommandLine) {s : Settings}
    (hsettings : settings line (around.file line.path) around.environment = .ok s)
    (hlt : maxPermits < s.ingest.maxConnections.toNat) (hrun : line.validate = false) :
    (runLine around line).exitCode = 1 := by
  simp only [runLine, hsettings, hrun]
  obtain ⟨e, he⟩ := Daemon.build_of_tooMany (valid_of_settings hsettings) hlt around.host
  cases LogFilter.ofSettings (around.environment.text? "RUST_LOG") s.general with
  | error _ => rfl
  | ok filter =>
      rcases hbuilt : Daemon.build around.host s with ⟨lines, result⟩
      rw [hbuilt] at he
      subst he
      simp [serve, hbuilt, failure]

end Program

/-! ## The two checks compared -/

/-- Valid settings can be built just when they allow no more connections than a semaphore can count. Only this is
asked a second time: with more, the program says of settings that they are OK, and does not run with them. -/
theorem Settings.built_iff_of_valid {s : Settings} (hvalid : s.validate = .ok ()) :
    (∃ o, QueueOptions.ofSettings s.queue = .ok o) ∧
      ((∃ o, ListenerOptions.ofSettings s.ingest = .ok o) ↔ s.ingest.maxConnections.toNat ≤ maxPermits) ∧
      ((∃ v, s.service = .ok v) ↔ s.ingest.maxConnections.toNat ≤ maxPermits) ∧
      (maxPermits < s.ingest.maxConnections.toNat → ∀ (around : Program.Surroundings) (line : CommandLine),
        Program.settings line (around.file line.path) around.environment = .ok s →
          Program.runLine around { line with validate := true }
              = { exitCode := 0, output := ["configuration OK: " ++ line.path] } ∧
            (Program.runLine around { line with validate := false }).exitCode = 1) := by
  have h := validate_eq_ok_iff.mp hvalid
  obtain ⟨queue, hqueue, -⟩ := h.queueOptions
  refine ⟨⟨queue, hqueue⟩, ⟨?_, ?_⟩, ⟨?_, h.service.1⟩, ?_⟩
  · rintro ⟨o, ho⟩
    refine Nat.not_lt.mp fun hlt => ?_
    rw [h.listenerOptions.2 hlt] at ho
    cases ho
  · intro hle
    obtain ⟨o, ho, -⟩ := h.listenerOptions.1 hle
    exact ⟨o, ho⟩
  · rintro ⟨v, hv⟩
    refine Nat.not_lt.mp fun hlt => ?_
    rw [h.service.2 hlt] at hv
    cases hv
  · intro hlt around line hsettings
    exact ⟨Program.runLine_of_validate { line with validate := true } hsettings rfl,
      Program.exitCode_of_tooMany { line with validate := false } hsettings hlt rfl⟩

/-- As many connections as a semaphore can count are not too many. -/
theorem Settings.built_at_limit :
    let s : Settings := { ingest.maxConnections := 2305843009213693951 }
    s.validate = .ok () ∧ (∃ v, s.service = .ok v) :=
  ⟨rfl, ((built_iff_of_valid rfl).2.2.1).mpr (by decide)⟩

namespace Program

/-- Surroundings in which the settings file allows one connection too many. -/
def oneTooMany (arguments : List String) : Surroundings :=
  { arguments
    file := fun _ => .content (Utf8.encode "[ingest]\nmax_connections = 2305843009213693952\n")
    environment := [] }

theorem settings_oneTooMany :
    ∃ s, settings { configPath := some "loghaul.toml" } ((oneTooMany []).file "loghaul.toml") [] = .ok s
      ∧ maxPermits < s.ingest.maxConnections.toNat := by
  have hread : ((settings { configPath := some "loghaul.toml" } ((oneTooMany []).file "loghaul.toml") []).toOption.any
      fun s => maxPermits < s.ingest.maxConnections.toNat) = true := by decide +kernel
  cases hsettings : settings { configPath := some "loghaul.toml" } ((oneTooMany []).file "loghaul.toml") [] with
  | error e => simp [hsettings, Except.toOption] at hread
  | ok s => exact ⟨s, rfl, by simpa [hsettings, Except.toOption] using hread⟩

end Program

/-- One connection more: the settings are valid, the program says so, and there is no service for them. -/
theorem Settings.checked_and_refused :
    let s : Settings := { ingest.maxConnections := 2305843009213693952 }
    s.validate = .ok () ∧ ListenerOptions.ofSettings s.ingest = .error tooManyConnections ∧
      s.service = .error tooManyConnections ∧
      (Program.run (Program.oneTooMany ["--validate", "--config", "loghaul.toml"])).output
        = ["configuration OK: loghaul.toml"] ∧
      (Program.run (Program.oneTooMany ["--config", "loghaul.toml"])).exitCode = 1 := by
  refine ⟨rfl, rfl, rfl, by decide +kernel, ?_⟩
  obtain ⟨s, hsettings, hlt⟩ := Program.settings_oneTooMany
  have hline : CommandLine.parse ["--config", "loghaul.toml"] = .ok { configPath := some "loghaul.toml" } := rfl
  simp only [Program.run, Program.oneTooMany, hline]
  exact Program.exitCode_of_tooMany _ hsettings hlt rfl

end LogIntake
