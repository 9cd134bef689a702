import LogIntake.Daemon.Program
import LogIntake.Proofs.Text.Numeral
import LogIntake.Proofs.Text.Utf8
import Mathlib.Data.List.Forall2

/-!
# Where the value of a setting comes from

Each field of the settings is decided by what the command line, its own environment variable, the file and the
defaults say of it, in this order, and by nothing else (`Decided`). What a variable says is told by the texts that
write a value of the kind of the field (`Kind.Writes`). A variable with any other text changes nothing and is
warned of once.
-/

namespace LogIntake

namespace Settings

/-! ## Values in texts -/

namespace Width

theorem bound_pos (w : Width) : 0 < w.bound := by
  cases w <;> decide

theorem toNat_lt_bound (w : Width) (v : w.Word) : w.toNat v < w.bound := by
  cases w with
  | w16 => exact UInt16.toNat_lt v
  | w32 => exact UInt32.toNat_lt v
  | w64 => exact UInt64.toNat_lt v

theorem word_toNat (w : Width) (v : w.Word) : w.word (w.toNat v) = v := by
  cases w with
  | w16 => exact UInt16.ofNat_toNat
  | w32 => exact UInt32.ofNat_toNat
  | w64 => exact UInt64.ofNat_toNat

theorem toNat_word {w : Width} {n : Nat} (h : n < w.bound) : w.toNat (w.word n) = n := by
  cases w with
  | w16 => exact UInt16.toNat_ofNat_of_lt' h
  | w32 => exact UInt32.toNat_ofNat_of_lt' h
  | w64 => exact UInt64.toNat_ofNat_of_lt' h

end Width

/-- A text writes a value: itself, the number of its digits, or the name of a flag. -/
def Kind.Writes : (k : Kind) → String → k.Value → Prop
  | .text, s, v => s = v
  | .number w, s, v => Numeral.Writes s (w.toNat v)
  | .flag, s, v => s = if v then "true" else "false"

theorem parseNumber_eq_ok_iff {w : Width} {text : String} {v : w.Word} :
    parseNumber w text = .ok v ↔ Numeral.Writes text (w.toNat v) := by
  have hparse : ∀ n, Numeral.parse w.bound text = .ok n ↔ Numeral.Writes text n ∧ n < w.bound :=
    fun _ => Numeral.parse_eq_ok_iff w.bound_pos
  unfold parseNumber
  split
  · next n hn =>
      obtain ⟨hwrites, hlt⟩ := (hparse n).mp hn
      rw [Except.ok.injEq]
      constructor
      · rintro rfl
        rwa [Width.toNat_word hlt]
      · intro hv
        have hsame := (hparse _).mpr ⟨hv, w.toNat_lt_bound v⟩
        rw [hn, Except.ok.injEq] at hsame
        rw [hsame, Width.word_toNat]
  · next e he =>
      refine ⟨fun h => (nomatch h), fun hv => ?_⟩
      have hok := (hparse _).mpr ⟨hv, w.toNat_lt_bound v⟩
      rw [he] at hok
      cases hok

theorem parseFlag_eq_ok_iff {s : String} {v : Bool} :
    parseFlag s = .ok v ↔ s = if v then "true" else "false" := by
  unfold parseFlag
  split
  · cases v <;> simp
  · cases v <;> simp
  · next htrue hfalse =>
      refine ⟨fun h => (nomatch h), fun h => ?_⟩
      cases v with
      | true => exact absurd h htrue
      | false => exact absurd h hfalse

theorem Kind.parse_eq_ok_iff {k : Kind} {s : String} {v : k.Value} : k.parse s = .ok v ↔ k.Writes s v := by
  cases k with
  | text => exact Iff.of_eq (Except.ok.injEq s v)
  | number w => exact parseNumber_eq_ok_iff
  | flag => exact parseFlag_eq_ok_iff

/-! ## Layers -/

theorem get_overlayField (layer : Layer) (s : Settings) (f g : Field) :
    (overlayField layer s f).get g = if f = g then (layer g).getD (s.get g) else s.get g := by
  unfold overlayField
  split
  · next v hv =>
      split
      · next heq =>
          subst heq
          rw [get_set_self, hv]
          rfl
      · next hne => exact get_set_of_ne s v hne
  · next hv =>
      split
      · next heq =>
          subst heq
          rw [hv]
          rfl
      · rfl

theorem get_foldl_overlayField (layer : Layer) (fields : List Field) (s : Settings) (g : Field) :
    (fields.foldl (overlayField layer) s).get g = if g ∈ fields then (layer g).getD (s.get g) else s.get g := by
  induction fields generalizing s with
  | nil => rfl
  | cons f fields ih =>
      rw [List.foldl_cons, ih, get_overlayField]
      by_cases hmem : g ∈ fields
      · rw [if_pos hmem, if_pos (List.mem_cons_of_mem f hmem)]
        split
        · cases layer g <;> rfl
        · rfl
      · by_cases heq : f = g
        · subst heq
          rw [if_neg hmem, if_pos rfl, if_pos List.mem_cons_self]
        · rw [if_neg hmem, if_neg heq, if_neg (by simp [hmem, Ne.symm heq])]

/-- A field has the value that the layer gives it, and keeps its own if the layer gives none. -/
theorem get_overlay (layer : Layer) (s : Settings) (f : Field) :
    (s.overlay layer).get f = (layer f).getD (s.get f) := by
  rw [overlay, get_foldl_overlayField, if_pos (Field.mem_all f)]

def ofValues (value : (f : Field) → f.Value) : Settings where
  general := { logLevel := value .logLevel, logFormat := value .logFormat }
  ingest :=
    { bindAddress := value .bindAddress
      port := value .port
      backlog := value .backlog
      maxConnections := value .maxConnections
      readTimeoutSecs := value .readTimeoutSecs
      maxRecordSize := value .maxRecordSize
      recvBufferSize := value .recvBufferSize
      framing := value .framing
      decodeErrorPolicy := value .decodeErrorPolicy
      acceptBackoffMs := value .acceptBackoffMs
      shutdownGraceSecs := value .shutdownGraceSecs }
  queue :=
    { capacity := value .capacity, backpressure := value .backpressure, pushTimeoutMs := value .pushTimeoutMs }
  metrics :=
    { enabled := value .metricsEnabled, listenAddr := value .metricsListenAddr, port := value .metricsPort }

theorem ofValues_get (s : Settings) : ofValues s.get = s :=
  rfl

/-- Settings are what their fields are. -/
theorem ext_get {s t : Settings} (h : ∀ f, s.get f = t.get f) : s = t := by
  rw [← ofValues_get s, ← ofValues_get t, funext h]

theorem overlay_overlay_self (s : Settings) (layer : Layer) : (s.overlay layer).overlay layer = s.overlay layer := by
  refine ext_get fun f => ?_
  rw [get_overlay, get_overlay]
  cases layer f <;> rfl

theorem overlay_of_none {layer : Layer} (h : ∀ f, layer f = none) (s : Settings) : s.overlay layer = s := by
  refine ext_get fun f => ?_
  rw [get_overlay, h]
  rfl

/-! ## The environment -/

/-- No two fields share a variable. -/
theorem nodup_envKeys : (Field.all.map Field.envKey).Nodup := by decide +kernel

end Settings

namespace Environment

open Settings

/-- A variable is set to a text. -/
def Says (env : Environment) (key text : String) : Prop :=
  env.lookup key = some (Utf8.encode text)

theorem text?_eq_some_iff {env : Environment} {key text : String} : env.text? key = some text ↔ env.Says key text := by
  rw [text?, Option.bind_eq_some_iff, Says]
  constructor
  · rintro ⟨bytes, hlookup, hdecode⟩
    rw [hlookup, Utf8.decode?_eq_some_iff.mp hdecode]
  · intro hlookup
    exact ⟨_, hlookup, Utf8.decode?_eq_some_iff.mpr rfl⟩

/-- The variable of a field is set to a text that writes no value of the field. -/
def Unreadable (env : Environment) (f : Field) : Prop :=
  ∃ text, env.Says f.envKey text ∧ ∀ v, ¬ f.kind.Writes text v

variable {env : Environment} {f : Field}

theorem layer_eq_some_iff {v : f.Value} :
    env.layer f = some v ↔ ∃ text, env.Says f.envKey text ∧ f.kind.Writes text v := by
  simp only [← text?_eq_some_iff, ← Kind.parse_eq_ok_iff, layer, readVariable]
  cases htext : env.text? f.envKey with
  | none => simp
  | some text => cases hparse : f.kind.parse text <;> simp [hparse]

theorem unreadable_iff :
    env.Unreadable f ↔ ∃ text error, env.text? f.envKey = some text ∧ f.kind.parse text = .error error := by
  simp only [Unreadable, ← text?_eq_some_iff, ← Kind.parse_eq_ok_iff]
  constructor
  · rintro ⟨text, htext, hnone⟩
    cases hparse : f.kind.parse text with
    | ok v => exact absurd hparse (hnone v)
    | error error => exact ⟨text, error, htext, hparse⟩
  · rintro ⟨text, error, htext, hparse⟩
    exact ⟨text, htext, fun v hv => by rw [hparse] at hv; cases hv⟩

/-- What the environment warns of at one field. -/
def warning? (env : Environment) (f : Field) : Option Warning :=
  match readVariable env f with
  | some (.error w) => some w
  | _ => none

theorem warning?_eq_some_iff {w : Warning} :
    env.warning? f = some w ↔
      w.key = f.envKey ∧ env.Says f.envKey w.value ∧ f.kind.parse w.value = .error w.error := by
  simp only [← text?_eq_some_iff, warning?, readVariable]
  obtain ⟨key, value, error⟩ := w
  cases htext : env.text? f.envKey with
  | none => simp
  | some text =>
      simp only [Option.map_some, Option.some.injEq]
      cases hparse : f.kind.parse text with
      | ok v =>
          refine ⟨fun h => (nomatch h), ?_⟩
          rintro ⟨-, rfl, herror⟩
          rw [hparse] at herror
          cases herror
      | error e =>
          simp only [Option.some.injEq, Warning.mk.injEq]
          constructor
          · rintro ⟨rfl, rfl, rfl⟩
            exact ⟨rfl, rfl, hparse⟩
          · rintro ⟨rfl, rfl, herror⟩
            rw [hparse, Except.error.injEq] at herror
            exact ⟨rfl, rfl, herror⟩

theorem warnings_eq (env : Environment) : env.warnings = Field.all.filterMap env.warning? :=
  rfl

theorem unreadable_iff_isSome : env.Unreadable f ↔ (env.warning? f).isSome = true := by
  rw [Option.isSome_iff_exists, unreadable_iff]
  constructor
  · rintro ⟨text, error, htext, hparse⟩
    exact ⟨⟨f.envKey, text, error⟩, warning?_eq_some_iff.mpr ⟨rfl, text?_eq_some_iff.mp htext, hparse⟩⟩
  · rintro ⟨w, hw⟩
    obtain ⟨-, htext, hparse⟩ := warning?_eq_some_iff.mp hw
    exact ⟨w.value, w.error, text?_eq_some_iff.mpr htext, hparse⟩

instance (env : Environment) (f : Field) : Decidable (env.Unreadable f) :=
  decidable_of_iff _ unreadable_iff_isSome.symm

/-- A warning tells of a field: its variable, the text it is set to, and what is wrong with that. -/
def Warns (env : Environment) (f : Field) (w : Warning) : Prop :=
  w.key = f.envKey ∧ env.Says f.envKey w.value ∧ f.kind.parse w.value = .error w.error

theorem forall₂_warns (env : Environment) (fields : List Field) :
    List.Forall₂ env.Warns (fields.filter (env.Unreadable ·)) (fields.filterMap env.warning?) := by
  induction fields with
  | nil => exact .nil
  | cons f fields ih =>
      cases hw : env.warning? f with
      | none =>
          have hreadable : ¬ env.Unreadable f := by rw [unreadable_iff_isSome, hw]; decide
          rw [List.filterMap_cons_none hw, List.filter_cons_of_neg (by simpa using hreadable)]
          exact ih
      | some w =>
          have hunreadable : env.Unreadable f := by rw [unreadable_iff_isSome, hw]; rfl
          rw [List.filterMap_cons_some hw, List.filter_cons_of_pos (by simpa using hunreadable)]
          exact .cons (warning?_eq_some_iff.mp hw) ih

theorem map_key_of_forall₂ {fields : List Field} {ws : List Warning} (h : List.Forall₂ env.Warns fields ws) :
    ws.map (·.key) = fields.map Field.envKey := by
  induction h with
  | nil => rfl
  | cons hw _ ih => rw [List.map_cons, List.map_cons, hw.1, ih]

theorem nodup_keys (env : Environment) : (env.warnings.map (·.key)).Nodup := by
  rw [warnings_eq, map_key_of_forall₂ (env.forall₂_warns Field.all)]
  exact nodup_envKeys.sublist (List.filter_sublist.map _)

end Environment

namespace CommandLine

open Settings

variable {line : CommandLine} {f : Field}

/-- An option that has been given says what the value of its field is. -/
inductive Gives (line : CommandLine) : (f : Field) → f.Value → Prop where
  | logLevel (level : String) : line.logLevel = some level → Gives line .logLevel level
  | logFormat (format : String) : line.logFormat = some format → Gives line .logFormat format
  | port (port : UInt16) : line.port = some port → Gives line .port port

theorem layer_eq_some_iff {v : f.Value} : line.layer f = some v ↔ line.Gives f v := by
  constructor
  · intro h
    cases f with
    | logLevel => exact .logLevel v h
    | logFormat => exact .logFormat v h
    | port => exact .port v h
    | _ => cases h
  · rintro (⟨_, h⟩ | ⟨_, h⟩ | ⟨_, h⟩)
    · exact h
    · exact h
    · exact h

theorem layer_eq_none_iff : line.layer f = none ↔ ∀ v, ¬ line.Gives f v := by
  simp only [Option.eq_none_iff_forall_ne_some, ne_eq, layer_eq_some_iff]

theorem not_gives (hlevel : line.logLevel = none) (hformat : line.logFormat = none) (hport : line.port = none)
    (v : f.Value) : ¬ line.Gives f v := by
  rintro (⟨_, h⟩ | ⟨_, h⟩ | ⟨_, h⟩)
  · exact nomatch hlevel.symm.trans h
  · exact nomatch hformat.symm.trans h
  · exact nomatch hport.symm.trans h

end CommandLine

namespace Settings

/-- Takes the variable of one field, and warns if it cannot be read. -/
def override (env : Environment) (taken : Settings × List Warning) (f : Field) : Settings × List Warning :=
  match readVariable env f with
  | none => taken
  | some (.ok v) => (taken.1.set f v, taken.2)
  | some (.error w) => (taken.1, taken.2 ++ [w])

/-- The fields may be taken one after the other. -/
theorem foldl_override (env : Environment) (fields : List Field) (s : Settings) (ws : List Warning) :
    fields.foldl (override env) (s, ws)
      = (fields.foldl (overlayField env.layer) s, ws ++ fields.filterMap env.warning?) := by
  induction fields generalizing s ws with
  | nil => exact Prod.ext rfl (List.append_nil ws).symm
  | cons f fields ih =>
      rw [List.foldl_cons, List.foldl_cons]
      unfold override overlayField Environment.layer
      cases hread : readVariable env f with
      | none =>
          have hw : env.warning? f = none := by rw [Environment.warning?, hread]
          rw [List.filterMap_cons_none hw]
          exact ih s ws
      | some said =>
          cases said with
          | ok v =>
              have hw : env.warning? f = none := by rw [Environment.warning?, hread]
              rw [List.filterMap_cons_none hw]
              exact ih (s.set f v) ws
          | error w =>
              have hw : env.warning? f = some w := by rw [Environment.warning?, hread]
              rw [List.filterMap_cons_some hw]
              refine (ih s (ws ++ [w])).trans ?_
              rw [List.append_assoc]
              rfl

/-! ## The file -/

theorem parse?_eq_some_iff {text : String} {s : Settings} :
    parse? text = some s ↔ ∃ table said, Toml.Table.parse? text = some table ∧
      (∀ f, readField table f = some (said f)) ∧ s = overlay {} said := by
  have htable : ∀ table layer, ofTable? table = some layer ↔ ∀ f, readField table f = some (layer f) := by
    intro table layer
    unfold ofTable?
    split
    · next hall =>
        have hsome := fun f => Option.isSome_iff_exists.mp (List.all_eq_true.mp hall f (Field.mem_all f))
        constructor
        · intro h f
          obtain rfl := Option.some.inj h
          obtain ⟨said, hsaid⟩ := hsome f
          exact hsaid.trans (congrArg some (congrArg Option.join hsaid).symm)
        · intro h
          refine congrArg some (funext fun f => ?_)
          rw [h f]
          rfl
    · next hall =>
        refine ⟨fun h => (nomatch h), fun h => absurd (List.all_eq_true.mpr fun f _ => ?_) hall⟩
        rw [h f]
        rfl
  unfold parse?
  rw [Option.map_eq_some_iff]
  constructor
  · rintro ⟨layer, hlayer, rfl⟩
    obtain ⟨table, hparse, hread⟩ := Option.bind_eq_some_iff.mp hlayer
    exact ⟨table, layer, hparse, (htable table layer).mp hread, rfl⟩
  · rintro ⟨table, said, hparse, hread, rfl⟩
    exact ⟨said, Option.bind_eq_some_iff.mpr ⟨table, hparse, (htable table said).mpr hread⟩, rfl⟩

/-- Without overrides the program and the loading of settings accept the same and come to the same settings. -/
theorem load_eq_ok_iff {line : CommandLine} (h : ∀ f, line.layer f = none) (file : FileState) (env : Environment)
    (s : Settings) : load line.path file env = .ok s ↔ Program.settings line file env = .ok s := by
  unfold load Program.settings
  cases ofFile line.path file with
  | error e => simp [bind, Except.bind, Except.mapError]
  | ok base =>
      simp only [bind, Except.bind, Except.mapError, overlay_of_none h]
      cases (base.overlay env.layer).check with
      | error e => simp
      | ok _ => simp [pure, Except.pure]

/-! ## All layers -/

/-- What decides a field, from the command line down to the default. -/
inductive Decided (env : Environment) (line : CommandLine) (said : Layer) (f : Field) : f.Value → Prop where
  | given (v : f.Value) : line.Gives f v → Decided env line said f v
  | set (text : String) (v : f.Value) : (∀ v, ¬ line.Gives f v) → env.Says f.envKey text → f.kind.Writes text v →
      Decided env line said f v
  | said (v : f.Value) : (∀ v, ¬ line.Gives f v) → (∀ text, env.Says f.envKey text → ∀ v, ¬ f.kind.Writes text v) →
      said f = some v → Decided env line said f v
  | default : (∀ v, ¬ line.Gives f v) → (∀ text, env.Says f.envKey text → ∀ v, ¬ f.kind.Writes text v) →
      said f = none → Decided env line said f (({} : Settings).get f)

theorem decided (env : Environment) (line : CommandLine) (said : Layer) (f : Field) :
    Decided env line said f (((((overlay {} said).overlay env.layer).overlay line.layer)).get f) := by
  rw [get_overlay, get_overlay, get_overlay]
  cases hline : line.layer f with
  | some v => exact .given v (CommandLine.layer_eq_some_iff.mp hline)
  | none =>
      have hnever := CommandLine.layer_eq_none_iff.mp hline
      cases henv : env.layer f with
      | some v =>
          obtain ⟨text, hsays, hwrites⟩ := Environment.layer_eq_some_iff.mp henv
          exact .set text v hnever hsays hwrites
      | none =>
          have hnone : ∀ text, env.Says f.envKey text → ∀ v, ¬ f.kind.Writes text v := by
            intro text hsays v hwrites
            rw [Environment.layer_eq_some_iff.mpr ⟨text, hsays, hwrites⟩] at henv
            cases henv
          cases hsaid : said f with
          | some v => exact .said v hnever hnone hsaid
          | none => exact .default hnever hnone hsaid

end Settings

end LogIntake
