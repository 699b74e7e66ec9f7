import Dissection.Resolve
import Dissection.Proofs.Handling
import Dissection.Proofs.TimeStamp
import Mathlib.Data.List.DropRight

/-!
# Histories of a session

What a session holds after any number of switches and resets is told from the history alone: of
some switches the last counts, of others all, and a reset forgets those of the options.
-/

namespace Dissection

/-- What is done to a session: a switch is handled, or the options are reset. -/
inductive Action where
  | handle (w : Switch) (argument : Option String)
  | reset
  deriving DecidableEq, Repr

def Action.perform (host : Host) (s : Session) : Action → Session
  | .handle w argument => (s.handleCode host (.string w.code) argument).session
  | .reset => s.reset

/-- The switches whose texts are collected as names. -/
def Switch.IsToggle (w : Switch) : Prop :=
  w = .disableProtocol ∨ w = .enableProtocol ∨ w = .enableHeuristic ∨ w = .disableHeuristic

def Options.names (o : Options) : Switch → List String
  | .disableProtocol => o.disabledProtocols
  | .enableProtocol => o.enabledProtocols
  | .enableHeuristic => o.enabledHeuristics
  | .disableHeuristic => o.disabledHeuristics
  | _ => []

/-- The format that a text gives, if it is taken and gives one. -/
def TimeStamp.formatOf? (text : String) : Option TimeFormat :=
  (TimeStamp.read text).toOption.bind TimeStamp.format

/-- The precision that a text gives, if it is taken and gives one. -/
def TimeStamp.precisionOf? (text : String) : Option TimePrecision :=
  (TimeStamp.read text).toOption.bind TimeStamp.precision

namespace History

/-- The session to which a history leads from a fresh one. -/
def session (host : Host) (history : List Action) : Session :=
  history.foldl (Action.perform host) {}

def sinceReset (history : List Action) : List Action := history.rtakeWhile (· ≠ .reset)

/-- The texts with which a switch was handled, in order. An absent argument counts as empty. -/
def texts (w : Switch) (history : List Action) : List String :=
  history.filterMap fun
    | .handle v argument => if v = w then some (argument.getD "") else none
    | .reset => none

def latest {α : Type} (values : List α) (unset : α) : α := values.getLast?.getD unset

private theorem session_concat (host : Host) (history : List Action) (a : Action) :
    session host (history ++ [a]) = a.perform host (session host history) := by
  simp [session]

private theorem sinceReset_concat_handle (history : List Action) (w : Switch)
    (argument : Option String) :
    sinceReset (history ++ [.handle w argument]) = sinceReset history ++ [.handle w argument] :=
  List.rtakeWhile_concat_pos _ _ _ (by simp)

private theorem sinceReset_concat_reset (history : List Action) :
    sinceReset (history ++ [.reset]) = [] :=
  List.rtakeWhile_concat_neg _ _ _ (by simp)

theorem texts_concat_self (w : Switch) (history : List Action) (argument : Option String) :
    texts w (history ++ [.handle w argument]) = texts w history ++ [argument.getD ""] := by
  simp [texts, List.filterMap_append]

theorem texts_concat_of_ne {v w : Switch} (h : v ≠ w) (history : List Action)
    (argument : Option String) : texts w (history ++ [.handle v argument]) = texts w history := by
  simp [texts, List.filterMap_append, h]

theorem texts_concat_reset (w : Switch) (history : List Action) :
    texts w (history ++ [.reset]) = texts w history := by
  simp [texts, List.filterMap_append]

/-- A component of sessions that one switch alone writes: each of its texts, refused or not, takes
the component to its next value. -/
structure WrittenBy {β : Type} (host : Host) (w : Switch) (get : Session → β)
    (next : β → String → β) : Prop where
  own (s : Session) (argument : Option String) :
    get ((Action.handle w argument).perform host s) = next (get s) (argument.getD "")
  other {v : Switch} (hv : v ≠ w) (s : Session) (argument : Option String) :
    get ((Action.handle v argument).perform host s) = get s

namespace WrittenBy

variable {β : Type} {host : Host} {w : Switch} {get : Session → β} {next : β → String → β}

private theorem fold_texts (h : WrittenBy host w get next)
    (hreset : ∀ s : Session, get s.reset = get s)
    (history : List Action) :
    get (session host history) = (texts w history).foldl next (get {}) := by
  induction history using List.reverseRecOn with
  | nil => rfl
  | append_singleton history a ih =>
    rw [session_concat]
    cases a with
    | reset =>
      rw [texts_concat_reset, ← ih]
      exact hreset _
    | handle v argument =>
      by_cases hv : v = w
      · subst hv
        rw [texts_concat_self, h.own, List.foldl_concat, ih]
      · rw [texts_concat_of_ne hv, h.other hv, ih]

private theorem fold_texts_sinceReset (h : WrittenBy host w get next)
    (hreset : ∀ s : Session, get s.reset = get {}) (history : List Action) :
    get (session host history) = (texts w (sinceReset history)).foldl next (get {}) := by
  induction history using List.reverseRecOn with
  | nil => rfl
  | append_singleton history a ih =>
    rw [session_concat]
    cases a with
    | reset =>
      rw [sinceReset_concat_reset]
      exact hreset _
    | handle v argument =>
      rw [sinceReset_concat_handle]
      by_cases hv : v = w
      · subst hv
        rw [texts_concat_self, h.own, List.foldl_concat, ih]
      · rw [texts_concat_of_ne hv, h.other hv, ih]

end WrittenBy

end History

namespace Action

theorem perform_handle (host : Host) (s : Session) (w : Switch) (argument : Option String) :
    (handle w argument).perform host s =
      match w.effect host (argument.getD "") with
      | .ok f => f s
      | .error _ => s := by
  rw [perform, Session.handleCode_code]
  cases w.effect host (argument.getD "") <;> rfl

theorem perform_same (host : Host) (s : Session) {w : Switch} {p : Part} (hp : p ≠ w.part)
    (argument : Option String) : p.Same s ((handle w argument).perform host s) := by
  rw [perform_handle]
  cases h : w.effect host (argument.getD "") with
  | ok f => exact (Switch.effect_same h s p).resolve_left hp
  | error cause => exact p.same_refl s

end Action

/-- Only the two switches of name resolution own one part together. -/
theorem Switch.part_ne_of_ne {v w : Switch} (h : v ≠ w) (hw : w.part ≠ .nameResolution) :
    w.part ≠ v.part := by
  cases v <;> cases w <;> simp_all [Switch.part]

namespace History

private theorem writtenBy_timeStamp (host : Host) :
    WrittenBy host .timeStamp (fun s => (s.options.timeFormat, s.options.timePrecision))
      fun stamp text => ((TimeStamp.formatOf? text).getD stamp.1,
        (TimeStamp.precisionOf? text).getD stamp.2) where
  own s argument := by
    rw [Action.perform_handle]
    cases h : TimeStamp.read (argument.getD "") <;>
      simp [Switch.effect, TimeStamp.formatOf?, TimeStamp.precisionOf?, h, Except.map,
        Except.toOption, Session.mapOptions, Options.withTimeStamp]
  other hv s argument := by
    obtain ⟨hformat, hprecision⟩ :=
      Action.perform_same host s (Switch.part_ne_of_ne hv (by decide)) argument
    rw [hformat, hprecision]

theorem writtenBy_names (host : Host) {w : Switch} (hw : w.IsToggle) :
    WrittenBy host w (fun s => s.options.names w) fun names text => names ++ [text] where
  own s argument := by
    rw [Action.perform_handle]
    rcases hw with rfl | rfl | rfl | rfl <;> rfl
  other hv s argument := by
    have hpart : w.part ≠ .nameResolution := by rcases hw with rfl | rfl | rfl | rfl <;> decide
    have hsame := Action.perform_same host s (Switch.part_ne_of_ne hv hpart) argument
    rcases hw with rfl | rfl | rfl | rfl <;> exact hsame.symm

private theorem writtenBy_seconds (host : Host) :
    WrittenBy host .secondsType (fun s => s.settings.seconds)
      fun seconds text => (SecondsType.ofWord? text).getD seconds where
  own s argument := by
    rw [Action.perform_handle]
    cases h : SecondsType.ofWord? (argument.getD "") <;>
      simp [Switch.effect, h, Session.mapSettings]
  other hv s argument :=
    (Action.perform_same host s (Switch.part_ne_of_ne hv (by decide)) argument).symm

private theorem writtenBy_rules (keytabs : Bool) :
    WrittenBy (.standard keytabs) .decodeAs (fun s => s.settings.rules)
      fun rules text => rules ++ (DecodeAs.read text).toOption.toList where
  own s argument := by
    rw [Action.perform_handle]
    cases h : DecodeAs.read (argument.getD "") <;>
      simp [Switch.effect, Host.standard, h, Except.map, Except.toOption,
        Session.mapSettings, Settings.withRule]
  other hv s argument :=
    (Action.perform_same _ s (Switch.part_ne_of_ne hv (by decide)) argument).symm

private theorem writtenBy_keytabs (host : Host) :
    WrittenBy host .keytab (fun s => s.settings.keytabs)
      fun paths text => if host.keytabs then some (paths.getD [] ++ [text]) else paths where
  own s argument := by
    rw [Action.perform_handle]
    cases h : host.keytabs <;> simp [Switch.effect, h, Session.mapSettings, Settings.withKeytab]
  other hv s argument :=
    (Action.perform_same host s (Switch.part_ne_of_ne hv (by decide)) argument).symm

/-! What the folds come to. -/

private theorem foldl_getD {α : Type} (f : String → Option α) (unset : α) (xs : List String) :
    xs.foldl (fun a text => (f text).getD a) unset = latest (xs.filterMap f) unset := by
  induction xs using List.reverseRecOn with
  | nil => rfl
  | append_singleton xs x ih =>
    rw [List.foldl_concat, ih, List.filterMap_append]
    cases h : f x <;> simp [latest, h]

private theorem foldl_toList {α : Type} (f : String → Option α) (xs : List String) :
    xs.foldl (fun values text => values ++ (f text).toList) [] = xs.filterMap f := by
  induction xs using List.reverseRecOn with
  | nil => rfl
  | append_singleton xs x ih =>
    rw [List.foldl_concat, ih, List.filterMap_append]
    cases h : f x <;> simp [h]

private theorem foldl_pair {α β : Type} (f : α → String → α) (g : β → String → β) (a : α) (b : β)
    (xs : List String) :
    xs.foldl (fun p text => (f p.1 text, g p.2 text)) (a, b) = (xs.foldl f a, xs.foldl g b) := by
  induction xs generalizing a b with
  | nil => rfl
  | cons x xs ih => exact ih (f a x) (g b x)

private theorem foldl_keytabs (readable : Bool) (xs : List String) :
    xs.foldl (fun paths text => if readable then some (paths.getD [] ++ [text]) else paths) none =
      if readable = true ∧ xs ≠ [] then some xs else none := by
  induction xs using List.reverseRecOn with
  | nil => simp
  | append_singleton xs x ih =>
    rw [List.foldl_concat, ih]
    cases readable with
    | false => simp
    | true => by_cases hnil : xs = [] <;> simp [hnil]

/-- The formats that the accepted texts about time stamps have given since the last reset. -/
def formats (history : List Action) : List TimeFormat :=
  (texts .timeStamp (sinceReset history)).filterMap TimeStamp.formatOf?

/-- The precisions that the accepted texts about time stamps have given since the last reset. -/
def precisions (history : List Action) : List TimePrecision :=
  (texts .timeStamp (sinceReset history)).filterMap TimeStamp.precisionOf?

/-- What a session holds that a history has led to. -/
structure ClosedForm (keytabs : Bool) (history : List Action) (s : Session) : Prop where
  timeFormat : s.options.timeFormat = latest (formats history) .notSet
  timePrecision : s.options.timePrecision = latest (precisions history) .notSet
  timePrecision_ne_auto : s.options.timePrecision ≠ .auto
  shownFormat : ∃ shown, s.options.entries.lookup "time_format" = some (.string shown) ∧
    shown ≠ "not_set"
  shownPrecision : ∃ shown, s.options.entries.lookup "time_precision" = some (.string shown) ∧
    shown ≠ "not_set" ∧ (shown = "auto" ↔ precisions history = [])
  disabledProtocols : s.options.disabledProtocols = texts .disableProtocol (sinceReset history)
  enabledProtocols : s.options.enabledProtocols = texts .enableProtocol (sinceReset history)
  enabledHeuristics : s.options.enabledHeuristics = texts .enableHeuristic (sinceReset history)
  disabledHeuristics : s.options.disabledHeuristics = texts .disableHeuristic (sinceReset history)
  seconds : s.settings.seconds =
    latest ((texts .secondsType history).filterMap SecondsType.ofWord?) .plain
  rules : s.settings.rules =
    (texts .decodeAs history).filterMap fun text => (DecodeAs.read text).toOption
  keytabs : s.settings.keytabs =
    if keytabs = true ∧ texts .keytab history ≠ [] then some (texts .keytab history) else none

private theorem precisionOf?_eq_some {text : String} {p : TimePrecision}
    (h : TimeStamp.precisionOf? text = some p) : p ≠ .auto ∧ p ≠ .notSet := by
  rw [TimeStamp.precisionOf?, Option.bind_eq_some_iff] at h
  obtain ⟨t, hread, hp⟩ := h
  have hok : TimeStamp.read text = .ok t := by
    cases hr : TimeStamp.read text <;> simp_all [Except.toOption]
  have htold := (TimeStamp.read_eq_ok_iff.mp hok).told
  exact ⟨fun hauto => htold.precision_ne_auto (hauto ▸ hp),
    fun hnotSet => htold.precision_ne_notSet (hnotSet ▸ hp)⟩

private theorem latest_precisions (history : List Action) :
    precisions history = [] ∧ latest (precisions history) .notSet = .notSet ∨
      precisions history ≠ [] ∧ latest (precisions history) .notSet ≠ .notSet ∧
        latest (precisions history) .notSet ≠ .auto := by
  by_cases hnil : precisions history = []
  · exact .inl ⟨hnil, by rw [hnil]; rfl⟩
  · right
    have hlast := List.getLast_mem hnil
    obtain ⟨text, -, htext⟩ := List.mem_filterMap.mp hlast
    have hcases := precisionOf?_eq_some htext
    have hlatest : latest (precisions history) .notSet = (precisions history).getLast hnil := by
      rw [latest, List.getLast?_eq_some_getLast hnil, Option.getD_some]
    rw [hlatest]
    exact ⟨hnil, hcases.2, hcases.1⟩

private theorem timeStamp_session (host : Host) (history : List Action) :
    (session host history).options.timeFormat = latest (formats history) .notSet ∧
      (session host history).options.timePrecision = latest (precisions history) .notSet := by
  have h := (writtenBy_timeStamp host).fold_texts_sinceReset (fun _ => rfl) history
  rw [foldl_pair (fun format text => (TimeStamp.formatOf? text).getD format)
    (fun precision text => (TimeStamp.precisionOf? text).getD precision), foldl_getD,
    foldl_getD] at h
  exact Prod.mk.inj h

private theorem names_session (host : Host) {w : Switch} (hw : w.IsToggle) (history : List Action) :
    (session host history).options.names w = texts w (sinceReset history) := by
  have hreset (s : Session) : s.reset.options.names w = [] := by
    rcases hw with rfl | rfl | rfl | rfl <;> rfl
  have hfresh : ({} : Session).options.names w = [] := hreset {}
  have h := (writtenBy_names host hw).fold_texts_sinceReset
    (fun s => (hreset s).trans hfresh.symm) history
  rw [h, hfresh]
  simpa using foldl_toList some (texts w (sinceReset history))

private theorem seconds_session (host : Host) (history : List Action) :
    (session host history).settings.seconds =
      latest ((texts .secondsType history).filterMap SecondsType.ofWord?) .plain := by
  rw [(writtenBy_seconds host).fold_texts (fun _ => rfl) history]
  exact foldl_getD _ _ _

private theorem rules_session (keytabs : Bool) (history : List Action) :
    (session (.standard keytabs) history).settings.rules =
      (texts .decodeAs history).filterMap fun text => (DecodeAs.read text).toOption := by
  rw [(writtenBy_rules keytabs).fold_texts (fun _ => rfl) history]
  exact foldl_toList _ _

private theorem keytabs_session (host : Host) (history : List Action) :
    (session host history).settings.keytabs =
      if host.keytabs = true ∧ texts .keytab history ≠ [] then some (texts .keytab history)
      else none := by
  rw [(writtenBy_keytabs host).fold_texts (fun _ => rfl) history]
  exact foldl_keytabs _ _

/-- Whatever the history, the session is its closed form: refused switches leave no trace, and a
reset forgets the options but none of the settings. -/
theorem session_closedForm (keytabs : Bool) (history : List Action) :
    ClosedForm keytabs history (session (.standard keytabs) history) := by
  have hstamp := timeStamp_session (.standard keytabs) history
  have hnames {w : Switch} (hw : w.IsToggle) := names_session (.standard keytabs) hw history
  have hprecision := latest_precisions history
  refine
    { timeFormat := hstamp.1
      timePrecision := hstamp.2
      timePrecision_ne_auto := ?_
      shownFormat := ⟨_, rfl, ?_⟩
      shownPrecision := ⟨_, rfl, ?_⟩
      disabledProtocols := hnames (.inl rfl)
      enabledProtocols := hnames (.inr (.inl rfl))
      enabledHeuristics := hnames (.inr (.inr (.inl rfl)))
      disabledHeuristics := hnames (.inr (.inr (.inr rfl)))
      seconds := seconds_session (.standard keytabs) history
      rules := rules_session keytabs history
      keytabs := keytabs_session (.standard keytabs) history }
  · rw [hstamp.2]
    rcases hprecision with ⟨-, hnot⟩ | ⟨-, -, hauto⟩
    · rw [hnot]
      decide
    · exact hauto
  · cases (session (.standard keytabs) history).options.timeFormat <;> decide
  · rw [hstamp.2]
    rcases hprecision with ⟨hnil, hnot⟩ | ⟨hne, hnot, hauto⟩
    · rw [hnot]
      exact ⟨by decide, fun _ => hnil, fun _ => rfl⟩
    · cases hp : latest (precisions history) .notSet <;>
        simp_all [TimePrecision.effective, TimePrecision.name]

end History

end Dissection
