import Dissection.Session

/-!
# Handling a switch

What a switch does hangs on its text alone, not on the session: either there is an effect, which
changes no part of the session but the one that the switch owns, or there is a refusal, which comes
before anything is changed.
-/

namespace Dissection

@[simp] theorem mapError_ok {ε δ α : Type} (f : ε → δ) (a : α) :
    (Except.ok a : Except ε α).mapError f = .ok a := rfl

@[simp] theorem mapError_error {ε δ α : Type} (f : ε → δ) (e : ε) :
    (Except.error e : Except ε α).mapError f = .error (f e) := rfl

theorem bind_eq_ok {ε α β : Type} {x : Except ε α} {f : α → Except ε β} {b : β}
    (h : (x >>= f) = .ok b) : ∃ a, x = .ok a ∧ f a = .ok b := by
  cases x with
  | error e => cases h
  | ok a => exact ⟨a, rfl, h⟩

theorem map_eq_ok {ε α β : Type} {x : Except ε α} {f : α → β} {b : β}
    (h : x.map f = .ok b) : ∃ a, x = .ok a ∧ f a = b := by
  cases x with
  | error e => cases h
  | ok a => exact ⟨a, rfl, Except.ok.inj h⟩

inductive Part where
  | timeStamp
  | disabledProtocols
  | enabledProtocols
  | enabledHeuristics
  | disabledHeuristics
  | nameResolution
  | rules
  | secondsType
  | keytabs
  deriving DecidableEq, Repr

/-- Whether two sessions agree on a part. -/
def Part.Same (s t : Session) : Part → Prop
  | .timeStamp =>
    s.options.timeFormat = t.options.timeFormat ∧ s.options.timePrecision = t.options.timePrecision
  | .disabledProtocols => s.options.disabledProtocols = t.options.disabledProtocols
  | .enabledProtocols => s.options.enabledProtocols = t.options.enabledProtocols
  | .enabledHeuristics => s.options.enabledHeuristics = t.options.enabledHeuristics
  | .disabledHeuristics => s.options.disabledHeuristics = t.options.disabledHeuristics
  | .nameResolution => s.settings.names = t.settings.names
  | .rules => s.settings.rules = t.settings.rules
  | .secondsType => s.settings.seconds = t.settings.seconds
  | .keytabs => s.settings.keytabs = t.settings.keytabs

theorem Part.same_refl (p : Part) (s : Session) : p.Same s s := by
  cases p with
  | timeStamp => exact ⟨rfl, rfl⟩
  | _ => exact rfl

/-- The parts leave nothing of a session out. -/
theorem Session.eq_of_same {s t : Session} (h : ∀ p : Part, p.Same s t) : s = t := by
  obtain ⟨⟨f, p, dp, ep, eh, dh⟩, ⟨n, r, u, k⟩⟩ := s
  obtain ⟨⟨f', p', dp', ep', eh', dh'⟩, ⟨n', r', u', k'⟩⟩ := t
  obtain ⟨hf, hp⟩ : f = f' ∧ p = p' := h .timeStamp
  have hdp : dp = dp' := h .disabledProtocols
  have hep : ep = ep' := h .enabledProtocols
  have heh : eh = eh' := h .enabledHeuristics
  have hdh : dh = dh' := h .disabledHeuristics
  have hn : n = n' := h .nameResolution
  have hr : r = r' := h .rules
  have hu : u = u' := h .secondsType
  have hk : k = k' := h .keytabs
  subst hf hp hdp hep heh hdh hn hr hu hk
  rfl

namespace Switch

def part : Switch → Part
  | .decodeAs => .rules
  | .keytab => .keytabs
  | .noNameResolution | .nameResolution => .nameResolution
  | .timeStamp => .timeStamp
  | .secondsType => .secondsType
  | .disableProtocol => .disabledProtocols
  | .enableProtocol => .enabledProtocols
  | .enableHeuristic => .enabledHeuristics
  | .disableHeuristic => .disabledHeuristics

def Admits (host : Host) (text : String) : Switch → Prop
  | .decodeAs => ∃ rule, host.decodeAs text = .ok rule
  | .keytab => host.keytabs = true
  | .nameResolution => ∀ c ∈ text.toList, ∃ k : NameKind, k.letter = c
  | .timeStamp => ∃ t, TimeStamp.read text = .ok t
  | .secondsType => text = "s" ∨ text = "hms"
  | _ => True

/-- What a switch with a text does to every session, or why it is refused in every session. -/
def effect (host : Host) (text : String) : Switch → Except Refusal (Session → Session)
  | .decodeAs => (host.decodeAs text).map fun rule s => s.mapSettings (·.withRule rule)
  | .keytab => if host.keytabs then .ok (·.mapSettings (·.withKeytab text)) else .error .keytab
  | .noNameResolution => .ok (·.mapSettings fun t => { t with names := .allOff })
  | .nameResolution =>
    ((NameResolution.kindsOf text.toList).mapError Refusal.nameLetter).map fun kinds s =>
      s.mapSettings fun t => { t with names := t.names.setAll kinds fun _ => true }
  | .timeStamp =>
    ((TimeStamp.read text).mapError (Refusal.timeStamp text)).map fun t s =>
      s.mapOptions (·.withTimeStamp t)
  | .secondsType =>
    match SecondsType.ofWord? text with
    | none => .error (.secondsType text)
    | some seconds => .ok (·.mapSettings fun t => { t with seconds })
  | .disableProtocol =>
    .ok (·.mapOptions fun o => { o with disabledProtocols := o.disabledProtocols ++ [text] })
  | .enableProtocol =>
    .ok (·.mapOptions fun o => { o with enabledProtocols := o.enabledProtocols ++ [text] })
  | .enableHeuristic =>
    .ok (·.mapOptions fun o => { o with enabledHeuristics := o.enabledHeuristics ++ [text] })
  | .disableHeuristic =>
    .ok (·.mapOptions fun o => { o with disabledHeuristics := o.disabledHeuristics ++ [text] })

private theorem kindsOf_isOk_iff {cs : List Char} :
    (∃ kinds, NameResolution.kindsOf cs = .ok kinds) ↔ ∀ c ∈ cs, ∃ k : NameKind, k.letter = c := by
  induction cs with
  | nil => simp [NameResolution.kindsOf]
  | cons c r ih =>
    rw [List.forall_mem_cons, ← ih]
    cases hc : NameKind.ofLetter? c with
    | none =>
      have hno : ¬ ∃ k : NameKind, k.letter = c := by
        rintro ⟨k, rfl⟩
        rw [NameKind.ofLetter?_letter] at hc
        cases hc
      simp [NameResolution.kindsOf, hc, hno]
    | some k =>
      have hk : k.letter = c := (NameKind.ofLetter?_eq_some_iff.mp hc).symm
      cases hr : NameResolution.kindsOf r with
      | error e => simp [NameResolution.kindsOf, hc, hr, Except.map]
      | ok kinds => simpa [NameResolution.kindsOf, hc, hr, Except.map] using ⟨k, hk⟩

private theorem ofWord?_isSome_iff {text : String} :
    (∃ seconds, SecondsType.ofWord? text = some seconds) ↔ text = "s" ∨ text = "hms" := by
  by_cases hs : text = "s"
  · simp [SecondsType.ofWord?, SecondsType.words, hs]
  · by_cases hh : text = "hms"
    · simp [SecondsType.ofWord?, SecondsType.words, List.lookup_cons, hh]
    · simp [SecondsType.ofWord?, SecondsType.words, List.lookup_cons, beq_false_of_ne hs,
        beq_false_of_ne hh, hs, hh]

/-- A switch has an effect exactly with the texts that it takes. -/
theorem effect_isOk_iff {host : Host} {text : String} {w : Switch} :
    (∃ f, w.effect host text = .ok f) ↔ w.Admits host text := by
  cases w with
  | decodeAs => cases h : host.decodeAs text <;> simp [effect, Admits, h, Except.map]
  | keytab => cases h : host.keytabs <;> simp [effect, Admits, h]
  | nameResolution =>
    rw [Admits, ← kindsOf_isOk_iff]
    cases h : NameResolution.kindsOf text.toList <;> simp [effect, h, Except.map]
  | timeStamp =>
    cases h : TimeStamp.read text <;> simp [effect, Admits, h, Except.map]
  | secondsType =>
    rw [Admits, ← ofWord?_isSome_iff]
    cases h : SecondsType.ofWord? text <;> simp [effect, h]
  | _ => simp [effect, Admits]

/-- An effect leaves alone what the switch does not own. -/
theorem effect_same {host : Host} {text : String} {w : Switch} {f : Session → Session}
    (h : w.effect host text = .ok f) (s : Session) (p : Part) : p = w.part ∨ p.Same s (f s) := by
  cases w with
  | decodeAs =>
    obtain ⟨rule, -, rfl⟩ := map_eq_ok h
    cases p <;> simp [part, Part.Same, Session.mapSettings, Settings.withRule]
  | keytab =>
    simp only [effect] at h
    split at h
    · cases h
      cases p <;> simp [part, Part.Same, Session.mapSettings, Settings.withKeytab]
    · cases h
  | noNameResolution =>
    cases h
    cases p <;> simp [part, Part.Same, Session.mapSettings]
  | nameResolution =>
    obtain ⟨kinds, -, rfl⟩ := map_eq_ok h
    cases p <;> simp [part, Part.Same, Session.mapSettings]
  | timeStamp =>
    obtain ⟨t, -, rfl⟩ := map_eq_ok h
    cases p <;> simp [part, Part.Same, Session.mapOptions, Options.withTimeStamp]
  | secondsType =>
    simp only [effect] at h
    split at h
    · cases h
    · cases h
      cases p <;> simp [part, Part.Same, Session.mapSettings]
  | _ =>
    cases h
    cases p <;> simp [part, Part.Same, Session.mapOptions]

end Switch

namespace Session

variable (s : Session)

/-! A dispatch is taken apart into its readings, which alone can be refused, and its changes. -/

private theorem after_ofRead {ε α : Type} (cause : ε → Refusal) (x : Except ε α)
    (f : α → Dispatch Unit) :
    s.after (Dispatch.ofRead cause x >>= f) =
      match x with
      | .ok a => s.after (f a)
      | .error e => (s, some (cause e)) := by
  cases x <;> rfl

private theorem after_get (f : Session → Dispatch Unit) : s.after (get >>= f) = s.after (f s) := rfl

private theorem after_setNames (choice : NameKind → Bool) :
    s.after (Dispatch.setNames choice) =
      (s.mapSettings fun t => { t with names := t.names.setAll NameKind.all choice }, none) := rfl

private theorem after_disableNames :
    s.after Dispatch.disableNames =
      (s.mapSettings fun t => { t with names := .allOff }, none) := by
  have hoff : s.settings.names.setAll NameKind.all (fun _ => false) = .allOff := by
    rw [← funext NameResolution.get_allOff]
    exact NameResolution.setAll_all _ _
  rw [Dispatch.disableNames, after_setNames]
  simp only [mapSettings, hoff]

theorem after_enableNames (text : String) :
    s.after (Dispatch.enableNames text) =
      match s.settings.names.enable text with
      | .ok names => (s.mapSettings fun t => { t with names }, none)
      | .error c => (s, some (.nameLetter c)) := by
  rw [Dispatch.enableNames, after_get, after_ofRead]
  cases s.settings.names.enable text with
  | error c => rfl
  | ok names =>
    rw [← NameResolution.setAll_all s.settings.names names]
    exact after_setNames s _

theorem handle_eq (host : Host) (w : Switch) (argument : Option String) :
    s.handle host w argument =
      match w.effect host (argument.getD "") with
      | .ok f => (f s, none)
      | .error cause => (s, some cause) := by
  rw [handle]
  cases w with
  | decodeAs =>
    rw [Switch.dispatch, Dispatch.addRule, after_ofRead, Switch.effect]
    cases host.decodeAs (argument.getD "") <;> rfl
  | keytab =>
    cases h : host.keytabs <;> simp [Switch.dispatch, Dispatch.addKeytab, Switch.effect, h] <;> rfl
  | noNameResolution => exact after_disableNames s
  | nameResolution =>
    rw [Switch.dispatch, after_enableNames, Switch.effect, NameResolution.enable]
    cases NameResolution.kindsOf (argument.getD "").toList <;> rfl
  | timeStamp =>
    rw [Switch.dispatch, Dispatch.setTimeStamp, after_ofRead, Switch.effect]
    cases TimeStamp.read (argument.getD "") <;> rfl
  | secondsType =>
    rw [Switch.dispatch, Dispatch.setSecondsType, Switch.effect]
    cases SecondsType.ofWord? (argument.getD "") <;> rfl
  | _ => rfl

end Session

theorem Switch.ofValue?_eq_some_iff {code : Value} {w : Switch} :
    Switch.ofValue? code = some w ↔ code = .string w.code := by
  cases code with
  | string s => simp [Switch.ofValue?, Switch.ofCode?_eq_some_iff]
  | _ => simp [Switch.ofValue?]

private theorem Unreachable.mark_one {reason : String} (hreason : reason ≠ "") (name : String)
    (v : Value) :
    mark reason [(name, v)] =
      if v.isWritten then
        .ok ⟨reason ++ " (" ++ name ++ "=" ++ v.display ++ ")", [(name, v)]⟩
      else .error .numberNotWritten := by
  cases h : v.isWritten <;>
    simp [mark, Text.SortedMap.ofEntries, Text.SortedMap.insert, hreason, h, enclosed,
      String.append_assoc]

namespace Session

theorem handleCode_code (host : Host) (w : Switch) (argument : Option String) (s : Session) :
    s.handleCode host (.string w.code) argument =
      match w.effect host (argument.getD "") with
      | .ok f => ⟨f s, .accepted⟩
      | .error cause => ⟨s, .refused cause⟩ := by
  rw [handleCode, Switch.ofValue?_eq_some_iff.mpr rfl]
  simp only [handle_eq]
  cases w.effect host (argument.getD "") <;> rfl

theorem handleCode_of_unknown (host : Host) {code : Value} (h : ∀ w : Switch, code ≠ .string w.code)
    (argument : Option String) (s : Session) :
    s.handleCode host code argument =
      if code.isWritten then
        ⟨s, .unreachable ⟨"unhandled dissect option code (code=" ++ code.display ++ ")",
          [("code", code)]⟩⟩
      else ⟨s, .stopped .numberNotWritten⟩ := by
  have hnone : Switch.ofValue? code = none := by
    rw [Option.eq_none_iff_forall_ne_some]
    exact fun w hw => h w (Switch.ofValue?_eq_some_iff.mp hw)
  rw [handleCode, hnone]
  have hreason : "unhandled dissect option code" ≠ "" := by decide
  rw [Unreachable.mark_one hreason]
  cases code.isWritten <;> rfl

/-- How the handling of a code with a text can end, which the reply tells apart. A switch that takes
its text changes its own part alone. A switch that does not is reported with an error and at most
one continuation. A code that is none of the ten reaches the place that should not be reached, if it
can be quoted there. -/
inductive CodeHandled (host : Host) (before : Session) (code : Value) (text : String)
    (outcome : Handling) : Prop
  | accepted (w : Switch) (hcode : code = .string w.code) (htext : w.Admits host text)
      (hreply : outcome.reply = .accepted) (hlines : outcome.lines = [])
      (hsame : ∀ p, p ≠ w.part → p.Same before outcome.session)
  | refused (w : Switch) (cause : Refusal) (hcode : code = .string w.code)
      (htext : ¬ w.Admits host text) (hreply : outcome.reply = .refused cause)
      (hlines : outcome.lines = .error cause.diagnostic.message ::
        if cause.diagnostic.details = [] then []
        else [.continuation (String.intercalate "\n" cause.diagnostic.details)])
      (hsession : outcome.session = before)
  | unreachable (hcode : ∀ w : Switch, code ≠ .string w.code) (hwritten : code.isWritten = true)
      (hreply : outcome.reply =
        .unreachable ⟨"unhandled dissect option code (code=" ++ code.display ++ ")",
          [("code", code)]⟩)
      (hlines : outcome.lines = []) (hsession : outcome.session = before)
  | stopped (hcode : ∀ w : Switch, code ≠ .string w.code) (hwritten : code.isWritten = false)
      (hreply : outcome.reply = .stopped .numberNotWritten)
      (hlines : outcome.lines = []) (hsession : outcome.session = before)

/-- Whatever the host, the session and the code, handling it ends in one of these ways. -/
theorem handleCode_atomic (host : Host) (code : Value) (argument : Option String) (s : Session) :
    s.CodeHandled host code (argument.getD "") (s.handleCode host code argument) := by
  by_cases hcode : ∃ w : Switch, code = .string w.code
  · obtain ⟨w, rfl⟩ := hcode
    rw [handleCode_code]
    cases heffect : w.effect host (argument.getD "") with
    | ok f =>
      have hadmits : w.Admits host (argument.getD "") := Switch.effect_isOk_iff.mp ⟨f, heffect⟩
      exact .accepted w rfl hadmits rfl rfl fun p hp =>
        (Switch.effect_same heffect s p).resolve_left hp
    | error cause =>
      have hrefuses : ¬ w.Admits host (argument.getD "") := by
        intro hadmits
        obtain ⟨f, hf⟩ := Switch.effect_isOk_iff.mpr hadmits
        rw [heffect] at hf
        cases hf
      exact .refused w cause rfl hrefuses rfl rfl rfl
  · have hunknown : ∀ w : Switch, code ≠ .string w.code := fun w hw => hcode ⟨w, hw⟩
    rw [handleCode_of_unknown host hunknown]
    cases hwritten : code.isWritten with
    | true => exact .unreachable hunknown hwritten rfl rfl rfl
    | false => exact .stopped hunknown hwritten rfl rfl rfl

/-- A number past the decimal limit is no code of a switch, and never gets to the place that should
not be reached. -/
theorem not_unreachable_of_long_code :
    let code : Value := .int (Nat.pow 10 4300)
    let outcome := Session.handleCode (.standard false) code none {}
    (∀ w : Switch, code ≠ .string w.code) ∧ (∀ place, outcome.reply ≠ .unreachable place) ∧
      outcome.reply = .stopped .numberNotWritten := by
  intro code outcome
  have hunknown : ∀ w : Switch, code ≠ .string w.code := fun w => Value.noConfusion
  have hlong : code.isWritten = false := by decide +kernel
  have houtcome : outcome = ⟨{}, .stopped .numberNotWritten⟩ := by
    have hhandled := handleCode_of_unknown (.standard false) hunknown none {}
    rwa [hlong] at hhandled
  refine ⟨hunknown, fun place hplace => ?_, congrArg Handling.reply houtcome⟩
  rw [houtcome] at hplace
  cases hplace

end Session

end Dissection
