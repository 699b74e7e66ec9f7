import Dissection.Proofs.CommandLine.Containment
import Dissection.Proofs.Config.Faults
import Dissection.Proofs.Registry
import Dissection.Proofs.Resolve.Outcome

/-!
# What order does not show

Whether a switch is accepted does not hang on the session, and what it makes of its own part hangs on
that part alone. So on a command line of complete requests only the order among those of each part
shows, in the session that a scan leaves and in what is printed.
-/

namespace Dissection

open CommandLine Config

theorem Part.Same.symm {p : Part} {s t : Session} (h : p.Same s t) : p.Same t s := by
  cases p with
  | timeStamp => exact ⟨h.1.symm, h.2.symm⟩
  | _ => exact Eq.symm h

theorem Part.Same.trans {p : Part} {s t u : Session} (h : p.Same s t) (h' : p.Same t u) :
    p.Same s u := by
  cases p with
  | timeStamp => exact ⟨h.1.trans h'.1, h.2.trans h'.2⟩
  | _ => exact Eq.trans h h'

namespace Switch

variable {host : Host} {text : String} {w : Switch} {f : Session → Session}

/-- What an effect makes of the part that its switch owns hangs on that part alone. -/
theorem effect_own_congr (h : w.effect host text = .ok f) {s t : Session} (hs : w.part.Same s t) :
    w.part.Same (f s) (f t) := by
  cases w with
  | decodeAs =>
    obtain ⟨rule, -, rfl⟩ := map_eq_ok h
    have hrules : s.settings.rules = t.settings.rules := hs
    simp [part, Part.Same, Session.mapSettings, Settings.withRule, hrules]
  | keytab =>
    simp only [effect] at h
    split at h
    · cases h
      have hkeytabs : s.settings.keytabs = t.settings.keytabs := hs
      simp [part, Part.Same, Session.mapSettings, Settings.withKeytab, hkeytabs]
    · cases h
  | noNameResolution =>
    cases h
    exact rfl
  | nameResolution =>
    obtain ⟨kinds, -, rfl⟩ := map_eq_ok h
    have hnames : s.settings.names = t.settings.names := hs
    simp [part, Part.Same, Session.mapSettings, hnames]
  | timeStamp =>
    obtain ⟨stamp, -, rfl⟩ := map_eq_ok h
    obtain ⟨hformat, hprecision⟩ := hs
    simp [part, Part.Same, Session.mapOptions, Options.withTimeStamp, hformat, hprecision]
  | secondsType =>
    simp only [effect] at h
    split at h
    · cases h
    · cases h
      exact rfl
  | _ =>
    cases h
    exact congrArg (· ++ [text]) hs

private theorem effect_congr (h : w.effect host text = .ok f) {s t : Session} {p : Part}
    (hs : p.Same s t) :
    p.Same (f s) (f t) := by
  by_cases hp : p = w.part
  · subst hp
    exact effect_own_congr h hs
  · have hleft := (effect_same h s p).resolve_left hp
    have hright := (effect_same h t p).resolve_left hp
    exact hleft.symm.trans (hs.trans hright)

end Switch

namespace Session

variable {host : Host}

private theorem handleAll_accepted_iff (calls : List Request) (s : Session) :
    (handleAll host calls s).2 = none ↔ ∀ c ∈ calls, c.1.Admits host (c.2.getD "") := by
  induction calls generalizing s with
  | nil => simp [handleAll]
  | cons call calls ih =>
    obtain ⟨w, argument⟩ := call
    rw [List.forall_mem_cons, ← Switch.effect_isOk_iff, handleAll, handle_eq]
    cases heffect : w.effect host (argument.getD "") with
    | error cause => simp
    | ok f => simpa using ih (f s)

/-- Calls that are all accepted leave of a part what those of the switches that own it leave. -/
theorem handleAll_own {calls : List Request} {p : Part} {s t after : Session}
    (h : handleAll host calls s = (after, none)) (hs : p.Same s t) :
    ∃ own, handleAll host (calls.filter (·.1.part = p)) t = (own, none) ∧ p.Same after own := by
  induction calls generalizing s t with
  | nil =>
    cases h
    exact ⟨t, rfl, hs⟩
  | cons call calls ih =>
    obtain ⟨w, argument⟩ := call
    rw [handleAll, handle_eq] at h
    cases heffect : w.effect host (argument.getD "") with
    | error cause => simp [heffect] at h
    | ok f =>
      simp only [heffect] at h
      by_cases hp : w.part = p
      · obtain ⟨own, hown, hsame⟩ := ih h (Switch.effect_congr heffect hs)
        refine ⟨own, ?_, hsame⟩
        rw [List.filter_cons_of_pos (by simpa using hp), handleAll, handle_eq, heffect]
        exact hown
      · have hkept := (Switch.effect_same heffect s p).resolve_left (Ne.symm hp)
        obtain ⟨own, hown, hsame⟩ := ih h (hkept.symm.trans hs)
        refine ⟨own, ?_, hsame⟩
        rw [List.filter_cons_of_neg (by simpa using hp)]
        exact hown

end Session

/-- Whether requests are others in an order in which those of each part follow one another as
before. -/
def Reordered (rs qs : List Request) : Prop :=
  ∀ p : Part, rs.filter (·.1.part = p) = qs.filter (·.1.part = p)

namespace Reordered

variable {rs qs : List Request}

private theorem perm (h : Reordered rs qs) : rs.Perm qs := by
  rw [List.perm_iff_count]
  intro r
  have hcount (xs : List Request) : (xs.filter (·.1.part = r.1.part)).count r = xs.count r :=
    List.count_filter (by simp)
  rw [← hcount rs, ← hcount qs, h r.1.part]

private theorem append_left (front : List Request) (h : Reordered rs qs) :
    Reordered (front ++ rs) (front ++ qs) := by
  intro p
  rw [List.filter_append, List.filter_append, h p]

private theorem swap (front back : List Request) {r q : Request} (h : r.1.part ≠ q.1.part) :
    Reordered (front ++ r :: q :: back) (front ++ q :: r :: back) := by
  apply append_left
  intro p
  by_cases hr : r.1.part = p
  · have hq : q.1.part ≠ p := fun hq => h (hr.trans hq.symm)
    simp [hr, hq]
  · simp [List.filter_cons, hr]

end Reordered

/-- Whatever the session, requests in another order are accepted if they are and leave the same
session then. -/
theorem Session.handleAll_reordered {rs qs : List Request} (h : Reordered rs qs) (host : Host)
    (s : Session) :
    (∃ after, handleAll host rs s = (after, none) ∧ handleAll host qs s = (after, none)) ∨
      (∃ after cause, handleAll host rs s = (after, some cause)) ∧
        ∃ after cause, handleAll host qs s = (after, some cause) := by
  have haccepted : (handleAll host rs s).2 = none ↔ (handleAll host qs s).2 = none := by
    simp only [handleAll_accepted_iff, h.perm.mem_iff]
  cases hrs : handleAll host rs s with
  | mk after refusal =>
    cases hqs : handleAll host qs s with
    | mk other refusal' =>
      rw [hrs, hqs] at haccepted
      cases refusal with
      | some cause =>
        cases refusal' with
        | some cause' => exact .inr ⟨⟨_, _, rfl⟩, _, _, rfl⟩
        | none => exact absurd (haccepted.mpr rfl) (by simp)
      | none =>
        obtain rfl : refusal' = none := haccepted.mp rfl
        have hsame : after = other := by
          apply eq_of_same
          intro p
          obtain ⟨own, hown, hafter⟩ := handleAll_own hrs (p.same_refl s)
          obtain ⟨own', hown', hother⟩ := handleAll_own hqs (p.same_refl s)
          rw [h p, hown'] at hown
          cases hown
          exact hafter.trans hother.symm
        subst hsame
        exact .inl ⟨after, rfl, rfl⟩

/-- Whether a request is written completely by its tokens: the flag that takes no value alone, and
any other with a value that can stand after it. -/
def Config.Complete (r : Request) : Prop := r.2.isSome = r.1.takesValue ∧ Fits r

private theorem CommandLine.scan_complete {rs : List Request} (hrs : ∀ r ∈ rs, Complete r)
    (host : Host)
    (s : Session) : scan host (rs.flatMap tokensOf) s =
      match Session.handleAll host rs s with
      | (after, none) => ⟨after, .accepted⟩
      | (after, some cause) => ⟨after, .refused cause⟩ := by
  rw [scan, ofTokens_requests_alone (fun r hr => (hrs r hr).1) fun r hr => (hrs r hr).2]
  rfl

/-- Scans of complete requests in another order both accept and leave the same session, or both end
with a refusal; neither leaves the program. -/
theorem CommandLine.scan_reordered {rs qs : List Request} (hrs : ∀ r ∈ rs, Complete r)
    (h : Reordered rs qs) (host : Host) (s : Session) :
    (∃ after, scan host (rs.flatMap tokensOf) s = ⟨after, .accepted⟩ ∧
        scan host (qs.flatMap tokensOf) s = ⟨after, .accepted⟩) ∨
      (∃ cause, (scan host (rs.flatMap tokensOf) s).verdict = .refused cause) ∧
        ∃ cause, (scan host (qs.flatMap tokensOf) s).verdict = .refused cause := by
  have hqs : ∀ q ∈ qs, Complete q := fun q hq => hrs q (h.perm.mem_iff.mpr hq)
  rw [scan_complete hrs, scan_complete hqs]
  rcases Session.handleAll_reordered h host s with
    ⟨after, hall, hall'⟩ | ⟨⟨after, cause, hall⟩, other, cause', hall'⟩
  · exact .inl ⟨after, by rw [hall], by rw [hall']⟩
  · exact .inr ⟨⟨cause, by rw [hall]⟩, cause', by rw [hall']⟩

/-- Whether two runs come to the same, or both to diagnostics and nothing on the output. -/
def RunsAlike (x y : Except Failure Outcome) : Prop :=
  x = y ∨ ∃ lines others, x = .ok (.failure lines) ∧ y = .ok (.failure others)

private theorem runsAlike_runOptions {xs ys : List String} (keytabs : Bool) (r : Registry)
    (h : (∃ after, scan (.standard keytabs) xs {} = ⟨after, .accepted⟩ ∧
          scan (.standard keytabs) ys {} = ⟨after, .accepted⟩) ∨
        (∃ cause, (scan (.standard keytabs) xs {}).verdict = .refused cause) ∧
          ∃ cause, (scan (.standard keytabs) ys {}).verdict = .refused cause) :
    RunsAlike (.ok (runOptions keytabs xs r)) (.ok (runOptions keytabs ys r)) := by
  rw [runOptions, runOptions]
  rcases h with ⟨after, hx, hy⟩ | ⟨⟨cause, hx⟩, cause', hy⟩
  · rw [hx, hy]
    exact .inl rfl
  · simp only [hx, hy, Verdict.outcome?]
    exact .inr ⟨_, _, rfl, rfl⟩

private theorem resolve_reordered {rs qs : List Request} (hrs : ∀ r ∈ rs, Complete r)
    (h : Reordered rs qs) (keytabs : Bool) (config : Table) :
    RunsAlike (resolve keytabs config (rs.flatMap tokensOf))
      (resolve keytabs config (qs.flatMap tokensOf)) := by
  rw [resolve, resolve]
  cases harguments : arguments (optionSection config) with
  | error fault => exact .inl rfl
  | ok tokens =>
    obtain ⟨cs, hrequests, rfl⟩ := arguments_eq_ok harguments
    have hcs := isSome_of_mem_requests hrequests
    rcases forall_fits_or_misfit cs with hfits | ⟨front, w, value, back, hsplit, hfits, hvalue⟩
    · have hall : ∀ r ∈ cs ++ rs, Complete r :=
        List.forall_mem_append.mpr ⟨fun r hr => ⟨hcs r hr, hfits r hr⟩, hrs⟩
      have hscan := scan_reordered hall (h.append_left cs) (.standard keytabs) {}
      rw [List.flatMap_append, List.flatMap_append] at hscan
      exact runsAlike_runOptions keytabs _ hscan
    · -- a value that does not fit ends the reading before the command line begins
      have hread (rest : List String) := (ofTokens_misfit hcs hsplit hfits hvalue rest).1
      have hscan : scan (.standard keytabs) (cs.flatMap tokensOf ++ rs.flatMap tokensOf) {} =
          scan (.standard keytabs) (cs.flatMap tokensOf ++ qs.flatMap tokensOf) {} := by
        rw [scan, scan, hread, hread]
      left
      simp only [runOptions, hscan]

/-- The order of complete requests shows only among those that own one part: in any other order a
scan accepts if it did and leaves the same session then, and else it ends with a refusal; and under
the same configuration what is printed is the same. In particular neighbours that own different parts
may change places, such as the two switches of protocols or the two of heuristic dissectors. -/
theorem unrelated_switches_commute :
    (∀ {rs qs : List Request}, (∀ r ∈ rs, Complete r) → Reordered rs qs →
      (∀ (host : Host) (s : Session),
        (∃ after, scan host (rs.flatMap tokensOf) s = ⟨after, .accepted⟩ ∧
            scan host (qs.flatMap tokensOf) s = ⟨after, .accepted⟩) ∨
          (∃ cause, (scan host (rs.flatMap tokensOf) s).verdict = .refused cause) ∧
            ∃ cause, (scan host (qs.flatMap tokensOf) s).verdict = .refused cause) ∧
      ∀ (request : ResolveRequest) (content : Option ByteArray),
        RunsAlike ({ request with arguments := rs.flatMap tokensOf }.run content)
          ({ request with arguments := qs.flatMap tokensOf }.run content)) ∧
    ∀ (front back : List Request) {r q : Request}, r.1.part ≠ q.1.part →
      Reordered (front ++ r :: q :: back) (front ++ q :: r :: back) := by
  refine ⟨fun hrs h => ⟨scan_reordered hrs h, fun request content => ?_⟩, Reordered.swap⟩
  rw [ResolveRequest.run, ResolveRequest.run]
  cases Config.tableOf content with
  | error failure => exact .inl rfl
  | ok table => exact resolve_reordered hrs h request.keytabs table

/-- A protocol is switched on and off in either order, between two switches that may not change
places. -/
theorem unrelated_switches_commute_protocols :
    let front : List Request := [(.nameResolution, some "m")]
    let back : List Request := [(.noNameResolution, none)]
    let on : Request := (.enableProtocol, some "dns")
    let off : Request := (.disableProtocol, some "- dns")
    let rs := front ++ on :: off :: back
    let qs := front ++ off :: on :: back
    on.1.part ≠ off.1.part ∧ (∀ r ∈ rs, Complete r) ∧ Reordered rs qs ∧
      (∃ after, scan (.standard false) (rs.flatMap tokensOf) {} = ⟨after, .accepted⟩ ∧
        scan (.standard false) (qs.flatMap tokensOf) {} = ⟨after, .accepted⟩) ∧
      RunsAlike (ResolveRequest.run { arguments := rs.flatMap tokensOf } none)
        (ResolveRequest.run { arguments := qs.flatMap tokensOf } none) := by
  intro front back on off rs qs
  have hparts : on.1.part ≠ off.1.part := by decide
  have hcomplete : ∀ r ∈ rs, Complete r := by
    have hm : ArgumentLike "m" := by decide +kernel
    have hdns : ArgumentLike "dns" := by decide +kernel
    have hspace : ArgumentLike "- dns" := by decide +kernel
    simp [rs, front, back, on, off, Complete, Fits, Switch.takesValue, hm, hdns, hspace]
  have hreordered : Reordered rs qs := unrelated_switches_commute.2 front back hparts
  obtain ⟨hscan, hrun⟩ := unrelated_switches_commute.1 hcomplete hreordered
  refine ⟨hparts, hcomplete, hreordered, ?_, hrun {} none⟩
  rcases hscan (.standard false) {} with haccepted | ⟨⟨cause, hrefused⟩, -⟩
  · exact haccepted
  · have hverdict : (scan (.standard false) (rs.flatMap tokensOf) {}).verdict = .accepted := by
      decide +kernel
    rw [hverdict] at hrefused
    cases hrefused

end Dissection

/-!
## The order of a configuration

Of a configuration only the values of its keys show, and of the lists in the section of the registry
only which names are on them. Registries that are built in different orders are therefore shown
alike.
-/

namespace Dissection

/-- Whether two rosters list the same names, however often and in whatever order. -/
structure Roster.SameNames (a b : Roster) : Prop where
  protocols (name : String) : name ∈ a.protocols ↔ name ∈ b.protocols
  heuristics (pair : String × String) : pair ∈ a.heuristics ↔ pair ∈ b.heuristics
  disabledProtocols (name : String) : name ∈ a.disabledProtocols ↔ name ∈ b.disabledProtocols
  disabledHeuristics (name : String) : name ∈ a.disabledHeuristics ↔ name ∈ b.disabledHeuristics

namespace Registry

variable {a b : Roster} (h : a.SameNames b) (o : Options)

include h

private theorem sortedProtocols_congr :
    ((ofRoster a).apply o).state.sortedProtocols = ((ofRoster b).apply o).state.sortedProtocols := by
  apply (tells_sortedProtocols a o).eq (tells_sortedProtocols b o)
  · intro name
    simp [Roster.owners, h.protocols, h.heuristics]
  · intro name
    rw [h.disabledProtocols]

private theorem sortedHeuristics_congr :
    ((ofRoster a).apply o).state.sortedHeuristics =
      ((ofRoster b).apply o).state.sortedHeuristics := by
  apply (tells_sortedHeuristics a o).eq (tells_sortedHeuristics b o)
  · intro name
    simp [Roster.shortNames, h.heuristics]
  · intro name
    rw [h.disabledHeuristics]

private theorem unknown_congr :
    ((ofRoster a).apply o).unknown = ((ofRoster b).apply o).unknown := by
  have hknows : (ofRoster a).knowsHeuristic = (ofRoster b).knowsHeuristic := by
    funext name
    rw [Bool.eq_iff_iff, knowsHeuristic_ofRoster, knowsHeuristic_ofRoster]
    simp [Roster.shortNames, h.heuristics]
  rw [apply_eq, apply_eq, Options.unknownIn, Options.unknownIn, hknows]

end Registry

private theorem conclude_congr {a b : Roster} (h : a.SameNames b) (s : Session) :
    conclude s (Registry.ofRoster a) = conclude s (Registry.ofRoster b) := by
  have hunknown := Registry.unknown_congr h s.options
  have hdocument : document s ((Registry.ofRoster a).apply s.options).state =
      document s ((Registry.ofRoster b).apply s.options).state := by
    rw [document, document, Registry.document, Registry.document,
      Registry.sortedProtocols_congr h, Registry.sortedHeuristics_congr h]
  rw [conclude, conclude, Toggled.success, Toggled.success, Toggled.lines, Toggled.lines, hunknown,
    hdocument]

private theorem Table.get?_eq_of_perm {t u : Table} (hkeys : (t.map Prod.fst).Nodup) (h : t.Perm u)
    (key : String) : t.get? key = u.get? key := by
  have hkeys' : (u.map Prod.fst).Nodup := (h.map Prod.fst).nodup_iff.mp hkeys
  cases hu : u.get? key with
  | some v =>
    have hmem : (key, v) ∈ t := h.mem_iff.mpr (Text.SortedMap.mem_of_lookup hu)
    exact Text.SortedMap.lookup_of_mem hkeys hmem
  | none =>
    rw [get?, List.lookup_eq_none_iff] at hu ⊢
    intro e he
    exact hu e (h.mem_iff.mp he)

namespace Config

/-- Whether two configurations have the same value for every key of the section of dissection
options, and the same names in the section of the registry. -/
structure SameContent (t u : Table) : Prop where
  options (key : String) : (optionSection t).get? key = (optionSection u).get? key
  registry : (roster (registrySection t)).SameNames (roster (registrySection u))

private theorem requests_congr {t u : Table} (h : ∀ key, t.get? key = u.get? key) :
    requests t = requests u :=
  requests_eq_of_known fun key _ => h key

end Config

/-- Configurations that differ in the order of their keys, and in the order and the number of times
in which they list the names for the registry, are resolved to the same outcome with any command
line. -/
theorem resolve_eq_of_sameContent {t u : Table} (h : Config.SameContent t u) (keytabs : Bool)
    (commandLine : List String) :
    resolve keytabs t commandLine = resolve keytabs u commandLine := by
  have harguments : Config.arguments (Config.optionSection t) =
      Config.arguments (Config.optionSection u) := by
    rw [Config.arguments, Config.arguments, Config.requests_congr h.options]
  have hconclude (s : Session) : conclude s (Config.registry (Config.registrySection t)) =
      conclude s (Config.registry (Config.registrySection u)) := conclude_congr h.registry s
  simp only [resolve, runOptions, harguments, hconclude]

/-- The keys stand in another order everywhere, and the names are listed in another form, some of
them twice. -/
theorem resolve_eq_of_sameContent_shuffled :
    let options : Table := [("seconds", .string "hms"), ("time_stamp", .string "r")]
    let t : Table :=
      [("dissect", .table options),
        ("registry", .table
          [("protocols", .list [.string "dns", .string "tcp"]),
            ("heuristics", .table [("rtp_udp", .string "rtp"), ("quic", .string " udp ")]),
            ("disabled_protocols", .string "tcp")])]
    let u : Table :=
      [("registry", .table
          [("disabled_protocols", .list [.string "tcp,tcp"]),
            ("heuristics", .string "quic:udp, rtp_udp:rtp, rtp_udp"),
            ("protocols", .string "tcp, dns")]),
        ("dissect", .table options.reverse)]
    Config.SameContent t u ∧
      Config.roster (Config.registrySection t) ≠ Config.roster (Config.registrySection u) ∧
      resolve false t ["-n"] = resolve false u ["-n"] := by
  intro options t u
  have hroster : Config.roster (Config.registrySection t) =
      ⟨["dns", "tcp"], [("rtp_udp", "rtp"), ("quic", "udp")], ["tcp"], []⟩ := by decide +kernel
  have hroster' : Config.roster (Config.registrySection u) =
      ⟨["tcp", "dns"], [("quic", "udp"), ("rtp_udp", "rtp"), ("rtp_udp", "rtp")],
        ["tcp", "tcp"], []⟩ := by decide +kernel
  have hsame : Config.SameContent t u := by
    constructor
    · intro key
      have hkeys : (options.map Prod.fst).Nodup := by decide
      exact Table.get?_eq_of_perm hkeys options.reverse_perm.symm key
    · rw [hroster, hroster']
      constructor
      · intro name
        simp [or_comm]
      · intro pair
        simp [or_comm]
      · intro name
        simp
      · intro name
        rfl
  refine ⟨hsame, ?_, resolve_eq_of_sameContent hsame false ["-n"]⟩
  rw [hroster, hroster']
  decide

end Dissection
