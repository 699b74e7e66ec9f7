import Dissection.CommandLine.Scan
import Dissection.Proofs.CommandLine.Token

/-!
# Reading token by token

A command line is read from the front by a machine that takes one token at a time, so what is read
of the first tokens does not hang on those that follow. From this scans of two command lines one
after the other compose.
-/

namespace Dissection.CommandLine

/-- Where a reading stands after some tokens. -/
inductive Phase where
  | ready
  | wanting (steps : List Step) (w : Switch)
  | terminated (tail : List String)
  | helped
  | misused (m : Misuse)
  deriving DecidableEq, Repr

def Phase.IsOver : Phase → Prop
  | .helped | .misused _ => True
  | _ => False

/-- What has been read of a command line so far. -/
structure Progress where
  switches : List (Switch × Option String) := []
  strays : List String := []
  phase : Phase := .ready
  deriving DecidableEq, Repr

namespace Progress

def withSteps : List Step → Progress → Progress
  | [], p => p
  | .help :: _, p => { p with phase := .helped }
  | .switch w argument :: steps, p =>
    withSteps steps { p with switches := p.switches ++ [(w, argument)] }

def take (p : Progress) (token : String) : Progress :=
  match p.phase with
  | .ready =>
    match Token.ofText token with
    | .terminator => { p with phase := .terminated [] }
    | .argument | .unknown => { p with strays := p.strays ++ [token] }
    | .flag f attached =>
      match Cluster.ofFlag f attached with
      | .complete steps => p.withSteps steps
      | .wanting steps w => { p with phase := .wanting steps w }
      | .misuse m => { p with phase := .misused m }
  | .wanting steps w =>
    if Token.ofText token = .argument then
      withSteps (steps ++ [.switch w (some token)]) { p with phase := .ready }
    else { p with phase := .misused (.missingValue w) }
  | .terminated tail => { p with phase := .terminated (tail ++ [token]) }
  | .helped | .misused _ => p

def ending (p : Progress) : Ending :=
  match p.phase with
  | .ready => .finished p.strays
  | .wanting _ w => .misuse (.missingValue w)
  | .terminated tail => .finished (p.strays ++ "--" :: tail)
  | .helped => .help
  | .misused m => .misuse m

def finish (p : Progress) : Reading := ⟨p.switches, p.ending⟩

/-- The reading from a place between two tokens, where the tokens that are left read so alone. -/
def before (p : Progress) (rest : Reading) : Reading where
  switches := p.switches ++ rest.switches
  ending :=
    match rest.ending with
    | .finished strays => .finished (p.strays ++ strays)
    | ending => ending

theorem foldl_take_of_isOver {p : Progress} (h : p.phase.IsOver) (tokens : List String) :
    tokens.foldl take p = p := by
  induction tokens with
  | nil => rfl
  | cons token tokens ih =>
    have htake : p.take token = p := by
      cases hp : p.phase <;> simp_all [take, Phase.IsOver]
    rw [List.foldl_cons, htake, ih]

theorem foldl_take_terminated (tokens : List String) (p : Progress) (tail : List String)
    (h : p.phase = .terminated tail) :
    tokens.foldl take p = { p with phase := .terminated (tail ++ tokens) } := by
  induction tokens generalizing p tail with
  | nil => rw [List.foldl_nil, List.append_nil, ← h]
  | cons token tokens ih =>
    rw [List.foldl_cons, take, h, ih _ (tail ++ [token]) rfl]
    simp

private theorem withSteps_cases (steps : List Step) {p : Progress} (h : p.phase = .ready)
    (rest : Reading) :
    (p.withSteps steps).phase = .ready ∧
        (p.withSteps steps).before rest = p.before (Reading.withSteps steps rest) ∨
      (p.withSteps steps).phase = .helped ∧
        (p.withSteps steps).finish = p.before (Reading.withSteps steps rest) := by
  induction steps generalizing p with
  | nil => exact .inl ⟨h, rfl⟩
  | cons step steps ih =>
    cases step with
    | help =>
      refine .inr ⟨rfl, ?_⟩
      simp [withSteps, Reading.withSteps, before, finish, ending, Reading.stop]
    | switch w argument =>
      have hbefore : before { p with switches := p.switches ++ [(w, argument)] }
          (Reading.withSteps steps rest) =
            p.before (Reading.withSteps (.switch w argument :: steps) rest) := by
        simp [Reading.withSteps, before]
      rw [withSteps, ← hbefore]
      exact ih h

private theorem before_withStray (p : Progress) (token : String) (rest : Reading) :
    before { p with strays := p.strays ++ [token] } rest =
      p.before (Reading.withStray token rest) := by
  cases hr : rest.ending <;> simp [before, Reading.withStray, hr]

/-- If the tokens that are left read alike from every place between two tokens, then so they do
after some steps. -/
private theorem finish_withSteps {tokens : List String}
    (hread : ∀ {p : Progress}, p.phase = .ready →
      (tokens.foldl take p).finish = p.before (Reading.ofTokens tokens))
    {p : Progress} (hp : p.phase = .ready) (steps : List Step) :
    (tokens.foldl take (p.withSteps steps)).finish =
      p.before (Reading.withSteps steps (Reading.ofTokens tokens)) := by
  rcases withSteps_cases steps hp (Reading.ofTokens tokens) with
    ⟨hready, hbefore⟩ | ⟨hover, hfinish⟩
  · rw [hread hready, hbefore]
  · rw [foldl_take_of_isOver (by rw [hover]; trivial), hfinish]

private theorem take_of_wanting {p : Progress} (hp : p.phase = .ready) {token : String} {f : Flag}
    {attached : Option (List Char)} (htoken : Token.ofText token = .flag f attached)
    {steps : List Step} {w : Switch} (hcluster : Cluster.ofFlag f attached = .wanting steps w) :
    p.take token = { p with phase := .wanting steps w } := by
  simp [take, hp, htoken, hcluster]

/-- Token by token the machine reads what is read of the whole command line. -/
theorem finish_foldl_take (tokens : List String) {p : Progress} (hp : p.phase = .ready) :
    (tokens.foldl take p).finish = p.before (Reading.ofTokens tokens) := by
  induction tokens using Reading.ofTokens.induct generalizing p with
  | case1 => simp [Reading.ofTokens, before, finish, ending, Reading.stop, hp]
  | case2 token rest htoken =>
    have hdashes := Token.ofText_eq_terminator_iff.mp htoken
    have htake : p.take token = { p with phase := .terminated [] } := by simp [take, hp, htoken]
    have hread : Reading.ofTokens (token :: rest) = Reading.stop (.finished (token :: rest)) := by
      simp [Reading.ofTokens, htoken]
    rw [List.foldl_cons, htake, foldl_take_terminated rest _ [] rfl, hread, hdashes]
    simp [before, finish, ending, Reading.stop]
  | case3 token rest htoken ih | case4 token rest htoken ih =>
    have htake : p.take token = { p with strays := p.strays ++ [token] } := by
      simp [take, hp, htoken]
    have hread : Reading.ofTokens (token :: rest) =
        Reading.withStray token (Reading.ofTokens rest) := by simp [Reading.ofTokens, htoken]
    rw [List.foldl_cons, htake, ih (by exact hp), before_withStray, hread]
  | case5 token rest f attached htoken steps hcluster ih =>
    have htake : p.take token = p.withSteps steps := by simp [take, hp, htoken, hcluster]
    have hread : Reading.ofTokens (token :: rest) =
        Reading.withSteps steps (Reading.ofTokens rest) := by
      simp [Reading.ofTokens, htoken, hcluster]
    rw [List.foldl_cons, htake, finish_withSteps ih hp, hread]
  | case6 token rest f attached htoken m hcluster =>
    have htake : p.take token = { p with phase := .misused m } := by
      simp [take, hp, htoken, hcluster]
    have hover : (Phase.misused m).IsOver := trivial
    rw [List.foldl_cons, htake, foldl_take_of_isOver hover]
    simp [Reading.ofTokens, htoken, hcluster, before, finish, ending, Reading.stop]
  | case7 token f attached htoken steps w hcluster value rest hvalue ih =>
    have htake := take_of_wanting hp htoken hcluster
    have hnext : take { p with phase := .wanting steps w } value =
        p.withSteps (steps ++ [.switch w (some value)]) := by
      simp [take, hvalue, ← hp]
    have hread : Reading.ofTokens (token :: value :: rest) =
        Reading.withSteps (steps ++ [.switch w (some value)]) (Reading.ofTokens rest) := by
      simp [Reading.ofTokens, htoken, hcluster, hvalue]
    rw [List.foldl_cons, htake, List.foldl_cons, hnext, finish_withSteps ih hp, hread]
  | case8 token f attached htoken steps w hcluster value rest hvalue =>
    have htake := take_of_wanting hp htoken hcluster
    have hnext : take { p with phase := .wanting steps w } value =
        { p with phase := .misused (.missingValue w) } := by
      simp [take, hvalue]
    have hover : (Phase.misused (.missingValue w)).IsOver := trivial
    rw [List.foldl_cons, htake, List.foldl_cons, hnext, foldl_take_of_isOver hover]
    simp [Reading.ofTokens, htoken, hcluster, hvalue, before, finish, ending, Reading.stop]
  | case9 token f attached htoken steps w hcluster =>
    have htake := take_of_wanting hp htoken hcluster
    rw [List.foldl_cons, htake]
    simp [Reading.ofTokens, htoken, hcluster, before, finish, ending, Reading.stop]

theorem ofTokens_eq (tokens : List String) :
    Reading.ofTokens tokens = (tokens.foldl take {}).finish := by
  rw [finish_foldl_take tokens rfl]
  obtain ⟨switches, ending⟩ := Reading.ofTokens tokens
  cases ending <;> rfl

private theorem switches_withSteps (steps : List Step) (p : Progress) :
    p.switches <+: (p.withSteps steps).switches := by
  induction steps generalizing p with
  | nil => exact List.prefix_refl _
  | cons step steps ih =>
    cases step with
    | help => exact List.prefix_refl _
    | switch w argument =>
      exact (List.prefix_append p.switches [(w, argument)]).trans
        (ih { p with switches := p.switches ++ [(w, argument)] })

private theorem switches_take (p : Progress) (token : String) :
    p.switches <+: (p.take token).switches := by
  rw [take]
  split
  · split
    · exact List.prefix_refl _
    · exact List.prefix_refl _
    · exact List.prefix_refl _
    · split
      · exact switches_withSteps _ p
      · exact List.prefix_refl _
      · exact List.prefix_refl _
  · split
    · exact switches_withSteps _ { p with phase := .ready }
    · exact List.prefix_refl _
  · exact List.prefix_refl _
  · exact List.prefix_refl _
  · exact List.prefix_refl _

private theorem switches_foldl_take (tokens : List String) (p : Progress) :
    p.switches <+: (tokens.foldl take p).switches := by
  induction tokens generalizing p with
  | nil => exact List.prefix_refl _
  | cons token tokens ih => exact (switches_take p token).trans (ih (p.take token))

private theorem eq_ready_of_ending {p : Progress} (h : p.ending = .finished []) :
    p = { switches := p.switches } := by
  obtain ⟨switches, strays, phase⟩ := p
  cases phase <;> simp_all [ending]

private theorem phase_of_help {p : Progress} (h : p.ending = .help) : p.phase = .helped := by
  cases hp : p.phase <;> simp_all [ending]

end Progress

namespace Reading

/-- After tokens that leave nothing open the others are read as if they stood alone. -/
theorem ofTokens_append_of_finished {front : List String}
    (h : (ofTokens front).ending = .finished []) (rest : List String) :
    ofTokens (front ++ rest) =
      ⟨(ofTokens front).switches ++ (ofTokens rest).switches, (ofTokens rest).ending⟩ := by
  rw [Progress.ofTokens_eq front] at h ⊢
  have hready := Progress.eq_ready_of_ending h
  rw [Progress.ofTokens_eq (front ++ rest), List.foldl_append, hready,
    Progress.finish_foldl_take rest rfl]
  cases hrest : (ofTokens rest).ending <;> simp [Progress.before, Progress.finish, hrest]

private theorem ofTokens_append_of_help {front : List String} (h : (ofTokens front).ending = .help)
    (rest : List String) : ofTokens (front ++ rest) = ofTokens front := by
  rw [Progress.ofTokens_eq front] at h ⊢
  have hover : (front.foldl Progress.take {}).phase.IsOver := by
    rw [Progress.phase_of_help h]
    trivial
  rw [Progress.ofTokens_eq (front ++ rest), List.foldl_append, Progress.foldl_take_of_isOver hover]

private theorem switches_prefix_append (front rest : List String) :
    (ofTokens front).switches <+: (ofTokens (front ++ rest)).switches := by
  rw [Progress.ofTokens_eq front, Progress.ofTokens_eq (front ++ rest), List.foldl_append]
  exact Progress.switches_foldl_take rest _

end Reading

theorem Ending.verdict_eq_accepted_iff {e : Ending} : e.verdict = .accepted ↔ e = .finished [] := by
  rcases e with ⟨_ | ⟨token, strays⟩⟩ | _ | m <;> simp [Ending.verdict]

private theorem Ending.verdict_eq_help_iff {e : Ending} : e.verdict = .help ↔ e = .help := by
  rcases e with ⟨_ | ⟨token, strays⟩⟩ | _ | m <;> simp [Ending.verdict]

private theorem Ending.verdict_ne_refused (e : Ending) (cause : Refusal) :
    e.verdict ≠ .refused cause := by
  rcases e with ⟨_ | ⟨token, strays⟩⟩ | _ | m <;> simp [Ending.verdict]

theorem Reading.run_cases (host : Host) (r : Reading) (s : Session) :
    (∃ after, Session.handleAll host r.switches s = (after, none) ∧
        r.run host s = ⟨after, r.ending.verdict⟩) ∨
      ∃ after cause, Session.handleAll host r.switches s = (after, some cause) ∧
        r.run host s = ⟨after, .refused cause⟩ := by
  rw [Reading.run]
  obtain ⟨after, refusal⟩ := Session.handleAll host r.switches s
  cases refusal with
  | none => exact .inl ⟨after, rfl, rfl⟩
  | some cause => exact .inr ⟨after, cause, rfl, rfl⟩

/-- A scan of two command lines one after the other is the scan of the second from the session that
the first leaves, if the first is accepted; and it is the scan of the first, if that ends with a
refusal or with help. -/
theorem scan_append (host : Host) (front rest : List String) (s : Session) :
    ((scan host front s).verdict = .accepted →
      scan host (front ++ rest) s = scan host rest (scan host front s).session) ∧
    ((∃ cause, (scan host front s).verdict = .refused cause) ∨
        (scan host front s).verdict = .help →
      scan host (front ++ rest) s = scan host front s) := by
  rcases Reading.run_cases host (Reading.ofTokens front) s with
    ⟨after, hall, hrun⟩ | ⟨after, cause, hall, hrun⟩ <;> rw [← scan] at hrun <;> rw [hrun]
  · refine ⟨fun haccepted => ?_, ?_⟩
    · have hread := Reading.ofTokens_append_of_finished
        (Ending.verdict_eq_accepted_iff.mp haccepted) rest
      rw [scan, hread, Reading.run, Session.handleAll_append, hall]
      rfl
    · rintro (⟨cause, hrefused⟩ | hhelp)
      · exact absurd hrefused (Ending.verdict_ne_refused _ cause)
      · rw [scan, Reading.ofTokens_append_of_help (Ending.verdict_eq_help_iff.mp hhelp) rest]
        exact hrun
  · refine ⟨fun haccepted => absurd haccepted (by simp), fun _ => ?_⟩
    obtain ⟨more, hmore⟩ := Reading.switches_prefix_append front rest
    rw [scan, Reading.run, ← hmore, Session.handleAll_append, hall]

/-- The three kinds of first command lines: one that is accepted, one with a switch that is refused
though a value is still missing, and one that asks for help. -/
theorem scan_append_instances :
    ((scan (.standard false) ["-n"] {}).verdict = .accepted ∧
      scan (.standard false) (["-n"] ++ ["-t", "ad.6", "stray"]) {} =
        scan (.standard false) ["-t", "ad.6", "stray"] (scan (.standard false) ["-n"] {}).session) ∧
    ((scan (.standard false) ["-u", "bogus", "-t"] {}).verdict = .refused (.secondsType "bogus") ∧
      scan (.standard false) (["-u", "bogus", "-t"] ++ ["e"]) {} =
        scan (.standard false) ["-u", "bogus", "-t"] {}) ∧
    ((scan (.standard false) ["-nh"] {}).verdict = .help ∧
      scan (.standard false) (["-nh"] ++ ["--", "-t"]) {} = scan (.standard false) ["-nh"] {}) := by
  have haccepted : (scan (.standard false) ["-n"] {}).verdict = .accepted := by decide +kernel
  have hrefused : (scan (.standard false) ["-u", "bogus", "-t"] {}).verdict =
      .refused (.secondsType "bogus") := by decide +kernel
  have hhelp : (scan (.standard false) ["-nh"] {}).verdict = .help := by decide +kernel
  exact ⟨⟨haccepted, (scan_append _ _ _ _).1 haccepted⟩,
    ⟨hrefused, (scan_append _ _ _ _).2 (.inl ⟨_, hrefused⟩)⟩,
    ⟨hhelp, (scan_append _ _ _ _).2 (.inr hhelp)⟩⟩

end Dissection.CommandLine
