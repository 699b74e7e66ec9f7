import Dissection.Proofs.CommandLine.Acceptance
import Dissection.Proofs.Config.Faults

/-!
# Requests in front of a command line

The requests of a configuration are read as what they are, whatever their values look like and
whatever follows them: a value that cannot stand after its flag ends the reading, so it is never read
as a flag, and no token that follows is ever the value of a request.
-/

namespace Dissection

namespace CommandLine

inductive Role where
  | flag
  | value (w : Switch)
  | misfit (w : Switch)
  | stray
  | unread
  deriving DecidableEq, Repr

namespace Progress

/-- The part that the next token plays: where a value is wanted it is that or a misfit, and a flag
only where none is. -/
def role (p : Progress) (token : String) : Role :=
  match p.phase with
  | .ready =>
    match Token.ofText token with
    | .flag _ _ => .flag
    | _ => .stray
  | .wanting _ w => if Token.ofText token = .argument then .value w else .misfit w
  | .terminated _ => .stray
  | .helped | .misused _ => .unread

def roles (p : Progress) : List String → List Role
  | [] => []
  | token :: rest => p.role token :: roles (p.take token) rest

private theorem roles_append (p : Progress) (xs ys : List String) :
    p.roles (xs ++ ys) = p.roles xs ++ (xs.foldl take p).roles ys := by
  induction xs generalizing p with
  | nil => rfl
  | cons token xs ih => rw [List.cons_append, roles, roles, ih, List.foldl_cons, List.cons_append]

private theorem roles_of_isOver {p : Progress} (h : p.phase.IsOver) (tokens : List String) :
    p.roles tokens = List.replicate tokens.length .unread := by
  induction tokens with
  | nil => rfl
  | cons token tokens ih =>
    have htake : p.take token = p := foldl_take_of_isOver h [token]
    have hrole : p.role token = .unread := by
      rw [role]
      cases hp : p.phase <;> simp_all [Phase.IsOver]
    rw [roles, htake, ih, hrole, List.length_cons, List.replicate_succ]

private theorem phase_withSteps_congr {p q : Progress} (h : p.phase = q.phase) (steps : List Step) :
    (p.withSteps steps).phase = (q.withSteps steps).phase := by
  induction steps generalizing p q with
  | nil => exact h
  | cons step steps ih =>
    cases step with
    | help => rfl
    | switch w argument => exact ih h

private theorem phase_take_congr {p q : Progress} (h : p.phase = q.phase) (token : String) :
    (p.take token).phase = (q.take token).phase := by
  rw [take, take, ← h]
  cases hp : p.phase with
  | ready =>
    cases Token.ofText token with
    | flag f attached =>
      simp only
      split
      · exact phase_withSteps_congr h _
      · rfl
      · rfl
    | _ => rfl
  | wanting steps w =>
    simp only
    split
    · exact phase_withSteps_congr (p := { p with phase := .ready })
        (q := { q with phase := .ready }) rfl _
    · rfl
  | terminated tail => rfl
  | helped | misused m => exact h

private theorem roles_congr {p q : Progress} (h : p.phase = q.phase) (tokens : List String) :
    p.roles tokens = q.roles tokens := by
  induction tokens generalizing p q with
  | nil => rfl
  | cons token tokens ih => rw [roles, roles, role, role, h, ih (phase_take_congr h token)]

end Progress

instance (s : String) : Decidable (ArgumentLike s) :=
  decidable_of_iff _ Token.ofText_eq_argument_iff

end CommandLine

namespace Config

open CommandLine

/-- Whether the value of a request, if it has one, can stand after its flag. -/
def Fits (r : Request) : Prop := ∀ value, r.2 = some value → ArgumentLike value

def rolesOf (r : Request) : List Role := .flag :: (r.2.map fun _ => .value r.1).toList

private theorem take_flag {p : Progress} (hp : p.phase = .ready) {w : Switch}
    (hw : w.takesValue = true) :
    p.take w.flag = { p with phase := .wanting [] w } ∧ p.role w.flag = .flag := by
  have hspells : Spells (.switch w) none w.flag.toList := .bare
  have htoken : Token.ofText w.flag = .flag (.switch w) none :=
    Token.ofText_eq_flag_iff.mpr hspells
  have hcluster : Cluster.ofFlag (.switch w) none = .wanting [] w := Cluster.ofLetters_valued_nil hw
  simp [Progress.take, Progress.role, hp, htoken, hcluster]

private theorem take_value (p : Progress) (w : Switch) {value : String}
    (hvalue : ArgumentLike value) :
    Progress.take { p with phase := .wanting [] w } value =
        { p with switches := p.switches ++ [(w, some value)], phase := .ready } ∧
      Progress.role { p with phase := .wanting [] w } value = .value w := by
  have hargument := Token.ofText_eq_argument_iff.mpr hvalue
  simp [Progress.take, Progress.role, hargument, Progress.withSteps]

private theorem take_misfit (p : Progress) (w : Switch) {value : String}
    (hvalue : ¬ ArgumentLike value) :
    Progress.take { p with phase := .wanting [] w } value =
        { p with phase := .misused (.missingValue w) } ∧
      Progress.role { p with phase := .wanting [] w } value = .misfit w := by
  have hnot : Token.ofText value ≠ .argument := fun h => hvalue (Token.ofText_eq_argument_iff.mp h)
  simp [Progress.take, Progress.role, hnot]

private theorem take_request {p : Progress} (hp : p.phase = .ready) {r : Request}
    (hr : r.2.isSome = r.1.takesValue) (hfits : Fits r) :
    (tokensOf r).foldl Progress.take p = { p with switches := p.switches ++ [r] } ∧
      p.roles (tokensOf r) = rolesOf r := by
  obtain ⟨w, argument⟩ := r
  cases argument with
  | none =>
    obtain rfl : w = .noNameResolution := by cases w <;> first | rfl | cases hr
    have htoken : Token.ofText "-n" = .flag (.switch .noNameResolution) none :=
      Token.ofText_eq_flag_iff.mpr (.bare (f := .switch .noNameResolution))
    have hcluster : Cluster.ofFlag (.switch .noNameResolution) none =
        .complete [.switch .noNameResolution none] := rfl
    simp [tokensOf, Switch.flag, rolesOf, Progress.roles, Progress.take, Progress.role, hp, htoken,
      hcluster, Progress.withSteps]
  | some value =>
    have htokens : tokensOf (w, some value) = [w.flag, value] := rfl
    obtain ⟨htake, hrole⟩ := take_flag hp hr.symm
    obtain ⟨htakeValue, hroleValue⟩ := take_value p w (hfits value rfl)
    rw [htokens]
    constructor
    · rw [List.foldl_cons, htake, List.foldl_cons, htakeValue, List.foldl_nil, ← hp]
    · rw [Progress.roles, hrole, htake, Progress.roles, hroleValue]
      rfl

private theorem take_request_misfit {p : Progress} (hp : p.phase = .ready) {w : Switch}
    (hw : w.takesValue = true) {value : String} (hvalue : ¬ ArgumentLike value) :
    (tokensOf (w, some value)).foldl Progress.take p =
        { p with phase := .misused (.missingValue w) } ∧
      p.roles (tokensOf (w, some value)) = [.flag, .misfit w] := by
  have htokens : tokensOf (w, some value) = [w.flag, value] := rfl
  obtain ⟨htake, hrole⟩ := take_flag hp hw
  obtain ⟨htakeValue, hroleValue⟩ := take_misfit p w hvalue
  rw [htokens]
  constructor
  · rw [List.foldl_cons, htake, List.foldl_cons, htakeValue, List.foldl_nil]
  · rw [Progress.roles, hrole, htake, Progress.roles, hroleValue]
    rfl

private theorem take_requests {rs : List Request}
    (hrs : ∀ r ∈ rs, r.2.isSome = r.1.takesValue ∧ Fits r)
    {p : Progress} (hp : p.phase = .ready) :
    (rs.flatMap tokensOf).foldl Progress.take p = { p with switches := p.switches ++ rs } ∧
      p.roles (rs.flatMap tokensOf) = rs.flatMap rolesOf := by
  induction rs generalizing p with
  | nil => simp [Progress.roles]
  | cons r rs ih =>
    obtain ⟨⟨hr, hfits⟩, hrest⟩ := List.forall_mem_cons.mp hrs
    obtain ⟨htake, hroles⟩ := take_request hp hr hfits
    obtain ⟨htakes, hrolesRest⟩ := ih hrest (p := { p with switches := p.switches ++ [r] }) hp
    rw [List.flatMap_cons, List.foldl_append, htake, htakes, Progress.roles_append, hroles, htake,
      hrolesRest, List.flatMap_cons, List.append_assoc, List.singleton_append]
    exact ⟨rfl, rfl⟩

theorem forall_fits_or_misfit (rs : List Request) :
    (∀ r ∈ rs, Fits r) ∨ ∃ front w value back, rs = front ++ (w, some value) :: back ∧
      (∀ r ∈ front, Fits r) ∧ ¬ ArgumentLike value := by
  induction rs with
  | nil => exact .inl fun r hr => absurd hr List.not_mem_nil
  | cons r rs ih =>
    by_cases hr : Fits r
    · rcases ih with hall | ⟨front, w, value, back, rfl, hfront, hvalue⟩
      · exact .inl (List.forall_mem_cons.mpr ⟨hr, hall⟩)
      · exact .inr ⟨r :: front, w, value, back, rfl, List.forall_mem_cons.mpr ⟨hr, hfront⟩, hvalue⟩
    · obtain ⟨w, argument⟩ := r
      cases argument with
      | none => exact absurd (fun value hvalue => by cases hvalue) hr
      | some value =>
        have hvalue : ¬ ArgumentLike value := fun hlike => hr fun v hv => by cases hv; exact hlike
        exact .inr ⟨[], w, value, rs, rfl, fun r hr => absurd hr List.not_mem_nil, hvalue⟩

section

variable {rs : List Request} (hrs : ∀ r ∈ rs, r.2.isSome = r.1.takesValue)

include hrs

theorem ofTokens_requests (hfits : ∀ r ∈ rs, Fits r) (rest : List String) :
    Reading.ofTokens (rs.flatMap tokensOf ++ rest) =
        ⟨rs ++ (Reading.ofTokens rest).switches, (Reading.ofTokens rest).ending⟩ ∧
      Progress.roles {} (rs.flatMap tokensOf ++ rest) =
        rs.flatMap rolesOf ++ Progress.roles {} rest := by
  have hp : ({} : Progress).phase = .ready := rfl
  obtain ⟨htake, hroles⟩ := take_requests (fun r hr => ⟨hrs r hr, hfits r hr⟩) hp
  constructor
  · rw [Progress.ofTokens_eq, List.foldl_append, htake, Progress.finish_foldl_take rest rfl]
    cases hrest : (Reading.ofTokens rest).ending <;> simp [Progress.before, hrest]
  · rw [Progress.roles_append, hroles, htake,
      Progress.roles_congr (q := {}) (by rfl) rest]

theorem ofTokens_requests_alone (hfits : ∀ r ∈ rs, Fits r) :
    Reading.ofTokens (rs.flatMap tokensOf) = ⟨rs, .finished []⟩ := by
  have h := (ofTokens_requests hrs hfits []).1
  rw [List.append_nil] at h
  simpa [Reading.ofTokens, Reading.stop] using h

theorem ofTokens_misfit {front back : List Request} {w : Switch} {value : String}
    (hsplit : rs = front ++ (w, some value) :: back) (hfits : ∀ r ∈ front, Fits r)
    (hvalue : ¬ ArgumentLike value) (rest : List String) :
    Reading.ofTokens (rs.flatMap tokensOf ++ rest) = ⟨front, .misuse (.missingValue w)⟩ ∧
      Progress.roles {} (rs.flatMap tokensOf ++ rest) =
        front.flatMap rolesOf ++ [.flag, .misfit w] ++
          List.replicate (back.flatMap tokensOf ++ rest).length .unread := by
  have hp : ({} : Progress).phase = .ready := rfl
  have hfront : ∀ r ∈ front, r.2.isSome = r.1.takesValue := fun r hr => hrs r (by simp [hsplit, hr])
  have hw : w.takesValue = true := (hrs (w, some value) (by simp [hsplit])).symm
  obtain ⟨htake, hroles⟩ := take_requests (fun r hr => ⟨hfront r hr, hfits r hr⟩) hp
  obtain ⟨htakeMisfit, hrolesMisfit⟩ :=
    take_request_misfit (p := { switches := [] ++ front }) rfl hw hvalue
  have hover : (Phase.misused (.missingValue w)).IsOver := trivial
  have htokens : rs.flatMap tokensOf ++ rest =
      front.flatMap tokensOf ++ (tokensOf (w, some value) ++ (back.flatMap tokensOf ++ rest)) := by
    simp [hsplit]
  rw [htokens]
  constructor
  · rw [Progress.ofTokens_eq, List.foldl_append, htake, List.foldl_append, htakeMisfit,
      Progress.foldl_take_of_isOver hover]
    rfl
  · rw [Progress.roles_append, hroles, htake, Progress.roles_append, hrolesMisfit, htakeMisfit,
      Progress.roles_of_isOver hover, List.append_assoc]

theorem ofTokens_misfit_alone {front back : List Request} {w : Switch} {value : String}
    (hsplit : rs = front ++ (w, some value) :: back) (hfits : ∀ r ∈ front, Fits r)
    (hvalue : ¬ ArgumentLike value) :
    Reading.ofTokens (rs.flatMap tokensOf) = ⟨front, .misuse (.missingValue w)⟩ := by
  have h := (ofTokens_misfit hrs hsplit hfits hvalue []).1
  rwa [List.append_nil] at h

end

end Config

namespace Session

private theorem callsMade_prefix (host : Host) (calls : List (Switch × Option String))
    (s : Session) :
    callsMade host calls s <+: calls := by
  induction calls generalizing s with
  | nil => exact List.prefix_refl _
  | cons call calls ih =>
    obtain ⟨w, argument⟩ := call
    rw [callsMade, List.prefix_cons_inj]
    obtain ⟨after, _ | cause⟩ := s.handle host w argument
    · exact ih after
    · exact List.nil_prefix

/-- The calls of a second list are made if all of the first are accepted, and only then. -/
theorem callsMade_append (host : Host) (xs ys : List (Switch × Option String)) (s : Session) :
    callsMade host (xs ++ ys) s =
      match handleAll host xs s with
      | (after, none) => xs ++ callsMade host ys after
      | (_, some _) => callsMade host xs s := by
  induction xs generalizing s with
  | nil => rfl
  | cons x xs ih =>
    obtain ⟨w, argument⟩ := x
    rw [List.cons_append, callsMade, handleAll, callsMade]
    obtain ⟨after, _ | cause⟩ := s.handle host w argument
    · simp only [ih]
      split <;> rfl
    · rfl

end Session

namespace CommandLine

open Config

/-- How a scan goes over requests that stand in front of other tokens. -/
structure Contained (host : Host) (rs : List Request) (rest : List String) (s : Session) : Prop where
  /-- As far as the requests are read each flag is one and each value is that of its own flag; then
  the other tokens are what they are alone. Or a value does not fit and nothing after it is read. -/
  roles : Progress.roles {} (rs.flatMap tokensOf ++ rest) =
      rs.flatMap rolesOf ++ Progress.roles {} rest ∨
    ∃ front w value back, rs = front ++ (w, some value) :: back ∧ ¬ ArgumentLike value ∧
      Progress.roles {} (rs.flatMap tokensOf ++ rest) =
        front.flatMap rolesOf ++ [.flag, .misfit w] ++
          List.replicate (back.flatMap tokensOf ++ rest).length .unread
  /-- All requests are handled and accepted, and then the other tokens are scanned from there. Or
  only some are handled, and the scan ends as it does without the other tokens. -/
  calls : (∃ after, Session.handleAll host rs s = (after, none) ∧
      scanCalls host (rs.flatMap tokensOf ++ rest) s = rs ++ scanCalls host rest after ∧
      scan host (rs.flatMap tokensOf ++ rest) s = scan host rest after) ∨
    scanCalls host (rs.flatMap tokensOf ++ rest) s <+: rs ∧
      scan host (rs.flatMap tokensOf ++ rest) s = scan host (rs.flatMap tokensOf) s ∧
      ((∃ cause, (scan host (rs.flatMap tokensOf) s).verdict = .refused cause) ∨
        ∃ w value, (w, some value) ∈ rs ∧ ¬ ArgumentLike value ∧
          (scan host (rs.flatMap tokensOf) s).verdict = .misuse (.missingValue w))

section

variable {rs : List Request} (hrs : ∀ r ∈ rs, r.2.isSome = r.1.takesValue)

include hrs

private theorem contained_of_fits (host : Host) (hfits : ∀ r ∈ rs, Fits r) (rest : List String)
    (s : Session) : Contained host rs rest s := by
  obtain ⟨hread, hroles⟩ := ofTokens_requests hrs hfits rest
  have halone := ofTokens_requests_alone hrs hfits
  refine ⟨.inl hroles, ?_⟩
  rw [scanCalls, scan, scan, hread, halone, Session.callsMade_append, Reading.run, Reading.run,
    Session.handleAll_append]
  obtain ⟨after, refusal⟩ := Session.handleAll host rs s
  cases refusal with
  | none => exact .inl ⟨after, rfl, rfl, rfl⟩
  | some cause => exact .inr ⟨Session.callsMade_prefix host rs s, rfl, .inl ⟨cause, rfl⟩⟩

private theorem contained_of_misfit (host : Host) {front back : List Request} {w : Switch}
    {value : String}
    (hsplit : rs = front ++ (w, some value) :: back) (hfits : ∀ r ∈ front, Fits r)
    (hvalue : ¬ ArgumentLike value) (rest : List String) (s : Session) :
    Contained host rs rest s := by
  obtain ⟨hread, hroles⟩ := ofTokens_misfit hrs hsplit hfits hvalue rest
  have halone := ofTokens_misfit_alone hrs hsplit hfits hvalue
  refine ⟨.inr ⟨front, w, value, back, hsplit, hvalue, hroles⟩, .inr ?_⟩
  have hprefix : front <+: rs := hsplit ▸ List.prefix_append _ _
  rw [scanCalls, scan, scan, hread, halone]
  refine ⟨(Session.callsMade_prefix host front s).trans hprefix, rfl, ?_⟩
  rw [Reading.run]
  obtain ⟨after, refusal⟩ := Session.handleAll host front s
  cases refusal with
  | none => exact .inr ⟨w, value, by simp [hsplit], hvalue, rfl⟩
  | some cause => exact .inl ⟨cause, rfl⟩

end

/-- The requests of a configuration stay apart from the command line that follows them: they are
asked for first and in order, each with its own value as it is written; nothing of the command line
is asked for unless all of them are accepted; and whatever it looks like, no value of theirs is a flag
and no token of the command line is a value of theirs. -/
theorem scan_arguments_contained (host : Host) {t : Table} {tokens : List String}
    (h : arguments t = .ok tokens) (rest : List String) (s : Session) :
    ∃ rs : List Request, requests t = .ok rs ∧ tokens = rs.flatMap tokensOf ∧
      Contained host rs rest s := by
  obtain ⟨rs, hrequests, rfl⟩ := arguments_eq_ok h
  refine ⟨rs, hrequests, rfl, ?_⟩
  have hrs := isSome_of_mem_requests hrequests
  rcases forall_fits_or_misfit rs with hfits | ⟨front, w, value, back, hsplit, hfits, hvalue⟩
  · exact contained_of_fits hrs host hfits rest s
  · exact contained_of_misfit hrs host hsplit hfits hvalue rest s

/-- A keytab that looks like the wish for help, in front of a token that would be a better one; and
one that looks like an option but has a space in it. -/
theorem scan_arguments_contained_keytabs :
    (arguments [("time_stamp", .string "ad.6"), ("keytab", .string "--help")] =
        .ok ["-t", "ad.6", "-K", "--help"] ∧
      Contained (.standard true) [(.timeStamp, some "ad.6"), (.keytab, some "--help")]
        ["krb5.keytab", "-n"] {}) ∧
    (arguments [("keytab", .string "-x y")] = .ok ["-K", "-x y"] ∧
      Contained (.standard true) [(.keytab, some "-x y")] ["-n"] {}) := by
  have hhelp : arguments [("time_stamp", .string "ad.6"), ("keytab", .string "--help")] =
      .ok ["-t", "ad.6", "-K", "--help"] := by rfl
  have hspace : arguments [("keytab", .string "-x y")] = .ok ["-K", "-x y"] := by rfl
  refine ⟨⟨hhelp, ?_⟩, hspace, ?_⟩
  · obtain ⟨rs, hrequests, -, hcontained⟩ :=
      scan_arguments_contained (.standard true) hhelp ["krb5.keytab", "-n"] {}
    cases hrequests
    exact hcontained
  · obtain ⟨rs, hrequests, -, hcontained⟩ :=
      scan_arguments_contained (.standard true) hspace ["-n"] {}
    cases hrequests
    exact hcontained

end CommandLine

end Dissection
