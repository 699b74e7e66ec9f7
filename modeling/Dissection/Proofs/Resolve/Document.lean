import Dissection.Proofs.CommandLine.Containment
import Dissection.Proofs.Registry
import Dissection.Proofs.Resolve.Outcome

/-!
# Consistent documents

A settings document lists, for each way of switching names, those of the configuration and then those
of the command line. Its registry holds the names of the roster, and the lists of the same document
and the roster say of each whether it is on.
-/

namespace Dissection

namespace Session

end Session

open CommandLine Config

def Json.field? (key : String) : Json → Option Json
  | .object entries => entries.lookup key
  | _ => none

end Dissection

/-!
## A configuration alone

Without a command line there is nothing a user could have misspelled. Still the program may end with
a misuse: a value of the configuration that cannot stand after its flag is not taken for its value.
That is the only way, and it takes that all requests before are accepted.
-/

namespace Dissection

open CommandLine Config

/-- Whether the requests of a section come to a value that cannot stand after its flag, with all
requests before it accepted. -/
def Config.Stumbles (host : Host) (t : Table) : Prop :=
  ∃ front w value back, requests t = .ok (front ++ (w, some value) :: back) ∧
    (∀ r ∈ front, Fits r) ∧ ¬ ArgumentLike value ∧ (Session.handleAll host front {}).2 = none

private theorem CommandLine.scan_requests_alone (host : Host) {t : Table} {rs : List Request}
    (h : requests t = .ok rs) :
    Stumbles host t ∧ (∃ m, (scan host (rs.flatMap tokensOf) {}).verdict = .misuse m) ∨
      ¬ Stumbles host t ∧ ((scan host (rs.flatMap tokensOf) {}).verdict = .accepted ∨
        ∃ cause, (scan host (rs.flatMap tokensOf) {}).verdict = .refused cause) := by
  have hrs := isSome_of_mem_requests h
  rcases forall_fits_or_misfit rs with hfits | ⟨front, w, value, back, hsplit, hfits, hvalue⟩
  · refine .inr ⟨?_, ?_⟩
    · rintro ⟨front, w, value, back, hrequests, -, hvalue, -⟩
      obtain rfl := Except.ok.inj (h.symm.trans hrequests)
      exact hvalue (hfits (w, some value) (by simp) value rfl)
    · rw [scan, ofTokens_requests_alone hrs hfits]
      rcases Reading.run_cases host ⟨rs, .finished []⟩ {} with
        ⟨after, -, hrun⟩ | ⟨after, cause, -, hrun⟩ <;> rw [hrun]
      · exact .inl rfl
      · exact .inr ⟨cause, rfl⟩
  · have hread := ofTokens_misfit_alone hrs hsplit hfits hvalue
    rw [scan, hread]
    rcases Reading.run_cases host ⟨front, .misuse (.missingValue w)⟩ {} with
      ⟨after, hall, hrun⟩ | ⟨after, cause, hall, hrun⟩ <;> rw [hrun]
    · refine .inl ⟨⟨front, w, value, back, hsplit ▸ h, hfits, hvalue, ?_⟩, _, rfl⟩
      rw [hall]
    · refine .inr ⟨?_, .inr ⟨cause, rfl⟩⟩
      -- the place where requests stumble is where their reading ends, so there is only one
      rintro ⟨front', w', value', back', hrequests, hfits', hvalue', hnone⟩
      have hsplit' := Except.ok.inj (h.symm.trans hrequests)
      have hsame := hread.symm.trans (ofTokens_misfit_alone hrs hsplit' hfits' hvalue')
      obtain rfl : front = front' := congrArg Reading.switches hsame
      replace hall : Session.handleAll host front {} = (after, some cause) := hall
      rw [hall] at hnone
      cases hnone

/-- A configuration that is not at fault comes to a misuse if its requests stumble, and else to a
document or to a diagnostic. -/
theorem runOptions_alone (keytabs : Bool) {config : Table} {tokens : List String}
    (h : arguments (optionSection config) = .ok tokens) :
    let o := runOptions keytabs tokens (registry (registrySection config))
    (o.exitCode = 2 ↔ Stumbles (.standard keytabs) (optionSection config)) ∧
      (o.exitCode = 0 → ∃ settled, settledDocument? keytabs config [] = some settled ∧
        o.output = settled.print ++ "\n") := by
  obtain ⟨rs, hrequests, rfl⟩ := arguments_eq_ok h
  rw [runOptions]
  rcases scan_requests_alone (.standard keytabs) hrequests with
    ⟨hstumbles, m, hverdict⟩ | ⟨hstumbles, hverdict | ⟨cause, hverdict⟩⟩
  · simp [hverdict, Verdict.outcome?, hstumbles]
  · simp only [hverdict, Verdict.outcome?, conclude]
    split
    · refine ⟨iff_of_false (fun hcode => by cases hcode) hstumbles, fun _ => ⟨_, ?_, Json.withoutControl_print _⟩⟩
      simp [settledDocument?, h, hverdict]
    · exact ⟨iff_of_false (fun hcode => by cases hcode) hstumbles, fun hcode => by cases hcode⟩
  · simp only [hverdict, Verdict.outcome?]
    exact ⟨iff_of_false (fun hcode => by cases hcode) hstumbles, fun hcode => by cases hcode⟩

/-- Every configuration alone is resolved as it should be: to a misuse where its requests stumble,
and else to its document or to a diagnostic; unless it is at fault with a value that is not written. -/
theorem resolve_alone (keytabs : Bool) (config : Table) :
    (∃ fault, arguments (optionSection config) = .error fault ∧ fault.value.isWritten = false ∧
      resolve keytabs config [] = .error .numberNotWritten) ∨
    ∃ o, resolve keytabs config [] = .ok o ∧ o.Follows keytabs config [] ∧
      (Stumbles (.standard keytabs) (optionSection config) ∧ o.exitCode = 2 ∨
        ¬ Stumbles (.standard keytabs) (optionSection config) ∧
          (o.exitCode = 0 ∧ (∃ settled, settledDocument? keytabs config [] = some settled ∧
              o.output = settled.print ++ "\n") ∨
            o.exitCode = 1 ∧ reported keytabs config [] ≠ [])) := by
  rw [resolve]
  cases harguments : arguments (optionSection config) with
  | ok tokens =>
    have hfollows := runOptions_follows keytabs harguments []
    rw [List.append_nil] at hfollows
    obtain ⟨hmisuse, hdocument⟩ := runOptions_alone keytabs harguments
    refine .inr ⟨_, congrArg Except.ok (by rw [List.append_nil]), hfollows, ?_⟩
    by_cases hstumbles : Stumbles (.standard keytabs) (optionSection config)
    · exact .inl ⟨hstumbles, hmisuse.mpr hstumbles⟩
    · refine .inr ⟨hstumbles, ?_⟩
      rcases hfollows.exitCode with hcode | hcode | hcode
      · exact .inl ⟨hcode, hdocument hcode⟩
      · exact .inr ⟨hcode, hfollows.failed.mp hcode⟩
      · exact absurd (hmisuse.mp hcode) hstumbles
  | error fault =>
    simp only [Fault.diagnose]
    cases hwritten : fault.value.isWritten with
    | false => exact .inl ⟨fault, rfl, hwritten, rfl⟩
    | true =>
      have hreported : reported keytabs config [] = Diagnostic.lines ⟨fault.message, []⟩ := by
        simp [reported, harguments]
      have hstumbles : ¬ Stumbles (.standard keytabs) (optionSection config) := by
        rintro ⟨_, _, _, _, hrequests, -⟩
        simp [arguments, hrequests, Except.map] at harguments
      have hne := Diagnostic.lines_ne_nil ⟨fault.message, []⟩
      exact .inr ⟨_, rfl, Outcome.follows_failure hreported hne,
        .inr ⟨hstumbles, .inr ⟨rfl, hreported ▸ hne⟩⟩⟩

/-- A name that begins with a hyphen and stands in the configuration ends the program with a
misuse, though nothing stands on the command line. -/
theorem ResolveRequest.run_stumbles :
    let content := "[dissect]\ndisable_protocols = [\"-weird\"]\n".toByteArray
    Command.ofArguments ["resolve"] = .ok (.resolve {}) ∧
      (∃ config, tableOf (some content) = .ok config) ∧
      ∃ o, run {} (some content) = .ok o ∧ o.exitCode = 2 := by
  intro content
  have hcode : (run {} (some content)).toOption.map Outcome.exitCode = some 2 := by
    rw [run, tableOf_toByteArray]
    decide +kernel
  obtain ⟨o, ho, hexit⟩ := Option.map_eq_some_iff.mp hcode
  have hrun : run {} (some content) = .ok o := by
    cases h : run {} (some content) <;> simp_all [Except.toOption]
  obtain ⟨config, hconfig, -⟩ := bind_eq_ok hrun
  exact ⟨by decide +kernel, ⟨config, hconfig⟩, o, hrun, hexit⟩

end Dissection
