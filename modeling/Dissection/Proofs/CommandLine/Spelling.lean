import Dissection.Proofs.CommandLine.Grammar

/-!
# Spellings

A switch with its value can be written in one token or in two, and a switch that takes no value in a
token of its own or in front of the letters of the next. Wherever it stands on a command line, and
whatever stands around it, a scan comes to the same.
-/

namespace Dissection.CommandLine

/-- The ways to write a switch with its value: in two tokens, if the value can be the second; with an
equals sign between them; or, for the letter of a switch, with nothing between them. Two hyphens alone
would be left out where they are attached. -/
inductive Spelling (w : Switch) (value : String) : List String → Prop where
  | separate (hvalue : ArgumentLike value) : Spelling w value [w.flag, value]
  | joined (hvalue : value ≠ "--") : Spelling w value [w.flag ++ "=" ++ value]
  | attached {letter : Char} (hletter : w.flag.toList = ['-', letter]) (hne : value ≠ "")
      (heq : value.toList.head? ≠ some '=') (hvalue : value ≠ "--") :
      Spelling w value [w.flag ++ value]

/-- Whether two scans come to the same: the result or the exit code, what is reported, and the
session that is left. -/
structure Scan.Alike (x y : Scan) : Prop where
  accepted : x.verdict = .accepted ↔ y.verdict = .accepted
  exitCode : x.verdict.exitCode? = y.verdict.exitCode?
  lines : x.verdict.lines = y.verdict.lines
  session : x.session = y.session

theorem Scan.Alike.refl (x : Scan) : x.Alike x := ⟨Iff.rfl, rfl, rfl, rfl⟩

namespace Reading

/-- Strays do not show in what a scan comes to, as long as there are any. -/
theorem run_strays_alike (host : Host) (s : Session) (switches : List (Switch × Option String))
    {xs ys : List String} (hx : xs ≠ []) (hy : ys ≠ []) :
    (run host ⟨switches, .finished xs⟩ s).Alike (run host ⟨switches, .finished ys⟩ s) := by
  obtain ⟨x, xs, rfl⟩ := List.exists_cons_of_ne_nil hx
  obtain ⟨y, ys, rfl⟩ := List.exists_cons_of_ne_nil hy
  rw [run, run]
  obtain ⟨after, refusal⟩ := Session.handleAll host switches s
  cases refusal with
  | none => exact ⟨by simp [Ending.verdict], rfl, rfl, rfl⟩
  | some cause => exact Scan.Alike.refl _

/-- After some tokens the others are read as if they stood alone; or a flag is not read as one, for a
value is wanted or the reading is over; or all others are strays. -/
theorem ofTokens_append_cases (front : List String) :
    (∃ p : Progress, ∀ rest, ofTokens (front ++ rest) = p.before (ofTokens rest)) ∨
      (∃ r : Reading, ∀ {token f attached}, Token.ofText token = .flag f attached →
        ∀ rest, ofTokens (front ++ token :: rest) = r) ∨
      ∃ switches strays, strays ≠ [] ∧
        ∀ rest, ofTokens (front ++ rest) = ⟨switches, .finished (strays ++ rest)⟩ := by
  have hread (rest : List String) :
      ofTokens (front ++ rest) = (rest.foldl Progress.take (front.foldl Progress.take {})).finish := by
    rw [Progress.ofTokens_eq, List.foldl_append]
  generalize front.foldl Progress.take {} = p at hread
  cases hp : p.phase with
  | ready => exact .inl ⟨p, fun rest => by rw [hread, Progress.finish_foldl_take rest hp]⟩
  | wanting steps w =>
    refine .inr (.inl ⟨⟨p.switches, .misuse (.missingValue w)⟩, fun hflag rest => ?_⟩)
    have hover : (Phase.misused (.missingValue w)).IsOver := trivial
    rw [hread, List.foldl_cons, Progress.take, hp]
    simp only [hflag]
    rw [if_neg Token.noConfusion, Progress.foldl_take_of_isOver hover]
    rfl
  | terminated tail =>
    refine .inr (.inr ⟨p.switches, p.strays ++ "--" :: tail, by simp, fun rest => ?_⟩)
    rw [hread, Progress.foldl_take_terminated rest p tail hp]
    simp [Progress.finish, Progress.ending]
  | helped | misused m =>
    refine .inr (.inl ⟨p.finish, fun _ rest => ?_⟩)
    rw [hread, Progress.foldl_take_of_isOver (by rw [hp]; trivial)]

end Reading

private theorem Group.tokens_eq_cons (g : Group) : ∃ token rest f attached,
    g.tokens = token :: rest ∧ Token.ofText token = .flag f attached := by
  simp only [Token.ofText_eq_flag_iff]
  cases g with
  | separate w hw value hvalue => exact ⟨_, _, .switch w, none, rfl, .bare⟩
  | joined w hw value => exact ⟨_, _, _, _, rfl, spells_joined w value⟩
  | attached l value hne heq => exact ⟨_, _, _, _, rfl, l.spells_attached hne heq⟩
  | cluster equals more ending h =>
    obtain ⟨attached, hspells, -⟩ := spells_clusterToken h (ending.head?_letters more)
    rw [← String.toList_ofList (l := clusterToken _ _)] at hspells
    exact ⟨_, _, _, _, rfl, hspells⟩

private theorem Group.scan_alike {g h : Group} (hcalls : g.calls = h.calls) (host : Host)
    (front back : List String) (s : Session) :
    (scan host (front ++ g.tokens ++ back) s).Alike (scan host (front ++ h.tokens ++ back) s) := by
  rw [List.append_assoc, List.append_assoc, scan, scan]
  rcases Reading.ofTokens_append_cases front with
    ⟨p, hread⟩ | ⟨r, hread⟩ | ⟨switches, strays, hstrays, hread⟩
  · rw [hread, hread, g.ofTokens_append, h.ofTokens_append, hcalls]
    exact Scan.Alike.refl _
  · obtain ⟨token, rest, f, attached, htokens, hflag⟩ := g.tokens_eq_cons
    obtain ⟨token', rest', f', attached', htokens', hflag'⟩ := h.tokens_eq_cons
    rw [htokens, htokens', List.cons_append, List.cons_append, hread hflag, hread hflag']
    exact Scan.Alike.refl _
  · rw [hread, hread]
    exact Reading.run_strays_alike host s switches (by simp [hstrays]) (by simp [hstrays])

private theorem Spelling.exists_group {w : Switch} (hw : w.takesValue = true) {value : String}
    {tokens : List String} (h : Spelling w value tokens) :
    ∃ g : Group, g.tokens = tokens ∧ g.calls = [(w, some value)] := by
  have hpassed (hvalue : value ≠ "--") : passedOn (w, some value) = (w, some value) := by
    simp [passedOn, hvalue]
  cases h with
  | separate hvalue =>
    exact ⟨.separate w hw value hvalue, rfl, congrArg (fun r => [r]) (hvalue.passedOn w)⟩
  | joined hvalue => exact ⟨.joined w hw value, rfl, congrArg (fun r => [r]) (hpassed hvalue)⟩
  | @attached letter hletter hne heq hvalue =>
    exact ⟨.attached ⟨w, letter, hletter, hw⟩ value hne heq, rfl,
      congrArg (fun r => [r]) (hpassed hvalue)⟩

def switchLetters : List Char := ['d', 'K', 'n', 'N', 't', 'u']

private theorem exists_switch_of_mem_switchLetters {letter : Char} (h : letter ∈ switchLetters) :
    ∃ w : Switch, w.flag.toList = ['-', letter] := by
  simp only [switchLetters, List.mem_cons, List.not_mem_nil, or_false] at h
  rcases h with rfl | rfl | rfl | rfl | rfl | rfl
  · exact ⟨.decodeAs, rfl⟩
  · exact ⟨.keytab, rfl⟩
  · exact ⟨.noNameResolution, rfl⟩
  · exact ⟨.nameResolution, rfl⟩
  · exact ⟨.timeStamp, rfl⟩
  · exact ⟨.secondsType, rfl⟩

private theorem spells_letters {w : Switch} {letter : Char} (hw : w.flag.toList = ['-', letter])
    {rest : List Char} (hrest : rest.head? ≠ some '=') :
    ∃ attached, Spells (.switch w) attached ('-' :: letter :: rest) ∧
      Cluster.ofFlag (.switch w) attached = Cluster.ofLetters (.switch w) rest := by
  by_cases hempty : rest = []
  · subst hempty
    exact ⟨none, hw ▸ .bare, rfl⟩
  · refine ⟨some rest, .letter hw hempty hrest, ?_⟩
    cases hvalue : w.takesValue with
    | true =>
      rw [Cluster.ofLetters_valued hvalue hempty]
      exact if_pos hvalue
    | false =>
      obtain rfl : w = .noNameResolution := by
        cases w <;> first | rfl | cases hvalue
      exact Cluster.ofFlag_noNameResolution hempty

namespace Reading

/-- That name resolution was switched off before a misuse does not show if the program goes on, for
then a switch before that is refused. -/
theorem run_misuse_off (host : Host) (s : Session) (switches : List (Switch × Option String))
    (m : Misuse)
    (h : (run host ⟨switches ++ [(.noNameResolution, none)], .misuse m⟩ s).verdict.exitCode? = none) :
    run host ⟨switches, .misuse m⟩ s =
      run host ⟨switches ++ [(.noNameResolution, none)], .misuse m⟩ s := by
  simp only [run, Session.handleAll_append] at h ⊢
  cases hall : Session.handleAll host switches s with
  | mk after refusal =>
    cases refusal with
    | none =>
      rw [hall] at h
      cases h
    | some cause => rfl

private theorem ofTokens_after_off {token clustered : String} {f g : Flag}
    {a b : Option (List Char)}
    (htoken : Spells f a token.toList) (hclustered : Spells g b clustered.toList)
    (hcluster : Cluster.ofFlag g b = (Cluster.ofFlag f a).after Cluster.off) (back : List String) :
    ofTokens (clustered :: back) = withSteps [Cluster.off] (ofTokens (token :: back)) ∨
      ∃ m, ofTokens (token :: back) = stop (.misuse m) ∧
        ofTokens (clustered :: back) = stop (.misuse m) := by
  cases hf : Cluster.ofFlag f a with
  | complete steps =>
    rw [hf, Cluster.after] at hcluster
    rw [ofTokens_of_complete htoken hf, ofTokens_of_complete hclustered hcluster]
    exact .inl rfl
  | misuse m =>
    rw [hf, Cluster.after] at hcluster
    refine .inr ⟨m, ?_, ?_⟩
    · simp [ofTokens, Token.ofText_eq_flag_iff.mpr htoken, hf]
    · simp [ofTokens, Token.ofText_eq_flag_iff.mpr hclustered, hcluster]
  | wanting steps w =>
    rw [hf, Cluster.after] at hcluster
    have hmisuse (hback : back.head?.map Token.ofText ≠ some .argument) :
        ofTokens (token :: back) = stop (.misuse (.missingValue w)) ∧
          ofTokens (clustered :: back) = stop (.misuse (.missingValue w)) := by
      cases back <;>
        simp_all [ofTokens, Token.ofText_eq_flag_iff.mpr htoken,
          Token.ofText_eq_flag_iff.mpr hclustered]
    cases back with
    | nil => exact .inr ⟨_, hmisuse (by simp)⟩
    | cons value back =>
      by_cases hvalue : ArgumentLike value
      · rw [ofTokens_of_wanting htoken hf hvalue, ofTokens_of_wanting hclustered hcluster hvalue]
        exact .inl rfl
      · refine .inr ⟨_, hmisuse ?_⟩
        simpa [Token.ofText_eq_argument_iff] using hvalue

end Reading

section

variable {letters : String} {letter : Char} {rest : List Char}
  (hletters : letters.toList = letter :: rest) (hletter : letter ∈ switchLetters)
  (hrest : rest.head? ≠ some '=')

include hletters hletter hrest

/-- Letters of a switch are read alike after a hyphen and after an `n`, which adds its own step. -/
theorem spells_clustered : ∃ w a b, Spells (.switch w) a ("-" ++ letters).toList ∧
    Spells (.switch .noNameResolution) b ("-n" ++ letters).toList ∧
    Cluster.ofFlag (.switch .noNameResolution) b =
      (Cluster.ofFlag (.switch w) a).after Cluster.off := by
  obtain ⟨w, hw⟩ := exists_switch_of_mem_switchLetters hletter
  have hequals : (letter :: rest).head? ≠ some '=' := by
    rintro ⟨⟩
    revert hletter
    decide
  have hn : Switch.noNameResolution.flag.toList = ['-', 'n'] := rfl
  have hflag : Flag.ofText? ['-', letter] = some (.switch w) := hw ▸ Flag.ofText?_text (.switch w)
  obtain ⟨a, htoken, ha⟩ := spells_letters hw hrest
  obtain ⟨b, hclustered, hb⟩ := spells_letters hn hequals
  rw [Cluster.ofLetters_of_some rfl hflag, ← ha] at hb
  refine ⟨w, a, b, ?_, ?_, hb⟩
  · rw [String.toList_append, hletters]
    exact htoken
  · rw [String.toList_append, hletters]
    exact hclustered

/-- A scan that does not leave the program comes to the same if an `n` and the letters of the next
token stand in one. -/
theorem scan_clustered_alike (host : Host) (front back : List String) (s : Session)
    (hexit : (scan host (front ++ ["-n", "-" ++ letters] ++ back) s).verdict.exitCode? = none) :
    (scan host (front ++ ["-n" ++ letters] ++ back) s).Alike
      (scan host (front ++ ["-n", "-" ++ letters] ++ back) s) := by
  obtain ⟨w, a, b, htoken, hclustered, hcluster⟩ := spells_clustered hletters hletter hrest
  have hoff : Spells (.switch .noNameResolution) none "-n".toList :=
    .bare (f := .switch .noNameResolution)
  rw [List.append_assoc, scan] at hexit ⊢
  rw [List.append_assoc, scan]
  rcases Reading.ofTokens_append_cases front with
    ⟨p, hread⟩ | ⟨r, hread⟩ | ⟨switches, strays, hstrays, hread⟩
  · have hapart : Reading.ofTokens (["-n", "-" ++ letters] ++ back) =
        Reading.withSteps [Cluster.off] (Reading.ofTokens (("-" ++ letters) :: back)) :=
      Reading.ofTokens_of_complete hoff rfl _
    rw [hread, hapart] at hexit
    rw [hread, hread, hapart]
    rcases Reading.ofTokens_after_off htoken hclustered hcluster back with heq | ⟨m, hm, hmisuse⟩
    · rw [List.singleton_append, heq]
      exact Scan.Alike.refl _
    · rw [hm] at hexit ⊢
      have hbefore : p.before (Reading.stop (.misuse m)) = ⟨p.switches, .misuse m⟩ := by
        simp [Progress.before, Reading.stop]
      rw [List.singleton_append, hmisuse, hbefore,
        Reading.run_misuse_off host s p.switches m hexit]
      exact Scan.Alike.refl _
  · rw [List.singleton_append, hread (Token.ofText_eq_flag_iff.mpr hclustered),
      List.cons_append, hread (Token.ofText_eq_flag_iff.mpr hoff)]
    exact Scan.Alike.refl _
  · rw [hread, hread]
    exact Reading.run_strays_alike host s switches (by simp [hstrays]) (by simp [hstrays])

end

/-- All spellings of a switch with its value come to the same, in every place on every command line;
and so do an `n` and the letters of a switch in two tokens and in one, unless the scan of the two
leaves the program. -/
theorem spellings_scan_alike (host : Host) (front back : List String) (s : Session) :
    (∀ {w : Switch} {value : String} {tokens others : List String}, w.takesValue = true →
      Spelling w value tokens → Spelling w value others →
      (scan host (front ++ tokens ++ back) s).Alike (scan host (front ++ others ++ back) s)) ∧
    ∀ {letters : String} {letter : Char} {rest : List Char}, letters.toList = letter :: rest →
      letter ∈ switchLetters → rest.head? ≠ some '=' →
      (scan host (front ++ ["-n", "-" ++ letters] ++ back) s).verdict.exitCode? = none →
      (scan host (front ++ ["-n" ++ letters] ++ back) s).Alike
        (scan host (front ++ ["-n", "-" ++ letters] ++ back) s) := by
  refine ⟨fun hw htokens hothers => ?_, fun hletters hletter hrest hexit =>
    scan_clustered_alike hletters hletter hrest host front back s hexit⟩
  obtain ⟨g, rfl, hg⟩ := htokens.exists_group hw
  obtain ⟨h, rfl, hh⟩ := hothers.exists_group hw
  exact Group.scan_alike (hg.trans hh.symm) host front back s

/-- The three spellings of a rule that begins with a hyphen and has a space and an equals sign in it,
in front of a value that is missing; and a cluster that ends in a letter whose value is refused. -/
theorem spellings_scan_alike_instances :
    let host := Host.standard false
    (scan host (["-n"] ++ ["-d", "- a==b,c"] ++ ["-t"]) {}).Alike
        (scan host (["-n"] ++ ["-d=- a==b,c"] ++ ["-t"]) {}) ∧
      (scan host (["-n"] ++ ["-d=- a==b,c"] ++ ["-t"]) {}).Alike
        (scan host (["-n"] ++ ["-d- a==b,c"] ++ ["-t"]) {}) ∧
      (scan host (["-u", "s"] ++ ["-nnNx"] ++ ["-t", "r"]) {}).Alike
        (scan host (["-u", "s"] ++ ["-n", "-nNx"] ++ ["-t", "r"]) {}) := by
  intro host
  have hargument : ArgumentLike "- a==b,c" := Token.ofText_eq_argument_iff.mp (by decide +kernel)
  have hseparate : Spelling .decodeAs "- a==b,c" ["-d", "- a==b,c"] := .separate hargument
  have hjoined : Spelling .decodeAs "- a==b,c" ["-d=- a==b,c"] := .joined (by decide)
  have hflag : Switch.decodeAs.flag.toList = ['-', 'd'] := rfl
  have hattached : Spelling .decodeAs "- a==b,c" ["-d- a==b,c"] :=
    .attached hflag (by decide) (by decide) (by decide)
  have hletters : "nNx".toList = ['n', 'N', 'x'] := rfl
  exact ⟨(spellings_scan_alike host ["-n"] ["-t"] {}).1 rfl hseparate hjoined,
    (spellings_scan_alike host ["-n"] ["-t"] {}).1 rfl hjoined hattached,
    (spellings_scan_alike host ["-u", "s"] ["-t", "r"] {}).2 hletters (by decide) (by decide)
      (by decide +kernel)⟩

end Dissection.CommandLine
