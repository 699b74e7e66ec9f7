import Dissection.Proofs.CommandLine.Grammar

/-!
# Command lines that are accepted

Every reading that ends well is that of a list of groups, so a scan accepts just the groups whose
switches are all accepted.
-/

namespace Dissection

namespace Session

/-- The calls that are made of those that are asked for: up to the first that is refused, and it. -/
def callsMade (host : Host) :
    List (Switch × Option String) → Session → List (Switch × Option String)
  | [], _ => []
  | (w, argument) :: r, s =>
    (w, argument) ::
      match s.handle host w argument with
      | (after, none) => callsMade host r after
      | (_, some _) => []

private theorem callsMade_of_handleAll {host : Host} {calls : List (Switch × Option String)}
    {s : Session}
    (h : (handleAll host calls s).2 = none) : callsMade host calls s = calls := by
  induction calls generalizing s with
  | nil => rfl
  | cons call calls ih =>
    obtain ⟨w, argument⟩ := call
    rcases hhandle : s.handle host w argument with ⟨after, _ | cause⟩
    · have hrest : (handleAll host calls after).2 = none := by simpa [handleAll, hhandle] using h
      have hcalls := ih hrest
      simp [callsMade, hhandle, hcalls]
    · simp [handleAll, hhandle] at h

end Session

namespace CommandLine

def scanCalls (host : Host) (tokens : List String) (s : Session) : List (Switch × Option String) :=
  Session.callsMade host (Reading.ofTokens tokens).switches s

/-- Whether the token of a cluster makes a group, alone or with an argument after it, or the cluster
is one that a reading cannot end well after. -/
def Cluster.Grouped (token : String) : Cluster → Prop
  | .complete steps => .help ∈ steps ∨ ∃ g : Group, g.tokens = [token]
  | .wanting steps _ =>
    .help ∈ steps ∨ ∀ value, ArgumentLike value → ∃ g : Group, g.tokens = [token, value]
  | .misuse _ => True

private theorem Cluster.Halts.grouped {c : Cluster} (h : c.Halts) (token : String) :
    c.Grouped token := by
  cases c with
  | complete steps | wanting steps w => exact .inl h
  | misuse m => trivial

private theorem exists_toList (cs : List Char) : ∃ text : String, cs = text.toList :=
  ⟨String.ofList cs, String.toList_ofList.symm⟩

private theorem Cluster.grouped_clusterToken (equals : Bool) (body : List Char)
    (h : equals = true → body ≠ []) :
    (Cluster.ofLetters (.switch .noNameResolution) body).Grouped
      (String.ofList (clusterToken equals body)) := by
  rcases Cluster.ofLetters_cases body with hhalts | ⟨k, hbody⟩ | ⟨k, value, l, rfl⟩
  · exact hhalts.grouped _
  · obtain rfl : body = List.replicate k 'n' ++ [] := by rw [hbody, List.append_nil]
    rw [Cluster.ofLetters_bare]
    exact .inr ⟨.cluster equals k .bare h, rfl⟩
  · obtain ⟨text, rfl⟩ := exists_toList value
    by_cases hempty : text = ""
    · subst hempty
      have hseparate : Cluster.ofLetters (.switch .noNameResolution)
          (List.replicate k 'n' ++ l.letter :: "".toList) =
            .wanting (List.replicate (k + 1) off) l.switch := Cluster.ofLetters_separate k l
      rw [hseparate]
      exact .inr fun value hvalue => ⟨.cluster equals k (.separate l value hvalue) h, rfl⟩
    · rw [Cluster.ofLetters_attached k l hempty]
      exact .inr ⟨.cluster equals k (.attached l text hempty) h, rfl⟩

private theorem Spells.grouped_valued {w : Switch} (hw : w.takesValue = true)
    {attached : Option (List Char)} {cs : List Char} (h : Spells (.switch w) attached cs) :
    (Cluster.ofFlag (.switch w) attached).Grouped (String.ofList cs) := by
  have hcomplete (value : List Char) : Cluster.ofFlag (.switch w) (some value) =
      .complete [.switch w (Cluster.attachedValue value)] := if_pos hw
  cases h with
  | bare =>
    have hwanting : Cluster.ofFlag (.switch w) none = .wanting [] w :=
      Cluster.ofLetters_valued_nil hw
    rw [hwanting, String.ofList_toList]
    exact .inr fun value hvalue => ⟨.separate w hw value hvalue, rfl⟩
  | equals value =>
    obtain ⟨text, rfl⟩ := exists_toList value
    have htoken : w.flag ++ "=" ++ text =
        String.ofList ((Flag.switch w).text.toList ++ '=' :: text.toList) := by
      rw [Flag.text, ← w.toList_joined, String.ofList_toList]
    rw [hcomplete, ← htoken]
    exact .inr ⟨.joined w hw text, rfl⟩
  | @letter letter value hf hne heq =>
    obtain ⟨text, rfl⟩ := exists_toList value
    have hnonempty : text ≠ "" := fun hempty => hne (String.toList_inj.mpr hempty)
    let l : ValuedLetter := ⟨w, letter, hf, hw⟩
    have htoken : w.flag ++ text = String.ofList ('-' :: letter :: text.toList) := by
      rw [← l.toList_attached, String.ofList_toList]
    rw [hcomplete, ← htoken]
    exact .inr ⟨.attached l text hnonempty heq, rfl⟩

private theorem Spells.grouped_noNameResolution {attached : Option (List Char)} {cs : List Char}
    (h : Spells (.switch .noNameResolution) attached cs) :
    (Cluster.ofFlag (.switch .noNameResolution) attached).Grouped (String.ofList cs) := by
  cases h with
  | bare => exact Cluster.grouped_clusterToken false [] Bool.noConfusion
  | equals value =>
    by_cases hempty : value = []
    · subst hempty
      trivial
    · rw [Cluster.ofFlag_noNameResolution hempty]
      exact Cluster.grouped_clusterToken true value fun _ => hempty
  | @letter letter value hf hne heq =>
    have hn : (Flag.switch .noNameResolution).text.toList = ['-', 'n'] := rfl
    rw [hn] at hf
    cases hf
    rw [Cluster.ofFlag_noNameResolution hne]
    exact Cluster.grouped_clusterToken false value Bool.noConfusion

private theorem Spells.grouped {f : Flag} {attached : Option (List Char)} {cs : List Char}
    (h : Spells f attached cs) : (Cluster.ofFlag f attached).Grouped (String.ofList cs) := by
  cases f with
  | shortHelp | longHelp => exact (Cluster.halts_ofFlag_help rfl attached).grouped _
  | switch w =>
    cases hw : w.takesValue with
    | true => exact h.grouped_valued hw
    | false =>
      obtain rfl : w = .noNameResolution := by
        cases w <;> first | rfl | cases hw
      exact h.grouped_noNameResolution

/-- Every token that is read as a flag makes a group, if a reading can end well after it. -/
theorem Token.grouped {token : String} {f : Flag} {attached : Option (List Char)}
    (h : Token.ofText token = .flag f attached) : (Cluster.ofFlag f attached).Grouped token := by
  have hgrouped := (Token.ofText_eq_flag_iff.mp h).grouped
  rw [String.ofList_toList] at hgrouped
  exact hgrouped

namespace Reading

private theorem ending_withSteps {steps : List Step} {r : Reading}
    (h : (withSteps steps r).ending = .finished []) : .help ∉ steps ∧ r.ending = .finished [] := by
  induction steps with
  | nil => exact ⟨List.not_mem_nil, h⟩
  | cons step steps ih =>
    cases step with
    | help => cases h
    | switch w argument =>
      obtain ⟨hhelp, hending⟩ := ih h
      exact ⟨by simpa using hhelp, hending⟩

private theorem ending_withStray (token : String) (r : Reading) :
    (withStray token r).ending ≠ .finished [] := by
  rw [withStray]
  cases r.ending <;> simp

theorem exists_groups {tokens : List String} (h : (ofTokens tokens).ending = .finished []) :
    ∃ groups : List Group, groups.flatMap Group.tokens = tokens := by
  induction tokens using ofTokens.induct with
  | case1 => exact ⟨[], rfl⟩
  | case2 token rest htoken => simp [ofTokens, htoken, stop] at h
  | case3 token rest htoken | case4 token rest htoken =>
    simp only [ofTokens, htoken] at h
    exact absurd h (ending_withStray token _)
  | case5 token rest f attached htoken steps hcluster ih =>
    have hgrouped := Token.grouped htoken
    rw [hcluster] at hgrouped
    simp only [ofTokens, htoken, hcluster] at h
    obtain ⟨hhelp, hending⟩ := ending_withSteps h
    obtain ⟨groups, hgroups⟩ := ih hending
    obtain ⟨g, hg⟩ := hgrouped.resolve_left hhelp
    refine ⟨g :: groups, ?_⟩
    rw [List.flatMap_cons, hg, hgroups]
    rfl
  | case6 token rest f attached htoken m hcluster => simp [ofTokens, htoken, hcluster, stop] at h
  | case7 token f attached htoken steps w hcluster value rest hvalue ih =>
    have hgrouped := Token.grouped htoken
    rw [hcluster] at hgrouped
    simp only [ofTokens, htoken, hcluster, if_pos hvalue] at h
    obtain ⟨hhelp, hending⟩ := ending_withSteps h
    obtain ⟨groups, hgroups⟩ := ih hending
    have hnohelp : Step.help ∉ steps := fun hmem => hhelp (List.mem_append_left _ hmem)
    obtain ⟨g, hg⟩ := hgrouped.resolve_left hnohelp value (Token.ofText_eq_argument_iff.mp hvalue)
    refine ⟨g :: groups, ?_⟩
    rw [List.flatMap_cons, hg, hgroups]
    rfl
  | case8 token f attached htoken steps w hcluster value rest hvalue =>
    simp [ofTokens, htoken, hcluster, hvalue, stop] at h
  | case9 token f attached htoken steps w hcluster => simp [ofTokens, htoken, hcluster, stop] at h

end Reading

private theorem scan_flatMap_session (host : Host) (groups : List Group) (s : Session) :
    (scan host (groups.flatMap Group.tokens) s).session =
      (Session.handleAll host (groups.flatMap Group.calls) s).1 := by
  rw [scan, Group.ofTokens_flatMap, Reading.run]
  split <;> rename_i hall <;> rw [hall]

private theorem scan_flatMap_accepted_iff (host : Host) (groups : List Group) (s : Session) :
    (scan host (groups.flatMap Group.tokens) s).verdict = .accepted ↔
      (Session.handleAll host (groups.flatMap Group.calls) s).2 = none := by
  rw [scan, Group.ofTokens_flatMap, Reading.run]
  split <;> rename_i hall <;> rw [hall] <;> simp [Ending.verdict]

private theorem scanCalls_flatMap (host : Host) (groups : List Group) (s : Session) :
    scanCalls host (groups.flatMap Group.tokens) s =
      Session.callsMade host (groups.flatMap Group.calls) s := by
  rw [scanCalls, Group.ofTokens_flatMap]

theorem ending_of_scan_accepted {host : Host} {tokens : List String} {s : Session}
    (h : (scan host tokens s).verdict = .accepted) :
    (Reading.ofTokens tokens).ending = .finished [] := by
  rw [scan] at h
  rcases Reading.run_cases host (Reading.ofTokens tokens) s with
    ⟨after, -, hrun⟩ | ⟨after, cause, -, hrun⟩
  · rw [hrun] at h
    exact Ending.verdict_eq_accepted_iff.mp h
  · rw [hrun] at h
    cases h

theorem Group.isSome_of_mem_requests {g : Group} {r : Switch × Option String}
    (h : r ∈ g.requests) : r.2.isSome = r.1.takesValue := by
  cases g with
  | separate w hw | joined w hw =>
    rw [List.mem_singleton.mp h]
    exact hw.symm
  | attached l =>
    rw [List.mem_singleton.mp h]
    exact l.valued.symm
  | cluster equals more ending =>
    rcases List.mem_append.mp h with hoff | hlast
    · rw [List.eq_of_mem_replicate hoff]
      rfl
    · cases ending with
      | bare => cases hlast
      | attached l | separate l =>
        rw [List.mem_singleton.mp hlast]
        exact l.valued.symm

private theorem eq_of_passedOn {r : Switch × Option String} {w : Switch}
    (h : passedOn r = (w, none))
    (hvalue : r.2.isSome = r.1.takesValue) :
    r = (w, if w.takesValue then some "--" else none) := by
  obtain ⟨switch, argument⟩ := r
  obtain ⟨rfl, hnone⟩ := Prod.mk.inj h
  cases argument with
  | none =>
    have htakes : switch.takesValue = false := hvalue.symm
    rw [htakes]
    rfl
  | some value =>
    have htakes : switch.takesValue = true := hvalue.symm
    have hdashes : value = "--" := by simpa using hnone
    rw [htakes, hdashes]
    rfl

/-- A scan accepts the command lines that split into groups whose calls are all accepted in order,
and no others; and of a command line that splits into groups it makes their calls, in order and up
to the first that is refused. -/
theorem scan_accepted_iff_groups (host : Host) (tokens : List String) (s : Session) :
    ((scan host tokens s).verdict = .accepted ↔
      ∃ groups : List Group, groups.flatMap Group.tokens = tokens ∧
        (Session.handleAll host (groups.flatMap Group.calls) s).2 = none) ∧
    ∀ groups : List Group, groups.flatMap Group.tokens = tokens →
      scanCalls host tokens s = Session.callsMade host (groups.flatMap Group.calls) s ∧
      (scan host tokens s).session = (Session.handleAll host (groups.flatMap Group.calls) s).1 ∧
      ((scan host tokens s).verdict = .accepted →
        scanCalls host tokens s = groups.flatMap Group.calls) := by
  refine ⟨⟨fun haccepted => ?_, ?_⟩, ?_⟩
  · obtain ⟨groups, rfl⟩ := Reading.exists_groups (ending_of_scan_accepted haccepted)
    exact ⟨groups, rfl, (scan_flatMap_accepted_iff host groups s).mp haccepted⟩
  · rintro ⟨groups, rfl, hall⟩
    exact (scan_flatMap_accepted_iff host groups s).mpr hall
  · rintro groups rfl
    refine ⟨scanCalls_flatMap host groups s, scan_flatMap_session host groups s, ?_⟩
    intro haccepted
    rw [scanCalls_flatMap]
    exact Session.callsMade_of_handleAll ((scan_flatMap_accepted_iff host groups s).mp haccepted)

/-- A command line that is accepted, of two groups with three calls. -/
theorem scan_accepted_groups :
    ∃ groups : List Group, groups.flatMap Group.tokens = ["-nN--", "-t", "ad.6"] ∧
      groups.flatMap Group.calls =
        [(.noNameResolution, none), (.nameResolution, none), (.timeStamp, some "ad.6")] := by
  have haccepted : (scan (.standard false) ["-nN--", "-t", "ad.6"] {}).verdict = .accepted := by
    decide +kernel
  have hcalls : scanCalls (.standard false) ["-nN--", "-t", "ad.6"] {} =
      [(.noNameResolution, none), (.nameResolution, none), (.timeStamp, some "ad.6")] := by
    decide +kernel
  have h := scan_accepted_iff_groups (.standard false) ["-nN--", "-t", "ad.6"] {}
  obtain ⟨groups, hsplit, -⟩ := h.1.mp haccepted
  obtain ⟨-, -, hall⟩ := h.2 groups hsplit
  exact ⟨groups, hsplit, (hall haccepted).symm.trans hcalls⟩

/-- Two hyphens alone are not passed on as they are written: if they were, this command line would
be refused. -/
theorem scan_not_accepted_iff_requests :
    ¬ ((scan (.standard false) ["-nN--"] {}).verdict = .accepted ↔
      ∃ groups : List Group, groups.flatMap Group.tokens = ["-nN--"] ∧
        (Session.handleAll (.standard false) (groups.flatMap Group.requests) {}).2 = none) := by
  intro h
  have haccepted : (scan (.standard false) ["-nN--"] {}).verdict = .accepted := by decide +kernel
  obtain ⟨groups, hsplit, hall⟩ := h.mp haccepted
  have hread : Reading.ofTokens ["-nN--"] =
      ⟨[(.noNameResolution, none), (.nameResolution, none)], .finished []⟩ := by decide +kernel
  have hcalls : (groups.flatMap Group.requests).map passedOn =
      [(.noNameResolution, none), (.nameResolution, none)] := by
    rw [← hsplit, Group.ofTokens_flatMap] at hread
    rw [List.map_flatMap]
    exact congrArg Reading.switches hread
  have hvalue : ∀ r ∈ groups.flatMap Group.requests, r.2.isSome = r.1.takesValue := by
    intro r hr
    obtain ⟨g, -, hg⟩ := List.mem_flatMap.mp hr
    exact Group.isSome_of_mem_requests hg
  obtain ⟨off, last, hrequests, hoff, hlast⟩ := List.map_eq_cons_iff.mp hcalls
  obtain ⟨names, rest, rfl, hnames, hrest⟩ := List.map_eq_cons_iff.mp hlast
  obtain rfl := List.map_eq_nil_iff.mp hrest
  rw [hrequests] at hall hvalue
  rw [eq_of_passedOn hoff (hvalue off (by simp)), eq_of_passedOn hnames (hvalue names (by simp))]
    at hall
  revert hall
  decide +kernel

end CommandLine

end Dissection
