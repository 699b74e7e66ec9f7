import Dissection.CommandLine.Reading
import Dissection.Proofs.CommandLine.Progress

/-!
# The grammar of the command line

A command line is accepted when it splits into groups of tokens, each of which asks for one switch
or for a cluster of them, and every switch that they ask for is accepted in turn.
-/

/-!
## Clusters of letters

What the letters of one token come to. A reading ends well after a cluster only if that is some `n`,
with a letter that takes a value after them or not.
-/

namespace Dissection.CommandLine

/-- A switch that is written as a letter and takes a value. -/
structure ValuedLetter where
  switch : Switch
  letter : Char
  flag_eq : switch.flag.toList = ['-', letter]
  valued : switch.takesValue = true

namespace Cluster

def afterAll (steps : List Step) (c : Cluster) : Cluster := steps.foldr after c

private theorem afterAll_complete (front steps : List Step) :
    afterAll front (.complete steps) = .complete (front ++ steps) := by
  induction front with
  | nil => rfl
  | cons step front ih => rw [afterAll, List.foldr_cons, ← afterAll, ih]; rfl

private theorem afterAll_wanting (front steps : List Step) (w : Switch) :
    afterAll front (.wanting steps w) = .wanting (front ++ steps) w := by
  induction front with
  | nil => rfl
  | cons step front ih => rw [afterAll, List.foldr_cons, ← afterAll, ih]; rfl

def off : Step := .switch .noNameResolution none

theorem ofLetters_of_some {f g : Flag} (hf : f.takesValue = false) {c : Char}
    (hg : Flag.ofText? ['-', c] = some g) (r : List Char) :
    ofLetters f (c :: r) = (ofLetters g r).after (bareStep f) := by
  conv =>
    lhs
    unfold ofLetters
  simp only [hf, hg]

private theorem ofLetters_of_none {f : Flag} (hf : f.takesValue = false) {c : Char}
    (hc : Flag.ofText? ['-', c] = none) (r : List Char) :
    ofLetters f (c :: r) = .misuse (.unexpectedValue f (String.ofList (c :: r))) := by
  unfold ofLetters
  simp only [hf, hc]

theorem ofLetters_valued {w : Switch} (hw : w.takesValue = true) {value : List Char}
    (hne : value ≠ []) :
    ofLetters (.switch w) value = .complete [.switch w (attachedValue value)] := by
  cases value with
  | nil => exact absurd rfl hne
  | cons c r =>
    unfold ofLetters
    simp only [Flag.takesValue, hw]

theorem ofLetters_valued_nil {w : Switch} (hw : w.takesValue = true) :
    ofLetters (.switch w) [] = .wanting [] w := by
  simp [ofLetters, hw]

private theorem ofLetters_replicate (k : Nat) (cs : List Char) :
    ofLetters (.switch .noNameResolution) (List.replicate k 'n' ++ cs) =
      afterAll (List.replicate k off) (ofLetters (.switch .noNameResolution) cs) := by
  induction k with
  | zero => rfl
  | succ k ih =>
    have hn : Flag.ofText? ['-', 'n'] = some (.switch .noNameResolution) := by decide +kernel
    rw [List.replicate_succ, List.cons_append, ofLetters_of_some rfl hn, ih]
    rfl

private theorem ofLetters_letter (l : ValuedLetter) (value : List Char) :
    ofLetters (.switch .noNameResolution) (l.letter :: value) =
      (ofLetters (.switch l.switch) value).after off := by
  have hflag : Flag.ofText? ['-', l.letter] = some (.switch l.switch) :=
    l.flag_eq ▸ Flag.ofText?_text (.switch l.switch)
  exact ofLetters_of_some rfl hflag value

theorem ofFlag_noNameResolution {body : List Char} (hne : body ≠ []) :
    ofFlag (.switch .noNameResolution) (some body) =
      ofLetters (.switch .noNameResolution) body := by
  rw [ofFlag]
  exact if_neg hne

/-- Whether a reading cannot end well after a cluster: it asks for help or is wrong. -/
def Halts : Cluster → Prop
  | .complete steps => .help ∈ steps
  | .wanting steps _ => .help ∈ steps
  | .misuse _ => True

private theorem halts_after {c : Cluster} (h : c.Halts) (step : Step) : (c.after step).Halts := by
  cases c with
  | complete steps | wanting steps w => exact List.mem_cons_of_mem step h
  | misuse m => trivial

private theorem halts_after_help (c : Cluster) : (c.after .help).Halts := by
  cases c with
  | complete steps | wanting steps w => exact List.mem_cons_self
  | misuse m => trivial

private theorem halts_ofLetters_help {f : Flag} (hf : bareStep f = .help) (cs : List Char) :
    (ofLetters f cs).Halts := by
  have hvalue : f.takesValue = false := by
    cases f with
    | switch w => cases hf
    | _ => rfl
  cases cs with
  | nil =>
    cases f with
    | switch w => cases hf
    | _ => exact List.mem_singleton_self _
  | cons c r =>
    cases hc : Flag.ofText? ['-', c] with
    | none =>
      rw [ofLetters_of_none hvalue hc]
      trivial
    | some g =>
      rw [ofLetters_of_some hvalue hc, hf]
      exact halts_after_help _

theorem halts_ofFlag_help {f : Flag} (hf : bareStep f = .help) (attached : Option (List Char)) :
    (ofFlag f attached).Halts := by
  cases attached with
  | none => exact halts_ofLetters_help hf []
  | some value =>
    cases f with
    | switch w => cases hf
    | longHelp => trivial
    | shortHelp =>
      rw [ofFlag]
      split
      · trivial
      · exact halts_ofLetters_help rfl value

/-- What may follow the first `n` in a cluster that a reading ends well after. -/
theorem ofLetters_cases (cs : List Char) :
    (ofLetters (.switch .noNameResolution) cs).Halts ∨ (∃ k, cs = List.replicate k 'n') ∨
      ∃ k value, ∃ l : ValuedLetter, cs = List.replicate k 'n' ++ l.letter :: value := by
  induction cs with
  | nil => exact .inr (.inl ⟨0, rfl⟩)
  | cons c r ih =>
    cases hc : Flag.ofText? ['-', c] with
    | none =>
      rw [ofLetters_of_none rfl hc]
      exact .inl trivial
    | some g =>
      have htext := Flag.text_of_ofText? hc
      rw [ofLetters_of_some rfl hc]
      cases hg : g with
      | shortHelp | longHelp => exact .inl (halts_after (halts_ofLetters_help rfl r) _)
      | switch w =>
        subst hg
        cases hw : w.takesValue with
        | true => exact .inr (.inr ⟨0, r, ⟨w, c, htext, hw⟩, rfl⟩)
        | false =>
          obtain rfl : w = .noNameResolution := by
            cases w <;> first | rfl | cases hw
          cases htext
          rcases ih with hhalts | ⟨k, rfl⟩ | ⟨k, value, l, rfl⟩
          · exact .inl (halts_after hhalts _)
          · exact .inr (.inl ⟨k + 1, rfl⟩)
          · exact .inr (.inr ⟨k + 1, value, l, rfl⟩)

end Cluster

end Dissection.CommandLine

namespace Dissection

theorem Switch.toList_joined (w : Switch) (value : String) :
    (w.flag ++ "=" ++ value).toList = w.flag.toList ++ '=' :: value.toList := by
  simp

namespace CommandLine

/-- How a cluster of `n` ends: so, or with a switch whose value is the rest of the token or, if
there is no rest, the next token. -/
inductive ClusterEnd where
  | bare
  | attached (l : ValuedLetter) (value : String) (hne : value ≠ "")
  | separate (l : ValuedLetter) (value : String) (hvalue : ArgumentLike value)

namespace ClusterEnd

def letters : ClusterEnd → List Char
  | .bare => []
  | .attached l value _ => l.letter :: value.toList
  | .separate l _ _ => [l.letter]

def tokens : ClusterEnd → List String
  | .separate _ value _ => [value]
  | _ => []

def requests : ClusterEnd → List (Switch × Option String)
  | .bare => []
  | .attached l value _ => [(l.switch, some value)]
  | .separate l value _ => [(l.switch, some value)]

end ClusterEnd

/-- The token of a cluster of `n`: what stands after the first, and whether an equals sign stands
between them. -/
def clusterToken (equals : Bool) (body : List Char) : List Char :=
  '-' :: 'n' :: ((if equals then ['='] else []) ++ body)

/-- A group of tokens: a flag and its value in two tokens, in one with an equals sign between them,
or in one with nothing between them; or a cluster of `n`, in which an equals sign may stand after
the first if anything comes after it. -/
inductive Group where
  | separate (w : Switch) (hw : w.takesValue = true) (value : String) (hvalue : ArgumentLike value)
  | joined (w : Switch) (hw : w.takesValue = true) (value : String)
  | attached (l : ValuedLetter) (value : String) (hne : value ≠ "")
      (heq : value.toList.head? ≠ some '=')
  | cluster (equals : Bool) (more : Nat) (ending : ClusterEnd)
      (h : equals = true → List.replicate more 'n' ++ ending.letters ≠ [])

namespace Group

def tokens : Group → List String
  | .separate w _ value _ => [w.flag, value]
  | .joined w _ value => [w.flag ++ "=" ++ value]
  | .attached l value _ _ => [l.switch.flag ++ value]
  | .cluster equals more ending _ =>
    String.ofList (clusterToken equals (List.replicate more 'n' ++ ending.letters)) :: ending.tokens

/-- The switches that a group asks for, with the values as they are written. -/
def requests : Group → List (Switch × Option String)
  | .separate w _ value _ => [(w, some value)]
  | .joined w _ value => [(w, some value)]
  | .attached l value _ _ => [(l.switch, some value)]
  | .cluster _ more ending _ =>
    List.replicate (more + 1) (.noNameResolution, none) ++ ending.requests

end Group

/-- A request as it is passed on: a value that is two hyphens alone is left out. -/
def passedOn (r : Switch × Option String) : Switch × Option String :=
  (r.1, r.2.filter (· ≠ "--"))

/-- The switches that a group asks for, with the arguments that are passed on. -/
def Group.calls (g : Group) : List (Switch × Option String) := g.requests.map passedOn

private theorem attachedValue_eq (cs : List Char) :
    Cluster.attachedValue cs = (some (String.ofList cs)).filter (· ≠ "--") := by
  rw [Cluster.attachedValue, Option.filter_some]
  by_cases h : cs = ['-', '-']
  · rw [h]
    rfl
  · have hne : String.ofList cs ≠ "--" := by
      intro hdashes
      rw [← String.toList_inj, String.toList_ofList] at hdashes
      exact h hdashes
    simp [h, hne]

theorem ArgumentLike.passedOn {value : String} (h : ArgumentLike value) (w : Switch) :
    passedOn (w, some value) = (w, some value) := by
  have hne : value ≠ "--" := by
    intro hdashes
    have hterminator := Token.ofText_eq_terminator_iff.mpr hdashes
    rw [Token.ofText_eq_argument_iff.mpr h] at hterminator
    cases hterminator
  simp [CommandLine.passedOn, hne]

def Step.ofCall (r : Switch × Option String) : Step := .switch r.1 r.2

namespace Reading

private theorem withSteps_ofCall (calls : List (Switch × Option String)) (r : Reading) :
    withSteps (calls.map Step.ofCall) r = ⟨calls ++ r.switches, r.ending⟩ := by
  induction calls with
  | nil => rfl
  | cons call calls ih => rw [List.map_cons, Step.ofCall, withSteps, ih]; rfl

theorem ofTokens_of_complete {token : String} {f : Flag} {attached : Option (List Char)}
    (htoken : Spells f attached token.toList) {steps : List Step}
    (hcluster : Cluster.ofFlag f attached = .complete steps) (rest : List String) :
    ofTokens (token :: rest) = withSteps steps (ofTokens rest) := by
  simp [ofTokens, Token.ofText_eq_flag_iff.mpr htoken, hcluster]

theorem ofTokens_of_wanting {token value : String} {f : Flag} {attached : Option (List Char)}
    (htoken : Spells f attached token.toList) {steps : List Step} {w : Switch}
    (hcluster : Cluster.ofFlag f attached = .wanting steps w) (hvalue : ArgumentLike value)
    (rest : List String) :
    ofTokens (token :: value :: rest) =
      withSteps (steps ++ [.switch w (some value)]) (ofTokens rest) := by
  simp [ofTokens, Token.ofText_eq_flag_iff.mpr htoken, hcluster,
    Token.ofText_eq_argument_iff.mpr hvalue]

end Reading

theorem spells_clusterToken {equals : Bool} {body : List Char} (h : equals = true → body ≠ [])
    (hbody : body.head? ≠ some '=') :
    ∃ attached, Spells (.switch .noNameResolution) attached (clusterToken equals body) ∧
      Cluster.ofFlag (.switch .noNameResolution) attached =
        Cluster.ofLetters (.switch .noNameResolution) body := by
  have htext : (Flag.switch .noNameResolution).text.toList = ['-', 'n'] := rfl
  by_cases hempty : body = []
  · have hequals : equals = false := by
      cases equals with
      | false => rfl
      | true => exact absurd hempty (h rfl)
    subst hempty hequals
    exact ⟨none, .bare, rfl⟩
  · refine ⟨some body, ?_, Cluster.ofFlag_noNameResolution hempty⟩
    cases equals with
    | true => exact .equals body
    | false => exact .letter htext hempty hbody

theorem ValuedLetter.toList_attached (l : ValuedLetter) (value : String) :
    (l.switch.flag ++ value).toList = '-' :: l.letter :: value.toList := by
  rw [String.toList_append, l.flag_eq]
  rfl

theorem spells_joined (w : Switch) (value : String) :
    Spells (.switch w) (some value.toList) (w.flag ++ "=" ++ value).toList := by
  rw [w.toList_joined]
  exact .equals value.toList

theorem ValuedLetter.spells_attached (l : ValuedLetter) {value : String} (hne : value ≠ "")
    (heq : value.toList.head? ≠ some '=') :
    Spells (.switch l.switch) (some value.toList) (l.switch.flag ++ value).toList := by
  have hchars : value.toList ≠ [] := fun h => hne (String.toList_inj.mp h)
  rw [l.toList_attached]
  exact .letter l.flag_eq hchars heq

private theorem ValuedLetter.letter_ne_equals (l : ValuedLetter) : l.letter ≠ '=' := by
  intro hequals
  have hnot : '=' ∉ (Flag.switch l.switch).text.toList := Flag.equals_not_mem_text _
  rw [Flag.text, l.flag_eq, hequals] at hnot
  exact hnot (by simp)

theorem ClusterEnd.head?_letters (k : Nat) (ending : ClusterEnd) :
    (List.replicate k 'n' ++ ending.letters).head? ≠ some '=' := by
  cases k with
  | zero =>
    cases ending with
    | bare => simp [ClusterEnd.letters]
    | attached l | separate l => simpa [ClusterEnd.letters] using l.letter_ne_equals
  | succ k => simp [List.replicate_succ]

namespace Cluster

private theorem switch_attachedValue (w : Switch) (value : String) :
    Step.switch w (attachedValue value.toList) = Step.ofCall (passedOn (w, some value)) := by
  rw [attachedValue_eq, String.ofList_toList]
  rfl

theorem ofLetters_bare (k : Nat) :
    ofLetters (.switch .noNameResolution) (List.replicate k 'n' ++ []) =
      .complete (List.replicate (k + 1) off) := by
  have hnone : ofLetters (.switch .noNameResolution) [] = .complete [off] := rfl
  rw [ofLetters_replicate, hnone, afterAll_complete, List.replicate_succ']

theorem ofLetters_attached (k : Nat) (l : ValuedLetter) {value : String} (hne : value ≠ "") :
    ofLetters (.switch .noNameResolution) (List.replicate k 'n' ++ l.letter :: value.toList) =
      .complete (List.replicate (k + 1) off ++ [Step.ofCall (passedOn (l.switch, some value))]) := by
  have hchars : value.toList ≠ [] := fun h => hne (String.toList_inj.mp h)
  rw [ofLetters_replicate, ofLetters_letter, ofLetters_valued l.valued hchars, after,
    afterAll_complete, switch_attachedValue, List.replicate_succ', List.append_assoc]
  rfl

theorem ofLetters_separate (k : Nat) (l : ValuedLetter) :
    ofLetters (.switch .noNameResolution) (List.replicate k 'n' ++ [l.letter]) =
      .wanting (List.replicate (k + 1) off) l.switch := by
  rw [ofLetters_replicate, ofLetters_letter, ofLetters_valued_nil l.valued, after,
    afterAll_wanting, List.replicate_succ']

end Cluster

namespace Group

theorem ofTokens_append (g : Group) (rest : List String) :
    Reading.ofTokens (g.tokens ++ rest) =
      ⟨g.calls ++ (Reading.ofTokens rest).switches, (Reading.ofTokens rest).ending⟩ := by
  rw [← Reading.withSteps_ofCall]
  cases g with
  | separate w hw value hvalue =>
    have hspells : Spells (.switch w) none w.flag.toList := .bare
    have hcluster : Cluster.ofFlag (.switch w) none = .wanting [] w :=
      Cluster.ofLetters_valued_nil hw
    have hread := Reading.ofTokens_of_wanting hspells hcluster hvalue rest
    rw [calls, requests, List.map_singleton, hvalue.passedOn]
    exact hread
  | joined w hw value =>
    have hcluster : Cluster.ofFlag (.switch w) (some value.toList) =
        .complete [Step.ofCall (passedOn (w, some value))] := by
      rw [← Cluster.switch_attachedValue, Cluster.ofFlag]
      exact if_pos hw
    exact Reading.ofTokens_of_complete (spells_joined w value) hcluster rest
  | attached l value hne heq =>
    have hcluster : Cluster.ofFlag (.switch l.switch) (some value.toList) =
        .complete [Step.ofCall (passedOn (l.switch, some value))] := by
      rw [← Cluster.switch_attachedValue, Cluster.ofFlag]
      exact if_pos l.valued
    exact Reading.ofTokens_of_complete (l.spells_attached hne heq) hcluster rest
  | cluster equals more ending h =>
    obtain ⟨attached, hspells, hcluster⟩ := spells_clusterToken h (ending.head?_letters more)
    rw [← String.toList_ofList (l := clusterToken _ _)] at hspells
    cases ending with
    | bare =>
      have hread := Reading.ofTokens_of_complete hspells
        (hcluster.trans (Cluster.ofLetters_bare more)) rest
      rw [calls, requests, ClusterEnd.requests, List.append_nil, List.map_replicate,
        List.map_replicate]
      exact hread
    | attached l value hne =>
      have hread := Reading.ofTokens_of_complete hspells
        (hcluster.trans (Cluster.ofLetters_attached more l hne)) rest
      rw [calls, requests, List.map_append, List.map_append, List.map_replicate,
        List.map_replicate]
      exact hread
    | separate l value hvalue =>
      have hread := Reading.ofTokens_of_wanting hspells
        (hcluster.trans (Cluster.ofLetters_separate more l)) hvalue rest
      rw [calls, requests, List.map_append, List.map_append, List.map_replicate,
        List.map_replicate, ClusterEnd.requests, List.map_singleton, hvalue.passedOn]
      exact hread

theorem ofTokens_flatMap (groups : List Group) :
    Reading.ofTokens (groups.flatMap tokens) = ⟨groups.flatMap calls, .finished []⟩ := by
  induction groups with
  | nil => rfl
  | cons g groups ih => rw [List.flatMap_cons, ofTokens_append, ih, List.flatMap_cons]

end Group

end CommandLine

end Dissection
