import Dissection.Proofs.History

/-!
# Name resolution over a history

The letters of a text switch kinds on, wherever they stand in it and however often, and a text with
any other character switches none. So over a history a kind is on if its letter has been given since
all kinds were last switched off, or if it was on and they never were.
-/

namespace Dissection

namespace NameKind

def letters : List Char := ['d', 'm', 'n', 'N', 't', 'v']

private theorem mem_letters {c : Char} : c ∈ letters ↔ ∃ k : NameKind, k.letter = c := by
  constructor
  · intro h
    have hall : letters = all.map letter := rfl
    rw [hall, List.mem_map] at h
    obtain ⟨k, -, hk⟩ := h
    exact ⟨k, hk⟩
  · intro h
    obtain ⟨k, rfl⟩ := h
    cases k <;> decide

private theorem letter_injective : Function.Injective letter := by
  intro k l h
  have hsame := ofLetter?_letter k
  rw [h, ofLetter?_letter] at hsame
  exact (Option.some.inj hsame).symm

private theorem ofLetter?_eq_none_iff {c : Char} : ofLetter? c = none ↔ c ∉ letters := by
  rw [mem_letters, Option.eq_none_iff_forall_ne_some, not_exists]
  exact forall_congr' fun k => not_congr (ofLetter?_eq_some_iff.trans eq_comm)

private theorem exists_first_stray {cs : List Char} (h : ¬ cs ⊆ letters) :
    ∃ front c back, cs = front ++ c :: back ∧ front ⊆ letters ∧ c ∉ letters := by
  induction cs with
  | nil => exact absurd (List.nil_subset _) h
  | cons c cs ih =>
    by_cases hc : c ∈ letters
    · have hrest : ¬ cs ⊆ letters := by
        intro hcs
        exact h (List.cons_subset.mpr ⟨hc, hcs⟩)
      obtain ⟨front, d, back, rfl, hfront, hd⟩ := ih hrest
      exact ⟨c :: front, d, back, rfl, List.cons_subset.mpr ⟨hc, hfront⟩, hd⟩
    · exact ⟨[], c, cs, rfl, List.nil_subset _, hc⟩

end NameKind

namespace NameResolution

/-- The kinds that were on, and those whose letters are among some characters. -/
def withLetters (r : NameResolution) (cs : List Char) : NameResolution where
  mac := cs.contains 'm' || r.mac
  network := cs.contains 'n' || r.network
  transport := cs.contains 't' || r.transport
  dnsPackets := cs.contains 'd' || r.dnsPackets
  externalResolvers := cs.contains 'N' || r.externalResolvers
  vlan := cs.contains 'v' || r.vlan

variable (r : NameResolution)

private theorem get_withLetters (cs : List Char) (k : NameKind) :
    (r.withLetters cs).get k = (cs.contains k.letter || r.get k) := by
  cases k <;> rfl

private theorem withLetters_nil : r.withLetters [] = r := by
  apply ext_get
  intro k
  simp [get_withLetters]

private theorem withLetters_append (xs ys : List Char) :
    r.withLetters (xs ++ ys) = (r.withLetters xs).withLetters ys := by
  apply ext_get
  intro k
  simp [get_withLetters, ← Bool.or_assoc, Bool.or_comm]

private theorem withLetters_congr {xs ys : List Char} (h : ∀ c, c ∈ xs ↔ c ∈ ys) :
    r.withLetters xs = r.withLetters ys := by
  apply ext_get
  intro k
  have hcontains : xs.contains k.letter = ys.contains k.letter := by
    rw [Bool.eq_iff_iff, List.contains_iff_mem, List.contains_iff_mem]
    exact h k.letter
  rw [get_withLetters, get_withLetters, hcontains]

private theorem kindsOf_eq_ok {cs : List Char} (h : cs ⊆ NameKind.letters) :
    ∃ kinds, kindsOf cs = .ok kinds ∧ kinds.map NameKind.letter = cs := by
  induction cs with
  | nil => exact ⟨[], rfl, rfl⟩
  | cons c cs ih =>
    obtain ⟨k, rfl⟩ := NameKind.mem_letters.mp (h List.mem_cons_self)
    obtain ⟨kinds, hkinds, rfl⟩ := ih fun d hd => h (List.mem_cons_of_mem _ hd)
    refine ⟨k :: kinds, ?_, rfl⟩
    simp [kindsOf, NameKind.ofLetter?_letter, hkinds, Except.map]

private theorem kindsOf_eq_error {front : List Char} (hfront : front ⊆ NameKind.letters) {c : Char}
    (hc : c ∉ NameKind.letters) (back : List Char) : kindsOf (front ++ c :: back) = .error c := by
  induction front with
  | nil => simp [kindsOf, NameKind.ofLetter?_eq_none_iff.mpr hc]
  | cons d front ih =>
    obtain ⟨k, rfl⟩ := NameKind.mem_letters.mp (hfront List.mem_cons_self)
    have hrest := ih fun e he => hfront (List.mem_cons_of_mem _ he)
    simp [kindsOf, NameKind.ofLetter?_letter, hrest, Except.map]

private theorem enable_of_letters {text : String} (h : text.toList ⊆ NameKind.letters) :
    r.enable text = .ok (r.withLetters text.toList) := by
  obtain ⟨kinds, hkinds, hletters⟩ := kindsOf_eq_ok h
  rw [enable, hkinds]
  refine congrArg Except.ok (ext_get fun k => ?_)
  have hmem : k ∈ kinds ↔ k.letter ∈ text.toList := by
    rw [← hletters, List.mem_map_of_injective NameKind.letter_injective]
  rw [get_setAll, get_withLetters]
  by_cases hk : k.letter ∈ text.toList
  · simp [hmem, hk]
  · simp [hmem, hk]

private theorem enable_of_stray {text : String} {front back : List Char} {c : Char}
    (htext : text.toList = front ++ c :: back) (hfront : front ⊆ NameKind.letters)
    (hc : c ∉ NameKind.letters) : r.enable text = .error c := by
  rw [enable, htext, kindsOf_eq_error hfront hc]
  rfl

end NameResolution

namespace Action

def isOff : Action → Bool
  | .handle .noNameResolution _ => true
  | _ => false

variable (host : Host) (s : Session)

private theorem names_perform_off (argument : Option String) :
    ((handle .noNameResolution argument).perform host s).settings.names = .allOff := by
  rw [perform_handle]
  rfl

private theorem handleCode_letters {argument : Option String}
    (h : (argument.getD "").toList ⊆ NameKind.letters) :
    s.handleCode host (.string Switch.nameResolution.code) argument =
      ⟨s.mapSettings fun t => { t with names := t.names.withLetters (argument.getD "").toList },
        .accepted⟩ := by
  rw [Session.handleCode, Switch.ofValue?_eq_some_iff.mpr rfl]
  simp only [Session.handle, Switch.dispatch, Session.after_enableNames,
    NameResolution.enable_of_letters _ h]
  rfl

private theorem perform_letters (argument : Option String)
    (h : (argument.getD "").toList ⊆ NameKind.letters) :
    (handle .nameResolution argument).perform host s =
      s.mapSettings fun t => { t with names := t.names.withLetters (argument.getD "").toList } :=
  congrArg Handling.session (handleCode_letters host s h)

private theorem handleCode_stray {argument : Option String} {front back : List Char} {c : Char}
    (htext : (argument.getD "").toList = front ++ c :: back) (hfront : front ⊆ NameKind.letters)
    (hc : c ∉ NameKind.letters) :
    s.handleCode host (.string Switch.nameResolution.code) argument =
      ⟨s, .refused (.nameLetter c)⟩ := by
  rw [Session.handleCode, Switch.ofValue?_eq_some_iff.mpr rfl]
  simp only [Session.handle, Switch.dispatch, Session.after_enableNames,
    NameResolution.enable_of_stray _ htext hfront hc]
  rfl

private theorem get_names_perform (argument : Option String) (k : NameKind) :
    ((handle .nameResolution argument).perform host s).settings.names.get k = true ↔
      ((argument.getD "").toList ⊆ NameKind.letters ∧ k.letter ∈ (argument.getD "").toList) ∨
        s.settings.names.get k = true := by
  by_cases h : (argument.getD "").toList ⊆ NameKind.letters
  · rw [perform_letters host s argument h]
    simp [Session.mapSettings, NameResolution.get_withLetters, h]
  · obtain ⟨front, c, back, htext, hfront, hc⟩ := NameKind.exists_first_stray h
    rw [perform, handleCode_stray host s htext hfront hc]
    simp [h]

private theorem names_perform_of_ne {w : Switch} (hoff : w ≠ .noNameResolution)
    (hon : w ≠ .nameResolution)
    (argument : Option String) :
    ((handle w argument).perform host s).settings.names = s.settings.names := by
  have hpart : Part.nameResolution ≠ w.part := by
    cases w <;> simp_all [Switch.part]
  exact (perform_same host s hpart argument).symm

end Action

namespace History

/-- The session to which a history leads from any session. -/
def sessionFrom (host : Host) (s : Session) (history : List Action) : Session :=
  history.foldl (Action.perform host) s

/-- The actions since every kind of name resolution was last switched off. -/
def sinceOff (history : List Action) : List Action := history.rtakeWhile (!·.isOff)

/-- Whether a text that names the letter of a kind, and letters alone, was given. -/
def Gives (history : List Action) (k : NameKind) : Prop :=
  ∃ text ∈ texts .nameResolution history,
    text.toList ⊆ NameKind.letters ∧ k.letter ∈ text.toList

private theorem sinceOff_concat (history : List Action) (a : Action) :
    sinceOff (history ++ [a]) = if a.isOff then [] else sinceOff history ++ [a] := by
  cases ha : a.isOff with
  | true => exact List.rtakeWhile_concat_neg _ _ _ (by simp [ha])
  | false => exact List.rtakeWhile_concat_pos _ _ _ (by simp [ha])

private theorem gives_concat (history : List Action) (argument : Option String) (k : NameKind) :
    Gives (history ++ [.handle .nameResolution argument]) k ↔
      ((argument.getD "").toList ⊆ NameKind.letters ∧ k.letter ∈ (argument.getD "").toList) ∨
        Gives history k := by
  rw [Gives, texts_concat_self, Gives]
  simp only [List.mem_append, List.mem_singleton, or_and_right, exists_or, exists_eq_left]
  exact or_comm

private theorem gives_concat_of_ne {w : Switch} (hw : w ≠ .nameResolution) (history : List Action)
    (argument : Option String) (k : NameKind) :
    Gives (history ++ [.handle w argument]) k ↔ Gives history k := by
  rw [Gives, texts_concat_of_ne hw, Gives]

/-- A kind is on at the end if its letter was given since all kinds were last switched off, or if
they never were and it was on at the start. -/
theorem get_names_sessionFrom (host : Host) (s : Session) (history : List Action) (k : NameKind) :
    (sessionFrom host s history).settings.names.get k = true ↔
      Gives (sinceOff history) k ∨
        (∀ a ∈ history, a.isOff = false) ∧ s.settings.names.get k = true := by
  -- from the end, since the last action decides first: to switch all off forgets what was before
  induction history using List.reverseRecOn with
  | nil => simp [sessionFrom, Gives, sinceOff, texts]
  | append_singleton history a ih =>
    have hlast : sessionFrom host s (history ++ [a]) =
        a.perform host (sessionFrom host s history) := by simp [sessionFrom]
    rw [hlast, sinceOff_concat, List.forall_mem_append, List.forall_mem_singleton]
    cases a with
    | reset =>
      have hkeeps : Action.reset.isOff = false := rfl
      have hnames : (Action.reset.perform host (sessionFrom host s history)).settings.names =
          (sessionFrom host s history).settings.names := rfl
      have hgives : Gives (sinceOff history ++ [.reset]) k ↔ Gives (sinceOff history) k := by
        rw [Gives, texts_concat_reset, Gives]
      rw [hnames, ih]
      simp [hkeeps, hgives]
    | handle w argument =>
      by_cases hoff : w = .noNameResolution
      · subst hoff
        rw [Action.names_perform_off]
        simp [Action.isOff, Gives, texts]
      · have hkeeps : (Action.handle w argument).isOff = false := by
          cases w <;> simp_all [Action.isOff]
        by_cases hon : w = .nameResolution
        · subst hon
          rw [Action.get_names_perform, ih]
          simp [hkeeps, gives_concat, or_assoc]
        · rw [Action.names_perform_of_ne host _ hoff hon, ih]
          simp [hkeeps, gives_concat_of_ne hon]

private theorem sessionFrom_letters (host : Host) (s : Session) {given : List String}
    (h : ∀ text ∈ given, text.toList ⊆ NameKind.letters) :
    sessionFrom host s (given.map fun text => .handle .nameResolution (some text)) =
      s.mapSettings fun t =>
        { t with names := t.names.withLetters (given.flatMap String.toList) } := by
  induction given generalizing s with
  | nil =>
    simp only [List.flatMap_nil, NameResolution.withLetters_nil]
    rfl
  | cons text given ih =>
    obtain ⟨htext, hgiven⟩ := List.forall_mem_cons.mp h
    have hfirst := Action.perform_letters host s (some text) htext
    rw [List.map_cons, sessionFrom, List.foldl_cons, ← sessionFrom, hfirst, ih _ hgiven]
    simp [Session.mapSettings, NameResolution.withLetters_append]

private theorem sessionFrom_congr_letters (host : Host) (s : Session) (front back : List Action)
    {text : String} {given : List String} (htext : text.toList ⊆ NameKind.letters)
    (h : ∀ c, c ∈ text.toList ↔ ∃ part ∈ given, c ∈ part.toList) :
    sessionFrom host s (front ++ .handle .nameResolution (some text) :: back) =
      sessionFrom host s (front ++
        (given.map fun part => .handle .nameResolution (some part)) ++ back) := by
  have hgiven : ∀ part ∈ given, part.toList ⊆ NameKind.letters := by
    intro part hpart c hc
    exact htext ((h c).mpr ⟨part, hpart, hc⟩)
  have hflat : ∀ c, c ∈ text.toList ↔ c ∈ given.flatMap String.toList := by
    intro c
    rw [h c, List.mem_flatMap]
  have hmiddle (s : Session) : sessionFrom host s [.handle .nameResolution (some text)] =
      sessionFrom host s (given.map fun part => .handle .nameResolution (some part)) := by
    rw [sessionFrom_letters host s hgiven]
    refine (Action.perform_letters host s (some text) htext).trans ?_
    simp only [Option.getD_some, NameResolution.withLetters_congr _ hflat]
  have happend (s : Session) (xs ys : List Action) :
      sessionFrom host s (xs ++ ys) = sessionFrom host (sessionFrom host s xs) ys :=
    List.foldl_append
  rw [List.append_cons, happend, happend, happend, happend, hmiddle]

end History

namespace Session

/-- What a text about name resolution does to a session: letters switch their kinds on, and another
text is refused for its first character that is no letter. -/
inductive NamesHandled (before : Session) (text : String) (outcome : Handling) : Prop
  | accepted (hreply : outcome.reply = .accepted) (hletters : text.toList ⊆ NameKind.letters)
      (hget : ∀ k, outcome.session.settings.names.get k = true ↔
        k.letter ∈ text.toList ∨ before.settings.names.get k = true)
      (hsame : ∀ p : Part, p ≠ .nameResolution → p.Same before outcome.session)
  | refused (front back : List Char) (c : Char) (hreply : outcome.reply = .refused (.nameLetter c))
      (htext : text.toList = front ++ c :: back) (hfront : front ⊆ NameKind.letters)
      (hc : c ∉ NameKind.letters) (hsession : outcome.session = before)
      (hlines : outcome.lines =
        [.error ("-N specifies unknown resolving option '" ++ c.toString ++ "'; valid options are:"),
          .continuation (String.intercalate "\n" NameKind.help)])

private theorem namesHandled (host : Host) (s : Session) (argument : Option String) :
    s.NamesHandled (argument.getD "")
      (s.handleCode host (.string Switch.nameResolution.code) argument) := by
  by_cases hletters : (argument.getD "").toList ⊆ NameKind.letters
  · have hsame (p : Part) (hp : p ≠ .nameResolution) :=
      Action.perform_same host s (w := .nameResolution) hp argument
    rw [Action.perform, Action.handleCode_letters host s hletters] at hsame
    rw [Action.handleCode_letters host s hletters]
    refine .accepted rfl hletters (fun k => ?_) hsame
    simp [mapSettings, NameResolution.get_withLetters]
  · obtain ⟨front, c, back, htext, hfront, hc⟩ := NameKind.exists_first_stray hletters
    rw [Action.handleCode_stray host s htext hfront hc]
    exact .refused front back c rfl htext hfront hc rfl rfl

end Session

namespace History

/-- Whatever session a history starts from and whatever it holds, a kind of name resolution is on at
its end if its letter was given in a text of letters since all kinds were last switched off, or if
they never were and it was on at the start. A text with another character is refused for the first
such character and changes nothing. And as only the letters count, a text of letters can be given
with them in another order, more often, or one after the other. -/
theorem names_closedForm (host : Host) :
    (∀ (s : Session) (history : List Action) (k : NameKind),
      (sessionFrom host s history).settings.names.get k = true ↔
        (∃ text ∈ texts .nameResolution (sinceOff history),
          text.toList ⊆ NameKind.letters ∧ k.letter ∈ text.toList) ∨
        (∀ a ∈ history, a.isOff = false) ∧ s.settings.names.get k = true) ∧
    (∀ (s : Session) (argument : Option String),
      s.NamesHandled (argument.getD "") (s.handleCode host (.string "N") argument)) ∧
    ∀ (s : Session) (front back : List Action) (text : String) (given : List String),
      text.toList ⊆ NameKind.letters →
      (∀ c, c ∈ text.toList ↔ ∃ part ∈ given, c ∈ part.toList) →
      sessionFrom host s (front ++ .handle .nameResolution (some text) :: back) =
        sessionFrom host s (front ++
          (given.map fun part => .handle .nameResolution (some part)) ++ back) :=
  ⟨get_names_sessionFrom host, Session.namesHandled host,
    fun s front back _ _ htext h => sessionFrom_congr_letters host s front back htext h⟩

/-- After all kinds are off, `dmd` is given letter by letter, and then a text that is refused. -/
theorem names_closedForm_parts :
    let front : List Action := [.handle .noNameResolution none]
    let back : List Action := [.handle .nameResolution (some "tx")]
    let given := ["m", "", "dd"]
    "dmd".toList ⊆ NameKind.letters ∧
      (∀ c, c ∈ "dmd".toList ↔ ∃ part ∈ given, c ∈ part.toList) ∧
      sessionFrom (.standard false) {} (front ++ .handle .nameResolution (some "dmd") :: back) =
        sessionFrom (.standard false) {} (front ++
          (given.map fun part => .handle .nameResolution (some part)) ++ back) ∧
      (sessionFrom (.standard false) {} (front ++
          (given.map fun part => .handle .nameResolution (some part)) ++ back)).settings.names =
        { NameResolution.allOff with mac := true, dnsPackets := true } := by
  intro front back given
  have hletters : "dmd".toList ⊆ NameKind.letters := by decide
  have hparts : ∀ c, c ∈ "dmd".toList ↔ ∃ part ∈ given, c ∈ part.toList := by
    intro c
    simp [given, or_comm]
  exact ⟨hletters, hparts,
    (names_closedForm (.standard false)).2.2 {} front back "dmd" given hletters hparts, by decide⟩

end History

end Dissection
