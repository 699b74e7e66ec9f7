import Dissection.CommandLine.Reading

/-!
# The four kinds of tokens

Which texts are flags, which are arguments, and which is the terminator, said without the order in
which the classifier tries them.
-/

namespace Dissection.CommandLine

/-- How a flag is written with a text attached to it, or without. -/
inductive Spells (f : Flag) : Option (List Char) → List Char → Prop where
  | bare : Spells f none f.text.toList
  | equals (value : List Char) : Spells f (some value) (f.text.toList ++ '=' :: value)
  | letter {letter : Char} {value : List Char} (hf : f.text.toList = ['-', letter])
      (hne : value ≠ []) (heq : value.head? ≠ some '=') :
      Spells f (some value) ('-' :: letter :: value)

/-- A text that is read as a flag: the flag itself, or what begins with it and an equals sign, or
what begins with its letter. -/
def ReadsAsFlag (cs : List Char) : Prop :=
  ∃ f : Flag, cs = f.text.toList ∨ (∃ value, cs = f.text.toList ++ '=' :: value) ∨
    ∃ letter value, f.text.toList = ['-', letter] ∧ cs = '-' :: letter :: value

/-- Decimal digits, at least one; or any number of them, a point, and at least one more. -/
def IsNumeral (cs : List Char) : Prop :=
  (cs ≠ [] ∧ ∀ c ∈ cs, Text.isDecimalDigit c = true) ∨
    ∃ whole fraction, cs = whole ++ '.' :: fraction ∧
      (∀ c ∈ whole, Text.isDecimalDigit c = true) ∧
      fraction ≠ [] ∧ ∀ c ∈ fraction, Text.isDecimalDigit c = true

/-- A hyphen and a numeral. One line feed at the end does not count. -/
def IsNegativeNumber (cs : List Char) : Prop :=
  ∃ numeral, IsNumeral numeral ∧ (cs = '-' :: numeral ∨ cs = '-' :: numeral ++ ['\n'])

/-- A token that can be the value of the switch before it. -/
def ArgumentLike (s : String) : Prop :=
  s = "" ∨ s.toList.head? ≠ some '-' ∨ s = "-" ∨
    (¬ ReadsAsFlag s.toList ∧ s ≠ "--" ∧ (IsNegativeNumber s.toList ∨ ' ' ∈ s.toList))

namespace Flag

theorem equals_not_mem_text (f : Flag) : '=' ∉ f.text.toList := by
  cases f with
  | switch w => cases w <;> decide +kernel
  | _ => decide +kernel

private theorem text_shape (f : Flag) :
    (∃ letter, f.text.toList = ['-', letter] ∧ letter ≠ '-') ∨
      ∃ c name, f.text.toList = '-' :: '-' :: c :: name := by
  cases f with
  | switch w =>
    cases w with
    | disableProtocol | enableProtocol | enableHeuristic | disableHeuristic =>
      exact .inr ⟨_, _, rfl⟩
    | _ => exact .inl ⟨_, rfl, by decide⟩
  | shortHelp => exact .inl ⟨_, rfl, by decide⟩
  | longHelp => exact .inr ⟨_, _, rfl⟩

private theorem letter_ne_hyphen {f : Flag} {letter : Char} (h : f.text.toList = ['-', letter]) :
    letter ≠ '-' := by
  rcases f.text_shape with ⟨l, hl, hne⟩ | ⟨c, name, hl⟩
  · rw [h] at hl
    cases hl
    exact hne
  · rw [h] at hl
    cases hl

private theorem ofText?_long {letter : Char} (hletter : letter ≠ '-') {value : List Char}
    (hvalue : value ≠ []) : ofText? ('-' :: letter :: value) = none := by
  rw [Option.eq_none_iff_forall_ne_some]
  intro g hg
  have htext := text_of_ofText? hg
  rcases g.text_shape with ⟨l, hl, -⟩ | ⟨c, name, hl⟩
  · rw [hl] at htext
    cases htext
    exact hvalue rfl
  · rw [hl] at htext
    cases htext
    exact hletter rfl

private theorem ofText?_of_equals {cs : List Char} (h : '=' ∈ cs) : ofText? cs = none := by
  rw [Option.eq_none_iff_forall_ne_some]
  intro g hg
  exact g.equals_not_mem_text (text_of_ofText? hg ▸ h)

end Flag

namespace Token

private theorem atEquals?_equals (f : Flag) (value : List Char) :
    atEquals? (f.text.toList ++ '=' :: value) = some (.flag f (some value)) := by
  rw [atEquals?, Text.cutAt?_append f.equals_not_mem_text]
  simp [Flag.ofText?_text]

private theorem atEquals?_eq_some {cs : List Char} {t : Token} (h : atEquals? cs = some t) :
    ∃ f value, cs = f.text.toList ++ '=' :: value ∧ t = .flag f (some value) := by
  rw [atEquals?] at h
  split at h
  · rename_i front attached hcut
    obtain ⟨f, hf, rfl⟩ := Option.map_eq_some_iff.mp h
    refine ⟨f, attached, ?_, rfl⟩
    rw [Text.cutAt?_eq_some hcut, Flag.text_of_ofText? hf]
  · cases h

private theorem atEquals?_letter {letter : Char} (hletter : letter ≠ '-') {value : List Char}
    (heq : value.head? ≠ some '=') : atEquals? ('-' :: letter :: value) = none := by
  rw [Option.eq_none_iff_forall_ne_some]
  intro t ht
  obtain ⟨f, rest, hcs, -⟩ := atEquals?_eq_some ht
  rcases f.text_shape with ⟨l, hl, -⟩ | ⟨c, name, hl⟩
  · rw [hl] at hcs
    cases hcs
    exact heq rfl
  · rw [hl] at hcs
    cases hcs
    exact hletter rfl

private theorem ofHyphened_of_spells {f : Flag} {attached : Option (List Char)} {cs : List Char}
    (h : Spells f attached cs) : ofHyphened cs = .flag f attached := by
  cases h with
  | bare => rw [ofHyphened, Flag.ofText?_text]
  | equals value =>
    have hwhole : Flag.ofText? (f.text.toList ++ '=' :: value) = none :=
      Flag.ofText?_of_equals (by simp)
    rw [ofHyphened, hwhole, atEquals?_equals]
    rfl
  | @letter letter value hf hne heq =>
    have hletter := Flag.letter_ne_hyphen hf
    rw [ofHyphened, Flag.ofText?_long hletter hne, atEquals?_letter hletter heq]
    simp only [atLetter?, ← hf, Flag.ofText?_text]
    rfl

private theorem atLetter?_eq_some {cs : List Char} {t : Token} (h : atLetter? cs = some t) :
    ∃ f letter value, f.text.toList = ['-', letter] ∧ cs = '-' :: letter :: value ∧
      t = .flag f (some value) := by
  match cs with
  | [] | [_] => simp [atLetter?] at h
  | hyphen :: letter :: value =>
    rw [atLetter?, Option.map_eq_some_iff] at h
    obtain ⟨f, hf, rfl⟩ := h
    have htext := Flag.text_of_ofText? hf
    have hhyphen : hyphen = '-' := by
      rcases f.text_shape with ⟨l, hl, -⟩ | ⟨c, name, hl⟩ <;> rw [hl] at htext <;> cases htext
      rfl
    subst hhyphen
    exact ⟨f, letter, value, htext, rfl, rfl⟩

private theorem spells_of_ofHyphened {f : Flag} {attached : Option (List Char)} {cs : List Char}
    (h : ofHyphened cs = .flag f attached) : Spells f attached cs := by
  rw [ofHyphened] at h
  split at h
  · rename_i g hg
    cases h
    exact Flag.text_of_ofText? hg ▸ .bare
  · rename_i hwhole
    cases hequals : atEquals? cs with
    | some t =>
      rw [hequals] at h
      obtain ⟨g, value, rfl, rfl⟩ := atEquals?_eq_some hequals
      cases h
      exact .equals value
    | none =>
      rw [hequals] at h
      split at h
      · rename_i t hletter
        obtain ⟨g, letter, value, htext, rfl, rfl⟩ := atLetter?_eq_some hletter
        cases h
        refine .letter htext ?_ ?_
        · rintro rfl
          rw [← htext, Flag.ofText?_text] at hwhole
          cases hwhole
        · intro hhead
          obtain ⟨rest, rfl⟩ := List.head?_eq_some_iff.mp hhead
          have hcut := atEquals?_equals f rest
          rw [htext] at hcut
          exact absurd (hequals.symm.trans hcut) (by simp)
      · split at h <;> cases h

private theorem readsAsFlag_iff {cs : List Char} :
    ReadsAsFlag cs ↔ ∃ f attached, Spells f attached cs := by
  constructor
  · rintro ⟨f, rfl | ⟨value, rfl⟩ | ⟨letter, value, hf, rfl⟩⟩
    · exact ⟨f, none, .bare⟩
    · exact ⟨f, some value, .equals value⟩
    · by_cases hne : value = []
      · subst hne
        exact ⟨f, none, hf ▸ .bare⟩
      · by_cases heq : value.head? = some '='
        · obtain ⟨rest, rfl⟩ := List.head?_eq_some_iff.mp heq
          have hspells := Spells.equals (f := f) rest
          rw [hf] at hspells
          exact ⟨f, some rest, hspells⟩
        · exact ⟨f, some value, .letter hf hne heq⟩
  · rintro ⟨f, attached, hspells⟩
    cases hspells with
    | bare => exact ⟨f, .inl rfl⟩
    | equals value => exact ⟨f, .inr (.inl ⟨value, rfl⟩)⟩
    | letter hf hne heq => exact ⟨f, .inr (.inr ⟨_, _, hf, rfl⟩)⟩

private theorem ofHyphened_of_not_flag {cs : List Char} (h : ¬ ReadsAsFlag cs) :
    ofHyphened cs =
      if isMagnitude (cs.drop 1) || cs.contains ' ' then .argument else .unknown := by
  have hno {f : Flag} {attached : Option (List Char)} : ¬ Spells f attached cs :=
    fun hspells => h (readsAsFlag_iff.mpr ⟨f, attached, hspells⟩)
  rw [ofHyphened]
  cases hwhole : Flag.ofText? cs with
  | some f =>
    have hcs := Flag.text_of_ofText? hwhole
    exact absurd (hcs ▸ Spells.bare) hno
  | none =>
    cases hequals : atEquals? cs with
    | some t =>
      obtain ⟨f, value, hcs, -⟩ := atEquals?_eq_some hequals
      exact absurd (hcs ▸ Spells.equals value) hno
    | none =>
      cases hletter : atLetter? cs with
      | some t =>
        obtain ⟨f, letter, value, hf, hcs, -⟩ := atLetter?_eq_some hletter
        exact absurd ⟨f, .inr (.inr ⟨letter, value, hf, hcs⟩)⟩ h
      | none => rfl

end Token

private theorem Spells.shape {f : Flag} {attached : Option (List Char)} {cs : List Char}
    (h : Spells f attached cs) : ∃ c r, cs = '-' :: c :: r ∧ ¬ (c = '-' ∧ r = []) := by
  cases h with
  | bare =>
    rcases f.text_shape with ⟨l, hl, hne⟩ | ⟨c, name, hl⟩
    · exact ⟨l, [], hl, fun hc => hne hc.1⟩
    · exact ⟨'-', c :: name, hl, by simp⟩
  | equals value =>
    rcases f.text_shape with ⟨l, hl, hne⟩ | ⟨c, name, hl⟩
    · exact ⟨l, '=' :: value, by rw [hl]; rfl, by simp⟩
    · exact ⟨'-', c :: name ++ '=' :: value, by rw [hl]; rfl, by simp⟩
  | letter hf hne heq => exact ⟨_, _, rfl, fun hc => hne hc.2⟩

def isNumeral (cs : List Char) : Bool :=
  isDigits cs || match Text.cutAt? '.' cs with
    | some (whole, fraction) => whole.all Text.isDecimalDigit && isDigits fraction
    | none => false

private theorem isMagnitude_eq (cs : List Char) :
    isMagnitude cs = isNumeral (if cs.getLast? = some '\n' then cs.dropLast else cs) := rfl

private theorem isNumeral_iff {cs : List Char} : isNumeral cs = true ↔ IsNumeral cs := by
  have hdigits (ds : List Char) :
      isDigits ds = true ↔ ds ≠ [] ∧ ∀ c ∈ ds, Text.isDecimalDigit c = true := by
    cases ds <;> simp [isDigits]
  rw [isNumeral, Bool.or_eq_true, hdigits, IsNumeral]
  refine or_congr Iff.rfl ⟨fun h => ?_, ?_⟩
  · split at h
    · rename_i whole fraction hcut
      rw [Bool.and_eq_true, List.all_eq_true, hdigits] at h
      exact ⟨whole, fraction, Text.cutAt?_eq_some hcut, h.1, h.2.1, h.2.2⟩
    · cases h
  · rintro ⟨whole, fraction, rfl, hwhole, hne, hfraction⟩
    have hpoint : '.' ∉ whole := fun hmem => absurd (hwhole '.' hmem) (by decide +kernel)
    rw [Text.cutAt?_append hpoint]
    simp only [Bool.and_eq_true, List.all_eq_true, hdigits]
    exact ⟨hwhole, hne, hfraction⟩

private theorem IsNumeral.getLast?_ne {cs : List Char} (h : IsNumeral cs) :
    cs.getLast? ≠ some '\n' := by
  intro hlast
  have hfeed : Text.isDecimalDigit '\n' ≠ true := by decide +kernel
  rcases h with ⟨-, hall⟩ | ⟨whole, fraction, rfl, -, hne, hall⟩
  · exact hfeed (hall _ (List.mem_of_getLast? hlast))
  · rw [List.getLast?_append, List.getLast?_cons] at hlast
    have hmem : fraction.getLast? = some '\n' := by
      cases hf : fraction.getLast? with
      | none => exact absurd (List.getLast?_eq_none_iff.mp hf) hne
      | some c => simpa [hf] using hlast
    exact hfeed (hall _ (List.mem_of_getLast? hmem))

private theorem isMagnitude_iff {cs : List Char} :
    isMagnitude cs = true ↔ ∃ numeral, IsNumeral numeral ∧
      (cs = numeral ∨ cs = numeral ++ ['\n']) := by
  rw [isMagnitude_eq]
  by_cases hlast : cs.getLast? = some '\n'
  · rw [if_pos hlast, isNumeral_iff]
    have hcs : cs = cs.dropLast ++ ['\n'] := by
      obtain ⟨front, rfl⟩ := List.getLast?_eq_some_iff.mp hlast
      simp
    constructor
    · exact fun h => ⟨cs.dropLast, h, .inr hcs⟩
    · rintro ⟨numeral, hnumeral, rfl | rfl⟩
      · exact absurd hlast hnumeral.getLast?_ne
      · simpa using hnumeral
  · rw [if_neg hlast, isNumeral_iff]
    constructor
    · exact fun h => ⟨cs, h, .inl rfl⟩
    · rintro ⟨numeral, hnumeral, rfl | rfl⟩
      · exact hnumeral
      · simp at hlast

namespace Token

private theorem ofText_of_hyphen {s : String} {c : Char} {r : List Char}
    (hs : s.toList = '-' :: c :: r)
    (h : ¬ (c = '-' ∧ r = [])) : ofText s = ofHyphened s.toList := by
  rw [ofText, hs]
  exact if_neg h

theorem ofText_eq_flag_iff {s : String} {f : Flag} {attached : Option (List Char)} :
    ofText s = .flag f attached ↔ Spells f attached s.toList := by
  constructor
  · intro h
    rw [ofText] at h
    split at h
    · rename_i c r hs
      split at h
      · cases h
      · rw [hs]
        exact spells_of_ofHyphened h
    · cases h
  · intro h
    obtain ⟨c, r, hs, hterm⟩ := h.shape
    rw [ofText_of_hyphen hs hterm]
    exact ofHyphened_of_spells h

private theorem ofHyphened_ne_terminator (cs : List Char) : ofHyphened cs ≠ .terminator := by
  by_cases hflag : ReadsAsFlag cs
  · obtain ⟨f, attached, hspells⟩ := readsAsFlag_iff.mp hflag
    rw [ofHyphened_of_spells hspells]
    exact Token.noConfusion
  · rw [ofHyphened_of_not_flag hflag]
    split <;> exact Token.noConfusion

theorem ofText_eq_terminator_iff {s : String} : ofText s = .terminator ↔ s = "--" := by
  constructor
  · intro h
    rw [ofText] at h
    split at h
    · rename_i c r hs
      split at h
      · rename_i hc
        apply String.toList_inj.mp
        rw [hs, hc.1, hc.2]
        rfl
      · exact absurd h (ofHyphened_ne_terminator _)
    · cases h
  · rintro rfl
    rfl

private theorem ofHyphened_eq_argument_iff {cs : List Char} :
    ofHyphened cs = .argument ↔
      ¬ ReadsAsFlag cs ∧ (isMagnitude (cs.drop 1) = true ∨ ' ' ∈ cs) := by
  by_cases hflag : ReadsAsFlag cs
  · obtain ⟨f, attached, hspells⟩ := readsAsFlag_iff.mp hflag
    rw [ofHyphened_of_spells hspells]
    simp [hflag]
  · rw [ofHyphened_of_not_flag hflag]
    split
    · rename_i h
      rw [Bool.or_eq_true, List.contains_iff_mem] at h
      exact iff_of_true rfl ⟨hflag, h⟩
    · rename_i h
      rw [Bool.or_eq_true, List.contains_iff_mem] at h
      exact iff_of_false Token.noConfusion fun hlooks => h hlooks.2

private theorem isNegativeNumber_iff {r : List Char} :
    IsNegativeNumber ('-' :: r) ↔ isMagnitude r = true := by
  simp [IsNegativeNumber, isMagnitude_iff]

/-- A token is an argument for one of two reasons: it does not begin like an option, or it does and
is read as none but looks like a value. -/
theorem ofText_eq_argument_iff {s : String} : ofText s = .argument ↔ ArgumentLike s := by
  have hempty : s = "" ↔ s.toList = [] := String.toList_inj.symm
  have hhyphen : s = "-" ↔ s.toList = ['-'] := String.toList_inj.symm
  have hterminator : s ≠ "--" ↔ s.toList ≠ ['-', '-'] := not_congr String.toList_inj.symm
  rw [ArgumentLike, hempty, hhyphen, hterminator]
  by_cases hhead : s.toList.head? = some '-'
  · obtain ⟨rest, hs⟩ := List.head?_eq_some_iff.mp hhead
    cases rest with
    | nil => simp [ofText, hs]
    | cons c r =>
      by_cases hterm : c = '-' ∧ r = []
      · have hne : ofText s ≠ .argument := by
          rw [ofText, hs]
          simp [hterm]
        simp [hne, hs, hterm]
      · rw [ofText_of_hyphen hs hterm, hs, ofHyphened_eq_argument_iff, isNegativeNumber_iff]
        have hlong : '-' :: c :: r ≠ ['-', '-'] := by simpa using hterm
        simp [hlong]
  · have hargument : ofText s = .argument := by
      rw [ofText]
      split
      · rename_i hs
        rw [hs] at hhead
        exact absurd rfl hhead
      · rfl
    exact iff_of_true hargument (.inr (.inl hhead))

end Token

end Dissection.CommandLine
