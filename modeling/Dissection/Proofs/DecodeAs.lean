import Dissection.Proofs.Text.Pieces
import Dissection.Session

/-!
# Reading decode-as rules

A rule is read from the three segments that the first `==` of a text and the first comma after it
bound, and nothing but their absence or their being blank is a defect. A rule that is written out
reads back, unless its table ends with an equals sign, which then is the first of the pair.
-/

namespace Dissection

namespace DecodeAs

/-- The segments of a text: the first `==` ends the table, and the next comma the selector. -/
structure Segments (text : String) (table selector protocol : List Char) : Prop where
  toList_eq : text.toList = table ++ '=' :: '=' :: (selector ++ ',' :: protocol)
  first : ¬ ['=', '='] <:+: table ++ ['=']
  comma_not_mem : ',' ∉ selector

/-- When a text has a defect, and none that comes before it. -/
def Defect.In (text : String) : Defect → Prop
  | .missingEquals => ¬ ['=', '='] <:+: text.toList
  | .missingComma => ∃ table rest, text.toList = table ++ '=' :: '=' :: rest ∧
      ¬ ['=', '='] <:+: table ++ ['='] ∧ ',' ∉ rest
  | .emptyTable => ∃ table selector protocol, Segments text table selector protocol ∧
      Text.trim table = []
  | .emptySelector => ∃ table selector protocol, Segments text table selector protocol ∧
      Text.trim table ≠ [] ∧ Text.trim selector = []
  | .emptyProtocol => ∃ table selector protocol, Segments text table selector protocol ∧
      Text.trim table ≠ [] ∧ Text.trim selector ≠ [] ∧ Text.trim protocol = []

/-- When a text is written for a rule: none of its segments is blank, and trimmed they are the parts
of the rule. -/
def WrittenIn (rule : DecodeAs) (text : String) : Prop :=
  ∃ table selector protocol, Segments text table selector protocol ∧
    Text.trim table ≠ [] ∧ Text.trim selector ≠ [] ∧ Text.trim protocol ≠ [] ∧
    rule = ⟨String.ofList (Text.trim table), String.ofList (Text.trim selector),
      String.ofList (Text.trim protocol)⟩

def ofSegments (table selector protocol : List Char) : Except Defect DecodeAs :=
  if Text.trim table = [] then .error .emptyTable
  else if Text.trim selector = [] then .error .emptySelector
  else if Text.trim protocol = [] then .error .emptyProtocol
  else .ok ⟨String.ofList (Text.trim table), String.ofList (Text.trim selector),
    String.ofList (Text.trim protocol)⟩

variable {written : String} {table selector protocol : List Char} {rule : DecodeAs}

private theorem ofSegments_eq_ok_iff : ofSegments table selector protocol = .ok rule ↔
    Text.trim table ≠ [] ∧ Text.trim selector ≠ [] ∧ Text.trim protocol ≠ [] ∧
      rule = ⟨String.ofList (Text.trim table), String.ofList (Text.trim selector),
        String.ofList (Text.trim protocol)⟩ := by
  rw [ofSegments]
  split
  · simp [*]
  · split
    · simp [*]
    · split
      · simp [*]
      · rw [Except.ok.injEq, eq_comm]
        simp [*]

theorem Segments.read_eq (h : Segments written table selector protocol) :
    read written = ofSegments table selector protocol := by
  have hpair := Text.cutAtPair?_eq_some_iff.mpr ⟨h.toList_eq, h.first⟩
  have hcomma : Text.cutAt? ',' (selector ++ ',' :: protocol) = some (selector, protocol) :=
    Text.cutAt?_eq_some_iff.mpr ⟨rfl, h.comma_not_mem⟩
  simp only [read, hpair, hcomma]
  rfl

theorem WrittenIn.read_eq (h : rule.WrittenIn written) : read written = .ok rule := by
  obtain ⟨table, selector, protocol, hsegments, hparts⟩ := h
  rw [hsegments.read_eq]
  exact ofSegments_eq_ok_iff.mpr hparts

theorem Defect.In.read_eq {d : Defect} (h : d.In written) : read written = .error d := by
  cases d with
  | missingEquals =>
    have hpair := Text.cutAtPair?_eq_none_iff.mpr h
    simp only [read, hpair]
  | missingComma =>
    obtain ⟨table, rest, htext, hfirst, hfree⟩ := h
    have hpair := Text.cutAtPair?_eq_some_iff.mpr ⟨htext, hfirst⟩
    have hcomma := Text.cutAt?_eq_none_iff.mpr hfree
    simp only [read, hpair, hcomma]
  | emptyTable =>
    obtain ⟨table, selector, protocol, hsegments, htable⟩ := h
    simp [hsegments.read_eq, ofSegments, htable]
  | emptySelector =>
    obtain ⟨table, selector, protocol, hsegments, htable, hselector⟩ := h
    simp [hsegments.read_eq, ofSegments, htable, hselector]
  | emptyProtocol =>
    obtain ⟨table, selector, protocol, hsegments, htable, hselector, hprotocol⟩ := h
    simp [hsegments.read_eq, ofSegments, htable, hselector, hprotocol]

private theorem exists_segments (written : String) :
    Defect.missingEquals.In written ∨ Defect.missingComma.In written ∨
      ∃ table selector protocol, Segments written table selector protocol := by
  cases hpair : Text.cutAtPair? '=' written.toList with
  | none => exact .inl (Text.cutAtPair?_eq_none_iff.mp hpair)
  | some halves =>
    right
    obtain ⟨htext, hfirst⟩ := Text.cutAtPair?_eq_some_iff.mp hpair
    cases hcomma : Text.cutAt? ',' halves.2 with
    | none => exact .inl ⟨_, _, htext, hfirst, Text.cutAt?_eq_none_iff.mp hcomma⟩
    | some parts =>
      obtain ⟨hrest, hfree⟩ := Text.cutAt?_eq_some_iff.mp hcomma
      rw [hrest] at htext
      exact .inr ⟨_, _, _, htext, hfirst, hfree⟩

private theorem writtenIn_or_defect (written : String) :
    (∃ rule, WrittenIn rule written) ∨ ∃ d, Defect.In written d := by
  rcases exists_segments written with h | h | ⟨table, selector, protocol, h⟩
  · exact .inr ⟨.missingEquals, h⟩
  · exact .inr ⟨.missingComma, h⟩
  · by_cases htable : Text.trim table = []
    · exact .inr ⟨.emptyTable, table, selector, protocol, h, htable⟩
    by_cases hselector : Text.trim selector = []
    · exact .inr ⟨.emptySelector, table, selector, protocol, h, htable, hselector⟩
    by_cases hprotocol : Text.trim protocol = []
    · exact .inr ⟨.emptyProtocol, table, selector, protocol, h, htable, hselector, hprotocol⟩
    exact .inl ⟨_, table, selector, protocol, h, htable, hselector, hprotocol, rfl⟩

theorem read_eq_ok_iff : read written = .ok rule ↔ rule.WrittenIn written := by
  constructor
  · intro hread
    rcases writtenIn_or_defect written with ⟨other, h⟩ | ⟨d, h⟩
    · obtain rfl : other = rule := Except.ok.inj (h.read_eq.symm.trans hread)
      exact h
    · cases h.read_eq.symm.trans hread
  · exact WrittenIn.read_eq

theorem Segments.padded (h : Segments written table selector protocol)
    {table' selector' protocol' : List Char} (htable : Text.Padded table table')
    (hselector : Text.Padded selector selector') :
    Segments (String.ofList (table' ++ '=' :: '=' :: (selector' ++ ',' :: protocol')))
      table' selector' protocol' where
  toList_eq := String.toList_ofList
  first := by
    obtain ⟨front, back, hfront, hback, rfl⟩ := htable
    have hequals : Text.isBlank '=' = false := rfl
    exact Text.not_pair_infix_padded (hfront.not_mem hequals)
      (hback.not_mem hequals) h.first
  comma_not_mem := by
    obtain ⟨front, back, hfront, hback, rfl⟩ := hselector
    have hcomma : Text.isBlank ',' = false := rfl
    simp only [List.mem_append, not_or]
    exact ⟨⟨hfront.not_mem hcomma, h.comma_not_mem⟩, hback.not_mem hcomma⟩

private theorem WrittenIn.comma_not_mem (h : rule.WrittenIn written) :
    ',' ∉ rule.selector.toList := by
  obtain ⟨table, selector, protocol, hsegments, -, -, -, rfl⟩ := h
  rw [String.toList_ofList]
  exact fun hmem => hsegments.comma_not_mem ((Text.trim_infix selector).subset hmem)

end DecodeAs

end Dissection
