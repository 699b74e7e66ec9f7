import Dissection.Proofs.Text.SortedMap
import Dissection.Session

/-!
# Reading time stamps

A text about time stamps is a word for a format, a digit for a precision after a point, or both. It
is read exactly if it is one of these, and as each format and each precision has one spelling, what
is read tells the text. Any other text has one of two defects: what follows its first point is no
digit for a precision, or else there is no word for a format where there should be.
-/

namespace Dissection

/-- The word for a format; there is none for leaving it to the default. -/
def TimeFormat.word? : TimeFormat → Option String
  | .notSet => none
  | .absolute => some "a"
  | .absoluteWithYmd => some "ad"
  | .absoluteWithYdoy => some "adoy"
  | .delta => some "d"
  | .deltaDisplayed => some "dd"
  | .epoch => some "e"
  | .relative => some "r"
  | .utc => some "u"
  | .utcWithYmd => some "ud"
  | .utcWithYdoy => some "udoy"

/-- The digit for a precision; there is none for leaving it to the default or the capture. -/
def TimePrecision.digit? : TimePrecision → Option String
  | .notSet | .auto => none
  | .seconds => some "0"
  | .deciseconds => some "1"
  | .centiseconds => some "2"
  | .milliseconds => some "3"
  | .microseconds => some "6"
  | .nanoseconds => some "9"

private theorem TimeFormat.lookup_words_iff {word : String} {format : TimeFormat} :
    words.lookup word = some format ↔ format.word? = some word := by
  constructor
  · intro h
    have hwords : ∀ e ∈ words, e.2.word? = some e.1 := by decide
    exact hwords (word, format) (Text.SortedMap.mem_of_lookup h)
  · intro h
    cases format <;> cases h <;> decide

private theorem TimePrecision.lookup_words_iff {digit : String} {precision : TimePrecision} :
    words.lookup digit = some precision ↔ precision.digit? = some digit := by
  constructor
  · intro h
    have hwords : ∀ e ∈ words, e.2.digit? = some e.1 := by decide
    exact hwords (digit, precision) (Text.SortedMap.mem_of_lookup h)
  · intro h
    cases precision <;> cases h <;> decide

private theorem TimePrecision.lookup_words_eq_none_iff {digit : String} :
    words.lookup digit = none ↔ digit ∉ ["0", "1", "2", "3", "6", "9"] := by
  rw [List.lookup_eq_none_iff]
  simp [words]

private theorem TimeFormat.point_not_mem {format : TimeFormat} {word : String}
    (h : format.word? = some word) : '.' ∉ word.toList := by
  cases format <;> cases h <;> decide

private theorem TimeFormat.ne_notSet {format : TimeFormat} {word : String}
    (h : format.word? = some word) : format ≠ .notSet := by
  intro hdefault
  rw [hdefault] at h
  cases h

private theorem TimePrecision.ne_default {precision : TimePrecision} {digit : String}
    (h : precision.digit? = some digit) : precision ≠ .notSet ∧ precision ≠ .auto := by
  constructor <;> intro hdefault <;> rw [hdefault] at h <;> cases h

private theorem TimeFormat.word_ne_nil {format : TimeFormat} {word : String}
    (h : format.word? = some word) : word.toList ≠ [] := by
  cases format <;> cases h <;> decide

namespace TimeStamp

/-- The texts that are read: a format, a precision after a point, or both. -/
inductive Spells : String → TimeStamp → Prop
  | format {format : TimeFormat} {word : String} (hword : format.word? = some word) :
      Spells word ⟨some format, none⟩
  | precision {precision : TimePrecision} {digit : String}
      (hdigit : precision.digit? = some digit) : Spells ("." ++ digit) ⟨none, some precision⟩
  | both {format : TimeFormat} {word : String} (hword : format.word? = some word)
      {precision : TimePrecision} {digit : String} (hdigit : precision.digit? = some digit) :
      Spells (word ++ "." ++ digit) ⟨some format, some precision⟩

/-- Whether what follows the first point of a text is no digit for a precision. -/
def BadPrecision (text : String) : Prop :=
  ∃ before after, text.toList = before ++ '.' :: after ∧ '.' ∉ before ∧
    String.ofList after ∉ ["0", "1", "2", "3", "6", "9"]

variable {text : String} {t : TimeStamp}

private theorem read_of_not_mem (h : '.' ∉ text.toList) :
    read text = match TimeFormat.words.lookup text with
      | none => .error .format
      | some format => .ok ⟨some format, none⟩ := by
  have hcut := Text.cutAt?_eq_none_iff.mpr h
  cases hword : TimeFormat.words.lookup text <;> simp only [read, hcut, hword]

private theorem read_of_point {before after : List Char}
    (htext : text.toList = before ++ '.' :: after)
    (hfirst : '.' ∉ before) :
    read text = match TimePrecision.words.lookup (String.ofList after) with
      | none => .error .precision
      | some precision =>
        if before = [] then .ok ⟨none, some precision⟩
        else match TimeFormat.words.lookup (String.ofList before) with
          | none => .error .format
          | some format => .ok ⟨some format, some precision⟩ := by
  have hcut := Text.cutAt?_eq_some_iff.mpr ⟨htext, hfirst⟩
  cases hdigit : TimePrecision.words.lookup (String.ofList after) with
  | none => simp only [read, hcut, hdigit]
  | some precision =>
    cases hword : TimeFormat.words.lookup (String.ofList before) <;>
      simp only [read, hcut, hdigit, hword]

theorem Spells.read_eq (h : Spells text t) : read text = .ok t := by
  cases h with
  | format hword =>
    rw [read_of_not_mem (TimeFormat.point_not_mem hword), TimeFormat.lookup_words_iff.mpr hword]
  | @precision precision digit hdigit =>
    have htext : ("." ++ digit).toList = [] ++ '.' :: digit.toList := by
      simp [String.toList_append]
    rw [read_of_point htext List.not_mem_nil, String.ofList_toList,
      TimePrecision.lookup_words_iff.mpr hdigit]
    rfl
  | @both format word hword precision digit hdigit =>
    have htext : (word ++ "." ++ digit).toList = word.toList ++ '.' :: digit.toList := by
      simp [String.toList_append]
    rw [read_of_point htext (TimeFormat.point_not_mem hword), String.ofList_toList,
      TimePrecision.lookup_words_iff.mpr hdigit, String.ofList_toList,
      TimeFormat.lookup_words_iff.mpr hword]
    exact if_neg (TimeFormat.word_ne_nil hword)

theorem BadPrecision.read_eq (h : BadPrecision text) : read text = .error .precision := by
  obtain ⟨before, after, htext, hfirst, hdigit⟩ := h
  rw [read_of_point htext hfirst, TimePrecision.lookup_words_eq_none_iff.mpr hdigit]

private theorem spells_or_error (text : String) :
    (∃ t, Spells text t) ∨ BadPrecision text ∨ read text = .error .format := by
  cases hcut : Text.cutAt? '.' text.toList with
  | none =>
    have hread := read_of_not_mem (Text.cutAt?_eq_none_iff.mp hcut)
    cases hword : TimeFormat.words.lookup text with
    | none => exact .inr (.inr (by rw [hread, hword]))
    | some format => exact .inl ⟨_, .format (TimeFormat.lookup_words_iff.mp hword)⟩
  | some halves =>
    obtain ⟨before, after⟩ := halves
    obtain ⟨htext, hfirst⟩ := Text.cutAt?_eq_some_iff.mp hcut
    cases hdigit : TimePrecision.words.lookup (String.ofList after) with
    | none =>
      exact .inr (.inl
        ⟨before, after, htext, hfirst, TimePrecision.lookup_words_eq_none_iff.mp hdigit⟩)
    | some precision =>
      have hdigit' := TimePrecision.lookup_words_iff.mp hdigit
      by_cases hempty : before = []
      · have hspelled : text = "." ++ String.ofList after := by
          rw [← String.toList_inj, htext, hempty]
          simp [String.toList_append]
        rw [hspelled]
        exact .inl ⟨_, .precision hdigit'⟩
      · cases hword : TimeFormat.words.lookup (String.ofList before) with
        | none =>
          have hread := read_of_point htext hfirst
          rw [hdigit, hword] at hread
          exact .inr (.inr (hread.trans (if_neg hempty)))
        | some format =>
          have hspelled : text = String.ofList before ++ "." ++ String.ofList after := by
            rw [← String.toList_inj, htext]
            simp [String.toList_append]
          rw [hspelled]
          exact .inl ⟨_, .both (TimeFormat.lookup_words_iff.mp hword) hdigit'⟩

theorem read_eq_ok_iff : read text = .ok t ↔ Spells text t := by
  constructor
  · intro hread
    rcases spells_or_error text with ⟨other, h⟩ | h | h
    · obtain rfl : other = t := Except.ok.inj (h.read_eq.symm.trans hread)
      exact h
    · cases h.read_eq.symm.trans hread
    · cases h.symm.trans hread
  · exact Spells.read_eq

private theorem read_eq_error_precision_iff :
    read text = .error .precision ↔ BadPrecision text := by
  constructor
  · intro hread
    rcases spells_or_error text with ⟨t, h⟩ | h | h
    · cases h.read_eq.symm.trans hread
    · exact h
    · cases h.symm.trans hread
  · exact BadPrecision.read_eq

private theorem read_eq_error_format_iff :
    read text = .error .format ↔ (¬ ∃ t, Spells text t) ∧ ¬ BadPrecision text := by
  constructor
  · intro hread
    refine ⟨fun h => ?_, fun h => ?_⟩
    · obtain ⟨t, h⟩ := h
      cases h.read_eq.symm.trans hread
    · cases h.read_eq.symm.trans hread
  · intro h
    exact ((spells_or_error text).resolve_left h.1).resolve_left h.2

private theorem Spells.text_eq {other : String} (h : Spells text t) (hother : Spells other t) :
    text = other := by
  cases h with
  | format hword =>
    cases hother with
    | format hword' => exact Option.some.inj (hword.symm.trans hword')
  | precision hdigit =>
    cases hother with
    | precision hdigit' => rw [Option.some.inj (hdigit.symm.trans hdigit')]
  | both hword hdigit =>
    cases hother with
    | both hword' hdigit' =>
      rw [Option.some.inj (hword.symm.trans hword'), Option.some.inj (hdigit.symm.trans hdigit')]

/-- What a text spells has a precision if it has a point, a format if it does not begin with one,
and neither is left to the default. -/
structure Told (text : String) (t : TimeStamp) : Prop where
  precision_iff : t.precision.isSome ↔ '.' ∈ text.toList
  format_iff : t.format.isSome ↔ text.toList.head? ≠ some '.'
  format_ne : t.format ≠ some .notSet
  precision_ne_notSet : t.precision ≠ some .notSet
  precision_ne_auto : t.precision ≠ some .auto

theorem Spells.told (h : Spells text t) : Told text t := by
  cases h with
  | format hword =>
    have hpoint := TimeFormat.point_not_mem hword
    have hhead : text.toList.head? ≠ some '.' := fun hhead => hpoint (List.mem_of_head? hhead)
    exact
      { precision_iff := by simp [hpoint]
        format_iff := by simp [hhead]
        format_ne := by simp [TimeFormat.ne_notSet hword]
        precision_ne_notSet := by simp
        precision_ne_auto := by simp }
  | precision hdigit =>
    exact
      { precision_iff := by simp [String.toList_append]
        format_iff := by simp [String.toList_append]
        format_ne := by simp
        precision_ne_notSet := by simp [TimePrecision.ne_default hdigit]
        precision_ne_auto := by simp [TimePrecision.ne_default hdigit] }
  | both hword hdigit =>
    have hpoint := TimeFormat.point_not_mem hword
    obtain ⟨c, cs, hcs⟩ := List.exists_cons_of_ne_nil (TimeFormat.word_ne_nil hword)
    have hc : c ≠ '.' := fun hc => hpoint (by simp [hcs, hc])
    exact
      { precision_iff := by simp [String.toList_append]
        format_iff := by simp [String.toList_append, hcs, hc]
        format_ne := by simp [TimeFormat.ne_notSet hword]
        precision_ne_notSet := by simp [TimePrecision.ne_default hdigit]
        precision_ne_auto := by simp [TimePrecision.ne_default hdigit] }

/-- A text is read exactly if it spells a format, a precision or both; what is read says which of
them it has, is never the default, and is another for every other text. All other texts are refused
with their whole text in the wording: for the precision, without further lines, if what follows the
first point is no digit for one, else for the format, with the ten words for one. -/
theorem read_unambiguous :
    (∀ (text : String) (t : TimeStamp), read text = .ok t ↔ Spells text t) ∧
    (∀ (text : String) (t : TimeStamp), read text = .ok t → Told text t) ∧
    (∀ (text other : String) (t u : TimeStamp),
      text ≠ other → read text = .ok t → read other = .ok u → t ≠ u) ∧
    (∀ text : String, read text = .error .precision ↔ BadPrecision text) ∧
    (∀ text : String,
      read text = .error .format ↔ (¬ ∃ t, Spells text t) ∧ ¬ BadPrecision text) ∧
    (∀ text : String, (Refusal.timeStamp text .precision).diagnostic =
      ⟨"Invalid .N time stamp precision \"" ++ text ++ "\"; N must be 0, 1, 2, 3, 6 or 9", []⟩) ∧
    (∀ text : String, (Refusal.timeStamp text .format).diagnostic =
      ⟨"Invalid time stamp type \"" ++ text ++ "\"; it must be one of:", TimeFormat.help⟩) ∧
    TimeFormat.help.length = 10 := by
  refine ⟨fun _ _ => read_eq_ok_iff, fun _ _ hread => (read_eq_ok_iff.mp hread).told, ?_,
    fun _ => read_eq_error_precision_iff, fun _ => read_eq_error_format_iff, fun _ => rfl,
    fun _ => rfl, rfl⟩
  intro text other t u hne hread hother heq
  rw [← heq] at hother
  exact hne ((read_eq_ok_iff.mp hread).text_eq (read_eq_ok_iff.mp hother))

/-- Two texts with the same precision. -/
theorem read_unambiguous_precision :
    "ad.6" ≠ ".6" ∧ read "ad.6" = .ok ⟨some .absoluteWithYmd, some .microseconds⟩ ∧
      read ".6" = .ok ⟨none, some .microseconds⟩ ∧
      Told "ad.6" ⟨some .absoluteWithYmd, some .microseconds⟩ ∧
      (⟨some .absoluteWithYmd, some .microseconds⟩ : TimeStamp) ≠ ⟨none, some .microseconds⟩ := by
  have hne : "ad.6" ≠ ".6" := by decide
  have hboth : read "ad.6" = .ok ⟨some .absoluteWithYmd, some .microseconds⟩ := by rfl
  have hprecision : read ".6" = .ok ⟨none, some .microseconds⟩ := by rfl
  exact ⟨hne, hboth, hprecision, read_unambiguous.2.1 _ _ hboth,
    read_unambiguous.2.2.1 _ _ _ _ hne hboth hprecision⟩

end TimeStamp

end Dissection
