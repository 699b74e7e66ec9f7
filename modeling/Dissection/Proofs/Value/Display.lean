import Dissection.Text.Quoted
import Dissection.Value
import Mathlib.Data.List.Basic
import Mathlib.Tactic.SplitIfs

/-!
# Printable values

The text of a value is printable, whatever is in it: strings and keys are quoted, and all else is
written with digits, names and punctuation.
-/

/-!
## Printable texts

No printable character is a control, a format character or a separator of lines. Decimal numbers are
printable, and so is a quoted text whatever it quotes.
-/

namespace Dissection.Text

/-- The ranges of the characters that disturb a line, both ends included: controls, line and paragraph
separators, and format characters. -/
def disturbingRanges : List (Nat × Nat) := [
  (0x00, 0x1F), (0x7F, 0x9F),
  (0x2028, 0x2029),
  (0xAD, 0xAD), (0x600, 0x605), (0x61C, 0x61C), (0x6DD, 0x6DD), (0x70F, 0x70F), (0x890, 0x891),
  (0x8E2, 0x8E2), (0x180E, 0x180E), (0x200B, 0x200F), (0x202A, 0x202E), (0x2060, 0x2064),
  (0x2066, 0x206F), (0xFEFF, 0xFEFF), (0xFFF9, 0xFFFB), (0x110BD, 0x110BD), (0x110CD, 0x110CD),
  (0x13430, 0x13438), (0x1BCA0, 0x1BCA3), (0x1D173, 0x1D17A), (0xE0001, 0xE0001),
  (0xE0020, 0xE007F)]

/-- Whether a character is a control, a line or paragraph separator, or a format character. -/
def Disturbs (c : Char) : Prop := ∃ r ∈ disturbingRanges, r.1 ≤ c.toNat ∧ c.toNat ≤ r.2

instance (c : Char) : Decidable (Disturbs c) :=
  inferInstanceAs (Decidable (∃ r ∈ disturbingRanges, r.1 ≤ c.toNat ∧ c.toNat ≤ r.2))

private theorem not_isPrintable_of_mem {c : Char} {r : Nat × Nat} (hr : r ∈ unprintableRanges)
    (hlow : r.1 ≤ c.toNat) (hhigh : c.toNat ≤ r.2) : isPrintable c = false := by
  have habove : ∀ r ∈ unprintableRanges, 0x7F ≤ r.1 := by decide +kernel
  have hascii : ¬ c.toNat < 0x7F := Nat.not_lt.mpr (Nat.le_trans (habove r hr) hlow)
  have hany : unprintableRanges.any (fun r => r.1 ≤ c.toNat && c.toNat ≤ r.2) = true :=
    List.any_eq_true.mpr ⟨r, hr, by simp [hlow, hhigh]⟩
  simp only [isPrintable, if_neg hascii, hany, Bool.not_true]

theorem not_disturbs_of_isPrintable {c : Char} (h : isPrintable c = true) : ¬ Disturbs c := by
  rintro ⟨r, hr, hlow, hhigh⟩
  -- each range is that of the ASCII controls or part of an unprintable one
  have hcovered : ∀ r ∈ disturbingRanges,
      r.2 < 0x20 ∨ ∃ u ∈ unprintableRanges, u.1 ≤ r.1 ∧ r.2 ≤ u.2 := by decide +kernel
  have hunprintable : isPrintable c = false := by
    rcases hcovered r hr with hcontrol | ⟨u, hu, hbelow, habove⟩
    · exact not_isPrintable_of_control (Nat.lt_of_le_of_lt hhigh hcontrol)
    · exact not_isPrintable_of_mem hu (Nat.le_trans hbelow hlow) (Nat.le_trans hhigh habove)
  rw [h] at hunprintable
  cases hunprintable

example : Disturbs '\n' ∧ Disturbs '\x1b' ∧ Disturbs '\u2028' ∧ ¬ Disturbs ' ' := by decide

/-- Whether all characters of a text are printable. -/
def Printable (s : String) : Prop := ∀ c ∈ s.toList, isPrintable c = true

instance (s : String) : Decidable (Printable s) :=
  List.decidableBAll (fun c => isPrintable c = true) s.toList

theorem Printable.append {s t : String} (hs : Printable s) (ht : Printable t) :
    Printable (s ++ t) := by
  rw [Printable, String.toList_append, List.forall_mem_append]
  exact ⟨hs, ht⟩

private theorem printable_ofList {cs : List Char} (h : ∀ c ∈ cs, isPrintable c = true) :
    Printable (String.ofList cs) := by
  rwa [Printable, String.toList_ofList]

theorem Printable.intercalate {separator : String} (hseparator : Printable separator)
    {parts : List String} (h : ∀ part ∈ parts, Printable part) :
    Printable (String.intercalate separator parts) := by
  induction parts with
  | nil => exact List.forall_mem_nil _
  | cons part parts ih =>
    obtain ⟨hpart, hparts⟩ := List.forall_mem_cons.mp h
    cases parts with
    | nil => simpa using hpart
    | cons next parts =>
      rw [String.intercalate_cons_cons]
      exact (hpart.append hseparator).append (ih hparts)

private theorem isPrintable_of_isDigit {c : Char} (h : c.isDigit = true) :
    isPrintable c = true := by
  obtain ⟨hlow, hhigh⟩ := Char.isDigit_iff_toNat.mp h
  exact isPrintable_of_ascii (Nat.le_trans (by decide) hlow) (Nat.lt_of_le_of_lt hhigh (by decide))

private theorem printable_toDigits (n : Nat) :
    ∀ c ∈ Nat.toDigits 10 n, isPrintable c = true := fun _ hc =>
  isPrintable_of_isDigit (Nat.isDigit_of_mem_toDigits (by decide) (by decide) hc)

private theorem printable_natural (n : Nat) :
    Printable (toString n) := printable_ofList (printable_toDigits n)

private theorem printable_integer (n : Int) : Printable (toString n) := by
  cases n with
  | ofNat n => exact printable_natural n
  | negSucc n =>
    have hsign : Printable "-" := by decide
    exact hsign.append (printable_natural (n + 1))

private theorem printable_numericEscape (c : Char) :
    ∀ d ∈ numericEscape c, isPrintable d = true := by
  have hdigits (width n : Nat) : ∀ d ∈ hexDigits width n, isPrintable d = true :=
    forall_mem_hexDigits (by decide) width n
  simp only [numericEscape]
  split_ifs <;> exact List.forall_mem_cons.mpr
    ⟨by decide, List.forall_mem_cons.mpr ⟨by decide, hdigits _ _⟩⟩

private theorem printable_quotedChar {mark : Char} (hmark : isPrintable mark = true) (c : Char) :
    ∀ d ∈ quotedChar mark c, isPrintable d = true := by
  rw [quotedChar]
  split_ifs with hquote hfeed hreturn htab hprintable
  · rcases hquote with rfl | rfl
    · exact List.forall_mem_cons.mpr ⟨by decide, List.forall_mem_singleton.mpr hmark⟩
    · exact List.all_eq_true.mp rfl
  · exact List.all_eq_true.mp rfl
  · exact List.all_eq_true.mp rfl
  · exact List.all_eq_true.mp rfl
  · exact List.forall_mem_singleton.mpr hprintable
  · exact printable_numericEscape c

private theorem printable_quoted (s : String) : Printable (quoted s) := by
  have hmark : isPrintable (quotationMark s.toList) = true := by
    rcases quotationMark_eq s.toList with h | h <;> rw [h] <;> decide
  apply printable_ofList
  simp only [quotedChars, List.forall_mem_cons, List.forall_mem_append]
  refine ⟨hmark, fun d hd => ?_, hmark, List.forall_mem_nil _⟩
  obtain ⟨c, -, hc⟩ := List.mem_flatMap.mp hd
  exact printable_quotedChar hmark c d hc

end Dissection.Text

namespace Dissection

open Text (Printable)

private theorem printable_enclosed {first last : String} (hfirst : Printable first)
    (hlast : Printable last) {parts : List String} (h : ∀ part ∈ parts, Printable part) :
    Printable (enclosed first last parts) := by
  have hcomma : Printable ", " := by decide
  exact (hfirst.append (hcomma.intercalate h)).append hlast

private theorem printable_unless {p : Prop} [Decidable p] {part : String} (h : Printable part) :
    ∀ shown ∈ if p then [] else [part], Printable shown := by
  split
  · simp
  · exact List.forall_mem_singleton.mpr h

private theorem Date.printable_numbers (d : Date) :
    ∀ part ∈ [toString d.year, toString d.month, toString d.day], Printable part := by
  simp only [List.forall_mem_cons]
  exact ⟨Text.printable_natural _, Text.printable_natural _, Text.printable_natural _,
    List.forall_mem_nil _⟩

theorem Date.printable_display (d : Date) : Printable d.display :=
  printable_enclosed (by decide) (by decide) d.printable_numbers

private theorem Time.printable_parts (t : Time) : ∀ part ∈ t.parts, Printable part := by
  rw [parts, List.forall_mem_append, List.forall_mem_append, List.forall_mem_cons]
  exact ⟨⟨⟨Text.printable_natural _, List.forall_mem_singleton.mpr (Text.printable_natural _)⟩,
    printable_unless (Text.printable_natural _)⟩, printable_unless (Text.printable_natural _)⟩

theorem Time.printable_display (t : Time) : Printable t.display :=
  printable_enclosed (by decide) (by decide) t.printable_parts

private theorem printable_displayOffset (minutes : Int) : Printable (displayOffset minutes) := by
  have hdays : Printable "days=" := by decide
  have hseconds : Printable "seconds=" := by decide
  rw [displayOffset]
  split
  · decide
  · apply printable_enclosed (by decide) (by decide)
    rw [List.forall_mem_append]
    exact ⟨printable_unless (hdays.append (Text.printable_integer _)),
      printable_unless (hseconds.append (Text.printable_integer _))⟩

theorem DateTime.printable_display (d : DateTime) : Printable d.display := by
  have hzone : ∀ part ∈ (d.offset.map fun minutes => "tzinfo=" ++ displayOffset minutes).toList,
      Printable part := by
    cases d.offset with
    | none => simp
    | some minutes =>
      have hname : Printable "tzinfo=" := by decide
      exact List.forall_mem_singleton.mpr (hname.append (printable_displayOffset minutes))
  apply printable_enclosed (by decide) (by decide)
  rw [List.forall_mem_append, List.forall_mem_append]
  exact ⟨⟨d.date.printable_numbers, d.time.printable_parts⟩, hzone⟩

namespace Binary64

private theorem printable_zeros (count : Nat) :
    ∀ c ∈ List.replicate count '0', Text.isPrintable c = true := by
  intro c hc
  rw [List.eq_of_mem_replicate hc]
  decide

section

variable {digits : List Char} (h : ∀ c ∈ digits, Text.isPrintable c = true)

include h

private theorem printable_positionalText (point : Int) :
    ∀ c ∈ positionalText digits point, Text.isPrintable c = true := by
  have hpart : ∀ c ∈ digits.drop point.toNat, Text.isPrintable c = true :=
    fun c hc => h c (List.mem_of_mem_drop hc)
  have hwhole : ∀ c ∈ digits.take point.toNat, Text.isPrintable c = true :=
    fun c hc => h c (List.mem_of_mem_take hc)
  rw [positionalText]
  split
  · simp only [List.forall_mem_cons, List.forall_mem_append]
    exact ⟨by decide, by decide, printable_zeros _, h⟩
  · simp only [List.forall_mem_cons, List.forall_mem_append]
    refine ⟨⟨hwhole, printable_zeros _⟩, by decide, ?_⟩
    split
    · exact List.all_eq_true.mp rfl
    · exact hpart

private theorem printable_scientificText (exponent : Int) :
    ∀ c ∈ scientificText digits exponent, Text.isPrintable c = true := by
  have hsign : Text.isPrintable (if exponent < 0 then '-' else '+') = true := by
    split <;> decide
  simp only [scientificText, List.forall_mem_cons, List.forall_mem_append]
  refine ⟨?_, by decide, hsign, printable_zeros _, Text.printable_toDigits _⟩
  -- the point stands after the first digit if there is a second
  split
  · obtain ⟨hfirst, hrest⟩ := List.forall_mem_cons.mp h
    exact List.forall_mem_cons.mpr ⟨hfirst, List.forall_mem_cons.mpr ⟨by decide, hrest⟩⟩
  · exact h

end

private theorem printable_text (range : Positional) (x : Binary64) : Printable (x.text range) := by
  cases x with
  | nan =>
    have hnan : Printable "nan" := by decide
    exact hnan
  | infinite negative =>
    have hinfinite : Printable (if negative then "-inf" else "inf") := by
      cases negative <;> decide
    exact hinfinite
  | finite negative significand exponent =>
    have hsign : Printable (if negative then "-" else "") := by cases negative <;> decide
    refine hsign.append (Text.printable_ofList ?_)
    split
    · exact printable_positionalText (Text.printable_toDigits _) _
    · exact printable_scientificText (Text.printable_toDigits _) _

end Binary64

namespace Value

mutual

theorem printable_display : ∀ v : Value, Printable v.display
  | .null => by decide
  | .bool b => by cases b <;> decide
  | .int n => Text.printable_integer n
  | .float x => x.printable_text floatRange
  | .string s => Text.printable_quoted s
  | .dateTime d => d.printable_display
  | .date d => d.printable_display
  | .time t => t.printable_display
  | .list items => printable_enclosed (by decide) (by decide) (printable_displayItems items)
  | .table entries => printable_enclosed (by decide) (by decide) (printable_displayEntries entries)

private theorem printable_displayItems :
    ∀ items : List Value, ∀ part ∈ displayItems items, Printable part
  | [] => by simp [displayItems]
  | v :: r => by
    rw [displayItems, List.forall_mem_cons]
    exact ⟨printable_display v, printable_displayItems r⟩

private theorem printable_displayEntries :
    ∀ entries : List (String × Value), ∀ part ∈ displayEntries entries, Printable part
  | [] => by simp [displayEntries]
  | (key, v) :: r => by
    have hcolon : Printable ": " := by decide
    rw [displayEntries, List.forall_mem_cons]
    exact ⟨((Text.printable_quoted key).append hcolon).append (printable_display v),
      printable_displayEntries r⟩

end

end Value

end Dissection
