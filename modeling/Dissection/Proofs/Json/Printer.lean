import Dissection.Diagnostic
import Dissection.Json
import Dissection.Json.Reader
import Dissection.Proofs.Text.SortedMap
import Mathlib.Data.List.Basic
import Mathlib.Tactic.SplitIfs

/-!
# Printed JSON

Printed JSON is printable ASCII and line feeds, so no control sequence of a terminal is in it.
-/

namespace Dissection.Json

def isPlain (c : Char) : Bool := c = '\n' ∨ 0x20 ≤ c.toNat ∧ c.toNat < 0x7F

private theorem plain_hexDigits {width n : Nat} : ∀ c ∈ Text.hexDigits width n, isPlain c = true :=
  Text.forall_mem_hexDigits (by decide) width n

private theorem plain_unitEscape {n : Nat} : ∀ c ∈ unitEscape n, isPlain c = true := by
  rw [unitEscape, List.forall_mem_cons, List.forall_mem_cons]
  exact ⟨by decide, by decide, plain_hexDigits⟩

private theorem plain_escapedChar (d : Char) : ∀ c ∈ escapedChar d, isPlain c = true := by
  rw [escapedChar]
  split_ifs with hquote hfeed hreturn htab hbackspace hpage hprintable
  · rcases hquote with rfl | rfl <;> exact List.all_eq_true.mp rfl
  · exact List.all_eq_true.mp rfl
  · exact List.all_eq_true.mp rfl
  · exact List.all_eq_true.mp rfl
  · exact List.all_eq_true.mp rfl
  · exact List.all_eq_true.mp rfl
  · simpa [isPlain] using .inr hprintable
  · simp only [numericEscape]
    split_ifs
    · exact plain_unitEscape
    · exact List.forall_mem_append.mpr ⟨plain_unitEscape, plain_unitEscape⟩

private theorem plain_quoted (s : String) : ∀ c ∈ quoted s, isPlain c = true := by
  rw [quoted, List.forall_mem_cons, List.forall_mem_append]
  refine ⟨rfl, fun c hc => ?_, List.all_eq_true.mp rfl⟩
  obtain ⟨d, -, hd⟩ := List.mem_flatMap.mp hc
  exact plain_escapedChar d c hd

private theorem plain_newLine (level : Nat) : ∀ c ∈ newLine level, isPlain c = true := by
  rw [newLine, List.forall_mem_cons]
  refine ⟨by decide, fun c hc => ?_⟩
  rw [List.eq_of_mem_replicate hc]
  decide

private theorem mem_intersperse {α : Type} {separator part : α} {parts : List α}
    (h : part ∈ parts.intersperse separator) : part = separator ∨ part ∈ parts := by
  induction parts with
  | nil => exact .inr h
  | cons x parts ih =>
    cases parts with
    | nil => exact .inr h
    | cons y parts =>
      rw [List.intersperse_cons_cons] at h
      rcases List.mem_cons.mp h with rfl | h
      · exact .inr List.mem_cons_self
      · rcases List.mem_cons.mp h with rfl | h
        · exact .inl rfl
        · exact (ih h).imp_right (List.mem_cons_of_mem _)

private theorem plain_block {first last : Char} (hfirst : isPlain first = true)
    (hlast : isPlain last = true)
    (level : Nat) {parts : List (List Char)} (hparts : ∀ part ∈ parts, ∀ c ∈ part, isPlain c = true) :
    ∀ c ∈ block first last level parts, isPlain c = true := by
  rw [block]
  split
  · simp [hfirst, hlast]
  · simp only [List.forall_mem_cons, List.forall_mem_append, List.mem_flatten]
    refine ⟨hfirst, ⟨⟨plain_newLine _, ?_⟩, plain_newLine _⟩, hlast, by simp⟩
    rintro c ⟨part, hpart, hc⟩
    rcases mem_intersperse hpart with rfl | hpart
    · exact List.forall_mem_cons.mpr ⟨by decide, plain_newLine _⟩ c hc
    · exact hparts part hpart c hc

private theorem plain_entry (key : String) {value : List Char}
    (hvalue : ∀ c ∈ value, isPlain c = true) :
    ∀ c ∈ entry key value, isPlain c = true := by
  rw [entry, List.forall_mem_append, List.forall_mem_cons, List.forall_mem_cons]
  exact ⟨plain_quoted key, by decide, by decide, hvalue⟩

mutual

theorem plain_printAt (level : Nat) : ∀ v : Json, ∀ c ∈ v.printAt level, isPlain c = true
  | .bool b => by
    rw [printAt]
    cases b <;> exact List.all_eq_true.mp rfl
  | .string s => plain_quoted s
  | .array items => plain_block (by decide) (by decide) level (plain_printItems (level + 1) items)
  | .object entries => by
    apply plain_block (by decide) (by decide)
    intro part hpart
    obtain ⟨e, he, rfl⟩ := List.mem_map.mp hpart
    exact plain_entry e.1
      (plain_printEntries (level + 1) entries e (Text.SortedMap.mem_of_mem_ofEntries he))

private theorem plain_printItems (level : Nat) :
    ∀ items : List Json, ∀ part ∈ printItems level items, ∀ c ∈ part, isPlain c = true
  | [] => by simp [printItems]
  | v :: r => by
    rw [printItems, List.forall_mem_cons]
    exact ⟨plain_printAt level v, plain_printItems level r⟩

private theorem plain_printEntries (level : Nat) :
    ∀ entries : List (String × Json), ∀ e ∈ printEntries level entries, ∀ c ∈ e.2, isPlain c = true
  | [] => by simp [printEntries]
  | (key, v) :: r => by
    rw [printEntries, List.forall_mem_cons]
    exact ⟨plain_printAt level v, plain_printEntries level r⟩

end

theorem withoutControl_print (v : Json) :
    Text.withoutControl (v.print ++ "\n") = v.print ++ "\n" := by
  apply Text.withoutControl_line
  rw [print, String.toList_ofList]
  exact fun hescape => absurd (plain_printAt 0 v _ hescape) (by decide)

/-!
## Strings read back

Every character comes back from its escape, so that a string comes back from between its quotation
marks, whatever follows it.
-/

/-- The text with one more character in front, if there is a text. -/
def prepend? (c : Char) (read : Option (List Char × List Char)) : Option (List Char × List Char) :=
  read.map fun p => (c :: p.1, p.2)

/-- The text from a unit on, where the first half of a character may wait for its second half. -/
def afterUnit? (high : Option Nat) (unit : CodeUnit) (rest : List Char) :
    Option (List Char × List Char) :=
  match unit, high with
  | .char c, none => prepend? c (readBody? .text none rest)
  | .high bits, none => readBody? .text (some bits) rest
  | .low bits, some first =>
    prepend? (Char.ofNat (0x10000 + 0x400 * first + bits)) (readBody? .text none rest)
  | _, _ => none

private theorem readBody?_hexDigit (high : Option Nat) {missing : Nat} (hmissing : 1 < missing)
    (value : Nat) {d : Nat} (hd : d < 16) (rest : List Char) :
    readBody? (.digits missing value) high (Text.hexDigit d :: rest) =
      readBody? (.digits (missing - 1) (16 * value + d)) high rest := by
  rw [readBody?]
  simp only [Text.hexValue?_hexDigit d hd, if_pos hmissing]

theorem readBody?_lastDigit (high : Option Nat) (value : Nat) {d : Nat} (hd : d < 16)
    (rest : List Char) :
    readBody? (.digits 1 value) high (Text.hexDigit d :: rest) =
      afterUnit? high (CodeUnit.ofNat (16 * value + d)) rest := by
  rw [readBody?]
  simp only [Text.hexValue?_hexDigit d hd, Nat.lt_irrefl, if_false]
  rfl

private theorem readBody?_unitEscape (high : Option Nat) {n : Nat} (hn : n < 0x10000)
    (rest : List Char) :
    readBody? .text high (unitEscape n ++ rest) =
      afterUnit? high (CodeUnit.ofNat n) rest := by
  have hvalue : 16 * (16 * (16 * (16 * 0 + n / 16 / 16 / 16 % 16) + n / 16 / 16 % 16) +
      n / 16 % 16) + n % 16 = n := by omega
  have hdigit (m : Nat) : m % 16 < 16 := Nat.mod_lt _ (by decide)
  rw [unitEscape, Text.hexDigits_four]
  simp only [List.cons_append, List.nil_append]
  rw [readBody?]
  simp only [if_true]
  rw [readBody?]
  simp only [if_true]
  rw [readBody?_hexDigit high (by decide) _ (hdigit _),
    readBody?_hexDigit high (by decide) _ (hdigit _),
    readBody?_hexDigit high (by decide) _ (hdigit _), readBody?_lastDigit high _ (hdigit _), hvalue]

/-- A character comes back from its number, also where it takes two units to write. -/
theorem readBody?_numericEscape (c : Char) (rest : List Char) :
    readBody? .text none (numericEscape c ++ rest) = prepend? c (readBody? .text none rest) := by
  have hscalar : c.toNat < 0xD800 ∨ 0xDFFF < c.toNat ∧ c.toNat < 0x110000 := c.valid
  simp only [numericEscape]
  split_ifs with hplane
  · have hunit : CodeUnit.ofNat c.toNat = .char c := by
      rw [CodeUnit.ofNat, if_neg (by omega), if_neg (by omega), Char.ofNat_toNat]
    rw [readBody?_unitEscape none hplane, hunit]
    rfl
  · generalize hoffset : c.toNat - 0x10000 = offset
    have hhigh : CodeUnit.ofNat (0xD800 + offset / 0x400) = .high (offset / 0x400) := by
      rw [CodeUnit.ofNat, if_pos (by omega), Nat.add_sub_cancel_left]
    have hlow : CodeUnit.ofNat (0xDC00 + offset % 0x400) = .low (offset % 0x400) := by
      rw [CodeUnit.ofNat, if_neg (by omega), if_pos (by omega), Nat.add_sub_cancel_left]
    have hwhole : Char.ofNat (0x10000 + 0x400 * (offset / 0x400) + offset % 0x400) = c := by
      have hnumber : 0x10000 + 0x400 * (offset / 0x400) + offset % 0x400 = c.toNat := by omega
      rw [hnumber, Char.ofNat_toNat]
    rw [List.append_assoc, readBody?_unitEscape none (by omega), hhigh, afterUnit?,
      readBody?_unitEscape _ (by omega), hlow, afterUnit?, hwhole]

private theorem readBody?_escapedChar (c : Char) (rest : List Char) :
    readBody? .text none (escapedChar c ++ rest) = prepend? c (readBody? .text none rest) := by
  rw [escapedChar]
  split_ifs with hmark hfeed hreturn htab hbackspace hpage hprintable
  · rcases hmark with rfl | rfl <;> rfl
  · rw [hfeed]
    rfl
  · rw [hreturn]
    rfl
  · rw [htab]
    rfl
  · rw [hbackspace]
    rfl
  · rw [hpage]
    rfl
  · obtain ⟨hquote, hbackslash⟩ := not_or.mp hmark
    rw [List.singleton_append, readBody?]
    simp only [if_neg hbackslash, if_neg hquote, if_neg (Nat.not_lt.mpr hprintable.1),
      Option.isSome_none, Bool.false_eq_true, if_false]
    rfl
  · exact readBody?_numericEscape c rest

theorem readString?_quoted (s : String) (rest : List Char) :
    readString? (quoted s ++ rest) = some (s, rest) := by
  have hbody (cs : List Char) :
      readBody? .text none (cs.flatMap escapedChar ++ '"' :: rest) = some (cs, rest) := by
    induction cs with
    | nil => rfl
    | cons c cs ih =>
      rw [List.flatMap_cons, List.append_assoc, readBody?_escapedChar, ih]
      rfl
  rw [quoted, List.cons_append, List.append_assoc, List.singleton_append, readString?, hbody,
    Option.map_some, String.ofList_toList]

example : readString? "\"\\u001b\\ud83d\\ude00\"".toList = some ("\x1b😀", []) := by decide +kernel

end Dissection.Json
