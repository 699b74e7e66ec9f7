import Dissection.Proofs.Text.Pieces
import Dissection.Toml.Reader
import Dissection.Toml.Scalar
import Dissection.Value
import Mathlib.Data.List.Forall2
import Mathlib.Tactic.SplitIfs

/-!
# Strings read back

A basic string writes each character as itself, unless it has a meaning of its own or may not stand
there, or by any of its escapes. However it is written, the string is read, and a key and a list of
such strings with it.
-/

/-!
## Writing TOML

One section of a document whose values are strings or lists of strings: a header, and a line for
every key.
-/

namespace Dissection.Toml

inductive Texts where
  | one (s : String)
  | many (items : List String)
  deriving DecidableEq, Repr

def Texts.toValue : Texts → Value
  | .one s => .string s
  | .many items => .list (items.map .string)

/-- A character inside a basic string: the quotation mark, the backslash and the control characters
are escaped. -/
def writtenChar (c : Char) : List Char :=
  if c = '"' ∨ c = '\\' then ['\\', c]
  else if c.toNat < 0x20 ∨ c.toNat = 0x7F then '\\' :: 'u' :: Text.hexDigits 4 c.toNat
  else [c]

def writtenString (s : String) : List Char := '"' :: (s.toList.flatMap writtenChar ++ ['"'])

/-- A string, or a list of strings in brackets with commas between. -/
def Texts.written : Texts → List Char
  | .one s => writtenString s
  | .many items =>
    '[' :: (((items.map writtenString).intersperse [',', ' ']).flatten ++ [']'])

def writtenKey (key : String) : List Char :=
  if key.toList ≠ [] ∧ key.toList.all isBareKeyChar then key.toList else writtenString key

def writtenLine (key : String) (value : Texts) : List Char :=
  writtenKey key ++ [' ', '=', ' '] ++ value.written ++ ['\n']

/-- The section with a name, of keys with their values. -/
def writtenSection (name : String) (entries : List (String × Texts)) : String :=
  String.ofList ('[' :: (writtenKey name ++ [']', '\n'] ++
    entries.flatMap fun e => writtenLine e.1 e.2))

/-- The number that hexadecimal digits write, after digits that write a number before them. -/
def numberFrom? (before : Nat) : List Char → Option Nat
  | [] => some before
  | c :: r => (Text.hexValue? c).bind fun d => numberFrom? (16 * before + d) r

/-- The ways to write a character inside a basic string: itself, a letter after a backslash, or the
digits of its number. -/
inductive SpellsChar (c : Char) : List Char → Prop where
  | plain (hmark : c ≠ '"') (hbackslash : c ≠ '\\') (h : isForbidden false c = false) :
    SpellsChar c [c]
  | letter {d : Char} (h : escaped? d = some c) : SpellsChar c ['\\', d]
  | four {digits : List Char} (hlength : digits.length = 4)
    (h : numberFrom? 0 digits = some c.toNat) : SpellsChar c ('\\' :: 'u' :: digits)
  | eight {digits : List Char} (hlength : digits.length = 8)
    (h : numberFrom? 0 digits = some c.toNat) : SpellsChar c ('\\' :: 'U' :: digits)

/-- The ways to write a string between quotation marks. -/
inductive SpellsString (s : String) : List Char → Prop where
  | mk {pieces : List (List Char)} (h : List.Forall₂ SpellsChar s.toList pieces) :
    SpellsString s ('"' :: (pieces.flatten ++ ['"']))

/-- The ways to write a key: bare if its characters allow that, or as a string. -/
inductive SpellsKey (key : String) : List Char → Prop where
  | bare (hne : key.toList ≠ []) (h : ∀ c ∈ key.toList, isBareKeyChar c = true) :
    SpellsKey key key.toList
  | quoted {cs : List Char} (h : SpellsString key cs) : SpellsKey key cs

/-- The ways to write a string or a list of strings. -/
inductive SpellsTexts : Texts → List Char → Prop where
  | one {s : String} {cs : List Char} (h : SpellsString s cs) : SpellsTexts (.one s) cs
  | many {items : List String} {parts : List (List Char)}
    (h : List.Forall₂ SpellsString items parts) :
    SpellsTexts (.many items) ('[' :: (Text.joined [',', ' '] parts ++ [']']))

inductive SpellsLine (e : String × Texts) : List Char → Prop where
  | mk {front back : List Char} (hkey : SpellsKey e.1 front) (hvalue : SpellsTexts e.2 back) :
    SpellsLine e (front ++ [' ', '=', ' '] ++ back ++ ['\n'])

/-- The ways to write a section: its header and then the lines of its keys. -/
inductive SpellsSection (name : String) (entries : List (String × Texts)) : List Char → Prop where
  | mk {front : List Char} {lines : List (List Char)} (hname : SpellsKey name front)
    (h : List.Forall₂ SpellsLine entries lines) :
    SpellsSection name entries ('[' :: (front ++ [']', '\n'] ++ lines.flatten))

/-! The section that is written is one of these. -/

private theorem numberFrom?_hexDigits {n : Nat} (hn : n < 0x10000) :
    numberFrom? 0 (Text.hexDigits 4 n) = some n := by
  have hdigit (m : Nat) : Text.hexValue? (Text.hexDigit (m % 16)) = some (m % 16) :=
    Text.hexValue?_hexDigit _ (Nat.mod_lt _ (by decide))
  simp only [Text.hexDigits_four, numberFrom?, hdigit, Option.bind_some]
  congr 1
  omega

private theorem spellsChar_writtenChar (c : Char) : SpellsChar c (writtenChar c) := by
  rw [writtenChar]
  split_ifs with hmark hcontrol
  · rcases hmark with rfl | rfl <;> exact .letter rfl
  · exact .four (Text.length_hexDigits 4 _) (numberFrom?_hexDigits (by omega))
  · obtain ⟨hquote, hbackslash⟩ := not_or.mp hmark
    exact .plain hquote hbackslash (by simp [isForbidden]; omega)

private theorem spellsString_writtenString (s : String) : SpellsString s (writtenString s) := by
  apply SpellsString.mk
  rw [List.forall₂_map_right_iff, List.forall₂_same]
  intro c _
  exact spellsChar_writtenChar c

private theorem spellsKey_writtenKey (key : String) : SpellsKey key (writtenKey key) := by
  rw [writtenKey]
  split_ifs with hbare
  · exact .bare hbare.1 (List.all_eq_true.mp hbare.2)
  · exact .quoted (spellsString_writtenString key)

private theorem spellsTexts_written (value : Texts) : SpellsTexts value value.written := by
  cases value with
  | one s => exact .one (spellsString_writtenString s)
  | many items =>
    apply SpellsTexts.many
    rw [List.forall₂_map_right_iff, List.forall₂_same]
    intro s _
    exact spellsString_writtenString s

theorem spellsSection_writtenSection (name : String) (entries : List (String × Texts)) :
    SpellsSection name entries (writtenSection name entries).toList := by
  rw [writtenSection, String.toList_ofList]
  apply SpellsSection.mk (spellsKey_writtenKey name)
  rw [List.forall₂_map_right_iff, List.forall₂_same]
  intro e _
  exact .mk (spellsKey_writtenKey e.1) (spellsTexts_written e.2)

/-! However they are written, strings are read. A step at a time first, in a string on one line. -/

private theorem readBody?_text (c : Char) (r : List Char) :
    readBody? '"' false .text (c :: r) =
      if c = '"' then some ([], r) else if c = '\\' then readBody? '"' false .escape r
      else if isForbidden false c then none else push c (readBody? '"' false .text r) := by
  rw [readBody?.eq_def]
  simp [Phase.before]

private theorem readBody?_letter {c d : Char} (h : escaped? c = some d) (r : List Char) :
    readBody? '"' false .escape (c :: r) = push d (readBody? '"' false .text r) := by
  have hfour : c ≠ 'u' := by
    rintro rfl
    cases h
  have height : c ≠ 'U' := by
    rintro rfl
    cases h
  rw [readBody?.eq_def]
  simp [Phase.before, hfour, height, h]

private theorem readBody?_digit {c : Char} {d : Nat} (hd : Text.hexValue? c = some d)
    {missing : Nat}
    (hmissing : 1 < missing) (value : Nat) (r : List Char) :
    readBody? '"' false (.number missing value) (c :: r) =
      readBody? '"' false (.number (missing - 1) (16 * value + d)) r := by
  rw [readBody?.eq_def]
  simp [Phase.before, hd, hmissing]

theorem readBody?_lastDigit {c e : Char} {d value : Nat} (hd : Text.hexValue? c = some d)
    (h : 16 * value + d = e.toNat) (r : List Char) :
    readBody? '"' false (.number 1 value) (c :: r) = push e (readBody? '"' false .text r) := by
  have hchar : scalar? (16 * value + d) = some e := by
    have hvalid : e.toNat.isValidChar := e.valid
    rw [h, scalar?, if_pos hvalid, Char.ofNat_toNat]
  rw [readBody?.eq_def]
  simp [Phase.before, hd, hchar]

private theorem readBody?_number {c : Char} (rest : List Char) {digits : List Char}
    {missing before : Nat}
    (hlength : digits.length = missing + 1) (h : numberFrom? before digits = some c.toNat) :
    readBody? '"' false (.number (missing + 1) before) (digits ++ rest) =
      push c (readBody? '"' false .text rest) := by
  induction digits generalizing missing before with
  | nil => cases hlength
  | cons d digits ih =>
    obtain ⟨value, hvalue, hnumber⟩ := Option.bind_eq_some_iff.mp h
    cases digits with
    | nil =>
      cases hlength
      exact readBody?_lastDigit hvalue (Option.some.inj hnumber) rest
    | cons e digits =>
      obtain ⟨missing, rfl⟩ : ∃ m, missing = m + 1 := ⟨digits.length, by simpa using hlength.symm⟩
      rw [List.cons_append, readBody?_digit hvalue (by omega)]
      exact ih (by simpa using hlength) hnumber

private theorem readBody?_spelled {c : Char} {cs : List Char} (h : SpellsChar c cs)
    (rest : List Char) :
    readBody? '"' false .text (cs ++ rest) = push c (readBody? '"' false .text rest) := by
  cases h with
  | plain hmark hbackslash h => simp [readBody?_text, hmark, hbackslash, h]
  | letter h => simp [readBody?_text, readBody?_letter h]
  | four hlength h =>
    rw [List.cons_append, List.cons_append, readBody?_text]
    exact readBody?_number rest hlength h
  | eight hlength h =>
    rw [List.cons_append, List.cons_append, readBody?_text]
    exact readBody?_number rest hlength h

private theorem readBody?_pieces {s : List Char} {pieces : List (List Char)}
    (h : List.Forall₂ SpellsChar s pieces) (rest : List Char) :
    readBody? '"' false .text (pieces.flatten ++ '"' :: rest) = some (s, rest) := by
  induction h with
  | nil => simp [readBody?_text]
  | cons hc _ ih =>
    rw [List.flatten_cons, List.append_assoc, readBody?_spelled hc, ih]
    rfl

private theorem readLineString?_spelled {s : String} {cs : List Char} (h : SpellsString s cs)
    (rest : List Char) : readLineString? (cs ++ rest) = some (s, rest) := by
  obtain ⟨hpieces⟩ := h
  have hbody := readBody?_pieces hpieces rest
  rw [List.cons_append, List.append_assoc, List.singleton_append, readLineString?]
  simp [hbody]

theorem SpellsChar.eq_cons {c : Char} {cs : List Char} (h : SpellsChar c cs) :
    ∃ d r, cs = d :: r ∧ d ≠ '"' := by
  cases h with
  | plain hmark => exact ⟨c, [], rfl, hmark⟩
  | _ => exact ⟨'\\', _, rfl, by decide⟩

private theorem readString?_line {r : List Char} (h : ∀ s, r ≠ '"' :: '"' :: s) :
    readString? ('"' :: r) = readLineString? ('"' :: r) := by
  rw [readString?.eq_def]
  split
  · rename_i heq
    cases heq
    rw [if_neg]
    rintro ⟨-, rfl, rfl⟩
    exact h _ rfl
  · rfl

theorem SpellsString.eq_cons {s : String} {cs : List Char} (h : SpellsString s cs) :
    ∃ r, cs = '"' :: r := by
  obtain ⟨hpieces⟩ := h
  exact ⟨_, rfl⟩

private theorem readString?_spelled {s : String} {cs : List Char} (h : SpellsString s cs)
    {rest : List Char} (hrest : rest.head? ≠ some '"') :
    readString? (cs ++ rest) = some (s, rest) := by
  have hline := readLineString?_spelled h rest
  obtain ⟨hpieces⟩ := h
  rw [List.cons_append, List.append_assoc, List.singleton_append] at hline ⊢
  rw [readString?_line _, hline]
  -- right after the first mark stands the closing one or the first character, which is no mark
  generalize s.toList = characters at hpieces
  intro r
  cases hpieces with
  | nil =>
    rintro ⟨⟩
    exact hrest rfl
  | cons hc _ =>
    obtain ⟨d, t, rfl, hd⟩ := hc.eq_cons
    intro heq
    simp only [List.flatten_cons, List.cons_append] at heq
    exact hd (List.cons.inj heq).1

/-! Keys. -/

theorem skipSpaces_cons {c : Char} (hspace : c ≠ ' ') (htab : c ≠ '\t') (r : List Char) :
    skipSpaces (c :: r) = c :: r :=
  List.dropWhile_cons_of_neg (by simp [hspace, htab])

theorem SpellsKey.eq_cons {key : String} {cs : List Char} (h : SpellsKey key cs) :
    ∃ c r, cs = c :: r ∧ ∀ d, isBareKeyChar d = false → d ≠ '"' → c ≠ d := by
  cases h with
  | bare hne h =>
    obtain ⟨c, r, hcs⟩ := List.exists_cons_of_ne_nil hne
    refine ⟨c, r, hcs, ?_⟩
    rintro d hd - rfl
    have hbare := h c (by simp [hcs])
    rw [hd] at hbare
    cases hbare
  | quoted h =>
    obtain ⟨r, rfl⟩ := h.eq_cons
    exact ⟨'"', r, rfl, fun d _ hd => hd.symm⟩

private theorem readKeyPart?_spelled {key : String} {cs : List Char} (h : SpellsKey key cs)
    {d : Char}
    (hd : isBareKeyChar d = false) (rest : List Char) :
    readKeyPart? (cs ++ d :: rest) = some (key, d :: rest) := by
  cases h with
  | bare hne h =>
    have htake : (key.toList ++ d :: rest).takeWhile isBareKeyChar = key.toList := by
      rw [List.takeWhile_append_of_pos h, List.takeWhile_cons_of_neg (by simp [hd]),
        List.append_nil]
    have hdrop : (key.toList ++ d :: rest).dropWhile isBareKeyChar = d :: rest := by
      rw [List.dropWhile_append_of_pos h, List.dropWhile_cons_of_neg (by simp [hd])]
    simp [readKeyPart?, htake, hdrop, hne]
  | quoted h =>
    have hline := readLineString?_spelled h (d :: rest)
    obtain ⟨r, rfl⟩ := h.eq_cons
    rw [List.cons_append] at hline ⊢
    have htake : ('"' :: (r ++ d :: rest)).takeWhile isBareKeyChar = [] := rfl
    simp [readKeyPart?, htake, hline]

theorem readKey?_spelled {key : String} {cs : List Char} (h : SpellsKey key cs) {d : Char}
    (hd : isBareKeyChar d = false) (rest : List Char)
    (hdot : ∀ r, skipSpaces (d :: rest) ≠ '.' :: r) :
    readKey? (cs ++ d :: rest) = some ([key], skipSpaces (d :: rest)) := by
  rw [readKey?, readKeyUpTo?, readKeyPart?_spelled h hd]
  simp only [bind, Option.bind]
  rfl

/-! Values. -/

private theorem readValueUpTo_spelled {s : String} {cs : List Char} (h : SpellsString s cs)
    (bound : Nat)
    (rest : List Char) (hrest : rest.head? ≠ some '"') :
    readValueUpTo (bound + 1) (cs ++ rest) = .ok (.string s, rest) := by
  have hstring := readString?_spelled h hrest
  obtain ⟨r, rfl⟩ := h.eq_cons
  rw [List.cons_append] at hstring ⊢
  rw [readValueUpTo]
  · simp [readScalar, hstring]
  · rintro r ⟨⟩
  · rintro r ⟨⟩

private theorem joined_spelled {s : String} {part : List Char} (h : SpellsString s part)
    (parts : List (List Char)) : ∃ r, Text.joined [',', ' '] (part :: parts) = '"' :: r := by
  obtain ⟨r, rfl⟩ := h.eq_cons
  obtain ⟨cs, hcs⟩ := Text.joined_eq_append [',', ' '] ('"' :: r) parts
  exact ⟨_, hcs⟩

private theorem readItemsUpTo_spelled {items : List String} {parts : List (List Char)}
    (h : List.Forall₂ SpellsString items parts) (hne : items ≠ []) (rest : List Char) (bound : Nat)
    (hbound : (Text.joined [',', ' '] parts).length < bound) :
    readItemsUpTo bound (Text.joined [',', ' '] parts ++ ']' :: rest) =
      .ok (items.map .string, rest) := by
  induction h generalizing bound with
  | nil => exact absurd rfl hne
  | @cons s part items parts hs hitems ih =>
    have hlength : 0 < part.length := by
      obtain ⟨r, rfl⟩ := hs.eq_cons
      exact Nat.zero_lt_succ _
    cases hitems with
    | nil =>
      rw [Text.joined_singleton] at hbound ⊢
      obtain ⟨bound, rfl⟩ : ∃ b, bound = b + 2 := ⟨bound - 2, by omega⟩
      have hread := readValueUpTo_spelled hs bound (']' :: rest) (by simp)
      rw [readItemsUpTo, hread]
      rfl
    | @cons t next items parts ht hitems =>
      rw [Text.joined_cons_cons, List.length_append, List.length_append] at hbound
      obtain ⟨bound, rfl⟩ : ∃ b, bound = b + 2 := ⟨bound - 2, by omega⟩
      have hnext := ih (List.cons_ne_nil t items) (bound + 1) (by omega)
      obtain ⟨r, hr⟩ := joined_spelled ht parts
      rw [hr] at hnext
      have hread := readValueUpTo_spelled hs bound (',' :: ' ' :: '"' :: (r ++ ']' :: rest))
        (by simp)
      have hcomma : skipTrivia? (',' :: ' ' :: '"' :: (r ++ ']' :: rest)) =
          some (',' :: ' ' :: '"' :: (r ++ ']' :: rest)) := rfl
      have hspace : skipTrivia? (' ' :: '"' :: (r ++ ']' :: rest)) =
          some ('"' :: (r ++ ']' :: rest)) := rfl
      rw [Text.joined_cons_cons, hr]
      simp only [List.append_assoc, List.cons_append, List.nil_append] at hnext ⊢
      rw [readItemsUpTo, hread]
      simp [bind, Except.bind, hcomma, hspace, hnext, pure, Except.pure]

private theorem readValueUpTo_list (bound : Nat) {r rest : List Char} {items : List Value}
    (h : readItemsUpTo bound ('"' :: r) = .ok (items, rest)) :
    readValueUpTo (bound + 1) ('[' :: '"' :: r) = .ok (.list items, rest) := by
  have hskip : skipTrivia? ('"' :: r) = some ('"' :: r) := rfl
  rw [readValueUpTo, hskip]
  simp [bind, Except.bind, h, pure, Except.pure]

private theorem readValueUpTo_texts {value : Texts} {cs : List Char} (h : SpellsTexts value cs)
    (rest : List Char) (bound : Nat) (hbound : cs.length < bound) :
    readValueUpTo (bound + 1) (cs ++ '\n' :: rest) = .ok (value.toValue, '\n' :: rest) := by
  cases h with
  | one h => exact readValueUpTo_spelled h bound ('\n' :: rest) (by simp)
  | @many items parts h =>
    obtain ⟨bound, rfl⟩ : ∃ b, bound = b + 1 := ⟨bound - 1, by omega⟩
    simp only [List.length_cons, List.length_append] at hbound
    cases h with
    | nil => rfl
    | @cons s part items parts hs hitems =>
      have hread := readItemsUpTo_spelled (.cons hs hitems) (List.cons_ne_nil s items)
        ('\n' :: rest) (bound + 1) (by omega)
      obtain ⟨r, hr⟩ := joined_spelled hs parts
      rw [hr] at hread ⊢
      simp only [List.cons_append, List.append_assoc, List.nil_append] at hread ⊢
      exact readValueUpTo_list (bound + 1) hread

theorem readValue_spelled {value : Texts} {cs : List Char} (h : SpellsTexts value cs)
    (rest : List Char) :
    readValue (cs ++ '\n' :: rest) = .ok (value.toValue, '\n' :: rest) := by
  apply readValueUpTo_texts h rest
  rw [List.length_append]
  omega

theorem SpellsTexts.skipSpaces_cons {value : Texts} {cs : List Char} (h : SpellsTexts value cs)
    (rest : List Char) : skipSpaces (' ' :: (cs ++ rest)) = cs ++ rest := by
  cases h with
  | one h =>
    obtain ⟨r, rfl⟩ := h.eq_cons
    rfl
  | many h => rfl

/-! A carriage return is never written as itself, so line breaks are as they are written. -/

private theorem return_not_mem_of_numberFrom? {digits : List Char} {before n : Nat}
    (h : numberFrom? before digits = some n) : '\r' ∉ digits := by
  induction digits generalizing before with
  | nil => exact List.not_mem_nil
  | cons c digits ih =>
    obtain ⟨d, hd, hrest⟩ := Option.bind_eq_some_iff.mp h
    intro hmem
    rcases List.mem_cons.mp hmem with rfl | hmem
    · cases hd
    · exact ih hrest hmem

theorem SpellsChar.return_not_mem {c : Char} {cs : List Char} (h : SpellsChar c cs) :
    '\r' ∉ cs := by
  cases h with
  | plain _ _ h =>
    intro hmem
    obtain rfl := List.mem_singleton.mp hmem
    cases h
  | letter h =>
    simp only [List.mem_cons, List.not_mem_nil, or_false, not_or]
    refine ⟨by decide, ?_⟩
    rintro rfl
    cases h
  | four _ h => simpa using return_not_mem_of_numberFrom? h
  | eight _ h => simpa using return_not_mem_of_numberFrom? h

private theorem forall_return_not_mem {α : Type} {spells : α → List Char → Prop}
    (hspells : ∀ {a : α} {cs : List Char}, spells a cs → '\r' ∉ cs) {xs : List α}
    {parts : List (List Char)} (h : List.Forall₂ spells xs parts) :
    ∀ part ∈ parts, '\r' ∉ part := by
  induction h with
  | nil => simp
  | cons hx _ ih => exact List.forall_mem_cons.mpr ⟨hspells hx, ih⟩

theorem SpellsString.return_not_mem {s : String} {cs : List Char} (h : SpellsString s cs) :
    '\r' ∉ cs := by
  obtain ⟨hpieces⟩ := h
  have hreturn := forall_return_not_mem SpellsChar.return_not_mem hpieces
  simpa using hreturn

theorem SpellsKey.return_not_mem {key : String} {cs : List Char} (h : SpellsKey key cs) :
    '\r' ∉ cs := by
  cases h with
  | bare _ h => exact fun hmem => absurd (h _ hmem) (by decide)
  | quoted h => exact h.return_not_mem

theorem SpellsTexts.return_not_mem {value : Texts} {cs : List Char} (h : SpellsTexts value cs) :
    '\r' ∉ cs := by
  cases h with
  | one h => exact h.return_not_mem
  | many h =>
    have hreturn := Text.not_mem_joined [',', ' '] (by decide)
      (forall_return_not_mem SpellsString.return_not_mem h)
    simpa using hreturn

theorem SpellsLine.return_not_mem {e : String × Texts} {cs : List Char} (h : SpellsLine e cs) :
    '\r' ∉ cs := by
  obtain ⟨hkey, hvalue⟩ := h
  simp [hkey.return_not_mem, hvalue.return_not_mem]

theorem SpellsSection.return_not_mem {name : String} {entries : List (String × Texts)}
    {cs : List Char} (h : SpellsSection name entries cs) : '\r' ∉ cs := by
  obtain ⟨hname, hlines⟩ := h
  have hreturn := forall_return_not_mem SpellsLine.return_not_mem hlines
  simpa [hname.return_not_mem] using hreturn

end Dissection.Toml
