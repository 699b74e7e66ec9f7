import Dissection.Proofs.Text.SortedMap
import Dissection.Proofs.Toml.LongNumber
import Dissection.Proofs.Toml.Spelling

/-!
# Sections read back

A section of strings and lists of strings is loaded as it was written: its keys in order, and each
string character for character.
-/

namespace Dissection

namespace Toml

private theorem readHeader?_spelled {name : String} {front : List Char} (h : SpellsKey name front)
    (rest : List Char) : readHeader? (front ++ ']' :: rest) = some (.table [name], rest) := by
  have hkey := readKey?_spelled h (d := ']') rfl rest (by rintro r ⟨⟩)
  obtain ⟨c, r, rfl, hc⟩ := h.eq_cons
  have hskip := skipSpaces_cons (hc ' ' rfl (by decide)) (hc '\t' rfl (by decide))
  rw [List.cons_append] at hkey ⊢
  rw [readHeader?, hskip, hkey]
  · rfl
  · intro s heq
    exact hc '[' rfl (by decide) (List.cons.inj heq).1

private theorem readAssignment_spelled {e : String × Texts} {front back : List Char}
    (hkey : SpellsKey e.1 front) (hvalue : SpellsTexts e.2 back) (rest : List Char) :
    readAssignment (front ++ ' ' :: '=' :: ' ' :: (back ++ '\n' :: rest)) =
      .ok (.assign [e.1] e.2.toValue, '\n' :: rest) := by
  have hskip := hvalue.skipSpaces_cons ('\n' :: rest)
  have hread := readKey?_spelled hkey (d := ' ') rfl ('=' :: ' ' :: (back ++ '\n' :: rest))
    (by rintro r ⟨⟩)
  have hequals : skipSpaces (' ' :: '=' :: ' ' :: (back ++ '\n' :: rest)) =
      '=' :: ' ' :: (back ++ '\n' :: rest) := rfl
  have hafter : after? '=' ('=' :: ' ' :: (back ++ '\n' :: rest)) =
      some (' ' :: (back ++ '\n' :: rest)) := rfl
  rw [readAssignment, hread, hequals]
  simp only [found, bind, Except.bind, hafter, hskip, readValue_spelled hvalue, pure, Except.pure]

private theorem readStatement_spelled {e : String × Texts} {line : List Char}
    (h : SpellsLine e line)
    (rest : List Char) :
    readStatement (line ++ rest) = .ok (some (.assign [e.1] e.2.toValue), '\n' :: rest) := by
  obtain ⟨hkey, hvalue⟩ := h
  have hassign := readAssignment_spelled hkey hvalue rest
  obtain ⟨c, r, rfl, hc⟩ := hkey.eq_cons
  simp only [List.cons_append, List.append_assoc, List.nil_append] at hassign ⊢
  rw [readStatement, hassign]
  · rfl
  · intro s heq
    exact hc '#' rfl (by decide) (List.cons.inj heq).1
  · intro s heq
    exact hc '[' rfl (by decide) (List.cons.inj heq).1

private theorem ofTextUpTo_line (bound : Nat) {c : Char} {cs r : List Char} {statement : Statement}
    (hskip : skipSpaces (c :: cs) = c :: cs) (hc : c ≠ '\n')
    (h : readStatement (c :: cs) = .ok (some statement, '\n' :: r)) :
    Script.ofTextUpTo (bound + 1) (c :: cs) =
      Script.prepend statement (Script.ofTextUpTo bound r) := by
  obtain ⟨after, hread, -, hafter⟩ := ofTextUpTo_statement bound hskip hc h
  have hbreak : skipComment? (skipSpaces ('\n' :: r)) = some ('\n' :: r) := rfl
  rw [hread, hafter r hbreak]

private theorem ofTextUpTo_spelled {entries : List (String × Texts)} {lines : List (List Char)}
    (h : List.Forall₂ SpellsLine entries lines) (bound : Nat)
    (hbound : lines.flatten.length < bound) :
    Script.ofTextUpTo bound lines.flatten =
      { statements := entries.map fun e => .assign [e.1] e.2.toValue } := by
  induction h generalizing bound with
  | nil =>
    obtain ⟨bound, rfl⟩ : ∃ b, bound = b + 1 := ⟨bound - 1, by omega⟩
    rfl
  | @cons e line entries lines hline _ ih =>
    have hread := readStatement_spelled hline lines.flatten
    have hfirst : ∃ c r, line = c :: r ∧ ∀ d, isBareKeyChar d = false → d ≠ '"' → c ≠ d := by
      obtain ⟨hkey, -⟩ := hline
      obtain ⟨c, r, rfl, hc⟩ := hkey.eq_cons
      exact ⟨c, _, rfl, hc⟩
    obtain ⟨c, r, rfl, hc⟩ := hfirst
    have hskip := skipSpaces_cons (hc ' ' rfl (by decide)) (hc '\t' rfl (by decide))
    obtain ⟨bound, rfl⟩ : ∃ b, bound = b + 1 := ⟨bound - 1, by omega⟩
    simp only [List.flatten_cons, List.cons_append, List.length_cons, List.length_append]
      at hbound hread ⊢
    rw [ofTextUpTo_line bound (hskip _) (hc '\n' rfl (by decide)) hread, ih bound (by omega)]
    rfl

private theorem ofText_spelled {name : String} {entries : List (String × Texts)} {cs : List Char}
    (h : SpellsSection name entries cs) :
    Script.ofText cs =
      { statements := .table [name] :: entries.map fun e => .assign [e.1] e.2.toValue } := by
  obtain ⟨hname, hlines⟩ := h
  rename_i front lines
  have hheader : readStatement ('[' :: (front ++ [']', '\n'] ++ lines.flatten)) =
      .ok (some (.table [name]), '\n' :: lines.flatten) := by
    rw [readStatement, List.append_assoc, List.cons_append, readHeader?_spelled hname]
    rfl
  rw [Script.ofText, ofTextUpTo_line _ rfl (by decide) hheader, ofTextUpTo_spelled hlines]
  · rfl
  · simp only [List.length_cons, List.length_append]
    omega

/-! The statements of a section build one table. -/

/-- The draft in a section of which some keys are written. -/
def sectionDraft (name : String) (written : Branch) : Draft where
  root := [(name, .table .opened written)]
  header := [name]
  part := 1

private theorem sectionDraft_add (name : String) {written : Branch} {key : String}
    (h : key ∉ written.map Prod.fst) (value : Value) :
    (sectionDraft name written).add (.assign [key] value) =
      some (sectionDraft name (written ++ [(key, .value value)])) := by
  have hnew : List.lookup key written = none := by
    rw [List.lookup_eq_none_iff]
    intro e he
    have hne : key ≠ e.1 := by
      rintro rfl
      exact h (List.mem_map.mpr ⟨e, he, rfl⟩)
    simpa using hne
  simp [sectionDraft, Draft.add, Branch.under, Branch.get?, Branch.assign, Branch.replace,
    Branch.add, hnew]

private theorem foldlM_assign (name : String) (entries : List (String × Value)) (written : Branch)
    (h : (written.map Prod.fst ++ entries.map Prod.fst).Nodup) :
    (entries.map fun e => Statement.assign [e.1] e.2).foldlM Draft.add (sectionDraft name written) =
      some (sectionDraft name (written ++ entries.map fun e => (e.1, .value e.2))) := by
  induction entries generalizing written with
  | nil => simp
  | cons e entries ih =>
    have hnew : e.1 ∉ written.map Prod.fst := by
      intro hmem
      exact (List.nodup_append.mp h).2.2 e.1 hmem e.1 (by simp) rfl
    have hrest :
        ((written ++ [(e.1, Node.value e.2)]).map Prod.fst ++ entries.map Prod.fst).Nodup := by
      simpa using h
    rw [List.map_cons, List.foldlM_cons, sectionDraft_add name hnew]
    simp [ih _ hrest]

private theorem finished_values (entries : List (String × Value)) :
    finished (entries.map fun e => (e.1, .value e.2)) = entries := by
  induction entries with
  | nil => rfl
  | cons e entries ih => rw [List.map_cons, finished, Node.toValue, ih]

private theorem tableOf?_section (name : String) {entries : List (String × Value)}
    (h : (entries.map Prod.fst).Nodup) :
    tableOf? (.table [name] :: entries.map fun e => .assign [e.1] e.2) =
      some [(name, .table entries)] := by
  have hopen : Draft.add {} (.table [name]) = some (sectionDraft name []) := rfl
  have hassign := foldlM_assign name entries [] h
  rw [tableOf?, List.foldlM_cons, hopen]
  simp only [bind, Option.bind, hassign]
  simp [sectionDraft, finished, Node.toValue, finished_values]

end Toml

namespace Config

open Toml

private theorem nodup_keys_toValue {entries : List (String × Texts)}
    (hkeys : (entries.map Prod.fst).Nodup) :
    ((entries.map fun e => (e.1, e.2.toValue)).map Prod.fst).Nodup := by
  rw [List.map_map]
  exact hkeys

/-- However a section with distinct keys is written, the table of the file holds it alone. -/
theorem tableOf_spelled {name : String} {entries : List (String × Texts)}
    (hkeys : (entries.map Prod.fst).Nodup) {s : String} (h : SpellsSection name entries s.toList) :
    tableOf (some s.toByteArray) =
      .ok [(name, .table (entries.map fun e => (e.1, e.2.toValue)))] := by
  have htable := tableOf?_section name (nodup_keys_toValue hkeys)
  have hstatements : (entries.map fun e => (e.1, e.2.toValue)).map
      (fun e => Statement.assign [e.1] e.2) =
        entries.map fun e => Statement.assign [e.1] e.2.toValue := List.map_map
  rw [hstatements] at htable
  have hdocument : Toml.document (String.ofList (Text.unifyBreaks s.toList)) =
      .ok [(name, .table (entries.map fun e => (e.1, e.2.toValue)))] := by
    rw [Text.unifyBreaks_eq_self h.return_not_mem, Toml.document, String.toList_ofList,
      ofText_spelled h, Script.table]
    simp only [htable]
  rw [tableOf_toByteArray, tableOfText, hdocument]

/-- A section of options with distinct keys comes back from a file as it was written, whichever of
its ways of writing was taken: all keys in their order, each with its string or list of strings. -/
theorem optionSection_of_written {entries : List (String × Texts)}
    (hkeys : (entries.map Prod.fst).Nodup) :
    SpellsSection "dissect" entries (writtenSection "dissect" entries).toList ∧
      ∀ s : String, SpellsSection "dissect" entries s.toList →
        ∃ t, tableOf (some s.toByteArray) = .ok t ∧
          optionSection t = entries.map (fun e => (e.1, e.2.toValue)) ∧
          ∀ e ∈ entries, (optionSection t).get? e.1 = some e.2.toValue := by
  refine ⟨spellsSection_writtenSection "dissect" entries, fun s hs => ?_⟩
  have hsection : optionSection [("dissect", .table (entries.map fun e => (e.1, e.2.toValue)))] =
      entries.map fun e => (e.1, e.2.toValue) := rfl
  refine ⟨_, tableOf_spelled hkeys hs, hsection, fun e he => ?_⟩
  have hmem : (e.1, e.2.toValue) ∈ entries.map fun e => (e.1, e.2.toValue) :=
    List.mem_map.mpr ⟨e, he, rfl⟩
  rw [hsection]
  exact Text.SortedMap.lookup_of_mem (nodup_keys_toValue hkeys) hmem

/-- A path with characters that end strings and begin comments elsewhere, a key that is not bare,
and an empty string in a list. -/
theorem optionSection_of_written_paths :
    let entries : List (String × Texts) :=
      [("keytab", .one "C:\\k \"#1\"\r\n\x1b😀"), ("decode as", .many ["tcp.port==8888,http", ""])]
    (entries.map Prod.fst).Nodup ∧
      ∃ t, tableOf (some (writtenSection "dissect" entries).toByteArray) = .ok t ∧
        optionSection t = [("keytab", .string "C:\\k \"#1\"\r\n\x1b😀"),
          ("decode as", .list [.string "tcp.port==8888,http", .string ""])] := by
  intro entries
  have hkeys : (entries.map Prod.fst).Nodup := by decide
  obtain ⟨hspells, hread⟩ := optionSection_of_written hkeys
  obtain ⟨t, htable, hsection, -⟩ := hread _ hspells
  exact ⟨hkeys, t, htable, hsection⟩

end Config

end Dissection
