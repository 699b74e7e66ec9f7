import Dissection.Json
import Dissection.Proofs.Json.Printer
import Dissection.Proofs.Text.Pieces
import Dissection.Proofs.Text.SortedMap
import Mathlib.Data.List.DropRight

/-!
# Printed values read back

What is read of a printed value is the value with the entries of its objects sorted. The bound of
the readers is never met, since a printed value is longer than it is deep.
-/

/-!
## Values up to the order of their entries

The entries of an object have no order of their own. Sorting them throughout a value leaves a value
that is the same but for the order, as long as no object has two entries for one key.
-/

namespace Dissection.Json

open Text

/-- What passes from the members of arrays and objects to the whole holds of every value. -/
theorem byMembers {P : Json → Prop} (bool : ∀ b, P (.bool b)) (string : ∀ s, P (.string s))
    (array : ∀ items : List Json, (∀ v ∈ items, P v) → P (.array items))
    (object : ∀ entries : List (String × Json), (∀ e ∈ entries, P e.2) → P (.object entries))
    (v : Json) : P v :=
  @Json.rec P (fun items => ∀ v ∈ items, P v) (fun entries => ∀ e ∈ entries, P e.2) (fun e => P e.2)
    bool string array object (by simp) (fun _ _ hv hitems => List.forall_mem_cons.mpr ⟨hv, hitems⟩)
    (by simp) (fun _ _ he hentries => List.forall_mem_cons.mpr ⟨he, hentries⟩) (fun _ _ hv => hv) v

/-- Whether the entries of every object within a value have a property. -/
inductive EveryObject (p : List (String × Json) → Prop) : Json → Prop where
  | bool (b : Bool) : EveryObject p (.bool b)
  | string (s : String) : EveryObject p (.string s)
  | array {items : List Json} (h : ∀ v ∈ items, EveryObject p v) : EveryObject p (.array items)
  | object {entries : List (String × Json)} (hentries : p entries)
    (h : ∀ e ∈ entries, EveryObject p e.2) : EveryObject p (.object entries)

private theorem everyObject_array_iff {p : List (String × Json) → Prop} {items : List Json} :
    (array items).EveryObject p ↔ ∀ v ∈ items, v.EveryObject p :=
  ⟨fun | .array h => h, .array⟩

theorem everyObject_object_iff {p : List (String × Json) → Prop} {entries : List (String × Json)} :
    (object entries).EveryObject p ↔ p entries ∧ ∀ e ∈ entries, e.2.EveryObject p :=
  ⟨fun | .object hentries h => ⟨hentries, h⟩, fun ⟨hentries, h⟩ => .object hentries h⟩

/-- Whether the keys of every object are in strictly increasing order. -/
def Ordered : Json → Prop := EveryObject SortedMap.Sorted

/-- Whether no object has two entries for one key. -/
def Distinct : Json → Prop := EveryObject fun entries => (entries.map Prod.fst).Nodup

/-- Whether two values differ in nothing but the order of the entries of objects. -/
inductive Same : Json → Json → Prop where
  | bool (b : Bool) : Same (.bool b) (.bool b)
  | string (s : String) : Same (.string s) (.string s)
  | array {items others : List Json} (h : List.Forall₂ Same items others) :
    Same (.array items) (.array others)
  | object {entries moved others : List (String × Json)} (hmoved : entries.Perm moved)
    (hkeys : moved.map Prod.fst = others.map Prod.fst)
    (h : List.Forall₂ Same (moved.map Prod.snd) (others.map Prod.snd)) :
    Same (.object entries) (.object others)

mutual

/-- The value with the entries of its objects sorted. -/
def sorted : Json → Json
  | .bool b => .bool b
  | .string s => .string s
  | .array items => .array (sortedItems items)
  | .object entries => .object (SortedMap.ofEntries (sortedEntries entries))

def sortedItems : List Json → List Json
  | [] => []
  | v :: r => v.sorted :: sortedItems r

/-- The entries in their order with those of the objects within sorted. -/
def sortedEntries : List (String × Json) → List (String × Json)
  | [] => []
  | (key, v) :: r => (key, v.sorted) :: sortedEntries r

end

private theorem sorted_array (items : List Json) :
    (array items).sorted = array (items.map sorted) := by
  rw [sorted]
  congr 1
  induction items with
  | nil => rfl
  | cons v items ih => rw [sortedItems, List.map_cons, ih]

theorem sorted_object (entries : List (String × Json)) :
    (object entries).sorted =
      object ((SortedMap.ofEntries entries).map fun e => (e.1, e.2.sorted)) := by
  have hentries : sortedEntries entries = entries.map fun e => (e.1, e.2.sorted) := by
    induction entries with
    | nil => rfl
    | cons e entries ih => rw [sortedEntries, List.map_cons, ih]
  rw [sorted, hentries, SortedMap.ofEntries_map]

theorem ordered_sorted (v : Json) : v.sorted.Ordered := by
  induction v using byMembers with
  | bool b => exact .bool b
  | string s => exact .string s
  | array items ih =>
    rw [sorted_array]
    exact .array (List.forall_mem_map.mpr ih)
  | object entries ih =>
    rw [sorted_object]
    apply EveryObject.object
    · exact List.pairwise_map.mpr (SortedMap.sorted_ofEntries entries)
    · intro e he
      obtain ⟨f, hf, rfl⟩ := List.mem_map.mp he
      exact ih f (SortedMap.mem_of_mem_ofEntries hf)

theorem Distinct.same_sorted {v : Json} (h : v.Distinct) : v.Same v.sorted := by
  induction v using byMembers with
  | bool b => exact .bool b
  | string s => exact .string s
  | array items ih =>
    have hitems := everyObject_array_iff.mp h
    rw [sorted_array]
    apply Same.array
    rw [List.forall₂_map_right_iff, List.forall₂_same]
    intro v hv
    exact ih v hv (hitems v hv)
  | object entries ih =>
    obtain ⟨hkeys, hentries⟩ := everyObject_object_iff.mp h
    rw [sorted_object]
    apply Same.object (SortedMap.ofEntries_perm hkeys).symm
    · rw [List.map_map]
      rfl
    · rw [List.map_map, List.forall₂_map_right_iff, List.forall₂_map_left_iff, List.forall₂_same]
      intro e he
      have hmem := SortedMap.mem_of_mem_ofEntries he
      exact ih e hmem (hentries e hmem)

theorem Distinct.lookup_sorted {entries : List (String × Json)} (h : (object entries).Distinct)
    {e : String × Json} (he : e ∈ entries) :
    ((SortedMap.ofEntries entries).map fun e => (e.1, e.2.sorted)).lookup e.1 =
      some e.2.sorted := by
  obtain ⟨hkeys, -⟩ := everyObject_object_iff.mp h
  have hmem := (SortedMap.ofEntries_perm hkeys).mem_iff.mpr he
  apply SortedMap.lookup_of_mem (e := (e.1, e.2.sorted)) _ (List.mem_map.mpr ⟨e, hmem, rfl⟩)
  rw [List.map_map]
  exact (SortedMap.sorted_ofEntries entries).nodup

end Dissection.Json

namespace Dissection.Json

open Text

private theorem printItems_eq_map (level : Nat) (items : List Json) :
    printItems level items = items.map (printAt level) := by
  induction items with
  | nil => rfl
  | cons v items ih => rw [printItems, ih, List.map_cons]

private theorem printAt_object (level : Nat) (entries : List (String × Json)) :
    (object entries).printAt level =
      block '\x7b' '\x7d' level
        ((SortedMap.ofEntries entries).map fun e => entry e.1 (e.2.printAt (level + 1))) := by
  have hentries : printEntries (level + 1) entries =
      entries.map fun e => (e.1, e.2.printAt (level + 1)) := by
    induction entries with
    | nil => rfl
    | cons e entries ih => rw [printEntries, ih, List.map_cons]
  rw [printAt, hentries, SortedMap.ofEntries_map, List.map_map]
  rfl

private theorem skipSpaces_newLine (level : Nat) (cs : List Char) :
    skipSpaces (newLine level ++ cs) = skipSpaces cs := by
  apply List.dropWhile_append_of_pos
  intro c hc
  rcases List.mem_cons.mp hc with rfl | hc
  · rfl
  · rw [List.eq_of_mem_replicate hc]
    rfl

theorem skipSpaces_cons {c : Char} (hc : isSpace c = false) (cs : List Char) :
    skipSpaces (c :: cs) = c :: cs :=
  List.dropWhile_cons_of_neg (by simp [hc])

private theorem readUpTo?_congr {cs ds : List Char} (h : skipSpaces cs = skipSpaces ds)
    (bound : Nat) :
    readUpTo? bound cs = readUpTo? bound ds := by
  cases bound with
  | zero => rfl
  | succ bound => rw [readUpTo?, readUpTo?, h]

private theorem readItemsUpTo?_congr {cs ds : List Char} (h : skipSpaces cs = skipSpaces ds)
    (bound : Nat) : readItemsUpTo? bound cs = readItemsUpTo? bound ds := by
  cases bound with
  | zero => rfl
  | succ bound => rw [readItemsUpTo?, readItemsUpTo?, readUpTo?_congr h]

private theorem readEntriesUpTo?_congr {cs ds : List Char} (h : skipSpaces cs = skipSpaces ds)
    (bound : Nat) : readEntriesUpTo? bound cs = readEntriesUpTo? bound ds := by
  cases bound with
  | zero => rfl
  | succ bound => rw [readEntriesUpTo?, readEntriesUpTo?, h]

/-- Whether a value is read from a text, whatever follows the text. -/
def ReadFrom (text : List Char) (v : Json) : Prop :=
  ∀ bound rest, text.length ≤ bound → readUpTo? bound (text ++ rest) = some (v, rest)

/-- The items of an array as they stand between its brackets. -/
def itemsText (level : Nat) (items : List Json) : List Char :=
  joined (',' :: newLine level) (items.map (printAt level))

/-- The entries of an object as they stand between its braces. -/
def entriesText (level : Nat) (entries : List (String × Json)) : List Char :=
  joined (',' :: newLine level) (entries.map fun e => entry e.1 (e.2.printAt level))

private theorem block_of_ne_nil (first last : Char) (level : Nat) {parts : List (List Char)}
    (h : parts ≠ []) :
    block first last level parts =
      first :: (newLine (level + 1) ++ (joined (',' :: newLine (level + 1)) parts ++
        (newLine level ++ [last]))) := by
  simp [block, joined, h]

private theorem readItemsUpTo?_itemsText (level outer : Nat) (rest : List Char) {items : List Json}
    (hne : items ≠ []) (h : ∀ v ∈ items, ReadFrom (v.printAt level) v.sorted) (bound : Nat)
    (hbound : (itemsText level items).length < bound) :
    readItemsUpTo? bound (itemsText level items ++ (newLine outer ++ ']' :: rest)) =
      some (items.map sorted, rest) := by
  -- an item takes one from the bound, and more than one character from the text
  induction items generalizing bound with
  | nil => exact absurd rfl hne
  | cons v items ih =>
    obtain ⟨hv, hitems⟩ := List.forall_mem_cons.mp h
    obtain ⟨bound, rfl⟩ : ∃ b, bound = b + 1 := ⟨bound - 1, by omega⟩
    cases items with
    | nil =>
      simp only [itemsText, List.map_cons, List.map_nil, joined_singleton] at hbound ⊢
      have hread := hv bound (newLine outer ++ ']' :: rest) (by omega)
      have hclose : skipSpaces (newLine outer ++ ']' :: rest) = ']' :: rest := by
        rw [skipSpaces_newLine, skipSpaces_cons rfl]
      rw [readItemsUpTo?, hread]
      simp [hclose]
    | cons w items =>
      simp only [itemsText, List.map_cons, joined_cons_cons, List.length_append, List.length_cons,
        List.cons_append, List.append_assoc] at hbound ih ⊢
      have hread := hv bound
      have hnext := ih (List.cons_ne_nil w items) hitems bound (by omega)
      rw [← readItemsUpTo?_congr (skipSpaces_newLine level _)] at hnext
      rw [readItemsUpTo?, hread _ (by omega)]
      simp [skipSpaces_cons, isSpace, hnext]

private theorem readString?_entry (key : String) (text rest : List Char) :
    readString? (skipSpaces (entry key text ++ rest)) =
      some (key, ':' :: ' ' :: (text ++ rest)) := by
  have hspaces (cs : List Char) : skipSpaces (quoted key ++ cs) = quoted key ++ cs :=
    skipSpaces_cons rfl _
  rw [entry, List.append_assoc, hspaces, readString?_quoted]
  rfl

private theorem length_le_entry (key : String) (text : List Char) :
    text.length ≤ (entry key text).length := by
  simp only [entry, List.length_append, List.length_cons]
  omega

private theorem ReadFrom.after_space {text : List Char} {v : Json} (h : ReadFrom text v)
    (bound : Nat)
    (rest : List Char) (hbound : text.length ≤ bound) :
    readUpTo? bound (' ' :: (text ++ rest)) = some (v, rest) := by
  have hspace : skipSpaces (' ' :: (text ++ rest)) = skipSpaces (text ++ rest) := rfl
  rw [readUpTo?_congr hspace]
  exact h bound rest hbound

private theorem readEntriesUpTo?_entriesText (level outer : Nat) (rest : List Char)
    {entries : List (String × Json)} (hne : entries ≠ [])
    (h : ∀ e ∈ entries, ReadFrom (e.2.printAt level) e.2.sorted) (bound : Nat)
    (hbound : (entriesText level entries).length < bound) :
    readEntriesUpTo? bound (entriesText level entries ++ (newLine outer ++ '\x7d' :: rest)) =
      some (entries.map fun e => (e.1, e.2.sorted), rest) := by
  induction entries generalizing bound with
  | nil => exact absurd rfl hne
  | cons e entries ih =>
    obtain ⟨he, hentries⟩ := List.forall_mem_cons.mp h
    have hfits := length_le_entry e.1 (e.2.printAt level)
    obtain ⟨bound, rfl⟩ : ∃ b, bound = b + 1 := ⟨bound - 1, by omega⟩
    cases entries with
    | nil =>
      simp only [entriesText, List.map_cons, List.map_nil, joined_singleton] at hbound ⊢
      have hread := he.after_space bound (newLine outer ++ '\x7d' :: rest) (by omega)
      have hclose : skipSpaces (newLine outer ++ '\x7d' :: rest) = '\x7d' :: rest := by
        rw [skipSpaces_newLine, skipSpaces_cons rfl]
      rw [readEntriesUpTo?, readString?_entry]
      simp [skipSpaces_cons, isSpace, hread, hclose]
    | cons f entries =>
      simp only [entriesText, List.map_cons, joined_cons_cons, List.length_append,
        List.length_cons, List.cons_append, List.append_assoc] at hbound ih ⊢
      have hread (cs : List Char) := he.after_space bound cs (by omega)
      have hnext := ih (List.cons_ne_nil f entries) hentries bound (by omega)
      rw [← readEntriesUpTo?_congr (skipSpaces_newLine level _)] at hnext
      rw [readEntriesUpTo?, readString?_entry]
      simp [skipSpaces_cons, isSpace, hread, hnext]

private theorem skipSpaces_skipSpaces (cs : List Char) :
    skipSpaces (skipSpaces cs) = skipSpaces cs :=
  List.dropWhile_idempotent isSpace cs

private theorem readUpTo?_array {cs : List Char} (h : ∀ r, skipSpaces cs ≠ ']' :: r) (bound : Nat) :
    readUpTo? (bound + 1) ('[' :: cs) =
      (readItemsUpTo? bound cs).map fun p => (array p.1, p.2) := by
  rw [readUpTo?, skipSpaces_cons rfl, ← readItemsUpTo?_congr (skipSpaces_skipSpaces cs)]
  -- the closing bracket does not follow, so the array is not the empty one
  simp only

private theorem readUpTo?_object {cs : List Char} (h : ∀ r, skipSpaces cs ≠ '\x7d' :: r)
    (bound : Nat) :
    readUpTo? (bound + 1) ('\x7b' :: cs) =
      (readEntriesUpTo? bound cs).map fun p => (object p.1, p.2) := by
  rw [readUpTo?, skipSpaces_cons rfl, ← readEntriesUpTo?_congr (skipSpaces_skipSpaces cs)]
  simp only

private theorem printAt_eq_cons (level : Nat) (v : Json) :
    ∃ c cs, v.printAt level = c :: cs ∧ isSpace c = false ∧ c ≠ ']' := by
  cases v with
  | bool b => cases b <;> exact ⟨_, _, rfl, rfl, by decide⟩
  | string s => exact ⟨_, _, rfl, rfl, by decide⟩
  | array items =>
    rw [printAt, block]
    split <;> exact ⟨_, _, rfl, rfl, by decide⟩
  | object entries =>
    rw [printAt, block]
    split <;> exact ⟨_, _, rfl, rfl, by decide⟩

private theorem itemsText_eq_cons (level : Nat) (v : Json) (items : List Json) :
    ∃ c cs, itemsText level (v :: items) = c :: cs ∧ isSpace c = false ∧ c ≠ ']' := by
  obtain ⟨cs, hcs⟩ := joined_eq_append (',' :: newLine level) (v.printAt level)
    (items.map (printAt level))
  obtain ⟨c, t, ht, hc⟩ := printAt_eq_cons level v
  exact ⟨c, t ++ cs, by rw [itemsText, List.map_cons, hcs, ht, List.cons_append], hc⟩

private theorem entriesText_eq_cons (level : Nat) (e : String × Json)
    (entries : List (String × Json)) :
    ∃ cs, entriesText level (e :: entries) = '"' :: cs := by
  obtain ⟨cs, hcs⟩ := joined_eq_append (',' :: newLine level) (entry e.1 (e.2.printAt level))
    (entries.map fun f => entry f.1 (f.2.printAt level))
  exact ⟨_, hcs⟩

private theorem readFrom_array (level : Nat) {items : List Json}
    (h : ∀ v ∈ items, ReadFrom (v.printAt (level + 1)) v.sorted) :
    ReadFrom ((array items).printAt level) (array items).sorted := by
  intro bound rest hbound
  rw [sorted_array]
  rw [printAt, printItems_eq_map] at hbound ⊢
  cases items with
  | nil =>
    obtain ⟨bound, rfl⟩ : ∃ b, bound = b + 1 := ⟨bound - 1, by simp [block] at hbound; omega⟩
    rfl
  | cons v items =>
    rw [block_of_ne_nil _ _ _ (by simp), ← itemsText] at hbound ⊢
    simp only [List.length_cons, List.length_append] at hbound
    obtain ⟨bound, rfl⟩ : ∃ b, bound = b + 1 := ⟨bound - 1, by omega⟩
    have hitems := readItemsUpTo?_itemsText (level + 1) level rest (List.cons_ne_nil v items) h
      bound (by omega)
    rw [← readItemsUpTo?_congr (skipSpaces_newLine (level + 1) _)] at hitems
    simp only [List.cons_append, List.append_assoc, List.nil_append]
    rw [readUpTo?_array _ bound, hitems]
    · rfl
    · intro r
      obtain ⟨c, cs, hcs, hspace, hc⟩ := itemsText_eq_cons (level + 1) v items
      rw [skipSpaces_newLine, hcs, List.cons_append, skipSpaces_cons hspace]
      simp [hc]

private theorem readFrom_object (level : Nat) {entries : List (String × Json)}
    (h : ∀ e ∈ entries, ReadFrom (e.2.printAt (level + 1)) e.2.sorted) :
    ReadFrom ((object entries).printAt level) (object entries).sorted := by
  have hsorted : ∀ e ∈ SortedMap.ofEntries entries, ReadFrom (e.2.printAt (level + 1)) e.2.sorted :=
    fun e he => h e (SortedMap.mem_of_mem_ofEntries he)
  intro bound rest hbound
  rw [sorted_object]
  rw [printAt_object] at hbound ⊢
  generalize SortedMap.ofEntries entries = es at hsorted hbound ⊢
  cases es with
  | nil =>
    obtain ⟨bound, rfl⟩ : ∃ b, bound = b + 1 := ⟨bound - 1, by simp [block] at hbound; omega⟩
    rfl
  | cons e es =>
    rw [block_of_ne_nil _ _ _ (by simp), ← entriesText] at hbound ⊢
    simp only [List.length_cons, List.length_append] at hbound
    obtain ⟨bound, rfl⟩ : ∃ b, bound = b + 1 := ⟨bound - 1, by omega⟩
    have hentries := readEntriesUpTo?_entriesText (level + 1) level rest (List.cons_ne_nil e es)
      hsorted bound (by omega)
    rw [← readEntriesUpTo?_congr (skipSpaces_newLine (level + 1) _)] at hentries
    simp only [List.cons_append, List.append_assoc, List.nil_append]
    rw [readUpTo?_object _ bound, hentries]
    · rfl
    · intro r
      obtain ⟨cs, hcs⟩ := entriesText_eq_cons (level + 1) e es
      rw [skipSpaces_newLine, hcs, List.cons_append, skipSpaces_cons rfl]
      simp

private theorem readFrom_bool (level : Nat) (b : Bool) :
    ReadFrom ((bool b).printAt level) (bool b) := by
  intro bound rest hbound
  have hlength : 0 < ((bool b).printAt level).length := by cases b <;> simp [printAt]
  obtain ⟨bound, rfl⟩ : ∃ b, bound = b + 1 := ⟨bound - 1, by omega⟩
  cases b <;> rfl

private theorem readFrom_string (level : Nat) (s : String) :
    ReadFrom ((string s).printAt level) (string s) := by
  intro bound rest hbound
  rw [printAt] at hbound ⊢
  have hlength : 0 < (quoted s).length := Nat.zero_lt_succ _
  obtain ⟨bound, rfl⟩ : ∃ b, bound = b + 1 := ⟨bound - 1, by omega⟩
  have hread := readString?_quoted s rest
  rw [quoted, List.cons_append] at hread ⊢
  rw [readUpTo?, skipSpaces_cons rfl]
  change (((readString? _).map fun p => (string p.1, p.2)) <|> _) = _
  rw [hread]
  rfl

/-- A value is read from its printed form on any level up to the order of its entries. -/
theorem readFrom_printAt (level : Nat) (v : Json) : ReadFrom (v.printAt level) v.sorted := by
  induction v using byMembers generalizing level with
  | bool b => exact readFrom_bool level b
  | string s => exact readFrom_string level s
  | array items ih => exact readFrom_array level fun v hv => ih v hv (level + 1)
  | object entries ih => exact readFrom_object level fun e he => ih e he (level + 1)

theorem ofText?_print (v : Json) : ofText? (v.print ++ "\n") = some v.sorted := by
  have hlist : (v.print ++ "\n").toList = v.printAt 0 ++ ['\n'] := by
    rw [String.toList_append, print, String.toList_ofList]
    rfl
  have hbound : (v.printAt 0).length ≤ 2 * (v.print ++ "\n").length + 2 := by
    rw [← String.length_toList, hlist, List.length_append]
    omega
  rw [ofText?, hlist, readFrom_printAt 0 v _ _ hbound]
  rfl

end Dissection.Json
