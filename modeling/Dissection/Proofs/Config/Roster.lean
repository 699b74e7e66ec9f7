import Dissection.Config.Sections
import Dissection.Proofs.Registry
import Dissection.Proofs.Text.Pieces

/-!
# Heuristic dissectors in a configuration

Heuristic dissectors are listed as a table from short names to owners, as texts with a colon between
the two, or as one text with all of these. Where each form can say the same they build the same
registry.
-/

/-!
## Listed names

A name that is listed is tight and holds no comma, and a text with both properties is listed as it
stands. A text lists the names before a comma and then those after it, so texts may be listed apart or
in one text with commas between.
-/

namespace Dissection.Config

private theorem mem_namesIn {s name : String} (h : name ∈ namesIn s) :
    Text.Tight name.toList ∧ ',' ∉ name.toList := by
  obtain ⟨cs, hcs, rfl⟩ := List.mem_map.mp h
  obtain ⟨htrimmed, hne⟩ := List.mem_filter.mp hcs
  obtain ⟨piece, hpiece, rfl⟩ := List.mem_map.mp htrimmed
  rw [String.toList_ofList]
  refine ⟨Text.tight_trim (by simpa using hne), fun hcomma => ?_⟩
  exact Text.not_mem_of_mem_pieces hpiece ((Text.trim_infix piece).subset hcomma)

private theorem namesIn_append (s t : String) :
    namesIn (s ++ "," ++ t) = namesIn s ++ namesIn t := by
  have hcomma : (s ++ "," ++ t).toList = s.toList ++ ',' :: t.toList := by
    simp [String.toList_append]
  rw [namesIn, hcomma, Text.pieces_append_cons, List.map_append, List.filter_append,
    List.map_append]
  rfl

private theorem namesIn_intercalate (texts : List String) :
    namesIn (String.intercalate "," texts) = texts.flatMap namesIn := by
  induction texts with
  | nil => rw [String.intercalate_nil]; rfl
  | cons s texts ih =>
    cases texts with
    | nil => simp
    | cons t texts =>
      rw [String.intercalate_cons_cons, namesIn_append, ih]
      rfl

private theorem namesIn_of_comma_not_mem {s : String} (h : ',' ∉ s.toList)
    (hblank : ¬ Text.Blank s.toList) : namesIn s = [Text.strip s] := by
  have htrim := Text.trim_ne_nil_iff.mpr hblank
  simp [namesIn, Text.pieces_eq_singleton h, htrim, Text.strip]

private theorem stringsOf_map (texts : List String) : stringsOf (texts.map .string) = texts := by
  induction texts with
  | nil => rfl
  | cons s texts ih => rw [List.map_cons, stringsOf, ih]

private theorem namesOf_texts (texts : List String) :
    namesOf (.list (texts.map .string)) = texts.flatMap namesIn := by
  rw [namesOf, stringsOf_map]

private theorem namesOf_intercalate (texts : List String) :
    namesOf (.string (String.intercalate "," texts)) = namesOf (.list (texts.map .string)) := by
  rw [namesOf_texts, namesOf, namesIn_intercalate]

private theorem mem_namesOf {v : Value} {name : String} (h : name ∈ namesOf v) :
    Text.Tight name.toList ∧ ',' ∉ name.toList := by
  cases v with
  | string s => exact mem_namesIn h
  | list items =>
    obtain ⟨s, -, hname⟩ := List.mem_flatMap.mp h
    exact mem_namesIn hname
  | _ => exact absurd h List.not_mem_nil

private theorem namesIn_of_tight {s : String} (h : Text.Tight s.toList) (hcomma : ',' ∉ s.toList) :
    namesIn s = [s] := by
  obtain ⟨hne, htrim⟩ := Text.tight_iff.mp h
  have hblank : ¬ Text.Blank s.toList := Text.trim_ne_nil_iff.mp (by rwa [htrim])
  rw [namesIn_of_comma_not_mem hcomma hblank, Text.strip, htrim, String.ofList_toList]

/-- Texts are the names that they list exactly if each is tight and holds no comma. -/
theorem namesOf_texts_eq_self_iff (texts : List String) :
    namesOf (.list (texts.map .string)) = texts ↔
      ∀ text ∈ texts, Text.Tight text.toList ∧ ',' ∉ text.toList := by
  constructor
  · intro h text htext
    rw [← h] at htext
    exact mem_namesOf htext
  · intro h
    have hself : texts.flatMap namesIn = texts.flatMap fun text => [text] :=
      List.flatMap_congr fun text htext => namesIn_of_tight (h text htext).1 (h text htext).2
    rw [namesOf_texts, hself, List.flatMap_singleton']

theorem mem_namesUnder {t : Table} {key name : String} (h : name ∈ namesUnder t key) :
    Text.Tight name.toList ∧ ',' ∉ name.toList := by
  rw [namesUnder] at h
  cases hvalue : t.get? key with
  | none => simp [hvalue] at h
  | some v =>
    rw [hvalue, Option.map_some, Option.getD_some] at h
    exact mem_namesOf h

/-- Every name that a value lists is tight and holds no comma, and texts with both properties are
listed as they stand, so the names that a value lists are listed again as they are. Texts list the
same names apart as in one text with commas between. -/
theorem namesOf_canonical (v : Value) :
    (∀ name ∈ namesOf v, Text.Tight name.toList ∧ ',' ∉ name.toList) ∧
    namesOf (.list ((namesOf v).map .string)) = namesOf v ∧
    ∀ texts : List String,
      (namesOf (.list (texts.map .string)) = texts ↔
        ∀ text ∈ texts, Text.Tight text.toList ∧ ',' ∉ text.toList) ∧
      namesOf (.list (texts.map .string)) = namesOf (.string (String.intercalate "," texts)) := by
  have hnames : ∀ name ∈ namesOf v, Text.Tight name.toList ∧ ',' ∉ name.toList :=
    fun _ hname => mem_namesOf hname
  refine ⟨hnames, (namesOf_texts_eq_self_iff _).mpr hnames, fun texts => ?_⟩
  exact ⟨namesOf_texts_eq_self_iff texts, (namesOf_intercalate texts).symm⟩

/-- Texts with commas, blanks and nothing in them, among values that are no texts. -/
theorem namesOf_canonical_mixed :
    let texts := [" tcp,,u dp\u2003", "", ",\x1f", "tcp", "\u00a0,rtp\n,"]
    let v : Value := .list (.int 3 :: texts.map .string ++ [.list [.string "quic"], .null])
    let names := ["tcp", "u dp", "tcp", "rtp"]
    namesOf v = names ∧ Text.Tight "u dp".toList ∧ ',' ∉ "u dp".toList ∧
      namesOf (.list (names.map .string)) = names ∧
      namesOf (.string (String.intercalate "," texts)) = names := by
  intro texts v names
  have hv : namesOf v = names := by decide +kernel
  have htexts : namesOf (.list (texts.map .string)) = names := by decide +kernel
  obtain ⟨hnames, hagain, hjoined⟩ := namesOf_canonical v
  rw [hv] at hnames hagain
  obtain ⟨htight, hcomma⟩ := hnames "u dp" (by decide)
  exact ⟨hv, htight, hcomma, hagain, (hjoined texts).2.symm.trans htexts⟩

end Dissection.Config

namespace Dissection

namespace Table

private theorem set_of_not_mem {key : String} {t : Table} (h : key ∉ t.map Prod.fst) (v : Value) :
    set key v t = t ++ [(key, v)] := by
  induction t with
  | nil => rfl
  | cons e r ih =>
    rw [List.map_cons, List.mem_cons, not_or] at h
    have hne : e.1 ≠ key := Ne.symm h.1
    simp [set, hne, ih h.2]

private theorem ofEntries_of_nodup {entries : List (String × Value)}
    (h : (entries.map Prod.fst).Nodup) :
    ofEntries entries = entries := by
  induction entries using List.reverseRecOn with
  | nil => rfl
  | append_singleton entries e ih =>
    rw [List.map_append, List.nodup_append] at h
    have hnew : e.1 ∉ entries.map Prod.fst := fun hmem => h.2.2 e.1 hmem e.1 (by simp) rfl
    have hfront : ofEntries entries = entries := ih h.1
    rw [ofEntries] at hfront ⊢
    rw [List.foldl_append, hfront]
    exact set_of_not_mem hnew e.2

end Table

namespace Config

/-- The halves of a text: what stands before its first colon and after it; without one the text and
nothing. -/
structure Halves (item : String) (name owner : List Char) : Prop where
  toList_eq : item.toList = name ++ ':' :: owner ∨ item.toList = name ∧ owner = []
  colon_not_mem : ':' ∉ name

def pairOfHalves? (name owner : List Char) : Option (String × String) :=
  if Text.trim name = [] then none
  else some (String.ofList (Text.trim name), String.ofList
    (if Text.trim owner = [] then (Text.trim name).takeWhile (· ≠ '_') else Text.trim owner))

theorem exists_halves (item : String) : ∃ name owner, Halves item name owner := by
  cases hcut : Text.cutAt? ':' item.toList with
  | none => exact ⟨_, _, .inr ⟨rfl, rfl⟩, Text.cutAt?_eq_none_iff.mp hcut⟩
  | some halves =>
    obtain ⟨htext, hcolon⟩ := Text.cutAt?_eq_some_iff.mp hcut
    exact ⟨_, _, .inl htext, hcolon⟩

theorem Halves.pairOf?_eq {item : String} {name owner : List Char} (h : Halves item name owner) :
    pairOf? item = pairOfHalves? name owner := by
  obtain ⟨htext | ⟨htext, rfl⟩, hcolon⟩ := h
  · have hcut := Text.cutAt?_eq_some_iff.mpr ⟨htext, hcolon⟩
    simp only [pairOf?, hcut]
    rfl
  · rw [← htext] at hcolon ⊢
    have hcut := Text.cutAt?_eq_none_iff.mpr hcolon
    simp only [pairOf?, hcut]
    rfl

/-- A heuristic dissector with its owner that can be listed in each form. -/
structure Listable (pair : String × String) : Prop where
  name : Text.Tight pair.1.toList
  comma_name : ',' ∉ pair.1.toList
  colon_name : ':' ∉ pair.1.toList
  owner : ¬ Text.Blank pair.2.toList
  comma_owner : ',' ∉ pair.2.toList

instance (pair : String × String) : Decidable (Listable pair) :=
  decidable_of_iff
    (Text.Tight pair.1.toList ∧ ',' ∉ pair.1.toList ∧ ':' ∉ pair.1.toList ∧
      ¬ Text.Blank pair.2.toList ∧ ',' ∉ pair.2.toList)
    ⟨fun h => ⟨h.1, h.2.1, h.2.2.1, h.2.2.2.1, h.2.2.2.2⟩,
      fun h => ⟨h.name, h.comma_name, h.colon_name, h.owner, h.comma_owner⟩⟩

/-- Heuristic dissectors as a table from their short names to their owners. -/
def tableForm (pairs : List (String × String)) : Value :=
  .table (Table.ofEntries (pairs.map fun p => (p.1, .string p.2)))

def pairText (pair : String × String) : String := pair.1 ++ ":" ++ pair.2

def listForm (pairs : List (String × String)) : Value :=
  .list ((pairs.map pairText).map .string)

def textForm (pairs : List (String × String)) : Value :=
  .string (String.intercalate "," (pairs.map pairText))

private theorem pairsOfEntries_owners {pairs : List (String × String)}
    (h : ∀ p ∈ pairs, ¬ Text.Blank p.2.toList) :
    pairsOfEntries (pairs.map fun p => (p.1, .string p.2)) =
      pairs.map fun p => (p.1, Text.strip p.2) := by
  induction pairs with
  | nil => rfl
  | cons p pairs ih =>
    obtain ⟨hfirst, hrest⟩ := List.forall_mem_cons.mp h
    have howner : Text.strip p.2 ≠ "" := fun hnil => hfirst (Text.strip_eq_empty_iff.mp hnil)
    simp only [List.map_cons, pairsOfEntries, howner, if_false, ih hrest]

private theorem pairsOf_tableForm {pairs : List (String × String)}
    (hkeys : (pairs.map Prod.fst).Nodup)
    (h : ∀ p ∈ pairs, Listable p) :
    pairsOf (tableForm pairs) = pairs.map fun p => (p.1, Text.strip p.2) := by
  have hdistinct : ((pairs.map fun p => (p.1, Value.string p.2)).map Prod.fst).Nodup := by
    rw [List.map_map]
    exact hkeys
  rw [tableForm, Table.ofEntries_of_nodup hdistinct, pairsOf]
  exact pairsOfEntries_owners fun p hp => (h p hp).owner

private theorem Listable.pairs_pairText {pair : String × String} (h : Listable pair) :
    (namesIn (pairText pair)).filterMap pairOf? = [(pair.1, Text.strip pair.2)] := by
  obtain ⟨hname, hcommaName, hcolon, howner, hcommaOwner⟩ := h
  have htext : (pairText pair).toList = pair.1.toList ++ ':' :: pair.2.toList := by
    simp [pairText, String.toList_append]
  obtain ⟨kept, htrim, hkept⟩ := hname.trim_append ':' howner
  rw [← htext] at htrim
  have hcomma : ',' ∉ (pairText pair).toList := by
    simp [htext, hcommaName, hcommaOwner]
  have hblank : ¬ Text.Blank (pairText pair).toList := by
    rw [← Text.trim_eq_nil_iff, htrim]
    simp
  have hhalves : Halves (Text.strip (pairText pair)) pair.1.toList kept :=
    ⟨.inl (by rw [Text.toList_strip, htrim]), hcolon⟩
  have hread : pairOfHalves? pair.1.toList kept = some (pair.1, Text.strip pair.2) := by
    have hrest := Text.trim_ne_nil_iff.mpr howner
    rw [pairOfHalves?, (Text.tight_iff.mp hname).2, if_neg hname.ne_nil, hkept, if_neg hrest,
      String.ofList_toList]
    rfl
  rw [namesIn_of_comma_not_mem hcomma hblank,
    List.filterMap_cons_some (hhalves.pairOf?_eq.trans hread)]
  rfl

private theorem pairsOf_listForm {pairs : List (String × String)} (h : ∀ p ∈ pairs, Listable p) :
    pairsOf (listForm pairs) = pairs.map fun p => (p.1, Text.strip p.2) := by
  have hpairs : pairsOf (listForm pairs) = (namesOf (listForm pairs)).filterMap pairOf? := rfl
  rw [hpairs, listForm, namesOf_texts]
  induction pairs with
  | nil => rfl
  | cons p pairs ih =>
    obtain ⟨hfirst, hrest⟩ := List.forall_mem_cons.mp h
    rw [List.map_cons, List.flatMap_cons, List.filterMap_append, hfirst.pairs_pairText, ih hrest rfl]
    rfl

private theorem pairsOf_textForm {pairs : List (String × String)} (h : ∀ p ∈ pairs, Listable p) :
    pairsOf (textForm pairs) = pairs.map fun p => (p.1, Text.strip p.2) := by
  have hnames : namesOf (textForm pairs) = namesOf (listForm pairs) := namesOf_intercalate _
  rw [← pairsOf_listForm h]
  exact congrArg (List.filterMap pairOf?) hnames

private theorem roster_set_heuristics (rest : Table) (v : Value) :
    roster (rest.set "heuristics" v) = { roster rest with heuristics := pairsOf v } := by
  have hother {key : String} (h : key ≠ "heuristics") :
      namesUnder (rest.set "heuristics" v) key = namesUnder rest key := by
    rw [namesUnder, namesUnder, Table.get?_set_of_ne h]
  rw [roster, roster, Table.get?_set_self, hother (by decide), hother (by decide),
    hother (by decide)]
  rfl

/-- Heuristic dissectors with distinct short names build the same registry in each form, whatever
else the section says: the one in which they stand in their order with their owners stripped. -/
theorem registry_forms_agree {pairs : List (String × String)} (hkeys : (pairs.map Prod.fst).Nodup)
    (h : ∀ p ∈ pairs, Listable p) (rest : Table) :
    let built := Registry.ofRoster
      { roster rest with heuristics := pairs.map fun p => (p.1, Text.strip p.2) }
    registry (rest.set "heuristics" (tableForm pairs)) = built ∧
      registry (rest.set "heuristics" (listForm pairs)) = built ∧
      registry (rest.set "heuristics" (textForm pairs)) = built := by
  intro built
  refine ⟨?_, ?_, ?_⟩
  · rw [registry, roster_set_heuristics, pairsOf_tableForm hkeys h]
  · rw [registry, roster_set_heuristics, pairsOf_listForm h]
  · rw [registry, roster_set_heuristics, pairsOf_textForm h]

/-- Owners with a colon in them, alone or among blanks, and a short name with a blank inside. The
section had other heuristic dissectors before. -/
theorem registry_forms_agree_colons :
    let pairs := [("rtp_udp", "\t rtp:2 "), ("a b", ":"), ("rtp_stun", "rtp:2")]
    let rest : Table :=
      [("disabled_heuristics", .string "a b,gone"), ("heuristics", .string "quic"),
        ("protocols", .list [.string "tcp", .bool true, .string ":"])]
    let built : Registry :=
      { protocols := [("tcp", true), (":", true), ("rtp:2", true)]
        heuristics :=
          [⟨"rtp_udp", "rtp:2", true⟩, ⟨"a b", ":", false⟩, ⟨"rtp_stun", "rtp:2", true⟩] }
    (pairs.map Prod.fst).Nodup ∧ (∀ p ∈ pairs, Listable p) ∧
      registry (rest.set "heuristics" (tableForm pairs)) = built ∧
      registry (rest.set "heuristics" (listForm pairs)) = built ∧
      registry (rest.set "heuristics" (textForm pairs)) = built := by
  intro pairs rest built
  have hkeys : (pairs.map Prod.fst).Nodup := by decide
  have hpairs : ∀ p ∈ pairs, Listable p := by decide
  have hbuilt : Registry.ofRoster
      { roster rest with heuristics := pairs.map fun p => (p.1, Text.strip p.2) } = built := by
    decide +kernel
  have hagree := registry_forms_agree hkeys hpairs rest
  simp only [hbuilt] at hagree
  exact ⟨hkeys, hpairs, hagree⟩

end Config

end Dissection
