import Dissection.Proofs.Config.Roster

/-!
# Malformed names

The names in a registry that is built from a configuration are tight, with two exceptions: the keys
of a table of heuristic dissectors are taken as they stand, and an owner that is not written is the
short name up to its first underscore, which may be nothing or end with a blank.
-/

namespace Dissection

namespace Registry

/-- Whether a name stands in a registry: for a protocol, a heuristic dissector, or its owner. -/
def Holds (r : Registry) (name : String) : Prop :=
  name ∈ r.protocols.map Prod.fst ∨ ∃ h ∈ r.heuristics, name = h.name ∨ name = h.owner

private theorem holds_ofRoster (r : Roster) (name : String) : (ofRoster r).Holds name ↔
    name ∈ r.protocols ∨ ∃ pair ∈ r.heuristics, name = pair.1 ∨ name = pair.2 := by
  have hheuristics : (∃ h ∈ (ofRoster r).heuristics, name = h.name ∨ name = h.owner) ↔
      ∃ pair ∈ r.heuristics, name = pair.1 ∨ name = pair.2 := by
    simp [ofRoster]
  rw [Holds, mem_keys_ofRoster, hheuristics, or_assoc]
  -- every owner is the owner of a heuristic dissector
  refine or_congr_right (or_iff_right_of_imp fun howner => ?_)
  obtain ⟨pair, hpair, rfl⟩ := List.mem_map.mp howner
  exact ⟨pair, hpair, .inr rfl⟩

end Registry

namespace Config

/-- The names that a value for the heuristic dissectors lists though they are not tight: keys of a
table, and owners that are not written after a short name which has nothing, or a blank last, before
its first underscore. -/
inductive Malforms : Value → String → Prop
  | key {entries : Table} {name owner : String} (hentry : (name, .string owner) ∈ entries)
      (howner : ¬ Text.Blank owner.toList) (hname : ¬ Text.Tight name.toList) :
      Malforms (.table entries) name
  | owner {v : Value} {item : String} {name owner front rest : List Char}
      (hitem : item ∈ namesOf v) (hhalves : Halves item name owner) (howner : Text.Blank owner)
      (hname : Text.trim name = front ++ '_' :: rest) (hfirst : '_' ∉ front)
      (hfront : ¬ Text.Tight front) : Malforms v (String.ofList front)

private theorem mem_pairsOfEntries {entries : Table} {pair : String × String} :
    pair ∈ pairsOfEntries entries ↔ ∃ owner, (pair.1, Value.string owner) ∈ entries ∧
      ¬ Text.Blank owner.toList ∧ pair.2 = Text.strip owner := by
  induction entries with
  | nil => simp [pairsOfEntries]
  | cons e entries ih =>
    obtain ⟨key, v⟩ := e
    cases v with
    | string s =>
      have hfirst : pair ∈ pairsOfEntries ((key, .string s) :: entries) ↔
          (pair.1 = key ∧ ¬ Text.Blank s.toList ∧ pair.2 = Text.strip s) ∨
            pair ∈ pairsOfEntries entries := by
        by_cases hs : Text.Blank s.toList <;>
          simp [pairsOfEntries, Text.strip_eq_empty_iff, hs, Prod.ext_iff]
      rw [hfirst, ih]
      simp only [List.mem_cons, Prod.mk.injEq, Value.string.injEq, or_and_right, exists_or,
        and_assoc, exists_and_left, exists_eq_left]
    | _ => simp [pairsOfEntries, ih]

private theorem mem_pairsOf_iff {v : Value} {pair : String × String} : pair ∈ pairsOf v ↔
    (∃ entries, v = .table entries ∧ pair ∈ pairsOfEntries entries) ∨
      ∃ item ∈ namesOf v, pairOf? item = some pair := by
  cases v with
  | table entries => simp [pairsOf, namesOf]
  | _ => simp [pairsOf]

private theorem takeWhile_underscore {front : List Char} (h : '_' ∉ front) (rest : List Char) :
    (front ++ '_' :: rest).takeWhile (· ≠ '_') = front := by
  have hfront : ∀ c ∈ front, decide (c ≠ '_') = true := fun c hc =>
    decide_eq_true fun heq => h (heq ▸ hc)
  rw [List.takeWhile_append_of_pos hfront]
  simp

private theorem tight_derived {name : List Char} (h : Text.Tight name) :
    Text.Tight (name.takeWhile (· ≠ '_')) ∨
      ∃ front rest, name = front ++ '_' :: rest ∧ '_' ∉ front ∧ ¬ Text.Tight front ∧
        name.takeWhile (· ≠ '_') = front := by
  cases hcut : Text.cutAt? '_' name with
  | none =>
    have hfree := Text.cutAt?_eq_none_iff.mp hcut
    have hwhole : name.takeWhile (· ≠ '_') = name :=
      List.takeWhile_eq_self_iff.mpr fun c hc => decide_eq_true fun heq => hfree (heq ▸ hc)
    exact .inl (hwhole.symm ▸ h)
  | some halves =>
    obtain ⟨hname, hfirst⟩ := Text.cutAt?_eq_some_iff.mp hcut
    have hfront := takeWhile_underscore hfirst halves.2
    rw [← hname] at hfront
    by_cases htight : Text.Tight halves.1
    · exact .inl (hfront.symm ▸ htight)
    · exact .inr ⟨halves.1, halves.2, hname, hfirst, htight, hfront⟩

private theorem malforms_of_item {v : Value} {item : String} {pair : String × String}
    (hitem : item ∈ namesOf v) (hpair : pairOf? item = some pair) :
    Text.Tight pair.1.toList ∧ (Text.Tight pair.2.toList ∨ Malforms v pair.2) := by
  obtain ⟨name, owner, hhalves⟩ := exists_halves item
  rw [hhalves.pairOf?_eq, pairOfHalves?] at hpair
  split at hpair
  · cases hpair
  · rename_i hname
    cases hpair
    have htight := Text.tight_trim hname
    rw [String.toList_ofList, String.toList_ofList]
    refine ⟨htight, ?_⟩
    split
    · rename_i howner
      have hblank := Text.trim_eq_nil_iff.mp howner
      rcases tight_derived htight with hfront | ⟨front, rest, hcut, hfirst, hfront, heq⟩
      · exact .inl hfront
      · rw [heq]
        exact .inr (.owner hitem hhalves hblank hcut hfirst hfront)
    · rename_i howner
      exact .inl (Text.tight_trim howner)

private theorem Malforms.exists_pair {v : Value} {name : String} (h : Malforms v name) :
    (∃ pair ∈ pairsOf v, name = pair.1 ∨ name = pair.2) ∧ ¬ Text.Tight name.toList := by
  cases h with
  | @key entries _ owner hentry howner hname =>
    have hpair : (name, Text.strip owner) ∈ pairsOfEntries entries :=
      mem_pairsOfEntries.mpr ⟨owner, hentry, howner, rfl⟩
    exact ⟨⟨_, mem_pairsOf_iff.mpr (.inl ⟨_, rfl, hpair⟩), .inl rfl⟩, hname⟩
  | @owner _ item name owner front rest hitem hhalves howner hname hfirst hfront =>
    have hpair : pairOf? item = some (String.ofList (Text.trim name), String.ofList front) := by
      have hne : Text.trim name ≠ [] := by simp [hname]
      rw [hhalves.pairOf?_eq, pairOfHalves?, if_neg hne, if_pos (Text.trim_eq_nil_iff.mpr howner),
        hname, takeWhile_underscore hfirst]
    refine ⟨⟨_, mem_pairsOf_iff.mpr (.inr ⟨item, hitem, hpair⟩), .inr rfl⟩, ?_⟩
    rwa [String.toList_ofList]

private theorem malforms_of_entry {entries : Table} {pair : String × String}
    (hpair : pair ∈ pairsOfEntries entries) :
    (Text.Tight pair.1.toList ∨ Malforms (.table entries) pair.1) ∧ Text.Tight pair.2.toList := by
  obtain ⟨owner, hentry, howner, hsecond⟩ := mem_pairsOfEntries.mp hpair
  constructor
  · by_cases hkey : Text.Tight pair.1.toList
    · exact .inl hkey
    · exact .inr (.key hentry howner hkey)
  · rw [hsecond, Text.toList_strip]
    exact Text.tight_trim (Text.trim_ne_nil_iff.mpr howner)

/-- The malformed names of a value are those that stand in its pairs and are not tight. -/
theorem malforms_iff {v : Value} {name : String} : Malforms v name ↔
    (∃ pair ∈ pairsOf v, name = pair.1 ∨ name = pair.2) ∧ ¬ Text.Tight name.toList := by
  refine ⟨Malforms.exists_pair, ?_⟩
  rintro ⟨⟨pair, hpair, hname⟩, hmalformed⟩
  have hparts : (Text.Tight pair.1.toList ∨ Malforms v pair.1) ∧
      (Text.Tight pair.2.toList ∨ Malforms v pair.2) := by
    rcases mem_pairsOf_iff.mp hpair with ⟨entries, rfl, hentry⟩ | ⟨item, hitem, hread⟩
    · exact (malforms_of_entry hentry).imp_right .inl
    · exact (malforms_of_item hitem hread).imp_left .inl
  rcases hname with rfl | rfl
  · exact hparts.1.resolve_left hmalformed
  · exact hparts.2.resolve_left hmalformed

/-- The names in the registry of a configuration are tight but for those that its value for the
heuristic dissectors malforms, whatever the values in the section are. -/
theorem registry_malformed_iff (t : Table) (name : String) :
    (registry t).Holds name ∧ ¬ Text.Tight name.toList ↔
      ∃ v, t.get? "heuristics" = some v ∧ Malforms v name := by
  have hprotocols : ¬ (name ∈ (roster t).protocols ∧ ¬ Text.Tight name.toList) :=
    fun h => h.2 (mem_namesUnder h.1).1
  rw [registry, Registry.holds_ofRoster, or_and_right, or_iff_right hprotocols]
  cases hvalue : t.get? "heuristics" with
  | none => simp [roster, hvalue]
  | some v =>
    have hpairs : (roster t).heuristics = pairsOf v := by simp [roster, hvalue]
    rw [hpairs, ← malforms_iff]
    simp

/-- A key with blanks around it, and short names without owners with a blank before the first
underscore and with nothing there. -/
theorem registry_holds_malformed :
    let keyed : Table := [("heuristics", .table [(" rtp_udp ", .string "rtp")])]
    let listed : Table := [("heuristics", .list [.string "a _b", .string "_x"])]
    (registry keyed).Holds " rtp_udp " ∧ ¬ Text.Tight " rtp_udp ".toList ∧
      (registry listed).Holds "a " ∧ ¬ Text.Tight "a ".toList ∧
      (registry listed).Holds "" ∧ ¬ Text.Tight "".toList := by
  intro keyed listed
  refine ⟨.inr ?_, by decide, .inl ?_, by decide, .inl ?_, by decide⟩
  · exact ⟨⟨" rtp_udp ", "rtp", true⟩, by decide +kernel, .inl rfl⟩
  · decide +kernel
  · decide +kernel

end Config

end Dissection
