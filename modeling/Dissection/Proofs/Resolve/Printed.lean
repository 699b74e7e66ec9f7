import Dissection.Proofs.Json.Roundtrip
import Dissection.Resolve

/-!
# Documents read back

A settings document has no key twice in any of its objects. So what is read of its print is the
document up to the order of its entries, and every section of it is there with all that it says.
-/

namespace Dissection

namespace Json

private theorem distinct_strings (xs : List String) : (strings xs).Distinct := by
  apply EveryObject.array
  rw [List.forall_mem_map]
  intro s _
  exact .string s

private theorem distinct_flags {xs : List (String × Bool)} (h : (xs.map Prod.fst).Nodup) :
    (flags xs).Distinct := by
  apply EveryObject.object
  · rw [List.map_map]
    exact h
  · rw [List.forall_mem_map]
    intro x _
    exact .bool x.2

end Json

private theorem NameResolution.distinct_document (r : NameResolution) : r.document.Distinct := by
  apply Json.distinct_flags
  rw [List.map_map]
  change (NameKind.all.map NameKind.name).Nodup
  decide

private theorem DecodeAs.distinct_document (d : DecodeAs) : d.document.Distinct := by
  apply Json.EveryObject.object
  · change ["table", "selector", "protocol"].Nodup
    decide
  · simp [Json.EveryObject.string]

private theorem Registry.distinct_document (r : Registry) : r.document.Distinct := by
  have hprotocols := Json.distinct_flags (Text.SortedMap.sorted_ofEntries r.protocols).nodup
  have hheuristics := Json.distinct_flags
    (Text.SortedMap.sorted_ofEntries (r.heuristics.map fun h => (h.name, h.enabled))).nodup
  apply Json.EveryObject.object
  · change ["protocols", "heuristics"].Nodup
    decide
  · simp only [List.forall_mem_cons]
    exact ⟨hprotocols, hheuristics, by simp⟩

private theorem distinct_document (s : Session) (r : Registry) : (document s r).Distinct := by
  apply Json.EveryObject.object
  · change ["time_format", "time_precision", "disable_protocols", "enable_protocols",
      "enable_heuristics", "disable_heuristics", "seconds_type", "name_resolution", "decode_as",
      "keytabs", "registry"].Nodup
    decide
  · have hrules : (Json.array (s.settings.rules.map DecodeAs.document)).Distinct := by
      apply Json.EveryObject.array
      rw [List.forall_mem_map]
      intro d _
      exact d.distinct_document
    have hnames := s.settings.names.distinct_document
    have hregistry := r.distinct_document
    simp only [List.forall_mem_append, List.forall_mem_cons, Options.entries, Settings.entries]
    refine ⟨⟨⟨.string _, .string _, Json.distinct_strings _, Json.distinct_strings _,
      Json.distinct_strings _, Json.distinct_strings _, by simp⟩, .string _, hnames, hrules,
      Json.distinct_strings _, by simp⟩, hregistry, by simp⟩

private theorem ascii_print (v : Json) : ∀ c ∈ (v.print ++ "\n").toList, c.toNat < 128 := by
  intro c hc
  rw [String.toList_append, Json.print, String.toList_ofList] at hc
  rcases List.mem_append.mp hc with hprint | hfeed
  · have hplain := Json.plain_printAt 0 v c hprint
    simp only [Json.isPlain, decide_eq_true_eq] at hplain
    rcases hplain with rfl | ⟨-, hlt⟩
    · decide
    · omega
  · rw [List.mem_singleton.mp hfeed]
    decide

/-- A document is printed in ASCII, and nothing of its print is taken for a control sequence. What
is read of it has every key once and in order, and is the document otherwise: each of its eleven
entries is found under its key, with strings, lists and truth values as they were. It is the
document that is printed once the names of a session are switched. -/
theorem document_read_back (s : Session) (r : Registry) :
    let text := (document s r).print ++ "\n"
    (∀ c ∈ text.toList, c.toNat < 128) ∧ Text.withoutControl text = text ∧
      (∃ entries, Json.ofText? text = some (.object entries) ∧ (Json.object entries).Ordered ∧
        (document s r).Same (.object entries) ∧ entries.length = 11 ∧
        ∀ e ∈ s.options.entries ++ s.settings.entries ++ [("registry", r.document)],
          ∃ value, entries.lookup e.1 = some value ∧ e.2.Same value) ∧
      ∀ start : Registry, (start.apply s.options).success = true →
        (start.apply s.options).state = r → conclude s start = { output := text } := by
  intro text
  have hdistinct := distinct_document s r
  have hsame := hdistinct.same_sorted
  have hordered := Json.ordered_sorted (document s r)
  have hread := Json.ofText?_print (document s r)
  refine ⟨ascii_print _, Json.withoutControl_print _, ?_, ?_⟩
  · rw [document] at hdistinct hsame hordered hread ⊢
    rw [Json.sorted_object] at hsame hordered hread
    obtain ⟨hkeys, hvalues⟩ := Json.everyObject_object_iff.mp hdistinct
    refine ⟨_, hread, hordered, hsame, ?_, ?_⟩
    · rw [List.length_map, (Text.SortedMap.ofEntries_perm hkeys).length_eq]
      rfl
    · intro e he
      have hvalue : e.2.Distinct := hvalues e he
      exact ⟨_, hdistinct.lookup_sorted he, hvalue.same_sorted⟩
  · intro start hsuccess hstate
    subst hstate
    simp only [conclude, hsuccess, if_true, Json.withoutControl_print]
    rfl

/-- A keytab whose path holds a control sequence, a quotation mark and a character past the first
plane. -/
theorem document_read_back_keytab :
    let keytab := Json.strings ["\x1b[1m\"😀"]
    let s : Session := { settings := { keytabs := some ["\x1b[1m\"😀"] } }
    let start : Registry := { protocols := [("dns", true)] }
    let text := (document s (start.apply s.options).state).print ++ "\n"
    (start.apply s.options).success = true ∧ conclude s start = { output := text } ∧
      Text.withoutControl text = text ∧
      ∃ entries value, Json.ofText? text = some (.object entries) ∧
        entries.lookup "keytabs" = some value ∧ keytab.Same value := by
  intro keytab s start text
  have hsuccess : (start.apply s.options).success = true := by decide +kernel
  obtain ⟨-, hecho, ⟨entries, hread, -, -, -, hentries⟩, hconclude⟩ :=
    document_read_back s (start.apply s.options).state
  have hkeytab : ("keytabs", keytab) ∈ s.options.entries ++ s.settings.entries ++
      [("registry", (start.apply s.options).state.document)] := by
    simp [Settings.entries, keytab, s]
  obtain ⟨value, hlookup, hsame⟩ := hentries _ hkeytab
  exact ⟨hsuccess, hconclude start hsuccess rfl, hecho, entries, value, hread, hlookup, hsame⟩

end Dissection
