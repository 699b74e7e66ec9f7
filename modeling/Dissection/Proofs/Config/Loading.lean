import Dissection.Proofs.Toml.LongNumber

/-!
# What loading a configuration comes to

A missing file and a malformed one describe the empty table, any other text the table of its
document. Only two contents stop the program: bytes that are not UTF-8, and a text with a run of
decimal digits past the limit.
-/

namespace Dissection

namespace Text

private theorem prefix_of_prefix_unifyBreaks {run cs : List Char} (hbreak : '\n' ∉ run)
    (h : run <+: unifyBreaks cs) : run <+: cs := by
  fun_induction unifyBreaks cs generalizing run with
  | case1 => exact h
  | case2 r ih =>
    rcases List.prefix_cons_iff.mp h with rfl | ⟨t, rfl, -⟩
    · exact List.nil_prefix
    · exact absurd List.mem_cons_self hbreak
  | case3 c r _ ih =>
    rcases List.prefix_cons_iff.mp h with rfl | ⟨t, rfl, ht⟩
    · exact List.nil_prefix
    · obtain ⟨hc, hnot⟩ := not_or.mp (mt List.mem_cons.mpr hbreak)
      split at hc
      · exact absurd rfl hc
      · rename_i hreturn
        rw [if_neg hreturn]
        exact (List.prefix_cons_inj c).mpr (ih hnot ht)

private theorem infix_of_infix_unifyBreaks {run cs : List Char} (hbreak : '\n' ∉ run)
    (h : run <:+: unifyBreaks cs) : run <:+: cs := by
  have hprefix {cs} (h : run <+: unifyBreaks cs) : run <:+: cs :=
    (prefix_of_prefix_unifyBreaks hbreak h).isInfix
  fun_induction unifyBreaks cs with
  | case1 => exact h
  | case2 r ih =>
    rcases List.infix_cons_iff.mp h with h | h
    · exact hprefix h
    · exact (ih h).trans ⟨['\r', '\n'], [], by simp⟩
  | case3 c r hpair ih =>
    rcases List.infix_cons_iff.mp h with h | h
    · exact hprefix (by rwa [unifyBreaks] ; exact hpair)
    · exact (ih h).trans (List.suffix_cons c r).isInfix

private theorem Utf8.decode_eq_ok {bytes : ByteArray} {s : String} (h : decode bytes = .ok s) :
    bytes = s.toByteArray := by
  simp only [decode, String.fromUTF8?] at h
  split at h
  · rename_i t ht
    cases h
    split at ht
    · cases ht
      rfl
    · cases ht
  · cases h

private theorem Utf8.decode_eq_error {bytes : ByteArray} {f : Fault} (h : decode bytes = .error f) :
    ¬ bytes.IsValidUTF8 := by
  intro hvalid
  have hdecode := decode_toByteArray (String.ofByteArray bytes hvalid)
  rw [h] at hdecode
  cases hdecode

end Text

private theorem Toml.HasLongRun.of_unifyBreaks {digits : Nat} {cs : List Char}
    (h : HasLongRun digits (Text.unifyBreaks cs)) : HasLongRun digits cs := by
  obtain ⟨hlong, run, hrun, hchars, hdigits⟩ := h
  have hbreak : '\n' ∉ run := fun hmem => absurd (hchars _ hmem) (by decide)
  exact ⟨hlong, run, Text.infix_of_infix_unifyBreaks hbreak hrun, hchars, hdigits⟩

namespace Config

def unified (s : String) : String := String.ofList (Text.unifyBreaks s.toList)

/-- Whether a table is the one that the content of a file describes: that of the document of its
text, and the empty one if the file is missing or there is no such document. -/
def Describes (content : Option ByteArray) (t : Table) : Prop :=
  (∃ s : String, content = some s.toByteArray ∧ Toml.document (unified s) = .ok t) ∨
    t = [] ∧ ∀ s : String, content = some s.toByteArray →
      ∀ parsed, Toml.document (unified s) ≠ .ok parsed

private theorem describes_none : Describes none [] :=
  .inr ⟨rfl, fun _ h => by cases h⟩

private theorem tableOf_text (s : String) :
    (∃ t, tableOf (some s.toByteArray) = .ok t ∧ Describes (some s.toByteArray) t) ∨
      ∃ digits, Toml.document (unified s) = .error (.numberTooLong digits) ∧
        Toml.HasLongRun digits s.toList ∧
        tableOf (some s.toByteArray) = .error (.numberTooLong digits) := by
  rw [tableOf_toByteArray, tableOfText]
  cases hdocument : Toml.document (unified s) with
  | ok t => exact .inl ⟨t, by rw [← unified, hdocument], .inl ⟨s, rfl, hdocument⟩⟩
  | error fault =>
    cases fault with
    | malformed =>
      refine .inl ⟨[], by rw [← unified, hdocument], .inr ⟨rfl, ?_⟩⟩
      intro r hr parsed hparsed
      obtain rfl : s = r := String.toByteArray_inj.mp (Option.some.inj hr)
      rw [hdocument] at hparsed
      cases hparsed
    | numberTooLong digits =>
      refine .inr ⟨digits, rfl, ?_, by rw [← unified, hdocument]⟩
      have hrun := Toml.hasLongRun_of_document hdocument
      rw [unified, String.toList_ofList] at hrun
      exact hrun.of_unifyBreaks

theorem exists_tableOf_tooLong {digits : Nat} (h : DecimalLimit.maxDigits < digits) :
    ∃ s : String, Toml.HasLongRun digits s.toList ∧
      tableOf (some s.toByteArray) = .error (.numberTooLong digits) := by
  have hmax : 5 ≤ DecimalLimit.maxDigits := by decide
  obtain ⟨k, rfl⟩ : ∃ k, digits = k + 5 := ⟨digits - 5, by omega⟩
  have hreturn : '\r' ∉ 'x' :: '=' :: Toml.nines k := by
    simp [Toml.nines]
  have hdocument := Toml.document_nines h
  refine ⟨String.ofList ('x' :: '=' :: Toml.nines k), Toml.hasLongRun_of_document hdocument, ?_⟩
  rw [tableOf_toByteArray, tableOfText, String.toList_ofList, Text.unifyBreaks_eq_self hreturn,
    hdocument]

/-- Whatever the content of a file is, the table that it describes is loaded, or it is of one of the
two kinds that stop the program. -/
theorem tableOf_cases (content : Option ByteArray) :
    (∃ t, tableOf content = .ok t ∧ Describes content t ∧
        ∀ bytes ∈ content, bytes.IsValidUTF8) ∨
      (∃ bytes fault, content = some bytes ∧ ¬ bytes.IsValidUTF8 ∧
        tableOf content = .error (.notUtf8 fault)) ∨
      ∃ (s : String) (digits : Nat), content = some s.toByteArray ∧
        Toml.document (unified s) = .error (.numberTooLong digits) ∧
        Toml.HasLongRun digits s.toList ∧ tableOf content = .error (.numberTooLong digits) := by
  cases content with
  | none => exact .inl ⟨[], rfl, describes_none, nofun⟩
  | some bytes =>
    cases hdecode : Text.Utf8.decode bytes with
    | error fault =>
      refine .inr (.inl ⟨bytes, fault, rfl, Text.Utf8.decode_eq_error hdecode, ?_⟩)
      rw [tableOf, hdecode]
      rfl
    | ok s =>
      obtain rfl := Text.Utf8.decode_eq_ok hdecode
      rcases tableOf_text s with ⟨t, htable, hdescribes⟩ | ⟨digits, htoo⟩
      · refine .inl ⟨t, htable, hdescribes, fun bytes hbytes => ?_⟩
        exact Option.some.inj hbytes ▸ s.isValidUTF8
      · exact .inr (.inr ⟨s, digits, rfl, htoo⟩)

/-- A byte that begins no character stops the program, though it describes the empty table. -/
theorem tableOf_notUtf8 :
    Describes (some ⟨#[0xFF]⟩) [] ∧
      tableOf (some ⟨#[0xFF]⟩) = .error (.notUtf8 ⟨0, 0xFF, 1, .badStart⟩) := by
  have hnone : String.fromUTF8? ⟨#[0xFF]⟩ = none := by decide +kernel
  have hfault : Text.Utf8.fault ⟨#[0xFF]⟩ = ⟨0, 0xFF, 1, .badStart⟩ := by decide +kernel
  have hdecode : Text.Utf8.decode ⟨#[0xFF]⟩ = .error ⟨0, 0xFF, 1, .badStart⟩ := by
    rw [Text.Utf8.decode, hnone, hfault]
  refine ⟨.inr ⟨rfl, fun s hs => ?_⟩, by rw [tableOf, hdecode]; rfl⟩
  have hvalid : ByteArray.IsValidUTF8 ⟨#[0xFF]⟩ := Option.some.inj hs ▸ s.isValidUTF8
  exact absurd hvalid (Text.Utf8.decode_eq_error hdecode)

end Config

end Dissection
