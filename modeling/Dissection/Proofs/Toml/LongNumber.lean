import Dissection.Config.Loading
import Dissection.Proofs.Toml.Rest

/-!
# Numbers past the limit

A number in a document is too long only if a run of that many decimal digits, perhaps with
underscores between them, stands in the document.
-/

/-!
## Hexadecimal numbers

A hexadecimal number is read whatever the number of its digits, so a configuration may hold numbers
past the decimal limit.
-/

namespace Dissection

theorem Text.unifyBreaks_eq_self {cs : List Char} (h : '\r' ∉ cs) : unifyBreaks cs = cs := by
  fun_induction unifyBreaks cs with
  | case1 => rfl
  | case2 r ih => simp at h
  | case3 c r _ ih =>
    simp only [List.mem_cons, not_or] at h
    rw [ih h.2, if_neg (Ne.symm h.1)]

namespace Toml

private theorem readMoreDigits_all {isDigit : Char → Bool} (hbar : isDigit '_' = false)
    {digits : List Char} (h : ∀ c ∈ digits, isDigit c = true) :
    readMoreDigits isDigit digits = (digits, []) := by
  induction digits with
  | nil => rfl
  | cons c r ih =>
    obtain ⟨hc, hr⟩ := List.forall_mem_cons.mp h
    have hne : c ≠ '_' := by
      rintro rfl
      rw [hbar] at hc
      cases hc
    rw [readMoreDigits, hc, ih hr]
    · rfl
    · rintro d s rfl
      exact fun _ => hne rfl

theorem valueOf_zeros (k : Nat) :
    valueOf 16 ('1' :: List.replicate k '0') = Nat.pow 16 k := by
  have hfold (n : Nat) : (List.replicate k '0').foldl
      (fun n c => 16 * n + (Text.hexValue? c).getD 0) n = Nat.pow 16 k * n := by
    induction k generalizing n with
    | zero => exact (Nat.one_mul n).symm
    | succ k ih =>
      have hzero : (Text.hexValue? '0').getD 0 = 0 := by decide
      rw [List.replicate_succ, List.foldl_cons, ih, hzero, Nat.add_zero, ← Nat.mul_assoc]
      rfl
  exact (hfold 1).trans (Nat.mul_one _)

private theorem readNumber_hexadecimal {c : Char} {r : List Char}
    (h : ∀ d ∈ c :: r, isDigitOf 16 d = true) :
    readNumber ('0' :: 'x' :: c :: r) = .ok (.int (valueOf 16 (c :: r)), []) := by
  obtain ⟨hc, hr⟩ := List.forall_mem_cons.mp h
  have hdigits : readDigitGroup? (isDigitOf 16) (c :: r) = some (c :: r, []) := by
    rw [readDigitGroup?, hc, readMoreDigits_all rfl hr]
    rfl
  simp [readNumber, readBased?, baseOf?, hdigits]

private theorem readValue_number {c : Char} {r : List Char} (hlist : c ≠ '[') (htable : c ≠ '\x7b')
    (hstring : readString? (c :: r) = none) (hbool : Text.readBool? (c :: r) = none)
    (hmoment : Moment.read? (c :: r) = none) : readValue (c :: r) = readNumber (c :: r) := by
  rw [readValue, readValueUpTo]
  · simp [readScalar, hstring, hbool, hmoment]
  · rintro s ⟨⟩
    exact hlist rfl
  · rintro s ⟨⟩
    exact htable rfl

private theorem readValue_hexadecimal (c : Char) (r : List Char) :
    readValue ('0' :: 'x' :: c :: r) = readNumber ('0' :: 'x' :: c :: r) :=
  readValue_number (by decide) (by decide) rfl rfl rfl

theorem ofTextUpTo_statement (bound : Nat) {c : Char} {cs rest : List Char}
    {statement : Option Statement} (hskip : skipSpaces (c :: cs) = c :: cs) (hc : c ≠ '\n')
    (h : readStatement (c :: cs) = .ok (statement, rest)) :
    ∃ after, Script.ofTextUpTo (bound + 1) (c :: cs) = Script.prepend statement after ∧
      (skipComment? (skipSpaces rest) = some [] → after = {}) ∧
      ∀ r, skipComment? (skipSpaces rest) = some ('\n' :: r) →
        after = Script.ofTextUpTo bound r := by
  rw [Script.ofTextUpTo, hskip]
  split
  · rename_i heq
    cases heq
  · rename_i heq
    exact absurd (List.cons.inj heq).1 hc
  · exact ⟨_, by rw [h], fun hend => by simp [hend], fun r hline => by simp [hline]⟩

section

variable {c : Char} {r : List Char} {v : Value}
  (h : readValue ('0' :: 'x' :: c :: r) = .ok (v, []))

include h

private theorem readStatement_hexadecimal :
    readStatement ("time_stamp = 0x".toList ++ c :: r) =
      .ok (some (.assign ["time_stamp"] v), []) := by
  have hkey : readKey? ("time_stamp = 0x".toList ++ c :: r) =
      some (["time_stamp"], '=' :: ' ' :: '0' :: 'x' :: c :: r) := rfl
  have hafter : after? '=' ('=' :: ' ' :: '0' :: 'x' :: c :: r) =
      some (' ' :: '0' :: 'x' :: c :: r) := rfl
  have hskip : skipSpaces (' ' :: '0' :: 'x' :: c :: r) = '0' :: 'x' :: c :: r := rfl
  have hassign : readAssignment ("time_stamp = 0x".toList ++ c :: r) =
      .ok (.assign ["time_stamp"] v, []) := by
    rw [readAssignment, hkey]
    simp only [found, hafter, bind, Except.bind, hskip, h, pure, Except.pure]
  have hstatement : readStatement ("time_stamp = 0x".toList ++ c :: r) =
      (readAssignment ("time_stamp = 0x".toList ++ c :: r)).map fun p => (some p.1, p.2) := rfl
  rw [hstatement, hassign]
  rfl

private theorem ofText_hexadecimal :
    Script.ofText ("[dissect]\ntime_stamp = 0x".toList ++ c :: r) =
      { statements := [.table ["dissect"], .assign ["time_stamp"] v] } := by
  have hheader : readStatement ("[dissect]\ntime_stamp = 0x".toList ++ c :: r) =
      .ok (some (.table ["dissect"]), "\ntime_stamp = 0x".toList ++ c :: r) := rfl
  have hbreak : skipComment? (skipSpaces ("\ntime_stamp = 0x".toList ++ c :: r)) =
      some ('\n' :: ("time_stamp = 0x".toList ++ c :: r)) := rfl
  have hlines (bound : Nat) :
      Script.ofTextUpTo (bound + 2) ("[dissect]\ntime_stamp = 0x".toList ++ c :: r) =
        { statements := [.table ["dissect"], .assign ["time_stamp"] v] } := by
    obtain ⟨second, hfirst, -, hsecond⟩ :=
      ofTextUpTo_statement (bound + 1) rfl (by decide) hheader
    obtain ⟨third, hassign, hthird, -⟩ :=
      ofTextUpTo_statement bound rfl (by decide) (readStatement_hexadecimal h)
    refine hfirst.trans ?_
    rw [hsecond _ hbreak]
    refine (congrArg (Script.prepend _) hassign).trans ?_
    rw [hthird rfl]
    rfl
  exact hlines _

end

end Toml

theorem Config.tableOf_toByteArray (s : String) : tableOf (some s.toByteArray) = tableOfText s := by
  rw [tableOf, Text.Utf8.decode_toByteArray]
  rfl

theorem Config.tableOf_hexadecimal {c : Char} {r : List Char}
    (h : ∀ d ∈ c :: r, Toml.isDigitOf 16 d = true) :
    tableOf (some ("[dissect]\ntime_stamp = 0x" ++ String.ofList (c :: r)).toByteArray) =
      .ok [("dissect", .table [("time_stamp", .int (Toml.valueOf 16 (c :: r)))])] := by
  have hchars : ("[dissect]\ntime_stamp = 0x" ++ String.ofList (c :: r)).toList =
      "[dissect]\ntime_stamp = 0x".toList ++ c :: r := by
    rw [String.toList_append, String.toList_ofList (l := c :: r)]
  have hreturn : '\r' ∉ "[dissect]\ntime_stamp = 0x".toList ++ c :: r := by
    intro hmem
    rcases List.mem_append.mp hmem with hfront | hdigit
    · revert hfront
      decide
    · exact absurd (h '\r' hdigit) (by decide)
  have hvalue := (Toml.readValue_hexadecimal c r).trans (Toml.readNumber_hexadecimal h)
  have hdocument : Toml.document (String.ofList
      (Text.unifyBreaks ("[dissect]\ntime_stamp = 0x" ++ String.ofList (c :: r)).toList)) =
        .ok [("dissect", .table [("time_stamp", .int (Toml.valueOf 16 (c :: r)))])] := by
    rw [hchars, Text.unifyBreaks_eq_self hreturn, Toml.document, String.toList_ofList,
      Toml.ofText_hexadecimal hvalue]
    rfl
  rw [tableOf_toByteArray, tableOfText, hdocument]

end Dissection

namespace Dissection.Toml

/-- Whether in a text there is a run of decimal digits and underscores with some number of digits,
which is past the limit. -/
def HasLongRun (digits : Nat) (cs : List Char) : Prop :=
  DecimalLimit.maxDigits < digits ∧ ∃ run, run <:+: cs ∧
    (∀ c ∈ run, c.isDigit = true ∨ c = '_') ∧ (run.filter Char.isDigit).length = digits

private theorem HasLongRun.mono {digits : Nat} {cs ds : List Char} (h : HasLongRun digits cs)
    (hcs : cs <:+: ds) : HasLongRun digits ds := by
  obtain ⟨hlong, run, hrun, hdigits⟩ := h
  exact ⟨hlong, run, hrun.trans hcs, hdigits⟩

/-- Whether what is read from the front of a text leaves a rest of the text, or meets a number that
is too long as a run in the text. -/
structure Reads {α : Type} (cs : List Char) (read : Except Fault (α × List Char)) : Prop where
  rest {a : α} {r : List Char} : read = .ok (a, r) → r <:+ cs
  tooLong {digits : Nat} : read = .error (.numberTooLong digits) → HasLongRun digits cs

namespace Reads

variable {α β : Type} {cs r : List Char} {read : Except Fault (α × List Char)}

theorem malformed : Reads cs (.error .malformed : Except Fault (α × List Char)) :=
  ⟨nofun, nofun⟩

theorem ok {a : α} (h : r <:+ cs) : Reads cs (.ok (a, r)) where
  rest heq := by
    cases heq
    exact h
  tooLong := nofun

theorem of_suffix (h : Reads r read) (hr : r <:+ cs) : Reads cs read :=
  ⟨fun hok => (h.rest hok).trans hr, fun herror => (h.tooLong herror).mono hr.isInfix⟩

theorem bind {γ : Type} {x : Except Fault γ} {f : γ → Except Fault (β × List Char)}
    (hx : ∀ {digits}, x = .error (.numberTooLong digits) → HasLongRun digits cs)
    (hf : ∀ a, x = .ok a → Reads cs (f a)) : Reads cs (x >>= f) := by
  cases x with
  | ok a => exact hf a rfl
  | error fault => exact ⟨nofun, fun herror => hx (congrArg Except.error (Except.error.inj herror))⟩

theorem bind_read {f : α × List Char → Except Fault (β × List Char)} (h : Reads cs read)
    (hf : ∀ a r, Reads r (f (a, r))) : Reads cs (read >>= f) :=
  bind h.tooLong fun p hp => (hf p.1 p.2).of_suffix (h.rest hp)

theorem found {γ : Type} {x : Option γ} {f : γ → Except Fault (β × List Char)}
    (hf : ∀ a ∈ x, Reads cs (f a)) : Reads cs (found x >>= f) := by
  cases x with
  | none => exact malformed
  | some a => exact hf a rfl

private theorem found_read {x : Option (α × List Char)}
    {f : α × List Char → Except Fault (β × List Char)}
    (h : Leaves cs x) (hf : ∀ a r, Reads r (f (a, r))) : Reads cs (Toml.found x >>= f) :=
  found fun p hp => (hf p.1 p.2).of_suffix (h p hp)

theorem map {f : α → β} (h : Reads cs read) : Reads cs (read.map fun p => (f p.1, p.2)) := by
  cases read with
  | ok p => exact ok (h.rest rfl)
  | error fault =>
    exact ⟨nofun, fun herror => h.tooLong (congrArg Except.error (Except.error.inj herror))⟩

end Reads

private theorem hasLongRun_of_readWhole? {cs whole rest : List Char} {negative : Bool}
    {digits : Nat}
    (h : readWhole? cs = some (whole, rest))
    (herror : decimalWhole negative whole = .error (.numberTooLong digits)) :
    HasLongRun digits cs := by
  rw [decimalWhole] at herror
  split at herror
  · cases herror
  · rename_i hlong
    obtain rfl : whole.length = digits := by cases herror; rfl
    refine ⟨Nat.lt_of_not_le hlong, ?_⟩
    unfold readWhole? at h
    split at h
    · cases h
      exact absurd (by decide) hlong
    · obtain ⟨run, hrest, hrun, hdigits⟩ := exists_run_of_readDigitGroup? rfl h
      exact ⟨run, ⟨[], rest, hrest⟩, hrun, congrArg List.length hdigits.symm⟩

private theorem reads_readDecimal (cs : List Char) : Reads cs (readDecimal cs) := by
  unfold readDecimal
  refine Reads.of_suffix ?_ (suffix_readSign cs)
  refine .found fun p hp => ?_
  obtain ⟨whole, rest⟩ := p
  have hrest : rest <:+ (readSign cs).2 := leaves_readWhole? _ _ hp
  have hfraction : ((readFraction? rest).map Prod.snd).getD rest <:+ rest := by
    cases h : readFraction? rest with
    | none => exact List.suffix_rfl
    | some p => exact leaves_readFraction? rest p h
  dsimp only
  split
  · exact .bind (hasLongRun_of_readWhole? hp) fun _ _ => .ok hrest
  · refine Reads.of_suffix (.ok ?_) (hfraction.trans hrest)
    cases h : readExponent? (((readFraction? rest).map Prod.snd).getD rest) with
    | none => exact List.suffix_rfl
    | some p => exact leaves_readExponent? _ p h

private theorem reads_readNumber (cs : List Char) : Reads cs (readNumber cs) := by
  unfold readNumber
  split
  · rename_i p hp
    exact .ok ((leaves_readBased? cs).orElse (leaves_readSpecial? cs) p hp)
  · exact reads_readDecimal cs

private theorem reads_readScalar (cs : List Char) : Reads cs (readScalar cs) := by
  unfold readScalar
  split
  · rename_i p hp
    refine .ok (Leaves.orElse ?_ (Leaves.orElse ?_ ?_) p hp)
    · exact (leaves_readString? cs).map
    · exact (leaves_readBool? cs).map
    · exact (Moment.leaves_read? cs).map
  · exact reads_readNumber cs

/-- Values, the items of lists and the entries of tables nest in each other, so all three are
followed at once, along the bound that they share. -/
theorem reads_upTo (bound : Nat) :
    (∀ cs, Reads cs (readValueUpTo bound cs)) ∧ (∀ cs, Reads cs (readItemsUpTo bound cs)) ∧
      ∀ before cs, Reads cs (readEntriesUpTo bound before cs) := by
  induction bound with
  | zero => exact ⟨fun _ => .malformed, fun _ => .malformed, fun _ _ => .malformed⟩
  | succ bound ih =>
    obtain ⟨hvalue, hitems, hentries⟩ := ih
    refine ⟨fun cs => ?_, fun cs => ?_, fun before cs => ?_⟩
    · unfold readValueUpTo
      split
      · rename_i r
        refine Reads.of_suffix ?_ (List.suffix_cons '[' r)
        refine .found fun r hr => Reads.of_suffix ?_ (suffix_of_skipTriviaFrom? hr)
        split
        · exact .ok (List.suffix_cons _ _)
        · exact .bind_read (hitems r) fun _ _ => .ok List.suffix_rfl
      · rename_i r
        refine Reads.of_suffix ?_ ((suffix_skipSpaces r).trans (List.suffix_cons _ r))
        split
        · rename_i hrest
          exact .ok (hrest ▸ List.suffix_cons _ _)
        · exact .bind_read (hentries [] _) fun _ _ => .ok List.suffix_rfl
      · exact reads_readScalar cs
    · refine .bind_read (hvalue cs) fun item cs => ?_
      refine .found fun r hr => Reads.of_suffix ?_ (suffix_of_skipTriviaFrom? hr)
      split
      · exact .ok (List.suffix_cons _ _)
      · rename_i r
        refine Reads.of_suffix ?_ (List.suffix_cons ',' r)
        refine .found fun r hr => Reads.of_suffix ?_ (suffix_of_skipTriviaFrom? hr)
        split
        · exact .ok (List.suffix_cons _ _)
        · exact .bind_read (hitems r) fun _ _ => .ok List.suffix_rfl
      · exact .malformed
    · refine .found_read (leaves_readKey? cs) fun key cs => ?_
      refine .found fun r hr => ?_
      refine Reads.of_suffix ?_ ((suffix_skipSpaces r).trans (suffix_of_after? hr))
      refine .bind_read (hvalue _) fun value cs => ?_
      refine .found fun entries _ => Reads.of_suffix ?_ (suffix_skipSpaces cs)
      split
      · rename_i hrest
        exact .ok (hrest ▸ List.suffix_cons _ _)
      · rename_i r hrest
        rw [hrest]
        exact (hentries _ _).of_suffix ((suffix_skipSpaces r).trans (List.suffix_cons _ r))
      · exact .malformed

private theorem reads_readValue (cs : List Char) : Reads cs (readValue cs) := (reads_upTo _).1 cs

private theorem reads_readAssignment (cs : List Char) : Reads cs (readAssignment cs) := by
  refine .found_read (leaves_readKey? cs) fun key cs => ?_
  refine .found fun r hr => Reads.of_suffix ?_ ((suffix_skipSpaces r).trans (suffix_of_after? hr))
  exact .bind_read (reads_readValue _) fun _ _ => .ok List.suffix_rfl

private theorem reads_readStatement (cs : List Char) : Reads cs (readStatement cs) := by
  unfold readStatement
  split
  · exact .ok List.suffix_rfl
  · rename_i r
    refine Reads.of_suffix (Reads.map ?_) (List.suffix_cons '[' r)
    have hheader := leaves_readHeader? r
    cases h : readHeader? r with
    | none => exact .malformed
    | some p => exact .ok (hheader p h)
  · exact (reads_readAssignment cs).map

private theorem hasLongRun_of_ofTextUpTo {bound digits : Nat} {cs : List Char}
    (h : (Script.ofTextUpTo bound cs).fault = some (.numberTooLong digits)) :
    HasLongRun digits cs := by
  induction bound generalizing cs with
  | zero => cases h
  | succ bound ih =>
    have hskip := suffix_skipSpaces cs
    rw [Script.ofTextUpTo] at h
    refine HasLongRun.mono ?_ hskip.isInfix
    split at h
    · cases h
    · rename_i r hr
      rw [hr]
      exact (ih h).mono (List.suffix_cons '\n' r).isInfix
    · have hreads := reads_readStatement (skipSpaces cs)
      split at h
      · rename_i fault hfault
        cases h
        exact hreads.tooLong hfault
      · rename_i statement rest hstatement
        have hrest := hreads.rest hstatement
        rw [Script.prepend] at h
        dsimp only at h
        split at h
        · cases h
        · rename_i r hr
          have hr : r <:+ rest := (List.suffix_cons '\n' r).trans
            ((suffix_of_skipComment? hr).trans (suffix_skipSpaces rest))
          exact (ih h).mono (hr.trans hrest).isInfix
        · cases h

/-- A document with a number that is too long holds a run of that many digits. -/
theorem hasLongRun_of_document {s : String} {digits : Nat}
    (h : document s = .error (.numberTooLong digits)) : HasLongRun digits s.toList := by
  apply hasLongRun_of_ofTextUpTo
  rw [document, Script.table] at h
  split at h
  · cases h
  · rename_i hfault
    cases h
    exact hfault
  · cases h

/-! Such a run is a number that is too long, for one, if it is of nines only and the value of a
key. -/

def nines (k : Nat) : List Char := '9' :: '9' :: '9' :: '9' :: '9' :: List.replicate k '9'

private theorem nines_eq_replicate (k : Nat) : nines k = List.replicate (k + 5) '9' := rfl

private theorem isDigit_of_mem_nines {k : Nat} {c : Char} (h : c ∈ nines k) : c.isDigit = true := by
  rw [nines_eq_replicate] at h
  rw [List.eq_of_mem_replicate h]
  rfl

private theorem readNumber_nines (k : Nat) :
    readNumber (nines k) = (decimalWhole false (nines k)).map fun v => (v, []) := by
  have hdigits : readDigitGroup? Char.isDigit (nines k) = some (nines k, []) := by
    rw [nines, readDigitGroup?, readMoreDigits_all rfl]
    · rfl
    · exact fun c hc => isDigit_of_mem_nines (List.mem_cons_of_mem _ hc)
  have hbased : readBased? (nines k) = none := rfl
  have hspecial : readSpecial? (nines k) = none := rfl
  have hwhole : readWhole? (nines k) = some (nines k, []) := hdigits
  have hsign : readSign (nines k) = (false, nines k) := rfl
  have hdecimal : readDecimal (nines k) =
      (decimalWhole false (nines k)).map fun v => (v, []) := by
    rw [readDecimal, hsign]
    dsimp only
    rw [hwhole]
    rfl
  simp [readNumber, hbased, hspecial, hdecimal]

private theorem readValue_nines (k : Nat) : readValue (nines k) = readNumber (nines k) :=
  readValue_number (by decide) (by decide) rfl rfl rfl

theorem document_nines {k : Nat} (h : DecimalLimit.maxDigits < k + 5) :
    document (String.ofList ('x' :: '=' :: nines k)) = .error (.numberTooLong (k + 5)) := by
  have hlong : readValue (nines k) = .error (.numberTooLong (k + 5)) := by
    have hlength : (nines k).length = k + 5 := by
      rw [nines_eq_replicate, List.length_replicate]
    rw [readValue_nines, readNumber_nines, decimalWhole_of_long (hlength ▸ h), hlength]
    rfl
  have hkey : readKey? ('x' :: '=' :: nines k) = some (["x"], '=' :: nines k) := rfl
  have hafter : after? '=' ('=' :: nines k) = some (nines k) := rfl
  have hskip : skipSpaces (nines k) = nines k := rfl
  have hassign : readAssignment ('x' :: '=' :: nines k) = .error (.numberTooLong (k + 5)) := by
    rw [readAssignment, hkey]
    simp only [found, hafter, bind, Except.bind, hskip, hlong]
  have hstatement : readStatement ('x' :: '=' :: nines k) =
      (readAssignment ('x' :: '=' :: nines k)).map fun p => (some p.1, p.2) := rfl
  rw [hassign] at hstatement
  have hline : skipSpaces ('x' :: '=' :: nines k) = 'x' :: '=' :: nines k := rfl
  have hscript : Script.ofText ('x' :: '=' :: nines k) = .broken (.numberTooLong (k + 5)) := by
    rw [Script.ofText, Script.ofTextUpTo, hline]
    split
    · rename_i heq
      cases heq
    · rename_i heq
      cases heq
    · rw [hstatement]
      rfl
  rw [document, String.toList_ofList, hscript]
  rfl

end Dissection.Toml
