import Dissection.Toml.Document

/-!
# What readers leave

A reader takes something from the front of a text, and what it leaves is a rest of the text. So
whatever stands in what it leaves stood in the text.
-/

namespace Dissection

/-- Whether what is read from the front of a text leaves a rest of the text. -/
def Leaves {α : Type} (cs : List Char) (read : Option (α × List Char)) : Prop :=
  ∀ p ∈ read, p.2 <:+ cs

namespace Leaves

variable {α β : Type} {cs r : List Char} {read other : Option (α × List Char)}

theorem none : Leaves cs (none : Option (α × List Char)) := nofun

theorem some {a : α} (h : r <:+ cs) : Leaves cs (some (a, r)) := by
  rintro _ ⟨⟩
  exact h

theorem of_suffix (h : Leaves r read) (hr : r <:+ cs) : Leaves cs read :=
  fun p hp => (h p hp).trans hr

theorem bind {γ : Type} {x : Option γ} {f : γ → Option (β × List Char)}
    (h : ∀ a ∈ x, Leaves cs (f a)) : Leaves cs (x >>= f) := by
  intro q hq
  obtain ⟨a, hx, hq⟩ := Option.bind_eq_some_iff.mp hq
  exact h a hx q hq

theorem bind_read {f : α × List Char → Option (β × List Char)} (h : Leaves cs read)
    (hf : ∀ a r, Leaves r (f (a, r))) : Leaves cs (read >>= f) :=
  bind fun p hp => (hf p.1 p.2).of_suffix (h p hp)

theorem map {f : α → β} (h : Leaves cs read) : Leaves cs (read.map fun p => (f p.1, p.2)) := by
  intro q hq
  obtain ⟨p, hread, rfl⟩ := Option.map_eq_some_iff.mp hq
  exact h p hread

theorem orElse (h : Leaves cs read) (hother : Leaves cs other) : Leaves cs (read <|> other) := by
  cases read with
  | none => exact hother
  | some p => exact h

private theorem ite {c : Prop} [Decidable c] (h : Leaves cs read) (hother : Leaves cs other) :
    Leaves cs (if c then read else other) := by
  split
  · exact h
  · exact hother

end Leaves

theorem suffix_of_after? {c : Char} {cs r : List Char} (h : r ∈ after? c cs) : r <:+ cs := by
  cases cs with
  | nil => cases h
  | cons d cs =>
    simp only [after?, Option.mem_def, Option.ite_none_right_eq_some] at h
    obtain ⟨-, h⟩ := h
    exact Option.some.inj h ▸ List.suffix_cons d cs

/-! Dates and times -/

private theorem leaves_readDigits? (count : Nat) (cs : List Char) :
    Leaves cs (readDigits? count cs) := by
  induction count generalizing cs with
  | zero => exact .some List.suffix_rfl
  | succ count ih =>
    cases cs with
    | nil => exact .none
    | cons c r =>
      refine Leaves.of_suffix ?_ (List.suffix_cons c r)
      exact .bind fun d _ => .bind_read (ih r) fun _ _ => .some List.suffix_rfl

private theorem leaves_readPair? (least greatest : Nat) (cs : List Char) :
    Leaves cs (readPair? least greatest cs) :=
  .bind_read (leaves_readDigits? 2 cs) fun _ _ => .ite (.some List.suffix_rfl) .none

private theorem leaves_pairAfter? (c : Char) (least greatest : Nat) (cs : List Char) :
    Leaves cs (after? c cs >>= readPair? least greatest) :=
  .bind fun r h => (leaves_readPair? least greatest r).of_suffix (suffix_of_after? h)

private theorem suffix_readFraction (cs : List Char) : (readFraction cs).2 <:+ cs := by
  unfold readFraction
  split
  · dsimp only
    split
    · exact List.suffix_rfl
    · exact (List.dropWhile_suffix _).trans (List.suffix_cons _ _)
  · exact List.suffix_rfl

theorem Time.leaves_read? (cs : List Char) : Leaves cs (Time.read? cs) := by
  refine .bind_read (leaves_readPair? _ _ cs) fun hour cs => ?_
  refine .bind_read (leaves_pairAfter? _ _ _ cs) fun minute cs => ?_
  refine .bind_read (leaves_pairAfter? _ _ _ cs) fun second cs => ?_
  exact .some (suffix_readFraction cs)

private theorem leaves_readOffset? (cs : List Char) : Leaves cs (readOffset? cs) := by
  cases cs with
  | nil => exact .none
  | cons c r =>
    refine .ite (.some (List.suffix_cons c r)) (.ite ?_ .none)
    refine Leaves.of_suffix ?_ (List.suffix_cons c r)
    refine .bind_read (leaves_readPair? _ _ r) fun hour r => ?_
    refine .bind_read (leaves_pairAfter? _ _ _ r) fun minute r => ?_
    exact .some List.suffix_rfl

theorem Date.leaves_read? (cs : List Char) : Leaves cs (Date.read? cs) := by
  refine .bind_read (leaves_readDigits? 4 cs) fun year cs => ?_
  refine .bind_read (leaves_pairAfter? _ _ _ cs) fun month cs => ?_
  refine .bind_read (leaves_pairAfter? _ _ _ cs) fun day cs => ?_
  exact .ite (.some List.suffix_rfl) .none

private theorem suffix_of_readTimeOfDay? {cs r : List Char} {clock : Time} {offset : Option Int}
    (h : (clock, offset, r) ∈ readTimeOfDay? cs) : r <:+ cs := by
  cases cs with
  | nil => cases h
  | cons c cs =>
    rw [readTimeOfDay?, Option.mem_def, Option.ite_none_right_eq_some] at h
    obtain ⟨q, hq, h⟩ := Option.bind_eq_some_iff.mp h.2
    obtain ⟨time, rest⟩ := q
    have hrest := (Time.leaves_read? cs _ hq).trans (List.suffix_cons c cs)
    dsimp only at h
    split at h
    · rename_i hoffset
      cases h
      exact (leaves_readOffset? rest _ hoffset).trans hrest
    · cases h
      exact hrest

theorem Moment.leaves_read? (cs : List Char) : Leaves cs (Moment.read? cs) := by
  rw [Moment.read?]
  cases hday : Date.read? cs with
  | none => exact .map (Time.leaves_read? cs)
  | some p =>
    obtain ⟨day, rest⟩ := p
    have hrest := Date.leaves_read? cs _ hday
    dsimp only
    split
    · rename_i hclock
      exact .some ((suffix_of_readTimeOfDay? hclock).trans hrest)
    · exact .some hrest

namespace Toml

/-! Strings and keys -/

private theorem leaves_push {cs : List Char} {read : Option (List Char × List Char)} (c : Char)
    (h : Leaves cs read) : Leaves cs (push c read) :=
  h.map

private theorem leaves_readBody? (mark : Char) (block : Bool) (phase : Phase) (cs : List Char) :
    Leaves cs (readBody? mark block phase cs) := by
  induction cs generalizing phase with
  | nil => exact .none
  | cons c r ih =>
    have hr (phase : Phase) : Leaves (c :: r) (readBody? mark block phase r) :=
      (ih phase).of_suffix (List.suffix_cons c r)
    have hpush (d : Char) (phase : Phase) :
        Leaves (c :: r) (push d (readBody? mark block phase r)) :=
      leaves_push d (hr phase)
    unfold readBody?
    split
    · refine .ite (.ite ?_ (.some (List.suffix_cons c r)))
        (.ite (hr _) (.ite .none (hpush c _)))
      split
      · rename_i d e rest
        exact .ite (.some ⟨[c, d, e], rfl⟩) (hpush c _)
      · exact .none
    · refine .ite (hr _) (.ite (hr _) (.ite (hr _) (.ite (hr _) ?_)))
      split
      · exact hpush _ _
      · exact .none
    · split
      · exact .none
      · refine .ite (hr _) ?_
        split
        · exact hpush _ _
        · exact .none
    · exact .ite (hr _) (.ite (hr _) .none)

private theorem suffix_closeBlock (mark : Char) (body cs : List Char) :
    (closeBlock mark body cs).2 <:+ cs := by
  unfold closeBlock
  split
  · rename_i a b r
    split
    · split
      · exact ⟨[a, b], rfl⟩
      · exact List.suffix_cons a (b :: r)
    · exact List.suffix_rfl
  · split
    · exact List.nil_suffix
    · exact List.suffix_rfl
  · exact List.suffix_rfl

private theorem leaves_readBlock? (mark : Char) (cs : List Char) :
    Leaves cs (readBlock? mark cs) := by
  have hbody (r : List Char) (hr : r <:+ cs) :
      Leaves cs ((readBody? mark true .text r).map fun p =>
        (String.ofList (closeBlock mark p.1 p.2).1, (closeBlock mark p.1 p.2).2)) := by
    intro q hq
    obtain ⟨⟨body, rest⟩, hread, rfl⟩ := Option.map_eq_some_iff.mp hq
    have hrest := (leaves_readBody? mark true .text r _ hread).trans hr
    exact (suffix_closeBlock mark body rest).trans hrest
  unfold readBlock?
  split
  · exact hbody _ (List.suffix_cons _ _)
  · exact hbody cs List.suffix_rfl

private theorem leaves_readLineString? (cs : List Char) : Leaves cs (readLineString? cs) := by
  cases cs with
  | nil => exact .none
  | cons c r =>
    refine .ite (Leaves.map ?_) .none
    exact (leaves_readBody? c false .text r).of_suffix (List.suffix_cons c r)

theorem leaves_readString? (cs : List Char) : Leaves cs (readString? cs) := by
  unfold readString?
  split
  · rename_i c d e r
    exact .ite ((leaves_readBlock? c r).of_suffix ⟨[c, d, e], rfl⟩) (leaves_readLineString? _)
  · exact leaves_readLineString? cs

theorem suffix_skipSpaces (cs : List Char) : skipSpaces cs <:+ cs := List.dropWhile_suffix _

private theorem leaves_readKeyPart? (cs : List Char) : Leaves cs (readKeyPart? cs) :=
  .ite (leaves_readLineString? cs) (.some (List.dropWhile_suffix _))

private theorem leaves_readKeyUpTo? (bound : Nat) (cs : List Char) :
    Leaves cs (readKeyUpTo? bound cs) := by
  induction bound generalizing cs with
  | zero => exact .none
  | succ bound ih =>
    refine .bind_read (leaves_readKeyPart? cs) fun part rest => ?_
    have hskip := suffix_skipSpaces rest
    dsimp only
    split
    · rename_i r hr
      have hrest : skipSpaces r <:+ rest :=
        (suffix_skipSpaces r).trans ((List.suffix_cons '.' r).trans (hr ▸ hskip))
      refine Leaves.of_suffix ?_ hrest
      exact .bind_read (ih _) fun _ _ => .some List.suffix_rfl
    · exact .some hskip

theorem leaves_readKey? (cs : List Char) : Leaves cs (readKey? cs) := leaves_readKeyUpTo? _ cs

/-! Numbers -/

private theorem exists_run_of_readMoreDigits {isDigit : Char → Bool} (hbar : isDigit '_' = false)
    (cs : List Char) : ∃ run, run ++ (readMoreDigits isDigit cs).2 = cs ∧
      (∀ c ∈ run, isDigit c = true ∨ c = '_') ∧
      (readMoreDigits isDigit cs).1 = run.filter isDigit := by
  fun_induction readMoreDigits isDigit cs with
  | case1 c r hc digits rest heq ih =>
    obtain ⟨run, hrest, hrun, hdigits⟩ := ih
    rw [heq] at hrest hdigits
    refine ⟨'_' :: c :: run, by simp [hrest], ?_, by simp [hbar, hc, ← hdigits]⟩
    simpa [hc] using hrun
  | case3 c r _ hc digits rest heq ih =>
    obtain ⟨run, hrest, hrun, hdigits⟩ := ih
    rw [heq] at hrest hdigits
    refine ⟨c :: run, by simp [hrest], ?_, by simp [hc, ← hdigits]⟩
    simpa [hc] using hrun
  | case2 c r hc => exact ⟨[], rfl, nofun, rfl⟩
  | case4 c r hc => exact ⟨[], rfl, nofun, rfl⟩
  | case5 => exact ⟨[], rfl, nofun, rfl⟩

theorem exists_run_of_readDigitGroup? {isDigit : Char → Bool} (hbar : isDigit '_' = false)
    {cs digits rest : List Char} (h : readDigitGroup? isDigit cs = some (digits, rest)) :
    ∃ run, run ++ rest = cs ∧ (∀ c ∈ run, isDigit c = true ∨ c = '_') ∧
      digits = run.filter isDigit := by
  cases cs with
  | nil => cases h
  | cons c r =>
    rw [readDigitGroup?, Option.ite_none_right_eq_some] at h
    obtain ⟨hc, h⟩ := h
    cases h
    obtain ⟨run, hrest, hrun, hdigits⟩ := exists_run_of_readMoreDigits hbar r
    refine ⟨c :: run, by simp [hrest], ?_, by simp [hc, hdigits]⟩
    simpa [hc] using hrun

private theorem leaves_readDigitGroup? {isDigit : Char → Bool} (hbar : isDigit '_' = false)
    (cs : List Char) : Leaves cs (readDigitGroup? isDigit cs) := by
  rintro ⟨digits, rest⟩ h
  obtain ⟨run, hrest, -⟩ := exists_run_of_readDigitGroup? hbar h
  exact ⟨run, hrest⟩

private theorem isDigitOf_bar (base : Nat) : isDigitOf base '_' = false := rfl

theorem leaves_readBased? (cs : List Char) : Leaves cs (readBased? cs) := by
  unfold readBased?
  split
  · rename_i c r
    refine Leaves.of_suffix ?_ ⟨['0', c], rfl⟩
    refine .bind fun base _ => ?_
    exact .bind_read (leaves_readDigitGroup? (isDigitOf_bar base) r) fun _ _ =>
      .some List.suffix_rfl
  · exact .none

theorem suffix_readSign (cs : List Char) : (readSign cs).2 <:+ cs := by
  unfold readSign
  split
  · exact List.suffix_cons _ _
  · exact List.suffix_cons _ _
  · exact List.suffix_rfl

theorem leaves_readWhole? (cs : List Char) : Leaves cs (readWhole? cs) := by
  unfold readWhole?
  split
  · exact .some (List.suffix_cons _ _)
  · exact leaves_readDigitGroup? rfl cs

theorem leaves_readFraction? (cs : List Char) : Leaves cs (readFraction? cs) := by
  unfold readFraction?
  split
  · exact (leaves_readDigitGroup? rfl _).of_suffix (List.suffix_cons _ _)
  · exact .none

theorem leaves_readExponent? (cs : List Char) : Leaves cs (readExponent? cs) := by
  cases cs with
  | nil => exact .none
  | cons c r =>
    refine .ite ?_ .none
    refine Leaves.of_suffix ?_ ((suffix_readSign r).trans (List.suffix_cons c r))
    exact .bind_read (leaves_readDigitGroup? rfl _) fun _ _ => .some List.suffix_rfl

theorem leaves_readSpecial? (cs : List Char) : Leaves cs (readSpecial? cs) := by
  have hsign := suffix_readSign cs
  unfold readSpecial?
  dsimp only
  split
  · rename_i hrest
    rw [hrest] at hsign
    exact .some (List.IsSuffix.trans ⟨['i', 'n', 'f'], rfl⟩ hsign)
  · rename_i hrest
    rw [hrest] at hsign
    exact .some (List.IsSuffix.trans ⟨['n', 'a', 'n'], rfl⟩ hsign)
  · exact .none

/-! Other values -/

theorem leaves_readBool? (cs : List Char) : Leaves cs (Text.readBool? cs) := by
  unfold Text.readBool?
  split
  · exact .some ⟨['t', 'r', 'u', 'e'], rfl⟩
  · exact .some ⟨['f', 'a', 'l', 's', 'e'], rfl⟩
  · exact .none

theorem suffix_of_skipTriviaFrom? {inComment : Bool} {cs r : List Char}
    (h : r ∈ skipTriviaFrom? inComment cs) : r <:+ cs := by
  induction cs generalizing inComment with
  | nil => cases h; exact List.suffix_rfl
  | cons c cs ih =>
    have hcs {inComment : Bool} (h : r ∈ skipTriviaFrom? inComment cs) : r <:+ c :: cs :=
      (ih h).trans (List.suffix_cons c cs)
    unfold skipTriviaFrom? at h
    grind

theorem suffix_of_skipComment? {cs r : List Char} (h : r ∈ skipComment? cs) : r <:+ cs := by
  unfold skipComment? at h
  split at h
  · obtain ⟨-, h⟩ := Option.ite_none_left_eq_some.mp h
    cases h
    exact (List.dropWhile_suffix _).trans (List.suffix_cons _ _)
  · cases h
    exact List.suffix_rfl

theorem leaves_readHeader? (cs : List Char) : Leaves cs (readHeader? cs) := by
  unfold readHeader?
  split
  · rename_i r
    refine Leaves.of_suffix ?_ ((suffix_skipSpaces r).trans (List.suffix_cons '[' r))
    refine .bind_read (leaves_readKey? _) fun key cs => ?_
    refine .bind fun rest hrest => ?_
    obtain ⟨r, hr, hrest⟩ := Option.bind_eq_some_iff.mp hrest
    exact .some ((suffix_of_after? hrest).trans (suffix_of_after? hr))
  · refine Leaves.of_suffix ?_ (suffix_skipSpaces cs)
    refine .bind_read (leaves_readKey? _) fun key cs => ?_
    exact .bind fun rest hrest => .some (suffix_of_after? hrest)

end Toml

end Dissection
