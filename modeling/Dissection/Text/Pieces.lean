/-!
# Pieces of a text

Cutting a text at the first separator, and at every separator, and the truth values that a reader
finds at its front.
-/

namespace Dissection.Text

/-- What stands before and after the first `sep`. -/
def cutAt? (sep : Char) : List Char → Option (List Char × List Char)
  | [] => none
  | c :: r => if c = sep then some ([], r) else (cutAt? sep r).map fun p => (c :: p.1, p.2)

/-- What stands before and after the first two adjacent `sep`. -/
def cutAtPair? (sep : Char) : List Char → Option (List Char × List Char)
  | c :: d :: r =>
    if c = sep ∧ d = sep then some ([], r)
    else (cutAtPair? sep (d :: r)).map fun p => (c :: p.1, p.2)
  | _ => none

/-- The pieces between the separators: one more than there are separators. -/
def pieces (sep : Char) : List Char → List (List Char)
  | [] => [[]]
  | c :: r =>
    if c = sep then [] :: pieces sep r
    else match pieces sep r with
      | [] => [[c]]
      | p :: ps => (c :: p) :: ps

def readBool? : List Char → Option (Bool × List Char)
  | 't' :: 'r' :: 'u' :: 'e' :: rest => some (true, rest)
  | 'f' :: 'a' :: 'l' :: 's' :: 'e' :: rest => some (false, rest)
  | _ => none

theorem cutAt?_eq_some {sep : Char} {cs before after : List Char}
    (h : cutAt? sep cs = some (before, after)) : cs = before ++ sep :: after := by
  induction cs generalizing before with
  | nil => simp [cutAt?] at h
  | cons c r ih =>
    by_cases hc : c = sep
    · simp [cutAt?, hc] at h
      simp [hc, ← h.1, h.2]
    · simp only [cutAt?, hc, if_false, Option.map_eq_some_iff, Prod.mk.injEq] at h
      obtain ⟨p, hp, rfl, rfl⟩ := h
      simp [← ih hp]

theorem cutAt?_eq_none_iff {sep : Char} {cs : List Char} : cutAt? sep cs = none ↔ sep ∉ cs := by
  induction cs with
  | nil => simp [cutAt?]
  | cons c r ih =>
    by_cases hc : c = sep
    · simp [cutAt?, hc]
    · simp [cutAt?, hc, ih, Ne.symm hc]

theorem pieces_ne_nil (sep : Char) (cs : List Char) : pieces sep cs ≠ [] := by
  cases cs with
  | nil => simp [pieces]
  | cons c r =>
    unfold pieces
    split
    · simp
    · split <;> simp

theorem cutAt?_append {sep : Char} {before : List Char} (h : sep ∉ before) (after : List Char) :
    cutAt? sep (before ++ sep :: after) = some (before, after) := by
  induction before with
  | nil => simp [cutAt?]
  | cons c r ih =>
    simp only [List.mem_cons, not_or] at h
    simp [cutAt?, Ne.symm h.1, ih h.2]

theorem cutAt?_eq_some_iff {sep : Char} {cs before after : List Char} :
    cutAt? sep cs = some (before, after) ↔ cs = before ++ sep :: after ∧ sep ∉ before := by
  constructor
  · intro h
    refine ⟨cutAt?_eq_some h, ?_⟩
    induction cs generalizing before with
    | nil => simp [cutAt?] at h
    | cons c r ih =>
      by_cases hc : c = sep
      · simp only [cutAt?, hc, if_true, Option.some.injEq, Prod.mk.injEq] at h
        rw [← h.1]
        exact List.not_mem_nil
      · simp only [cutAt?, hc, if_false, Option.map_eq_some_iff, Prod.mk.injEq] at h
        obtain ⟨p, hp, rfl, rfl⟩ := h
        simp [Ne.symm hc, ih hp]
  · intro h
    rw [h.1]
    exact cutAt?_append h.2 after

theorem pieces_eq_singleton {sep : Char} {cs : List Char} (h : sep ∉ cs) :
    pieces sep cs = [cs] := by
  induction cs with
  | nil => rfl
  | cons c r ih =>
    simp only [List.mem_cons, not_or] at h
    simp [pieces, Ne.symm h.1, ih h.2]

theorem pieces_append_cons (sep : Char) (front back : List Char) :
    pieces sep (front ++ sep :: back) = pieces sep front ++ pieces sep back := by
  induction front with
  | nil => simp [pieces]
  | cons c r ih =>
    by_cases hc : c = sep
    · simp [pieces, hc, ih]
    · cases hp : pieces sep r with
      | nil => exact absurd hp (pieces_ne_nil sep r)
      | cons p ps => simp [pieces, hc, ih, hp]

theorem not_mem_of_mem_pieces {sep : Char} {cs piece : List Char} (h : piece ∈ pieces sep cs) :
    sep ∉ piece := by
  induction cs generalizing piece with
  | nil => simp_all [pieces]
  | cons c r ih =>
    by_cases hc : c = sep
    · simp only [pieces, hc, if_true, List.mem_cons] at h
      rcases h with rfl | h
      · simp
      · exact ih h
    · cases hp : pieces sep r with
      | nil => exact absurd hp (pieces_ne_nil sep r)
      | cons p ps =>
        simp only [pieces, hc, if_false, hp, List.mem_cons] at h
        rw [hp] at ih
        rcases h with rfl | h
        · simp [Ne.symm hc, ih]
        · exact ih (by simp [h])

section

variable {sep : Char}

theorem pair_infix_cons_cons_iff {c d : Char} {cs : List Char} :
    [sep, sep] <:+: c :: d :: cs ↔ (c = sep ∧ d = sep) ∨ [sep, sep] <:+: d :: cs := by
  rw [List.infix_cons_iff, List.cons_prefix_cons, List.cons_prefix_cons]
  simp [eq_comm]

theorem not_pair_infix_singleton (c : Char) : ¬ [sep, sep] <:+: [c] := by
  intro h
  simpa using h.length_le

theorem cutAtPair?_eq_none_iff {cs : List Char} :
    cutAtPair? sep cs = none ↔ ¬ [sep, sep] <:+: cs := by
  induction cs using cutAtPair?.induct sep with
  | case1 c d cs h => simp [cutAtPair?, h, pair_infix_cons_cons_iff]
  | case2 c d cs h ih => simp [cutAtPair?, h, pair_infix_cons_cons_iff, ih]
  | case3 cs h =>
    match cs, h with
    | [], _ => simp [cutAtPair?]
    | [c], _ => simp [cutAtPair?, not_pair_infix_singleton]
    | c :: d :: cs, h => exact absurd rfl (h c d cs)

theorem cutAtPair?_append {before : List Char} (h : ¬ [sep, sep] <:+: before ++ [sep])
    (after : List Char) : cutAtPair? sep (before ++ sep :: sep :: after) = some (before, after) := by
  induction before with
  | nil => simp [cutAtPair?]
  | cons c before ih =>
    -- whichever character follows, it is not the second of a pair with this one
    obtain ⟨d, rest, hd⟩ : ∃ d rest, before ++ [sep] = d :: rest := by
      cases before <;> simp
    have hnext : before ++ sep :: sep :: after = d :: (rest ++ sep :: after) := by
      rw [List.append_cons, hd, List.cons_append]
    rw [List.cons_append, hd, pair_infix_cons_cons_iff, not_or, ← hd] at h
    have hrest := ih h.2
    rw [hnext] at hrest
    rw [List.cons_append, hnext, cutAtPair?, if_neg h.1, hrest]
    rfl

theorem cutAtPair?_eq_some_iff {cs before after : List Char} :
    cutAtPair? sep cs = some (before, after) ↔
      cs = before ++ sep :: sep :: after ∧ ¬ [sep, sep] <:+: before ++ [sep] := by
  constructor
  · intro h
    induction cs using cutAtPair?.induct sep generalizing before with
    | case1 c d cs hpair =>
      obtain ⟨rfl, rfl⟩ := hpair
      simp only [cutAtPair?, and_self, if_true, Option.some.injEq, Prod.mk.injEq] at h
      obtain ⟨rfl, rfl⟩ := h
      exact ⟨rfl, not_pair_infix_singleton _⟩
    | case2 c d cs hpair ih =>
      simp only [cutAtPair?, hpair, if_false, Option.map_eq_some_iff] at h
      obtain ⟨⟨front, back⟩, hcut, hsplit⟩ := h
      obtain ⟨rfl, rfl⟩ := Prod.mk.inj hsplit
      obtain ⟨htext, hfirst⟩ := ih hcut
      refine ⟨by rw [htext]; rfl, ?_⟩
      obtain ⟨rest, hd⟩ : ∃ rest, front ++ [sep] = d :: rest := by
        cases front <;> simp_all
      rw [List.cons_append, hd, pair_infix_cons_cons_iff, not_or, ← hd]
      exact ⟨hpair, hfirst⟩
    | case3 cs hshort => simp [cutAtPair?] at h
  · intro h
    rw [h.1]
    exact cutAtPair?_append h.2 after

theorem pair_infix_cons_iff {c : Char} (hc : c ≠ sep) {cs : List Char} :
    [sep, sep] <:+: c :: cs ↔ [sep, sep] <:+: cs := by
  rw [List.infix_cons_iff, List.cons_prefix_cons]
  simp [Ne.symm hc]

theorem pair_infix_append_cons_iff {c : Char} (hc : c ≠ sep) {xs ys : List Char} :
    [sep, sep] <:+: xs ++ c :: ys ↔ [sep, sep] <:+: xs ∨ [sep, sep] <:+: ys := by
  induction xs with
  | nil => simp [pair_infix_cons_iff hc]
  | cons x xs ih =>
    cases xs with
    | nil =>
      rw [List.singleton_append, pair_infix_cons_cons_iff, pair_infix_cons_iff hc]
      simp [hc, not_pair_infix_singleton]
    | cons y xs =>
      rw [List.cons_append, List.cons_append, pair_infix_cons_cons_iff, ← List.cons_append, ih,
        pair_infix_cons_cons_iff, or_assoc]

theorem not_pair_infix_padded {front cs back : List Char} (hfront : sep ∉ front)
    (hback : sep ∉ back) (h : ¬ [sep, sep] <:+: cs ++ [sep]) :
    ¬ [sep, sep] <:+: front ++ cs ++ back ++ [sep] := by
  induction front with
  | nil =>
    cases back with
    | nil => simpa using h
    | cons c back =>
      rw [List.mem_cons, not_or] at hback
      obtain ⟨hc, hback⟩ := hback
      have hcs : ¬ [sep, sep] <:+: cs := fun hpair => h (List.infix_append_of_infix_left hpair)
      have hlast : ¬ [sep, sep] <:+: back ++ [sep] := by
        intro hpair
        have hcount := hpair.sublist.count_le sep
        simp [List.count_eq_zero_of_not_mem hback] at hcount
      rw [List.nil_append, List.append_assoc, List.cons_append,
        pair_infix_append_cons_iff (Ne.symm hc), not_or]
      exact ⟨hcs, hlast⟩
  | cons c front ih =>
    rw [List.mem_cons, not_or] at hfront
    rw [List.cons_append, List.cons_append, List.cons_append,
      pair_infix_cons_iff (Ne.symm hfront.1)]
    exact ih hfront.2

end

end Dissection.Text
