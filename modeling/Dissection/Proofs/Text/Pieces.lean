import Dissection.Text.Character
import Mathlib.Data.List.Basic
import Mathlib.Data.List.DropRight

/-!
# Trimmed and joined texts

Trimming takes the blanks at either end away and nothing else, so blanks that are put there before
make no difference.
-/

namespace Dissection.Text

def Blank (cs : List Char) : Prop := ∀ c ∈ cs, isBlank c = true

instance (cs : List Char) : Decidable (Blank cs) :=
  List.decidableBAll (fun c => isBlank c = true) cs

/-- Whether a text is another with blanks around it. -/
def Padded (cs padded : List Char) : Prop :=
  ∃ front back, Blank front ∧ Blank back ∧ padded = front ++ cs ++ back

theorem Blank.not_mem {cs : List Char} (h : Blank cs) {c : Char} (hc : isBlank c = false) :
    c ∉ cs := by
  intro hmem
  rw [h c hmem] at hc
  cases hc

private theorem trim_eq_rdropWhile (cs : List Char) :
    trim cs = (cs.dropWhile isBlank).rdropWhile isBlank := rfl

private theorem rdropWhile_append_of_blank (cs : List Char) {back : List Char} (h : Blank back) :
    (cs ++ back).rdropWhile isBlank = cs.rdropWhile isBlank := by
  have hback : ∀ c ∈ back.reverse, isBlank c = true := fun c hc => h c (List.mem_reverse.mp hc)
  rw [List.rdropWhile, List.reverse_append, List.dropWhile_append_of_pos hback]
  rfl

theorem Padded.trim_eq {cs padded : List Char} (h : Padded cs padded) :
    trim padded = trim cs := by
  obtain ⟨front, back, hfront, hback, rfl⟩ := h
  rw [trim_eq_rdropWhile, trim_eq_rdropWhile, List.append_assoc,
    List.dropWhile_append_of_pos hfront, List.dropWhile_append]
  split
  · rename_i hempty
    have hnil : back.dropWhile isBlank = [] := List.dropWhile_eq_nil_iff.mpr hback
    rw [hnil, List.isEmpty_iff.mp hempty]
  · exact rdropWhile_append_of_blank _ hback

private theorem padded_trim (cs : List Char) : Padded (trim cs) cs := by
  refine ⟨cs.takeWhile isBlank, (cs.dropWhile isBlank).rtakeWhile isBlank, ?_, ?_, ?_⟩
  · intro c hc
    exact List.mem_takeWhile_imp hc
  · intro c hc
    exact List.mem_rtakeWhile_imp hc
  · rw [trim_eq_rdropWhile, List.append_assoc, List.rdropWhile_append_rtakeWhile,
      List.takeWhile_append_dropWhile]

theorem trim_infix (cs : List Char) : trim cs <:+: cs := by
  obtain ⟨front, back, -, -, hsplit⟩ := padded_trim cs
  exact ⟨front, back, hsplit.symm⟩

theorem trim_trim (cs : List Char) : trim (trim cs) = trim cs := (padded_trim cs).trim_eq.symm

theorem trim_eq_nil_iff {cs : List Char} : trim cs = [] ↔ Blank cs := by
  constructor
  · intro h
    obtain ⟨front, back, hfront, hback, hsplit⟩ := padded_trim cs
    rw [h, List.append_nil] at hsplit
    rw [hsplit]
    exact List.forall_mem_append.mpr ⟨hfront, hback⟩
  · intro h
    have hpadded : Padded [] cs := ⟨cs, [], h, List.forall_mem_nil _, by simp⟩
    exact hpadded.trim_eq

theorem trim_ne_nil_iff {cs : List Char} : trim cs ≠ [] ↔ ¬ Blank cs := not_congr trim_eq_nil_iff

theorem strip_eq_empty_iff {s : String} : strip s = "" ↔ Blank s.toList := by
  rw [← trim_eq_nil_iff, strip, String.ofList_eq_empty_iff]

/-- Whether there is something in a text and no blank at either end of it. -/
structure Tight (cs : List Char) : Prop where
  ne_nil : cs ≠ []
  head : ∀ c ∈ cs.head?, isBlank c = false
  last : ∀ c ∈ cs.getLast?, isBlank c = false

private theorem Padded.trim_ne {cs padded : List Char} (h : Padded cs padded)
    (hlength : cs.length < padded.length) : trim padded ≠ padded := by
  intro htrim
  have hpart := trim_infix cs
  have hle := hpart.length_le
  rw [← h.trim_eq, htrim] at hle
  omega

/-- Texts are tight that trimming leaves as they are, the empty one apart. -/
theorem tight_iff {cs : List Char} : Tight cs ↔ cs ≠ [] ∧ trim cs = cs := by
  constructor
  · intro h
    have hfront : cs.dropWhile isBlank = cs := by
      obtain ⟨c, r, rfl⟩ := List.exists_cons_of_ne_nil h.ne_nil
      exact List.dropWhile_cons_of_neg (by simp [h.head c rfl])
    have hback : cs.rdropWhile isBlank = cs := by
      refine List.rdropWhile_eq_self_iff.mpr fun hne => ?_
      simp [h.last _ (List.getLast?_eq_getLast_of_ne_nil hne)]
    exact ⟨h.ne_nil, by rw [trim_eq_rdropWhile, hfront, hback]⟩
  · intro h
    obtain ⟨hne, htrim⟩ := h
    refine ⟨hne, fun c hc => ?_, fun c hc => ?_⟩
    · obtain ⟨r, rfl⟩ := List.head?_eq_some_iff.mp hc
      by_contra hblank
      have hpadded : Padded r (c :: r) :=
        ⟨[c], [], by simpa [Blank] using hblank, by simp [Blank], by simp⟩
      exact hpadded.trim_ne (by simp) htrim
    · obtain ⟨r, rfl⟩ := List.getLast?_eq_some_iff.mp hc
      by_contra hblank
      have hpadded : Padded r (r ++ [c]) :=
        ⟨[], [c], by simp [Blank], by simpa [Blank] using hblank, by simp⟩
      exact hpadded.trim_ne (by simp) htrim

theorem tight_trim {cs : List Char} (h : trim cs ≠ []) : Tight (trim cs) :=
  tight_iff.mpr ⟨h, trim_trim cs⟩

/-- Trimming takes blanks away only behind what follows a tight text, unless that is all blank. -/
theorem Tight.trim_append {cs : List Char} (h : Tight cs) (c : Char) {after : List Char}
    (hafter : ¬ Blank after) :
    ∃ kept, trim (cs ++ c :: after) = cs ++ c :: kept ∧ trim kept = trim after := by
  have hback : Blank (after.rtakeWhile isBlank) := fun d hd => List.mem_rtakeWhile_imp hd
  have hne : after.rdropWhile isBlank ≠ [] := fun hnil =>
    hafter (List.rdropWhile_eq_nil_iff.mp hnil)
  have hkept : Padded (after.rdropWhile isBlank) after :=
    ⟨[], _, List.forall_mem_nil _, hback, by simp [List.rdropWhile_append_rtakeWhile]⟩
  have hwhole : Padded (cs ++ c :: after.rdropWhile isBlank) (cs ++ c :: after) :=
    ⟨[], _, List.forall_mem_nil _, hback, by simp [List.rdropWhile_append_rtakeWhile]⟩
  have htight : Tight (cs ++ c :: after.rdropWhile isBlank) := by
    refine ⟨List.append_ne_nil_of_left_ne_nil h.ne_nil _, fun d hd => ?_, fun d hd => ?_⟩
    · rw [List.head?_append_of_ne_nil _ h.ne_nil] at hd
      exact h.head d hd
    · rw [List.getLast?_append_cons, List.getLast?_cons_of_ne_nil hne,
        List.getLast?_eq_getLast_of_ne_nil hne, Option.mem_some_iff] at hd
      rw [← hd]
      exact Bool.eq_false_iff.mpr (List.rdropWhile_last_not _ _ hne)
  exact ⟨_, hwhole.trim_eq.trans (tight_iff.mp htight).2, hkept.trim_eq.symm⟩

instance (cs : List Char) : Decidable (Tight cs) := decidable_of_iff _ tight_iff.symm

/-!
## Parts with separators between them
-/

/-- The parts of a text with a separator between any two. -/
def joined (separator : List Char) (parts : List (List Char)) : List Char :=
  (parts.intersperse separator).flatten

variable (separator part : List Char)

theorem joined_singleton : joined separator [part] = part := by
  simp [joined]

theorem joined_cons_cons (next : List Char) (parts : List (List Char)) :
    joined separator (part :: next :: parts) =
      part ++ (separator ++ joined separator (next :: parts)) := by
  simp [joined]

theorem joined_eq_append (parts : List (List Char)) :
    ∃ cs, joined separator (part :: parts) = part ++ cs := by
  cases parts with
  | nil => exact ⟨[], by simp [joined]⟩
  | cons next parts => exact ⟨_, joined_cons_cons separator part next parts⟩

theorem not_mem_joined {c : Char} (hseparator : c ∉ separator) {parts : List (List Char)}
    (h : ∀ part ∈ parts, c ∉ part) : c ∉ joined separator parts := by
  induction parts with
  | nil => exact List.not_mem_nil
  | cons part parts ih =>
    obtain ⟨hpart, hparts⟩ := List.forall_mem_cons.mp h
    cases parts with
    | nil => rwa [joined_singleton]
    | cons next parts =>
      rw [joined_cons_cons, List.mem_append, List.mem_append]
      simp [hpart, hseparator, ih hparts]

end Dissection.Text
