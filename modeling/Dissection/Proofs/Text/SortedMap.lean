import Dissection.Value
import Mathlib.Data.List.Basic
import Mathlib.Data.List.Nodup
import Mathlib.Tactic.SplitIfs

/-!
# Sorted maps

A sorted map holds the keys of its entries, each once and in order. Where entries that share a key
agree there is no choice of the one that counts.
-/

namespace Dissection

namespace Text.SortedMap

variable {β : Type}

/-- Whether the keys stand in strictly increasing order, so that none stands twice. -/
def Sorted (m : List (String × β)) : Prop := m.Pairwise fun a b => a.1 < b.1

private theorem mem_of_mem_insert {key : String} {value : β} {e : String × β}
    {m : List (String × β)}
    (h : e ∈ insert key value m) : e = (key, value) ∨ e ∈ m := by
  induction m with
  | nil => simpa [insert] using h
  | cons x m ih =>
    rw [insert] at h
    split_ifs at h <;> grind

private theorem mem_keys_insert {key : String} {value : β} {name : String} {m : List (String × β)} :
    name ∈ (insert key value m).map Prod.fst ↔ name = key ∨ name ∈ m.map Prod.fst := by
  induction m with
  | nil => simp [insert]
  | cons x m ih =>
    rw [insert]
    split_ifs with hlt heq
    · simp
    · simp [heq]
    · rw [List.map_cons, List.mem_cons, ih, List.map_cons, List.mem_cons]
      exact or_left_comm

theorem Sorted.insert {m : List (String × β)} (h : Sorted m) (key : String) (value : β) :
    Sorted (insert key value m) := by
  induction m with
  | nil => exact List.pairwise_singleton _ _
  | cons x m ih =>
    obtain ⟨hx, hm⟩ := List.pairwise_cons.mp h
    rw [SortedMap.insert]
    split_ifs with hlt heq
    · refine List.Pairwise.cons (fun e he => ?_) h
      rcases List.mem_cons.mp he with rfl | he
      · exact hlt
      · exact String.lt_trans hlt (hx e he)
    · exact List.Pairwise.cons (fun e he => heq ▸ hx e he) hm
    · refine List.Pairwise.cons (fun e he => ?_) (ih hm)
      rcases mem_of_mem_insert he with rfl | he
      · exact Std.lt_of_le_of_ne (String.not_lt.mp hlt) (Ne.symm heq)
      · exact hx e he

private theorem mem_of_mem_foldl_insert {es m : List (String × β)} {e : String × β}
    (h : e ∈ es.foldl (fun m e => SortedMap.insert e.1 e.2 m) m) : e ∈ es ∨ e ∈ m := by
  induction es generalizing m with
  | nil => exact .inr h
  | cons x es ih =>
    rcases ih h with hes | hm
    · exact .inl (List.mem_cons_of_mem _ hes)
    · rcases mem_of_mem_insert hm with rfl | hm
      · exact .inl List.mem_cons_self
      · exact .inr hm

theorem mem_of_mem_ofEntries {es : List (String × β)} {e : String × β} (h : e ∈ ofEntries es) :
    e ∈ es :=
  (mem_of_mem_foldl_insert h).resolve_right List.not_mem_nil

private theorem mem_keys_foldl_insert {es m : List (String × β)} {name : String} :
    name ∈ (es.foldl (fun m e => SortedMap.insert e.1 e.2 m) m).map Prod.fst ↔
      name ∈ es.map Prod.fst ∨ name ∈ m.map Prod.fst := by
  induction es generalizing m with
  | nil => simp
  | cons x es ih =>
    rw [List.foldl_cons, ih, mem_keys_insert, List.map_cons, List.mem_cons, or_left_comm, or_assoc]

private theorem mem_keys_ofEntries {es : List (String × β)} {name : String} :
    name ∈ (ofEntries es).map Prod.fst ↔ name ∈ es.map Prod.fst := by
  rw [ofEntries, mem_keys_foldl_insert]
  simp

theorem sorted_ofEntries (es : List (String × β)) : Sorted (ofEntries es) := by
  have hfold (m : List (String × β)) (h : Sorted m) :
      Sorted (es.foldl (fun m e => SortedMap.insert e.1 e.2 m) m) := by
    induction es generalizing m with
    | nil => exact h
    | cons x es ih => exact ih _ (h.insert x.1 x.2)
  exact hfold [] List.Pairwise.nil

/-- Whether a map of truth values tells of some names, and of no others, whether each has a
property. -/
structure Tells (names : List String) (on : String → Prop) (m : List (String × Bool)) : Prop where
  sorted : Sorted m
  keys (name : String) : name ∈ m.map Prod.fst ↔ name ∈ names
  value {e : String × Bool} (he : e ∈ m) : e.2 = true ↔ on e.1

theorem lookup_of_mem {m : List (String × β)} (hm : (m.map Prod.fst).Nodup) {e : String × β}
    (he : e ∈ m) : m.lookup e.1 = some e.2 := by
  induction m with
  | nil => cases he
  | cons x m ih =>
    obtain ⟨hx, hm⟩ := List.nodup_cons.mp hm
    rcases List.mem_cons.mp he with rfl | he
    · exact List.lookup_cons_self
    · have hne : e.1 ≠ x.1 := fun heq => hx (List.mem_map.mpr ⟨e, he, heq⟩)
      rw [List.lookup_cons, beq_false_of_ne hne]
      exact ih hm he

theorem mem_of_lookup {m : List (String × β)} {key : String} {value : β}
    (h : m.lookup key = some value) : (key, value) ∈ m := by
  obtain ⟨front, back, rfl, -⟩ := List.lookup_eq_some_iff.mp h
  simp

theorem mem_of_getD_lookup {m : List (String × Bool)} {name : String}
    (h : (m.lookup name).getD false = true) : (name, true) ∈ m := by
  cases hlookup : m.lookup name with
  | none =>
    rw [hlookup] at h
    cases h
  | some flag =>
    rw [hlookup, Option.getD_some] at h
    exact h ▸ mem_of_lookup hlookup

theorem Sorted.nodup {m : List (String × β)} (h : Sorted m) : (m.map Prod.fst).Nodup :=
  List.pairwise_map.mpr (h.imp fun hlt => Std.ne_of_lt hlt)

theorem ofEntries_perm {es : List (String × β)} (h : (es.map Prod.fst).Nodup) :
    (ofEntries es).Perm es := by
  have hnodup : (ofEntries es).Nodup := List.Nodup.of_map Prod.fst (sorted_ofEntries es).nodup
  apply (List.perm_ext_iff_of_nodup hnodup (List.Nodup.of_map Prod.fst h)).mpr
  intro e
  constructor
  · exact mem_of_mem_ofEntries
  · intro he
    have hkey : e.1 ∈ (ofEntries es).map Prod.fst :=
      mem_keys_ofEntries.mpr (List.mem_map.mpr ⟨e, he, rfl⟩)
    obtain ⟨f, hf, heq⟩ := List.mem_map.mp hkey
    have hsame : f = e := List.inj_on_of_nodup_map h (mem_of_mem_ofEntries hf) he heq
    exact hsame ▸ hf

private theorem insert_map {γ : Type} (f : β → γ) (key : String) (value : β)
    (m : List (String × β)) :
    insert key (f value) (m.map fun e => (e.1, f e.2)) =
      (insert key value m).map fun e => (e.1, f e.2) := by
  induction m with
  | nil => rfl
  | cons x m ih =>
    rw [List.map_cons, insert, insert]
    split_ifs
    · rfl
    · rfl
    · rw [ih, List.map_cons]

theorem ofEntries_map {γ : Type} (f : β → γ) (es : List (String × β)) :
    ofEntries (es.map fun e => (e.1, f e.2)) = (ofEntries es).map fun e => (e.1, f e.2) := by
  have hfold (m : List (String × β)) :
      (es.map fun e => (e.1, f e.2)).foldl (fun m e => insert e.1 e.2 m)
          (m.map fun e => (e.1, f e.2)) =
        (es.foldl (fun m e => insert e.1 e.2 m) m).map fun e => (e.1, f e.2) := by
    induction es generalizing m with
    | nil => rfl
    | cons x es ih =>
      simp only [List.map_cons, List.foldl_cons]
      rw [insert_map, ih]
  exact hfold []

private theorem Sorted.eq_of_mem_iff {m n : List (String × β)} (hm : Sorted m) (hn : Sorted n)
    (h : ∀ e, e ∈ m ↔ e ∈ n) : m = n := by
  have hnodup {m : List (String × β)} (hm : Sorted m) : m.Nodup := by
    apply List.Pairwise.imp _ hm
    rintro a b hlt rfl
    exact String.lt_irrefl _ hlt
  have hperm : m.Perm n := (List.perm_ext_iff_of_nodup (hnodup hm) (hnodup hn)).mpr h
  apply hperm.eq_of_pairwise _ hm hn
  intro a b _ _ hlt hgt
  exact absurd (String.lt_trans hlt hgt) (String.lt_irrefl _)

theorem Tells.mem_iff {names : List String} {on : String → Prop} {m : List (String × Bool)}
    (h : Tells names on m) {e : String × Bool} :
    e ∈ m ↔ e.1 ∈ names ∧ (e.2 = true ↔ on e.1) := by
  constructor
  · intro he
    exact ⟨(h.keys e.1).mp (List.mem_map.mpr ⟨e, he, rfl⟩), h.value he⟩
  · rintro ⟨hname, hflag⟩
    obtain ⟨f, hf, heq⟩ := List.mem_map.mp ((h.keys e.1).mpr hname)
    have hsame : f.2 = e.2 := by rw [Bool.eq_iff_iff, h.value hf, heq, hflag]
    have hfe : f = e := Prod.ext heq hsame
    exact hfe ▸ hf

theorem Tells.eq {names others : List String} {on also : String → Prop} {m n : List (String × Bool)}
    (hm : Tells names on m) (hn : Tells others also n) (hnames : ∀ name, name ∈ names ↔ name ∈ others)
    (hon : ∀ name, on name ↔ also name) : m = n := by
  apply hm.sorted.eq_of_mem_iff hn.sorted
  intro e
  rw [hm.mem_iff, hn.mem_iff, hnames e.1, hon e.1]

theorem Tells.getD_lookup {names : List String} {on : String → Prop} {m : List (String × Bool)}
    (h : Tells names on m) (name : String) :
    (m.lookup name).getD false = true ↔ name ∈ names ∧ on name := by
  constructor
  · intro hlookup
    have hmem := mem_of_getD_lookup hlookup
    exact ⟨(h.keys name).mp (List.mem_map.mpr ⟨_, hmem, rfl⟩), (h.value hmem).mp rfl⟩
  · rintro ⟨hname, hon⟩
    obtain ⟨e, he, rfl⟩ := List.mem_map.mp ((h.keys name).mpr hname)
    rw [lookup_of_mem h.sorted.nodup he]
    exact (h.value he).mpr hon

/-- Entries that agree in what they say of a name leave no choice of the one that counts. -/
theorem tells_ofEntries {names : List String} {on : String → Prop} {es : List (String × Bool)}
    (hkeys : ∀ name, name ∈ es.map Prod.fst ↔ name ∈ names) (hvalue : ∀ e ∈ es, e.2 = true ↔ on e.1) :
    Tells names on (ofEntries es) where
  sorted := sorted_ofEntries es
  keys name := mem_keys_ofEntries.trans (hkeys name)
  value he := hvalue _ (mem_of_mem_ofEntries he)

end Text.SortedMap

end Dissection
