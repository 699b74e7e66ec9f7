import Dissection.Config.Sections
import Dissection.Proofs.Text.SortedMap
import Dissection.Proofs.Toggling
import Dissection.Resolve

/-!
# Registries of a roster

The registry of a roster knows the names of the roster and no others. After options are applied the
roster and the options say of each name whether it is on.
-/

namespace Dissection

namespace Roster

def owners (r : Roster) : List String := r.heuristics.map Prod.snd

def shortNames (r : Roster) : List String := r.heuristics.map Prod.fst

end Roster

namespace Registry

private theorem mem_of_mem_register {name : String} {enabled : Bool} {known : List (String × Bool)}
    {p : String × Bool} (h : p ∈ register name enabled known) : p = (name, enabled) ∨ p ∈ known := by
  rw [register] at h
  split at h
  · exact .inr h
  · simpa [or_comm] using h

private theorem keys_register (name : String) (enabled : Bool) (known : List (String × Bool)) :
    (register name enabled known).map Prod.fst =
      if name ∈ known.map Prod.fst then known.map Prod.fst else known.map Prod.fst ++ [name] := by
  have hknown : known.any (·.1 == name) = true ↔ name ∈ known.map Prod.fst := by simp
  simp only [register, hknown]
  split
  · rfl
  · simp

section

variable (enabled : String → Bool)

private theorem mem_of_mem_registerAll {names : List String} {known : List (String × Bool)}
    {p : String × Bool}
    (h : p ∈ names.foldl (fun known name => register name (enabled name) known) known) :
    p.2 = enabled p.1 ∨ p ∈ known := by
  induction names generalizing known with
  | nil => exact .inr h
  | cons name names ih =>
    rcases ih h with hflag | hp
    · exact .inl hflag
    · exact (mem_of_mem_register hp).imp_left fun heq => by rw [heq]

private theorem keys_registerAll (names : List String) :
    (names.foldl (fun known name => register name (enabled name) known) []).map Prod.fst =
      names.eraseDups := by
  induction names using List.reverseRecOn with
  | nil => rfl
  | append_singleton names name ih =>
    rw [List.foldl_append, List.foldl_cons, List.foldl_nil, keys_register, ih,
      List.eraseDups_append]
    by_cases hname : name ∈ names <;> simp [List.removeAll, List.eraseDups_cons, hname]

private theorem registerAll_eq (names : List String) :
    names.foldl (fun known name => register name (enabled name) known) [] =
      names.eraseDups.map fun name => (name, enabled name) := by
  have hflag : ∀ p ∈ names.foldl (fun known name => register name (enabled name) known) [],
      p = (p.1, enabled p.1) := by
    intro p hp
    have hsecond := (mem_of_mem_registerAll enabled hp).resolve_right List.not_mem_nil
    exact Prod.ext rfl hsecond
  rw [← keys_registerAll enabled names, List.map_map]
  exact (List.map_id _).symm.trans (List.map_congr_left hflag)

end

theorem success_apply_iff (o : Options) (r : Registry) : (r.apply o).success = true ↔
    ∀ name, name ∈ o.enabledHeuristics ∨ name ∈ o.disabledHeuristics →
      r.knowsHeuristic name = true := by
  rw [apply_eq, Toggled.success, Options.unknownIn]
  simp [List.filter_eq_nil_iff, or_imp, forall_and]

theorem knowsHeuristic_iff {r : Registry} {name : String} :
    r.knowsHeuristic name = true ↔ name ∈ r.heuristics.map Heuristic.name := by
  simp [knowsHeuristic]

variable (r : Roster)

theorem protocols_ofRoster : (ofRoster r).protocols =
    (r.protocols ++ r.owners).eraseDups.map fun name =>
      (name, !r.disabledProtocols.contains name) :=
  registerAll_eq _ _

private theorem mem_protocols_ofRoster {p : String × Bool} (h : p ∈ (ofRoster r).protocols) :
    p.2 = true ↔ p.1 ∉ r.disabledProtocols := by
  rw [protocols_ofRoster] at h
  obtain ⟨name, -, rfl⟩ := List.mem_map.mp h
  simp

theorem mem_keys_ofRoster (name : String) : name ∈ (ofRoster r).protocols.map Prod.fst ↔
    name ∈ r.protocols ∨ name ∈ r.owners := by
  rw [ofRoster, keys_registerAll, List.mem_eraseDups, List.mem_append]
  rfl

theorem knowsHeuristic_ofRoster (name : String) :
    (ofRoster r).knowsHeuristic name = true ↔ name ∈ r.shortNames := by
  simp [knowsHeuristic_iff, ofRoster, Roster.shortNames]

theorem tells_sortedProtocols (o : Options) :
    Text.SortedMap.Tells (r.protocols ++ r.owners)
      (fun p => p ∈ o.enabledProtocols ∨ p ∉ o.disabledProtocols ∧ p ∉ r.disabledProtocols)
      ((ofRoster r).apply o).state.sortedProtocols := by
  rw [apply_eq, sortedProtocols]
  apply Text.SortedMap.tells_ofEntries
  · intro name
    rw [List.map_map, List.mem_append, ← mem_keys_ofRoster]
    rfl
  · intro p hp
    obtain ⟨q, hq, rfl⟩ := List.mem_map.mp hp
    rw [Options.switchedProtocol_snd_iff, mem_protocols_ofRoster r hq]
    rfl

theorem tells_sortedHeuristics (o : Options) :
    Text.SortedMap.Tells r.shortNames
      (fun h => h ∉ o.disabledHeuristics ∧ (h ∈ o.enabledHeuristics ∨ h ∉ r.disabledHeuristics))
      ((ofRoster r).apply o).state.sortedHeuristics := by
  rw [apply_eq, sortedHeuristics]
  apply Text.SortedMap.tells_ofEntries
  · intro name
    simp [ofRoster, Roster.shortNames, Options.switchedHeuristic]
  · intro e he
    simp only [ofRoster, List.map_map, List.mem_map, Function.comp_apply] at he
    obtain ⟨h, -, rfl⟩ := he
    rw [Options.enabled_switchedHeuristic_iff]
    simp [Options.switchedHeuristic]

end Registry

end Dissection

/-!
## The representation of a registry

Nothing in its type keeps a registry from holding a protocol twice, or heuristic dissectors that
share a short name and differ in whether they are on. But none is built so, and whatever is switched
in it afterwards sets the flags by name alone. So what is shown of a registry, where one entry counts
for each name, tells all there is to tell.
-/

namespace Dissection

namespace Registry

/-- What can be done to a registry once it is built: to grant a wish, or to apply options. -/
inductive Operation where
  | grant (t : Toggle)
  | apply (o : Options)

def perform (r : Registry) : Operation → Registry
  | .grant t => (Switchboard.ofRegistry.grant t r).1
  | .apply o => (r.apply o).state

def operate (ops : List Operation) (r : Registry) : Registry := ops.foldl perform r

/-- The registry with flags that hang on the names and on the flags before. -/
def reflag (protocol heuristic : String → Bool → Bool) (r : Registry) : Registry where
  protocols := r.protocols.map fun p => (p.1, protocol p.1 p.2)
  heuristics := r.heuristics.map fun h => { h with enabled := heuristic h.name h.enabled }

/-- The names of a registry in order: the protocols, and the heuristic dissectors with their
owners. -/
def names (r : Registry) : List String × List (String × String) :=
  (r.protocols.map Prod.fst, r.heuristics.map fun h => (h.name, h.owner))

/-- Whether every protocol stands once, every owner is a protocol, and heuristic dissectors with the
same short name are on or off together. -/
structure Coherent (r : Registry) : Prop where
  nodup : (r.protocols.map Prod.fst).Nodup
  owner_mem {h : Heuristic} (hh : h ∈ r.heuristics) : h.owner ∈ r.protocols.map Prod.fst
  enabled_eq {g h : Heuristic} (hg : g ∈ r.heuristics) (hh : h ∈ r.heuristics)
    (hname : g.name = h.name) : g.enabled = h.enabled

private theorem perform_eq_reflag (op : Operation) (r : Registry) :
    ∃ protocol heuristic, r.perform op = r.reflag protocol heuristic := by
  cases op with
  | grant t =>
    cases t with
    | protocol name enabled =>
      refine ⟨fun p flag => if p = name then enabled else flag, fun _ flag => flag, ?_⟩
      have hprotocols : (fun p : String × Bool => if p.1 = name then (p.1, enabled) else p) =
          fun p => (p.1, if p.1 = name then enabled else p.2) := by
        funext p
        split <;> rfl
      simp [perform, Switchboard.ofRegistry, setProtocol, reflag, hprotocols]
    | heuristic name enabled =>
      refine ⟨fun _ flag => flag, fun h flag => if h = name then enabled else flag, ?_⟩
      have hheuristics : (fun h : Heuristic => if h.name = name then { h with enabled } else h) =
          fun h => { h with enabled := if h.name = name then enabled else h.enabled } := by
        funext h
        split <;> rfl
      simp [perform, Switchboard.ofRegistry, setHeuristic, reflag, hheuristics]
  | apply o =>
    refine ⟨fun p flag => if p ∈ o.enabledProtocols then true
        else if p ∈ o.disabledProtocols then false else flag,
      fun h flag => if h ∈ o.disabledHeuristics then false
        else if h ∈ o.enabledHeuristics then true else flag, ?_⟩
    rw [perform, apply_eq]
    rfl

private theorem names_reflag (protocol heuristic : String → Bool → Bool) (r : Registry) :
    (r.reflag protocol heuristic).names = r.names := by
  simp [names, reflag, Function.comp_def]

theorem Coherent.reflag {r : Registry} (hr : r.Coherent) (protocol heuristic : String → Bool → Bool) :
    (r.reflag protocol heuristic).Coherent := by
  have hkeys : (r.reflag protocol heuristic).protocols.map Prod.fst = r.protocols.map Prod.fst :=
    congrArg Prod.fst (names_reflag protocol heuristic r)
  constructor
  · rw [hkeys]
    exact hr.nodup
  · intro _ hmem
    obtain ⟨h, hh, rfl⟩ := List.mem_map.mp hmem
    have howner := hr.owner_mem hh
    rw [hkeys]
    exact howner
  · intro _ _ hfirst hsecond hname
    obtain ⟨g, hg, rfl⟩ := List.mem_map.mp hfirst
    obtain ⟨h, hh, rfl⟩ := List.mem_map.mp hsecond
    have hsame : g.name = h.name := hname
    have hflag := hr.enabled_eq hg hh hsame
    simp only [hsame, hflag]

/-- Operations leave the names and the coherence of a registry as they are. -/
theorem operate_preserves (ops : List Operation) {r : Registry} (hr : r.Coherent) :
    (operate ops r).names = r.names ∧ (operate ops r).Coherent := by
  induction ops generalizing r with
  | nil => exact ⟨rfl, hr⟩
  | cons op ops ih =>
    obtain ⟨protocol, heuristic, hperform⟩ := perform_eq_reflag op r
    rw [operate, List.foldl_cons, ← operate, hperform]
    obtain ⟨hnames, hcoherent⟩ := ih (hr.reflag protocol heuristic)
    exact ⟨hnames.trans (names_reflag protocol heuristic r), hcoherent⟩

private theorem nodup_registerAll (enabled : String → Bool) (names : List String) :
    ((names.foldl (fun known name => register name (enabled name) known) []).map
      Prod.fst).Nodup := by
  induction names using List.reverseRecOn with
  | nil => exact List.nodup_nil
  | append_singleton names name ih =>
    rw [List.foldl_append, List.foldl_cons, List.foldl_nil, keys_register]
    split
    · exact ih
    · rename_i hnew
      refine List.nodup_append.mpr ⟨ih, List.pairwise_singleton _ name, fun k hk other hother => ?_⟩
      rw [List.mem_singleton.mp hother]
      exact fun heq => hnew (heq ▸ hk)

private theorem coherent_ofRoster (r : Roster) : (ofRoster r).Coherent where
  nodup := nodup_registerAll _ _
  owner_mem {h} hh := by
    obtain ⟨entry, hentry, rfl⟩ := List.mem_map.mp hh
    exact (mem_keys_ofRoster r entry.2).mpr (.inr (List.mem_map.mpr ⟨entry, hentry, rfl⟩))
  enabled_eq {g h} hg hh hname := by
    obtain ⟨first, -, rfl⟩ := List.mem_map.mp hg
    obtain ⟨second, -, rfl⟩ := List.mem_map.mp hh
    have hsame : first.1 = second.1 := hname
    simp only [hsame]

private theorem names_ofRoster (r : Roster) :
    (ofRoster r).names = ((r.protocols ++ r.owners).eraseDups, r.heuristics) := by
  rw [names, ofRoster, keys_registerAll, Roster.owners, List.map_map]
  exact congrArg (Prod.mk _) (List.map_id' r.heuristics)

/-- Whether flags that are shown tell of some names, each once and in the order of their code points,
whether it is on, where a name that is not shown is off. -/
structure Shows (names : List String) (enabled : String → Bool) (flags : List (String × Bool)) :
    Prop where
  sorted : flags.Pairwise fun a b => a.1 < b.1
  keys (name : String) : name ∈ flags.map Prod.fst ↔ name ∈ names
  lookup (name : String) : (flags.lookup name).getD false = enabled name

private theorem shows_of_tells {names : List String} {enabled : String → Bool}
    {flags : List (String × Bool)}
    (h : Text.SortedMap.Tells names (enabled · = true) flags)
    (hknown : ∀ name, enabled name = true → name ∈ names) : Shows names enabled flags where
  sorted := h.sorted
  keys := h.keys
  lookup name := by
    rw [Bool.eq_iff_iff, h.getD_lookup]
    exact and_iff_right_of_imp (hknown name)

private theorem shows_sortedProtocols {r : Registry} (hr : r.Coherent) :
    Shows (r.protocols.map Prod.fst) r.isProtocolEnabled r.sortedProtocols := by
  refine shows_of_tells (Text.SortedMap.tells_ofEntries (fun _ => Iff.rfl) fun p hp => ?_) ?_
  · rw [isProtocolEnabled, Text.SortedMap.lookup_of_mem hr.nodup hp, Option.getD_some]
  · intro name hname
    exact List.mem_map.mpr ⟨_, Text.SortedMap.mem_of_getD_lookup hname, rfl⟩

theorem isHeuristicEnabled_iff {r : Registry} {name : String} :
    r.isHeuristicEnabled name = true ↔ ∃ h ∈ r.heuristics, h.name = name ∧ h.enabled = true := by
  simp [isHeuristicEnabled]

private theorem shows_sortedHeuristics {r : Registry} (hr : r.Coherent) :
    Shows (r.heuristics.map Heuristic.name) r.isHeuristicEnabled r.sortedHeuristics := by
  refine shows_of_tells (Text.SortedMap.tells_ofEntries (fun name => ?_) fun e he => ?_) ?_
  · rw [List.map_map]
    rfl
  · obtain ⟨h, hh, rfl⟩ := List.mem_map.mp he
    rw [isHeuristicEnabled_iff]
    constructor
    · exact fun henabled => ⟨h, hh, rfl, henabled⟩
    · -- another entry may be the one that is on, but then this one is on with it
      rintro ⟨g, hg, hname, henabled⟩
      exact (hr.enabled_eq hh hg hname.symm).trans henabled
  · intro name hname
    obtain ⟨h, hh, rfl, -⟩ := isHeuristicEnabled_iff.mp hname
    exact List.mem_map.mpr ⟨h, hh, rfl⟩

/-- Whether a registry represents a roster: it is coherent, its names are those of the roster in
order, and what is shown of it is all that it tells of any name. -/
structure Represents (r : Registry) (roster : Roster) : Prop where
  coherent : r.Coherent
  names : r.names = ((roster.protocols ++ roster.owners).eraseDups, roster.heuristics)
  shown : ∃ protocols heuristics,
    r.document = .object [("protocols", .flags protocols), ("heuristics", .flags heuristics)] ∧
      Shows (r.protocols.map Prod.fst) r.isProtocolEnabled protocols ∧
      Shows (r.heuristics.map Heuristic.name) r.isHeuristicEnabled heuristics

/-- Whatever is done to a registry that was built from names or from a configuration, it stays
coherent, its names stay those of its roster, and nothing is lost in what is shown of it. -/
theorem operate_represents (ops : List Operation) :
    (∀ roster : Roster, (operate ops (ofRoster roster)).Represents roster) ∧
      ∀ t : Table, (operate ops (Config.registry t)).Represents (Config.roster t) := by
  have hroster (roster : Roster) : (operate ops (ofRoster roster)).Represents roster := by
    obtain ⟨hnames, hcoherent⟩ := operate_preserves ops (coherent_ofRoster roster)
    exact ⟨hcoherent, hnames.trans (names_ofRoster roster), _, _, rfl,
      shows_sortedProtocols hcoherent, shows_sortedHeuristics hcoherent⟩
  exact ⟨hroster, fun t => hroster (Config.roster t)⟩

end Registry

end Dissection
