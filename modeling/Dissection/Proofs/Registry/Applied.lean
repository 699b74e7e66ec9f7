import Dissection.Proofs.Registry

/-!
# The outcome of an apply

Whatever a registry holds, an apply leaves each entry in its place, and the four lists of the options
say which are on: of a name that is given both ways a protocol is on and a heuristic dissector off.
Each time that a short name is given which is not registered one line is reported.
-/

namespace Dissection

/-- What options owe to a registry that they are applied to, with what comes of it. -/
structure Options.Applied (o : Options) (before : Registry) (t : Toggled Registry) : Prop where
  protocols : t.state.protocols = before.protocols.map fun p =>
    (p.1, decide (p.1 ∈ o.enabledProtocols ∨ p.1 ∉ o.disabledProtocols ∧ p.2 = true))
  heuristics : t.state.heuristics = before.heuristics.map fun h =>
    { h with
      enabled := if h.name ∈ o.disabledHeuristics then false
        else if h.name ∈ o.enabledHeuristics then true else h.enabled }
  protocolEnabled (name : String) : t.state.isProtocolEnabled name = true ↔
    name ∈ before.protocols.map Prod.fst ∧ (name ∈ o.enabledProtocols ∨
      name ∉ o.disabledProtocols ∧ before.isProtocolEnabled name = true)
  heuristicEnabled (name : String) : t.state.isHeuristicEnabled name = true ↔
    name ∈ before.heuristics.map Heuristic.name ∧ name ∉ o.disabledHeuristics ∧
      (name ∈ o.enabledHeuristics ∨ before.isHeuristicEnabled name = true)
  success : t.success = true ↔
    o.enabledHeuristics ++ o.disabledHeuristics ⊆ before.heuristics.map Heuristic.name
  lines : t.lines =
    (o.enabledHeuristics.filter (· ∉ before.heuristics.map Heuristic.name)).map
        (fun name => .error ("No such protocol " ++ name ++ ", can't enable")) ++
      (o.disabledHeuristics.filter (· ∉ before.heuristics.map Heuristic.name)).map
        (fun name => .error ("No such protocol " ++ name ++ ", can't disable"))

private theorem Toggle.complaint_heuristic (name : String) (enabled : Bool) :
    (heuristic name enabled).complaint =
      .error ("No such protocol " ++ name ++
        if enabled then ", can't enable" else ", can't disable") := by
  cases enabled <;> simp only [complaint, String.append_assoc] <;> rfl

namespace Registry

private theorem lookup_reflagged (flag : String → Bool → Bool) (entries : List (String × Bool))
    (name : String) :
    (entries.map fun p => (p.1, flag p.1 p.2)).lookup name = (entries.lookup name).map (flag name) := by
  induction entries with
  | nil => rfl
  | cons p entries ih =>
    rw [List.map_cons, List.lookup_cons, List.lookup_cons]
    by_cases hname : name = p.1
    · simp [hname]
    · simp [beq_false_of_ne hname, ih]

variable (o : Options) (r : Registry)

private theorem protocols_apply : (r.apply o).state.protocols = r.protocols.map fun p =>
    (p.1, decide (p.1 ∈ o.enabledProtocols ∨ p.1 ∉ o.disabledProtocols ∧ p.2 = true)) := by
  rw [apply_eq]
  apply List.map_congr_left
  intro p _
  refine Prod.ext rfl ?_
  rw [Bool.eq_iff_iff, Options.switchedProtocol_snd_iff, decide_eq_true_iff]

private theorem isProtocolEnabled_apply (name : String) :
    (r.apply o).state.isProtocolEnabled name = true ↔
      name ∈ r.protocols.map Prod.fst ∧ (name ∈ o.enabledProtocols ∨
        name ∉ o.disabledProtocols ∧ r.isProtocolEnabled name = true) := by
  have hlookup := lookup_reflagged
    (fun key flag => decide (key ∈ o.enabledProtocols ∨ key ∉ o.disabledProtocols ∧ flag = true))
    r.protocols name
  rw [isProtocolEnabled, protocols_apply, hlookup, isProtocolEnabled]
  cases hentry : r.protocols.lookup name with
  | none =>
    have hunknown : name ∉ r.protocols.map Prod.fst := by
      intro hname
      obtain ⟨p, hp, rfl⟩ := List.mem_map.mp hname
      simpa using List.lookup_eq_none_iff.mp hentry p hp
    simp [hunknown]
  | some flag =>
    have hknown : name ∈ r.protocols.map Prod.fst :=
      List.mem_map.mpr ⟨_, Text.SortedMap.mem_of_lookup hentry, rfl⟩
    rw [Option.map_some, Option.getD_some, decide_eq_true_iff, Option.getD_some]
    exact (and_iff_right hknown).symm

private theorem isHeuristicEnabled_apply (name : String) :
    (r.apply o).state.isHeuristicEnabled name = true ↔
      name ∈ r.heuristics.map Heuristic.name ∧ name ∉ o.disabledHeuristics ∧
        (name ∈ o.enabledHeuristics ∨ r.isHeuristicEnabled name = true) := by
  rw [isHeuristicEnabled_iff, isHeuristicEnabled_iff, apply_eq]
  constructor
  · intro hafter
    obtain ⟨_, hmem, rfl, hflag⟩ := hafter
    obtain ⟨h, hh, rfl⟩ := List.mem_map.mp hmem
    obtain ⟨hoff, hon⟩ := (o.enabled_switchedHeuristic_iff h).mp hflag
    exact ⟨List.mem_map.mpr ⟨h, hh, rfl⟩, hoff,
      hon.imp_right fun henabled => ⟨h, hh, rfl, henabled⟩⟩
  · intro hbefore
    obtain ⟨hname, hoff, hon⟩ := hbefore
    -- a name that is given switches every entry that has it, else the entry that was on still is
    obtain ⟨h, hh, rfl, hswitch⟩ : ∃ h ∈ r.heuristics, h.name = name ∧
        (h.name ∈ o.enabledHeuristics ∨ h.enabled = true) := by
      rcases hon with hon | ⟨h, hh, rfl, henabled⟩
      · obtain ⟨h, hh, rfl⟩ := List.mem_map.mp hname
        exact ⟨h, hh, rfl, .inl hon⟩
      · exact ⟨h, hh, rfl, .inr henabled⟩
    exact ⟨o.switchedHeuristic h, List.mem_map_of_mem hh, rfl,
      (o.enabled_switchedHeuristic_iff h).mpr ⟨hoff, hswitch⟩⟩

private theorem lines_apply : (r.apply o).lines =
    (o.enabledHeuristics.filter (· ∉ r.heuristics.map Heuristic.name)).map
        (fun name => .error ("No such protocol " ++ name ++ ", can't enable")) ++
      (o.disabledHeuristics.filter (· ∉ r.heuristics.map Heuristic.name)).map
        (fun name => .error ("No such protocol " ++ name ++ ", can't disable")) := by
  have hknows : (!r.knowsHeuristic ·) = fun name =>
      decide (name ∉ r.heuristics.map Heuristic.name) := by
    funext name
    rw [Bool.eq_iff_iff, Bool.not_eq_true', decide_eq_true_iff, ← knowsHeuristic_iff,
      Bool.not_eq_true]
  rw [apply_eq, Toggled.lines, Options.unknownIn, hknows, List.map_append, List.map_map,
    List.map_map]
  congr 1 <;> apply List.map_congr_left <;> intro name _ <;> exact Toggle.complaint_heuristic name _

end Registry

/-- An apply to any registry, of any options, keeps the options and every entry, switches the entries
by the four lists alone, and reports each name that no heuristic dissector has. -/
theorem Setup.perform_apply_applied (host : Host) (x : Setup) :
    (x.perform host .apply).session = x.session ∧
      ∃ t : Toggled Registry, (x.perform host .apply).registry = t.state ∧
        (x.perform host .apply).last = some (t.success, t.lines) ∧
          x.session.options.Applied x.registry t := by
  refine ⟨rfl, x.registry.apply x.session.options, rfl, rfl, ?_⟩
  exact
    { protocols := Registry.protocols_apply _ _
      heuristics := by rw [Registry.apply_eq]; rfl
      protocolEnabled := Registry.isProtocolEnabled_apply _ _
      heuristicEnabled := Registry.isHeuristicEnabled_apply _ _
      success := by
        rw [Registry.success_apply_iff]
        simp only [Registry.knowsHeuristic_iff, ← List.mem_append]
        exact Iff.rfl
      lines := Registry.lines_apply _ _ }

end Dissection

/-!
## Disabled names

The names that a roster disables are off from the start in its registry. They may as well be switched
off one by one in a registry that was built with all names on: what is left hangs only on which names
were switched, since a flag that is off stays off.
-/

namespace Dissection

def Toggle.enabled : Toggle → Bool
  | .protocol _ enabled | .heuristic _ enabled => enabled

namespace Roster

def allOn (r : Roster) : Roster := { r with disabledProtocols := [], disabledHeuristics := [] }

def disablings (r : Roster) : List Toggle :=
  r.disabledProtocols.map (.protocol · false) ++ r.disabledHeuristics.map (.heuristic · false)

private theorem enabled_of_mem_disablings {r : Roster} {t : Toggle} (h : t ∈ r.disablings) :
    t.enabled = false := by
  rcases List.mem_append.mp h with h | h
  · obtain ⟨name, -, rfl⟩ := List.mem_map.mp h
    rfl
  · obtain ⟨name, -, rfl⟩ := List.mem_map.mp h
    rfl

private theorem protocol_mem_disablings {r : Roster} {name : String} :
    .protocol name false ∈ r.disablings ↔ name ∈ r.disabledProtocols := by
  simp [disablings]

private theorem heuristic_mem_disablings {r : Roster} {name : String} :
    .heuristic name false ∈ r.disablings ↔ name ∈ r.disabledHeuristics := by
  simp [disablings]

end Roster

namespace Registry

/-- The registry with the names off that some wishes switch off. -/
def without (ts : List Toggle) (r : Registry) : Registry :=
  r.reflag (fun name flag => flag && decide (.protocol name false ∉ ts))
    (fun name flag => flag && decide (.heuristic name false ∉ ts))

private theorem without_nil (r : Registry) : r.without [] = r := by
  simp [without, reflag]

private theorem without_without (ts us : List Toggle) (r : Registry) :
    (r.without ts).without us = r.without (ts ++ us) := by
  simp [without, reflag, Bool.and_assoc]

private theorem without_congr {ts us : List Toggle} (h : ∀ t, t ∈ ts ↔ t ∈ us) (r : Registry) :
    r.without ts = r.without us := by
  simp [without, h]

private theorem perform_grant_off {t : Toggle} (h : t.enabled = false) (r : Registry) :
    r.perform (.grant t) = r.without [t] := by
  cases t with
  | protocol name enabled =>
    obtain rfl : enabled = false := h
    have hprotocols : (fun p : String × Bool => if p.1 = name then (p.1, false) else p) =
        fun p => (p.1, p.2 && decide (p.1 ≠ name)) := by
      funext p
      by_cases hp : p.1 = name <;> simp [hp]
    simp [perform, Switchboard.ofRegistry, setProtocol, without, reflag, hprotocols]
  | heuristic name enabled =>
    obtain rfl : enabled = false := h
    have hheuristics :
        (fun d : Heuristic => if d.name = name then { d with enabled := false } else d) =
          fun d => { d with enabled := d.enabled && decide (d.name ≠ name) } := by
      funext d
      by_cases hd : d.name = name <;> simp [hd]
    simp [perform, Switchboard.ofRegistry, setHeuristic, without, reflag, hheuristics]

private theorem operate_grant_off {ts : List Toggle} (h : ∀ t ∈ ts, t.enabled = false)
    (r : Registry) :
    operate (ts.map .grant) r = r.without ts := by
  induction ts generalizing r with
  | nil => exact (without_nil r).symm
  | cons t ts ih =>
    obtain ⟨hfirst, hrest⟩ := List.forall_mem_cons.mp h
    rw [List.map_cons, operate, List.foldl_cons, ← operate, perform_grant_off hfirst, ih hrest,
      without_without]
    rfl

private theorem ofRoster_eq_without (r : Roster) :
    ofRoster r = (ofRoster r.allOn).without r.disablings := by
  have hprotocols : (ofRoster r).protocols =
      ((ofRoster r.allOn).without r.disablings).protocols := by
    have hall := protocols_ofRoster r.allOn
    rw [without, reflag, hall, protocols_ofRoster, List.map_map]
    apply List.map_congr_left
    intro name _
    simp [Roster.allOn, Roster.protocol_mem_disablings]
  have hheuristics : (ofRoster r).heuristics =
      ((ofRoster r.allOn).without r.disablings).heuristics := by
    rw [without, reflag, ofRoster, ofRoster, List.map_map]
    apply List.map_congr_left
    intro h _
    simp [Roster.allOn, Roster.heuristic_mem_disablings]
  exact congrArg₂ Registry.mk hprotocols hheuristics

/-- A registry that is built with some names off is the one that is built with all names on and in
which these are switched off afterwards, in whatever order and however often each. Names that are not
registered make no difference. -/
theorem ofRoster_eq_operate {r : Roster} {ts : List Toggle} (h : ∀ t, t ∈ ts ↔ t ∈ r.disablings) :
    operate (ts.map .grant) (ofRoster r.allOn) = ofRoster r := by
  have hoff : ∀ t ∈ ts, t.enabled = false := fun t ht =>
    Roster.enabled_of_mem_disablings ((h t).mp ht)
  rw [operate_grant_off hoff, without_congr h, ← ofRoster_eq_without]

/-- Protocols that are listed twice or own heuristic dissectors, short names that are shared, and
names that are not registered, switched off in turns. -/
theorem ofRoster_eq_operate_turns :
    let r : Roster :=
      { protocols := ["tcp", "rtp", "tcp"]
        heuristics := [("rtp_udp", "rtp"), ("http_tcp", "http"), ("rtp_udp", "srtp")]
        disabledProtocols := ["http", "gone", "rtp", "http"]
        disabledHeuristics := ["rtp_udp", "rtp"] }
    let ts : List Toggle :=
      [.heuristic "rtp" false, .protocol "rtp" false, .protocol "http" false,
        .heuristic "rtp_udp" false, .protocol "http" false, .protocol "gone" false]
    (∀ t, t ∈ ts ↔ t ∈ r.disablings) ∧ ofRoster r.allOn ≠ ofRoster r ∧
      operate (ts.map .grant) (ofRoster r.allOn) = ofRoster r := by
  intro r ts
  have hperm : ts.Perm r.disablings := by decide
  have hmem : ∀ t, t ∈ ts ↔ t ∈ r.disablings := fun _ => hperm.mem_iff
  exact ⟨hmem, by decide, ofRoster_eq_operate hmem⟩

end Registry

end Dissection
