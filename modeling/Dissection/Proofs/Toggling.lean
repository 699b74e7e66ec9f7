import Dissection.Proofs.History
import Dissection.Registry

/-!
# Applying options

What options make of a registry is told entry by entry: of a name that is given both ways, a protocol
ends on and a heuristic dissector off. An apply that is followed by one of no fewer names therefore
leaves no trace.
-/

namespace Dissection

namespace Options

def switchedProtocol (o : Options) (p : String × Bool) : String × Bool :=
  (p.1, if p.1 ∈ o.enabledProtocols then true
    else if p.1 ∈ o.disabledProtocols then false else p.2)

def switchedHeuristic (o : Options) (h : Heuristic) : Heuristic :=
  { h with
    enabled := if h.name ∈ o.disabledHeuristics then false
      else if h.name ∈ o.enabledHeuristics then true else h.enabled }

/-- The wishes of options that name no heuristic dissector of a registry. -/
def unknownIn (r : Registry) (o : Options) : List Toggle :=
  (o.enabledHeuristics.filter (!r.knowsHeuristic ·)).map (.heuristic · true) ++
    (o.disabledHeuristics.filter (!r.knowsHeuristic ·)).map (.heuristic · false)

/-- Whether each name that some options give is given by others in the same way. -/
structure Within (o₁ o₂ : Options) : Prop where
  disabledProtocols : o₁.disabledProtocols ⊆ o₂.disabledProtocols
  enabledProtocols : o₁.enabledProtocols ⊆ o₂.enabledProtocols
  enabledHeuristics : o₁.enabledHeuristics ⊆ o₂.enabledHeuristics
  disabledHeuristics : o₁.disabledHeuristics ⊆ o₂.disabledHeuristics

theorem Within.refl (o : Options) : o.Within o :=
  ⟨List.Subset.refl _, List.Subset.refl _, List.Subset.refl _, List.Subset.refl _⟩

theorem Within.trans {o₁ o₂ o₃ : Options} (h : o₁.Within o₂) (h' : o₂.Within o₃) : o₁.Within o₃ where
  disabledProtocols := List.Subset.trans h.disabledProtocols h'.disabledProtocols
  enabledProtocols := List.Subset.trans h.enabledProtocols h'.enabledProtocols
  enabledHeuristics := List.Subset.trans h.enabledHeuristics h'.enabledHeuristics
  disabledHeuristics := List.Subset.trans h.disabledHeuristics h'.disabledHeuristics

theorem switchedProtocol_snd_iff (o : Options) (p : String × Bool) :
    (o.switchedProtocol p).2 = true ↔
      p.1 ∈ o.enabledProtocols ∨ p.1 ∉ o.disabledProtocols ∧ p.2 = true := by
  by_cases hon : p.1 ∈ o.enabledProtocols
  · simp [switchedProtocol, hon]
  · by_cases hoff : p.1 ∈ o.disabledProtocols <;> simp [switchedProtocol, hon, hoff]

theorem enabled_switchedHeuristic_iff (o : Options) (h : Heuristic) :
    (o.switchedHeuristic h).enabled = true ↔
      h.name ∉ o.disabledHeuristics ∧ (h.name ∈ o.enabledHeuristics ∨ h.enabled = true) := by
  simp [switchedHeuristic]

private theorem switchedProtocol_absorb {o₁ o₂ : Options} (h : o₁.Within o₂) (p : String × Bool) :
    o₂.switchedProtocol (o₁.switchedProtocol p) = o₂.switchedProtocol p := by
  by_cases hon : p.1 ∈ o₂.enabledProtocols
  · simp [switchedProtocol, hon]
  · by_cases hoff : p.1 ∈ o₂.disabledProtocols
    · simp [switchedProtocol, hon, hoff]
    · have hon' : p.1 ∉ o₁.enabledProtocols := fun hp => hon (h.enabledProtocols hp)
      have hoff' : p.1 ∉ o₁.disabledProtocols := fun hp => hoff (h.disabledProtocols hp)
      simp [switchedProtocol, hon, hoff, hon', hoff']

private theorem switchedHeuristic_absorb {o₁ o₂ : Options} (h : o₁.Within o₂) (d : Heuristic) :
    o₂.switchedHeuristic (o₁.switchedHeuristic d) = o₂.switchedHeuristic d := by
  by_cases hoff : d.name ∈ o₂.disabledHeuristics
  · simp [switchedHeuristic, hoff]
  · by_cases hon : d.name ∈ o₂.enabledHeuristics
    · simp [switchedHeuristic, hon, hoff]
    · have hon' : d.name ∉ o₁.enabledHeuristics := fun hd => hon (h.enabledHeuristics hd)
      have hoff' : d.name ∉ o₁.disabledHeuristics := fun hd => hoff (h.disabledHeuristics hd)
      simp [switchedHeuristic, hon, hoff, hon', hoff']

end Options

namespace Switchboard

private theorem grantAll_append {σ : Type} (b : Switchboard σ) (xs ys : List Toggle) (s : σ) :
    b.grantAll (xs ++ ys) s =
      ⟨(b.grantAll ys (b.grantAll xs s).state).state,
        (b.grantAll xs s).unknown ++ (b.grantAll ys (b.grantAll xs s).state).unknown⟩ := by
  induction xs generalizing s with
  | nil => rfl
  | cons t r ih =>
    cases hgrant : b.grant t s with
    | mk after known =>
      simp only [List.cons_append, grantAll, hgrant, ih]
      cases known <;> rfl

private theorem grantAll_protocols (names : List String) (enabled : Bool) (r : Registry) :
    ofRegistry.grantAll (names.map (.protocol · enabled)) r =
      ⟨{ r with protocols := r.protocols.map fun p => if p.1 ∈ names then (p.1, enabled) else p },
        []⟩ := by
  induction names generalizing r with
  | nil => simp [grantAll]
  | cons name names ih =>
    have hgrant : ofRegistry.grant (.protocol name enabled) r = (r.setProtocol name enabled, true) :=
      rfl
    simp only [List.map_cons, grantAll, hgrant, ih, Registry.setProtocol, List.map_map, if_true]
    congr 2
    apply List.map_congr_left
    intro p _
    by_cases hp : p.1 = name <;> simp [hp]

end Switchboard

private theorem Registry.knowsHeuristic_of_map {r after : Registry} {f : Heuristic → Heuristic}
    (hafter : after.heuristics = r.heuristics.map f) (hf : ∀ h, (f h).name = h.name) :
    after.knowsHeuristic = r.knowsHeuristic := by
  funext name
  simp [knowsHeuristic, hafter, List.any_map, Function.comp_def, hf]

namespace Switchboard

private theorem grantAll_heuristics (names : List String) (enabled : Bool) (r : Registry) :
    ofRegistry.grantAll (names.map (.heuristic · enabled)) r =
      ⟨{ r with
          heuristics := r.heuristics.map fun h => if h.name ∈ names then { h with enabled } else h },
        (names.filter (!r.knowsHeuristic ·)).map (.heuristic · enabled)⟩ := by
  induction names generalizing r with
  | nil => simp [grantAll]
  | cons name names ih =>
    have hgrant : ofRegistry.grant (.heuristic name enabled) r =
        (r.setHeuristic name enabled, r.knowsHeuristic name) := rfl
    have hknows : (r.setHeuristic name enabled).knowsHeuristic = r.knowsHeuristic :=
      Registry.knowsHeuristic_of_map rfl fun h => by split <;> rfl
    have hstate : (r.setHeuristic name enabled).heuristics.map
        (fun h => if h.name ∈ names then { h with enabled } else h) =
          r.heuristics.map fun h => if h.name ∈ name :: names then { h with enabled } else h := by
      rw [Registry.setHeuristic, List.map_map]
      apply List.map_congr_left
      intro h _
      by_cases hname : h.name = name <;> simp [hname]
    simp only [List.map_cons, grantAll, hgrant, ih, hknows, hstate]
    cases hname : r.knowsHeuristic name <;> simp [hname, Registry.setHeuristic]

end Switchboard

namespace Registry

/-- Options leave every entry in its place and switched by itself, and report the heuristic names
that are not registered. -/
theorem apply_eq (o : Options) (r : Registry) :
    r.apply o =
      ⟨⟨r.protocols.map o.switchedProtocol, r.heuristics.map o.switchedHeuristic⟩,
        o.unknownIn r⟩ := by
  simp only [apply, Switchboard.apply, Options.toggles, Switchboard.grantAll_append,
    Switchboard.grantAll_protocols, Switchboard.grantAll_heuristics, List.map_map, List.nil_append]
  congr 1
  · congr 1
    · apply List.map_congr_left
      intro p _
      by_cases hoff : p.1 ∈ o.disabledProtocols <;> by_cases hon : p.1 ∈ o.enabledProtocols <;>
        simp [Options.switchedProtocol, hoff, hon]
    · apply List.map_congr_left
      intro h _
      by_cases hoff : h.name ∈ o.disabledHeuristics <;>
        by_cases hon : h.name ∈ o.enabledHeuristics <;>
        simp [Options.switchedHeuristic, hoff, hon]
  · have hknows (ps : List (String × Bool)) : knowsHeuristic ⟨ps, r.heuristics.map fun h =>
        if h.name ∈ o.enabledHeuristics then { h with enabled := true } else h⟩ =
          r.knowsHeuristic := knowsHeuristic_of_map rfl fun h => by split <;> rfl
    rw [hknows]
    rfl

/-- Options that are applied before others which give each of their names leave no trace. -/
theorem apply_absorb {o₁ o₂ : Options} (h : o₁.Within o₂) (r : Registry) :
    (r.apply o₁).state.apply o₂ = r.apply o₂ := by
  have hknows : (r.apply o₁).state.knowsHeuristic = r.knowsHeuristic := by
    rw [apply_eq]
    exact knowsHeuristic_of_map rfl fun _ => rfl
  rw [apply_eq o₂ (r.apply o₁).state, apply_eq o₂ r, Options.unknownIn, hknows, apply_eq o₁ r,
    List.map_map, List.map_map]
  congr 2
  · exact List.map_congr_left fun p _ => Options.switchedProtocol_absorb h p
  · exact List.map_congr_left fun d _ => Options.switchedHeuristic_absorb h d

end Registry

/-- A session with the registry that its options are applied to, and what the last apply returned
and reported. -/
structure Setup where
  session : Session := {}
  registry : Registry := {}
  last : Option (Bool × List Line) := none
  deriving DecidableEq, Repr

namespace Setup

/-- What is done: a code is handled, or the options are applied. -/
inductive Deed where
  | handle (code : Value) (argument : Option String)
  | apply

def Deed.isHandle : Deed → Bool
  | .handle _ _ => true
  | .apply => false

def perform (host : Host) (x : Setup) : Deed → Setup
  | .handle code argument =>
    { x with session := (x.session.handleCode host code argument).session }
  | .apply =>
    let toggled := x.registry.apply x.session.options
    { x with registry := toggled.state, last := some (toggled.success, toggled.lines) }

def run (host : Host) (deeds : List Deed) (x : Setup) : Setup := deeds.foldl (perform host) x

end Setup

private theorem Session.names_subset_handle (host : Host) (s : Session) (v : Switch)
    (argument : Option String) {w : Switch} (hw : w.IsToggle) :
    s.options.names w ⊆ ((Action.handle v argument).perform host s).options.names w := by
  by_cases hv : v = w
  · subst hv
    rw [(History.writtenBy_names host hw).own]
    exact List.subset_append_left _ _
  · rw [(History.writtenBy_names host hw).other hv]
    exact List.Subset.refl _

private theorem Session.within_handleCode (host : Host) (s : Session) (code : Value)
    (argument : Option String) :
    s.options.Within (s.handleCode host code argument).session.options := by
  by_cases hcode : ∃ v : Switch, code = .string v.code
  · obtain ⟨v, rfl⟩ := hcode
    have hnames {w : Switch} (hw : w.IsToggle) := s.names_subset_handle host v argument hw
    exact ⟨hnames (w := .disableProtocol) (.inl rfl),
      hnames (w := .enableProtocol) (.inr (.inl rfl)),
      hnames (w := .enableHeuristic) (.inr (.inr (.inl rfl))),
      hnames (w := .disableHeuristic) (.inr (.inr (.inr rfl)))⟩
  · rw [handleCode_of_unknown host fun v hv => hcode ⟨v, hv⟩]
    split <;> exact Options.Within.refl _

namespace Setup

/-- Whether the applies that one has seen and the other has not will leave no trace. -/
structure Trails (x y : Setup) : Prop where
  session : x.session = y.session
  registry : ∀ o : Options, x.session.options.Within o → x.registry.apply o = y.registry.apply o

theorem Trails.handle {x y : Setup} (h : x.Trails y) (host : Host) (code : Value)
    (argument : Option String) :
    (x.perform host (.handle code argument)).Trails (y.perform host (.handle code argument)) where
  session := by simp only [perform, h.session]
  registry o ho :=
    h.registry o ((x.session.within_handleCode host code argument).trans ho)

theorem Trails.apply {x y : Setup} (h : x.Trails y) (host : Host) :
    (x.perform host .apply).Trails y where
  session := h.session
  registry o ho := (Registry.apply_absorb ho x.registry).trans (h.registry o ho)

private theorem trails_run (host : Host) (deeds : List Deed) {x y : Setup} (h : x.Trails y) :
    (run host deeds x).Trails (run host (deeds.filter Deed.isHandle) y) := by
  induction deeds generalizing x y with
  | nil => exact h
  | cons d deeds ih =>
    cases d with
    | handle code argument => exact ih (h.handle host code argument)
    | apply => exact ih (h.apply host)

private theorem perform_apply_of_trails {x y : Setup} (h : x.Trails y) (host : Host) :
    x.perform host .apply = y.perform host .apply := by
  have hregistry := h.registry x.session.options (Options.Within.refl _)
  rw [h.session] at hregistry
  simp only [perform, h.session, hregistry]

/-- An apply leaves no trace once no fewer names are applied: the later apply leaves the registry,
returns the result and reports the lines that it would without the earlier. So of the applies among
the deeds before one the registry, the result and the lines show nothing, and the second of two
applies in a row does nothing. -/
theorem applies_absorbed :
    (∀ (r : Registry) (o₁ o₂ : Options), o₁.Within o₂ →
      (r.apply o₁).state.apply o₂ = r.apply o₂) ∧
    (∀ (host : Host) (front back : List Deed) (x : Setup),
      run host (front ++ .apply :: back) x =
        run host (front.filter Deed.isHandle ++ .apply :: back) x) ∧
    ∀ (r : Registry) (o : Options), (r.apply o).state.apply o = r.apply o := by
  refine ⟨fun r o₁ o₂ h => Registry.apply_absorb h r, fun host front back x => ?_,
    fun r o => Registry.apply_absorb (Options.Within.refl o) r⟩
  have htrails := trails_run host front (x := x) (y := x) ⟨rfl, fun _ _ => rfl⟩
  have hlast := perform_apply_of_trails htrails host
  simp only [run, List.foldl_append, List.foldl_cons] at hlast ⊢
  rw [hlast]

/-- A protocol switched off and a heuristic dissector switched on in vain before both are given the
other way as well, and a name that is not registered. -/
theorem applies_absorbed_opposite :
    let r : Registry := { protocols := [("dns", true)], heuristics := [⟨"rtp_udp", "rtp", false⟩] }
    let o₁ : Options := { disabledProtocols := ["dns"], enabledHeuristics := ["rtp_udp", "gone"] }
    let o₂ : Options :=
      { o₁ with enabledProtocols := ["dns"], disabledHeuristics := ["rtp_udp"] }
    o₁.Within o₂ ∧ (r.apply o₁).state ≠ r ∧ (r.apply o₂).success = false ∧
      (r.apply o₁).state.apply o₂ = r.apply o₂ := by
  intro r o₁ o₂
  have hwithin : o₁.Within o₂ :=
    ⟨List.Subset.refl _, List.nil_subset _, List.Subset.refl _, List.nil_subset _⟩
  exact ⟨hwithin, by decide +kernel, by decide +kernel, applies_absorbed.1 r o₁ o₂ hwithin⟩

end Setup

end Dissection
