import Dissection.Diagnostic
import Dissection.Session
import Dissection.Value

/-!
# Registries

The protocols that are known, and the heuristic dissectors with their owners. Protocols are switched
by name and heuristic dissectors by their short name, which several of them may share.
-/

namespace Dissection

/-- A heuristic dissector: its short name, the protocol that owns it, and whether it is on. -/
structure Heuristic where
  name : String
  owner : String
  enabled : Bool := true
  deriving DecidableEq, Repr

/-- Protocols with whether each is on, and heuristic dissectors, in the order of registration. -/
structure Registry where
  protocols : List (String × Bool) := []
  heuristics : List Heuristic := []
  deriving DecidableEq, Repr

structure Roster where
  protocols : List String := []
  heuristics : List (String × String) := []
  disabledProtocols : List String := []
  disabledHeuristics : List String := []
  deriving DecidableEq, Repr

namespace Registry

/-- Registers a protocol unless it is registered. -/
def register (name : String) (enabled : Bool) (protocols : List (String × Bool)) :
    List (String × Bool) :=
  if protocols.any (·.1 == name) then protocols else protocols ++ [(name, enabled)]

/-- The registry of a roster: the protocols and then the owners of the heuristic dissectors are
registered, and those on the lists of disabled names are off. -/
def ofRoster (r : Roster) : Registry where
  protocols := (r.protocols ++ r.heuristics.map Prod.snd).foldl
    (fun known name => register name (!r.disabledProtocols.contains name) known) []
  heuristics := r.heuristics.map fun h => ⟨h.1, h.2, !r.disabledHeuristics.contains h.1⟩

/-- Switches the protocol with a name; a name that is not registered changes nothing. -/
def setProtocol (name : String) (enabled : Bool) (r : Registry) : Registry :=
  { r with protocols := r.protocols.map fun p => if p.1 = name then (p.1, enabled) else p }

def setHeuristic (name : String) (enabled : Bool) (r : Registry) : Registry :=
  { r with
    heuristics := r.heuristics.map fun h => if h.name = name then { h with enabled } else h }

def knowsHeuristic (r : Registry) (name : String) : Bool := r.heuristics.any (·.name == name)

def isProtocolEnabled (r : Registry) (name : String) : Bool := (r.protocols.lookup name).getD false

/-- Whether a heuristic dissector with a short name is on. -/
def isHeuristicEnabled (r : Registry) (name : String) : Bool :=
  r.heuristics.any fun h => h.name == name && h.enabled

def sortedProtocols (r : Registry) : List (String × Bool) := Text.SortedMap.ofEntries r.protocols

/-- The heuristic dissectors by short name; of two that share one the later counts. -/
def sortedHeuristics (r : Registry) : List (String × Bool) :=
  Text.SortedMap.ofEntries (r.heuristics.map fun h => (h.name, h.enabled))

end Registry

/-!
## Toggling

The phase in which the collected names are switched. Protocols are switched off, then on, then
heuristic dissectors on, then off, so of two opposite wishes the later kind wins. A name that no
heuristic dissector has is reported, and the phase goes on.
-/

/-- The wish to switch a protocol or the heuristic dissectors with a short name on or off. -/
inductive Toggle where
  | protocol (name : String) (enabled : Bool)
  | heuristic (name : String) (enabled : Bool)
  deriving DecidableEq, Repr

/-- The wishes of the options, in the order in which they are granted. -/
def Options.toggles (o : Options) : List Toggle :=
  o.disabledProtocols.map (.protocol · false) ++ o.enabledProtocols.map (.protocol · true) ++
    o.enabledHeuristics.map (.heuristic · true) ++ o.disabledHeuristics.map (.heuristic · false)

/-- What is reported of a wish that names nothing. -/
def Toggle.complaint : Toggle → Line
  | .protocol name enabled | .heuristic name enabled =>
    .error ("No such protocol " ++ name ++ ", can't " ++ if enabled then "enable" else "disable")

/-- A place where wishes are granted: the state afterwards, and whether the name is known. -/
structure Switchboard (σ : Type) where
  grant : Toggle → σ → σ × Bool

/-- The state after some wishes, and those among them whose names are not known. -/
structure Toggled (σ : Type) where
  state : σ
  unknown : List Toggle

namespace Toggled

variable {σ : Type}

def success (t : Toggled σ) : Bool := t.unknown.isEmpty

def lines (t : Toggled σ) : List Line := t.unknown.map Toggle.complaint

end Toggled

namespace Switchboard

variable {σ : Type}

def grantAll (b : Switchboard σ) : List Toggle → σ → Toggled σ
  | [], s => ⟨s, []⟩
  | t :: r, s =>
    match b.grant t s with
    | (after, known) =>
      let rest := grantAll b r after
      { rest with unknown := if known then rest.unknown else t :: rest.unknown }

def apply (b : Switchboard σ) (o : Options) (s : σ) : Toggled σ := b.grantAll o.toggles s

/-- The switchboard of a registry, which takes every protocol name for known. -/
def ofRegistry : Switchboard Registry where
  grant
    | .protocol name enabled, r => (r.setProtocol name enabled, true)
    | .heuristic name enabled, r => (r.setHeuristic name enabled, r.knowsHeuristic name)

end Switchboard

def Registry.apply (o : Options) (r : Registry) : Toggled Registry :=
  Switchboard.ofRegistry.apply o r

end Dissection
