/-!
# Name resolution

Which kinds of addresses are shown as names. An option argument is a string of letters, each of
which switches one kind on.
-/

namespace Dissection

inductive NameKind where
  | dnsPackets
  | mac
  | network
  | externalResolvers
  | transport
  | vlan
  deriving DecidableEq, Repr

structure NameResolution where
  mac : Bool := true
  network : Bool := false
  transport : Bool := true
  dnsPackets : Bool := true
  externalResolvers : Bool := false
  vlan : Bool := false
  deriving DecidableEq, Repr

namespace NameKind

def all : List NameKind := [.dnsPackets, .mac, .network, .externalResolvers, .transport, .vlan]

def letter : NameKind → Char
  | .dnsPackets => 'd'
  | .mac => 'm'
  | .network => 'n'
  | .externalResolvers => 'N'
  | .transport => 't'
  | .vlan => 'v'

def ofLetter? (c : Char) : Option NameKind := all.find? fun k => k.letter == c

def name : NameKind → String
  | .dnsPackets => "dns_pkt_addr_resolution"
  | .mac => "mac_name"
  | .network => "network_name"
  | .externalResolvers => "use_external_net_name_resolver"
  | .transport => "transport_name"
  | .vlan => "vlan_name"

def help : List String :=
  ["\t'd' to enable address resolution from captured DNS packets",
    "\t'm' to enable MAC address resolution",
    "\t'n' to enable network address resolution",
    "\t'N' to enable using external resolvers (e.g., DNS)",
    "\t    for network address resolution",
    "\t't' to enable transport-layer port number resolution",
    "\t'v' to enable VLAN IDs to names resolution"]

theorem mem_all (k : NameKind) : k ∈ all := by cases k <;> decide

theorem ofLetter?_letter (k : NameKind) : ofLetter? k.letter = some k := by
  cases k <;> rfl

theorem ofLetter?_eq_some_iff {c : Char} {k : NameKind} :
    ofLetter? c = some k ↔ c = k.letter := by
  constructor
  · intro h
    have := List.find?_some h
    simp only [beq_iff_eq] at this
    exact this.symm
  · rintro rfl
    exact ofLetter?_letter k

end NameKind

namespace NameResolution

def get (r : NameResolution) : NameKind → Bool
  | .dnsPackets => r.dnsPackets
  | .mac => r.mac
  | .network => r.network
  | .externalResolvers => r.externalResolvers
  | .transport => r.transport
  | .vlan => r.vlan

def set (r : NameResolution) (k : NameKind) (on : Bool) : NameResolution :=
  match k with
  | .dnsPackets => { r with dnsPackets := on }
  | .mac => { r with mac := on }
  | .network => { r with network := on }
  | .externalResolvers => { r with externalResolvers := on }
  | .transport => { r with transport := on }
  | .vlan => { r with vlan := on }

/-- Switches kinds in order, each as a choice for it says. -/
def setAll (kinds : List NameKind) (choice : NameKind → Bool) (r : NameResolution) :
    NameResolution :=
  kinds.foldl (fun r k => r.set k (choice k)) r

def allOff : NameResolution := setAll NameKind.all (fun _ => false) {}

/-- The kinds that letters stand for, or the first character that stands for none. -/
def kindsOf : List Char → Except Char (List NameKind)
  | [] => .ok []
  | c :: r =>
    match NameKind.ofLetter? c with
    | none => .error c
    | some k => (kindsOf r).map (k :: ·)

/-- Switches on the kinds that the letters of a text stand for. A text with another character in it
changes nothing, and the first such character is the error. -/
def enable (r : NameResolution) (text : String) : Except Char NameResolution :=
  (kindsOf text.toList).map fun kinds => r.setAll kinds fun _ => true

def badLetterMessage (c : Char) : String :=
  "-N specifies unknown resolving option '" ++ c.toString ++ "'; valid options are:"

theorem get_set (r : NameResolution) (k l : NameKind) (on : Bool) :
    (r.set k on).get l = if l = k then on else r.get l := by
  cases k <;> cases l <;> rfl

theorem get_setAll (kinds : List NameKind) (choice : NameKind → Bool) (r : NameResolution)
    (k : NameKind) :
    (r.setAll kinds choice).get k = if k ∈ kinds then choice k else r.get k := by
  induction kinds generalizing r with
  | nil => simp [setAll]
  | cons l kinds ih =>
    rw [setAll, List.foldl_cons, ← setAll, ih, get_set]
    by_cases hk : k ∈ kinds
    · simp [hk]
    · by_cases hl : k = l
      · simp [hl]
      · simp [hk, hl]

@[simp] theorem get_allOff (k : NameKind) : allOff.get k = false := by
  rw [allOff, get_setAll, if_pos (NameKind.mem_all k)]

theorem ext_get {r s : NameResolution} (h : ∀ k, r.get k = s.get k) : r = s := by
  cases r
  cases s
  have h1 := h .mac
  have h2 := h .network
  have h3 := h .transport
  have h4 := h .dnsPackets
  have h5 := h .externalResolvers
  have h6 := h .vlan
  simp only [get] at h1 h2 h3 h4 h5 h6
  simp [h1, h2, h3, h4, h5, h6]

/-- Once every kind has been switched nothing is left of what was before. -/
theorem setAll_all (r s : NameResolution) : r.setAll NameKind.all s.get = s := by
  apply ext_get
  intro k
  rw [get_setAll, if_pos (NameKind.mem_all k)]

end NameResolution

end Dissection
