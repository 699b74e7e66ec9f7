import Dissection.Config.Sections
import Dissection.Proofs.History

/-!
# Faults of a configuration

Five keys of the section of dissection options are checked, one after the other and not in the order
in which they are written. The first whose value is of a kind that it does not take is at fault. No
other key ever is, and of keys past the nine that are known nothing shows.
-/

/-!
## Requests of a configuration

The section of dissection options asks for switches in pairs: each that takes a value with one, and
the others without. Of the switches that collect names each is asked for with the names under its
own key, in order, and with no others.
-/

namespace Dissection

instance (w : Switch) : Decidable w.IsToggle :=
  inferInstanceAs (Decidable (_ ∨ _ ∨ _ ∨ _))

namespace Switch

end Switch

namespace Config

/-- Whether a request is for a switch that collects no names, with a value if it takes one. -/
def Plain (r : Request) : Prop := r.2.isSome = r.1.takesValue ∧ ¬ r.1.IsToggle

private theorem plain_of_string {key : String} {w : Switch} {t : Table} {rs : List Request}
    (h : stringRequest key w t = .ok rs) (hw : w.takesValue = true) (htoggle : ¬ w.IsToggle) :
    ∀ r ∈ rs, Plain r := by
  rw [stringRequest] at h
  split at h
  · cases h
    simp
  · cases h
    simp [Plain, hw, htoggle]
  · cases h

private theorem plain_of_names {t : Table} {rs : List Request}
    (h : nameResolutionRequest t = .ok rs) :
    ∀ r ∈ rs, Plain r := by
  rw [nameResolutionRequest] at h
  split at h
  · cases h
    simpa [Plain] using ⟨rfl, by decide⟩
  · exact plain_of_string h rfl (by decide)

private theorem plain_of_rules {t : Table} {rs : List Request} (h : ruleRequests t = .ok rs) :
    ∀ r ∈ rs, Plain r := by
  rw [ruleRequests] at h
  split at h
  · cases h
    simp
  · obtain ⟨rules, -, rfl⟩ := map_eq_ok h
    intro r hr
    obtain ⟨rule, -, rfl⟩ := List.mem_map.mp hr
    exact ⟨rfl, (by decide : ¬ Switch.decodeAs.IsToggle)⟩

private theorem requests_eq_ok {t : Table} {rs : List Request} (h : requests t = .ok rs) :
    ∃ front : List Request, (∀ r ∈ front, Plain r) ∧
      rs = front ++ nameRequests "disable_protocols" .disableProtocol t ++
        nameRequests "enable_protocols" .enableProtocol t ++
        nameRequests "enable_heuristics" .enableHeuristic t ++
        nameRequests "disable_heuristics" .disableHeuristic t := by
  obtain ⟨timeStamp, htime, h⟩ := bind_eq_ok h
  obtain ⟨seconds, hseconds, h⟩ := bind_eq_ok h
  obtain ⟨names, hnames, h⟩ := bind_eq_ok h
  obtain ⟨rules, hrules, h⟩ := bind_eq_ok h
  obtain ⟨keytab, hkeytab, h⟩ := bind_eq_ok h
  cases h
  refine ⟨timeStamp ++ seconds ++ names ++ rules ++ keytab, ?_, rfl⟩
  simp only [List.forall_mem_append]
  exact ⟨⟨⟨⟨plain_of_string htime rfl (by decide),
    plain_of_string hseconds rfl (by decide)⟩, plain_of_names hnames⟩,
    plain_of_rules hrules⟩, plain_of_string hkeytab rfl (by decide)⟩

private theorem mem_nameRequests {key : String} {w : Switch} {t : Table} {r : Request}
    (h : r ∈ nameRequests key w t) : ∃ name, r = (w, some name) := by
  obtain ⟨name, -, rfl⟩ := List.mem_map.mp h
  exact ⟨name, rfl⟩

theorem isSome_of_mem_requests {t : Table} {rs : List Request} (h : requests t = .ok rs) :
    ∀ r ∈ rs, r.2.isSome = r.1.takesValue := by
  obtain ⟨front, hfront, rfl⟩ := requests_eq_ok h
  have hnames {key : String} {w : Switch} (hw : w.takesValue = true) :
      ∀ r ∈ nameRequests key w t, r.2.isSome = r.1.takesValue := by
    intro r hr
    obtain ⟨name, rfl⟩ := mem_nameRequests hr
    exact hw.symm
  simp only [List.forall_mem_append]
  exact ⟨⟨⟨⟨fun r hr => (hfront r hr).1, hnames rfl⟩, hnames rfl⟩, hnames rfl⟩, hnames rfl⟩

theorem arguments_eq_ok {t : Table} {tokens : List String} (h : arguments t = .ok tokens) :
    ∃ rs, requests t = .ok rs ∧ tokens = rs.flatMap tokensOf := by
  obtain ⟨rs, hrequests, rfl⟩ := map_eq_ok h
  exact ⟨rs, hrequests, rfl⟩

end Config

end Dissection

namespace Dissection.Config

/-- The keys of which the values are checked, in the order in which they are. -/
def checkedKeys : List String :=
  ["time_stamp", "seconds", "name_resolution", "decode_as", "keytab"]

/-- The keys that are known: those that are checked, and those of the lists of names. -/
def knownKeys : List String :=
  checkedKeys ++ ["disable_protocols", "enable_protocols", "enable_heuristics", "disable_heuristics"]

/-- Tells the values that a checked key takes: strings, for name resolution also false, and for
decode-as rules also lists. Null, which no document holds, stands for no rules. -/
def takes (key : String) : Value → Bool
  | .string _ => true
  | .bool b => key == "name_resolution" && !b
  | .list _ | .null => key == "decode_as"
  | _ => false

/-- Whether a value is the first, in the order of the checked keys, that its key does not take. -/
structure FirstAtFault (t : Table) (key : String) (v : Value) : Prop where
  value : t.get? key = some v
  wrong : takes key v = false
  first : ∃ earlier later, checkedKeys = earlier ++ key :: later ∧
    ∀ k ∈ earlier, ∀ w, t.get? k = some w → takes k w = true

def complaint (key : String) (v : Value) : String :=
  "[dissect] " ++ key ++ " must be a string" ++ (if key = "decode_as" then " or a list" else "") ++
    ", got " ++ v.display

/-- Whether a section is refused with a diagnostic. -/
def Refused (t : Table) (d : Diagnostic) : Prop :=
  ∃ fault, arguments t = .error fault ∧ fault.diagnose = .ok d

/-- Whether a section stops the program before there is a diagnostic. -/
def Stopped (t : Table) (failure : Failure) : Prop :=
  ∃ fault, arguments t = .error fault ∧ fault.diagnose = .error failure

/-- The fault of a key with a value that it does not take. -/
def faultOf (key : String) (v : Value) : Fault :=
  if key = "decode_as" then .notRules v else .notString key v

/-- The fault of a key in a section, if its value is at fault. -/
def faultAt? (t : Table) (key : String) : Option Fault :=
  (t.get? key).bind fun v => if takes key v then none else some (faultOf key v)

def fault? {α : Type} : Except Fault α → Option Fault
  | .ok _ => none
  | .error fault => some fault

private theorem value_faultOf (key : String) (v : Value) : (faultOf key v).value = v := by
  rw [faultOf]
  split <;> rfl

private theorem message_faultOf (key : String) (v : Value) :
    (faultOf key v).message = complaint key v := by
  by_cases hkey : key = "decode_as"
  · have hfront : "[dissect] decode_as must be a string or a list, got " =
        "[dissect] " ++ "decode_as" ++ " must be a string" ++ " or a list" ++ ", got " := by
      decide +kernel
    simp only [faultOf, complaint, hkey, if_true]
    exact congrArg (· ++ v.display) hfront
  · have hmessage : (Fault.notString key v).message =
        "[dissect] " ++ key ++ " must be a string, got " ++ v.display := rfl
    have hback : " must be a string, got " = " must be a string" ++ ", got " := by decide +kernel
    simp only [faultOf, complaint, hkey, if_false, hmessage, hback, String.append_empty,
      String.append_assoc]

private theorem faultAt?_eq_some_iff {t : Table} {key : String} {fault : Fault} :
    faultAt? t key = some fault ↔
      ∃ v, t.get? key = some v ∧ takes key v = false ∧ fault = faultOf key v := by
  rw [faultAt?, Option.bind_eq_some_iff]
  refine exists_congr fun v => and_congr_right fun _ => ?_
  cases takes key v <;> simp [eq_comm]

private theorem faultAt?_eq_none_iff {t : Table} {key : String} :
    faultAt? t key = none ↔ ∀ v, t.get? key = some v → takes key v = true := by
  simp [faultAt?, Option.bind_eq_none_iff]

section

variable {α β : Type}

/-- Of two results, of which the second has the same fault whatever the first is, the first to have
a fault counts. -/
theorem fault?_bind {x : Except Fault α} {g : α → Except Fault β} {later : Option Fault}
    (h : ∀ a, fault? (g a) = later) : fault? (x >>= g) = (fault? x).or later := by
  cases x with
  | ok a => exact h a
  | error fault => rfl

private theorem fault?_map (f : α → β) (x : Except Fault α) : fault? (x.map f) = fault? x := by
  cases x <;> rfl

private theorem fault?_eq_some_iff {x : Except Fault α} {fault : Fault} :
    fault? x = some fault ↔ x = .error fault := by
  cases x <;> simp [fault?]

private theorem fault?_eq_none_iff {x : Except Fault α} : fault? x = none ↔ ∃ a, x = .ok a := by
  cases x <;> simp [fault?]

end

private theorem fault?_stringRequest {key : String} (hnames : key ≠ "name_resolution")
    (hrules : key ≠ "decode_as") (w : Switch) (t : Table) :
    fault? (stringRequest key w t) = faultAt? t key := by
  rw [stringRequest, faultAt?]
  cases t.get? key with
  | none => rfl
  | some v => cases v <;> simp [fault?, takes, faultOf, hnames, hrules]

private theorem fault?_nameResolutionRequest (t : Table) :
    fault? (nameResolutionRequest t) = faultAt? t "name_resolution" := by
  rw [nameResolutionRequest, stringRequest, faultAt?]
  cases t.get? "name_resolution" with
  | none => rfl
  | some v =>
    cases v with
    | bool b => cases b <;> rfl
    | _ => rfl

private theorem fault?_ruleRequests (t : Table) :
    fault? (ruleRequests t) = faultAt? t "decode_as" := by
  rw [ruleRequests, faultAt?]
  cases t.get? "decode_as" with
  | none => rfl
  | some v => cases v <;> rfl

private theorem findSome?_cons_or {γ δ : Type} (f : γ → Option δ) (a : γ) (l : List γ) :
    (a :: l).findSome? f = (f a).or (l.findSome? f) := by
  rw [List.findSome?_cons]
  cases f a <;> rfl

private theorem fault?_requests (t : Table) :
    fault? (requests t) = checkedKeys.findSome? (faultAt? t) := by
  have hfirst : fault? (requests t) =
      (fault? (stringRequest "time_stamp" .timeStamp t)).or
        ((fault? (stringRequest "seconds" .secondsType t)).or
          ((fault? (nameResolutionRequest t)).or
            ((fault? (ruleRequests t)).or
              ((fault? (stringRequest "keytab" .keytab t)).or none)))) :=
    fault?_bind fun _ => fault?_bind fun _ => fault?_bind fun _ => fault?_bind fun _ =>
      fault?_bind fun _ => rfl
  rw [hfirst, fault?_stringRequest (by decide) (by decide),
    fault?_stringRequest (by decide) (by decide), fault?_nameResolutionRequest,
    fault?_ruleRequests, fault?_stringRequest (by decide) (by decide)]
  simp only [checkedKeys, findSome?_cons_or, List.findSome?_nil]

theorem arguments_eq_error_iff {t : Table} {fault : Fault} :
    arguments t = .error fault ↔ ∃ key v, FirstAtFault t key v ∧ fault = faultOf key v := by
  rw [← fault?_eq_some_iff, arguments, fault?_map, fault?_requests, List.findSome?_eq_some_iff]
  constructor
  · rintro ⟨earlier, key, later, hkeys, hfault, hearlier⟩
    obtain ⟨v, hvalue, hwrong, rfl⟩ := faultAt?_eq_some_iff.mp hfault
    exact ⟨key, v, ⟨hvalue, hwrong, earlier, later, hkeys,
      fun k hk => faultAt?_eq_none_iff.mp (hearlier k hk)⟩, rfl⟩
  · rintro ⟨key, v, ⟨hvalue, hwrong, earlier, later, hkeys, hearlier⟩, rfl⟩
    exact ⟨earlier, key, later, hkeys, faultAt?_eq_some_iff.mpr ⟨v, hvalue, hwrong, rfl⟩,
      fun k hk => faultAt?_eq_none_iff.mpr (hearlier k hk)⟩

private theorem exists_arguments_iff {t : Table} : (∃ tokens, arguments t = .ok tokens) ↔
    ∀ key ∈ checkedKeys, ∀ v, t.get? key = some v → takes key v = true := by
  rw [← fault?_eq_none_iff, arguments, fault?_map, fault?_requests, List.findSome?_eq_none_iff]
  exact forall₂_congr fun key _ => faultAt?_eq_none_iff

theorem requests_eq_of_known {t u : Table} (h : ∀ key ∈ knownKeys, t.get? key = u.get? key) :
    requests t = requests u := by
  have hstring {key : String} (hkey : key ∈ knownKeys) (w : Switch) :
      stringRequest key w t = stringRequest key w u := by
    rw [stringRequest, stringRequest, h key hkey]
  have hnames {key : String} (hkey : key ∈ knownKeys) (w : Switch) :
      nameRequests key w t = nameRequests key w u := by
    rw [nameRequests, nameRequests, namesUnder, namesUnder, h key hkey]
  have hresolution : nameResolutionRequest t = nameResolutionRequest u := by
    rw [nameResolutionRequest, nameResolutionRequest, h _ (by decide), hstring (by decide)]
  have hrules : ruleRequests t = ruleRequests u := by
    rw [ruleRequests, ruleRequests, h _ (by decide)]
  rw [requests, requests, hstring (by decide), hstring (by decide), hresolution, hrules,
    hstring (by decide), hnames (by decide), hnames (by decide), hnames (by decide),
    hnames (by decide)]

private theorem diagnose_faultOf (key : String) (v : Value) :
    (faultOf key v).diagnose =
      if v.isWritten then .ok ⟨complaint key v, []⟩ else .error .numberNotWritten := by
  rw [Fault.diagnose, value_faultOf, message_faultOf]

theorem diagnose_faultOf_eq_ok_iff {key : String} {v : Value} {d : Diagnostic} :
    (faultOf key v).diagnose = .ok d ↔ v.isWritten = true ∧ d = ⟨complaint key v, []⟩ := by
  rw [diagnose_faultOf]
  cases v.isWritten <;> simp [eq_comm]

private theorem diagnose_faultOf_eq_error_iff {key : String} {v : Value} {failure : Failure} :
    (faultOf key v).diagnose = .error failure ↔
      v.isWritten = false ∧ failure = .numberNotWritten := by
  rw [diagnose_faultOf]
  cases v.isWritten <;> simp [eq_comm]

private theorem exists_fault_iff {t : Table} {p : Fault → Prop} :
    (∃ fault, arguments t = .error fault ∧ p fault) ↔
      ∃ key v, FirstAtFault t key v ∧ p (faultOf key v) := by
  constructor
  · rintro ⟨fault, herror, hp⟩
    obtain ⟨key, v, hfirst, rfl⟩ := arguments_eq_error_iff.mp herror
    exact ⟨key, v, hfirst, hp⟩
  · rintro ⟨key, v, hfirst, hp⟩
    exact ⟨faultOf key v, arguments_eq_error_iff.mpr ⟨key, v, hfirst, rfl⟩, hp⟩

/-- A section is refused exactly if a checked key has a value that it does not take. The diagnostic
names the first such key in the order of the checks and quotes its value; only if that holds a number
past the decimal limit the program stops instead. Otherwise there are tokens. Sections with the same
values under the keys that are known fare alike. -/
theorem arguments_judged (t : Table) :
    (∀ d : Diagnostic, Refused t d ↔
      ∃ key v, FirstAtFault t key v ∧ v.isWritten = true ∧ d = ⟨complaint key v, []⟩) ∧
    (∀ failure : Failure, Stopped t failure ↔
      ∃ key v, FirstAtFault t key v ∧ v.isWritten = false ∧ failure = .numberNotWritten) ∧
    ((∃ tokens, arguments t = .ok tokens) ↔
      ∀ key ∈ checkedKeys, ∀ v, t.get? key = some v → takes key v = true) ∧
    ∀ u : Table, (∀ key ∈ knownKeys, t.get? key = u.get? key) → arguments t = arguments u := by
  refine ⟨fun d => ?_, fun failure => ?_, exists_arguments_iff, fun u h => ?_⟩
  · simp only [Refused, exists_fault_iff, diagnose_faultOf_eq_ok_iff]
  · simp only [Stopped, exists_fault_iff, diagnose_faultOf_eq_error_iff]
  · rw [arguments, arguments, requests_eq_of_known h]

/-- Of two keys at fault the one that is checked first is named, though it is written last. -/
theorem arguments_judged_order :
    let t : Table :=
      [("keytab", .list []), ("disable_protocols", .int 1), ("colour", .bool true),
        ("decode_as", .list [.int 2]), ("name_resolution", .int 0)]
    let u : Table :=
      [("name_resolution", .int 0), ("decode_as", .list [.int 2]), ("shade", .null),
        ("keytab", .list []), ("disable_protocols", .int 1)]
    (∀ key ∈ knownKeys, t.get? key = u.get? key) ∧ arguments t = arguments u ∧
      Refused t ⟨"[dissect] name_resolution must be a string, got 0", []⟩ := by
  intro t u
  have hknown : ∀ key ∈ knownKeys, t.get? key = u.get? key := by
    intro key hkey
    simp only [knownKeys, checkedKeys, List.cons_append, List.nil_append, List.mem_cons,
      List.not_mem_nil, or_false] at hkey
    rcases hkey with rfl | rfl | rfl | rfl | rfl | rfl | rfl | rfl | rfl <;> rfl
  have hfirst : FirstAtFault t "name_resolution" (.int 0) := by
    refine ⟨rfl, rfl, ["time_stamp", "seconds"], ["decode_as", "keytab"], rfl, fun k hk w hw => ?_⟩
    simp only [List.mem_cons, List.not_mem_nil, or_false] at hk
    rcases hk with rfl | rfl <;> cases hw
  have hcomplaint : (⟨"[dissect] name_resolution must be a string, got 0", []⟩ : Diagnostic) =
      ⟨complaint "name_resolution" (.int 0), []⟩ := by decide +kernel
  obtain ⟨hrefused, -, -, hcongr⟩ := arguments_judged t
  exact ⟨hknown, hcongr u hknown,
    (hrefused _).mpr ⟨_, _, hfirst, by decide +kernel, hcomplaint⟩⟩

/-- A number past the decimal limit where a string belongs is at fault, and not refused. -/
theorem not_refused_of_long_number :
    let v : Value := .int (Nat.pow 16 3572)
    let t : Table := [("keytab", v)]
    FirstAtFault t "keytab" v ∧ (∀ d, ¬ Refused t d) ∧ Stopped t .numberNotWritten := by
  intro v t
  have hfirst : FirstAtFault t "keytab" v := by
    refine ⟨rfl, rfl, ["time_stamp", "seconds", "name_resolution", "decode_as"], [], rfl,
      fun k hk w hw => ?_⟩
    simp only [List.mem_cons, List.not_mem_nil, or_false] at hk
    rcases hk with rfl | rfl | rfl | rfl <;> cases hw
  have hlong : v.isWritten = false := by decide +kernel
  have herror : arguments t = .error (faultOf "keytab" v) :=
    arguments_eq_error_iff.mpr ⟨_, _, hfirst, rfl⟩
  have hdiagnose : (faultOf "keytab" v).diagnose = .error .numberNotWritten :=
    diagnose_faultOf_eq_error_iff.mpr ⟨hlong, rfl⟩
  refine ⟨hfirst, fun d => ?_, _, herror, hdiagnose⟩
  rintro ⟨fault, hfault, hd⟩
  obtain rfl := Except.error.inj (herror.symm.trans hfault)
  cases hdiagnose.symm.trans hd

end Dissection.Config
