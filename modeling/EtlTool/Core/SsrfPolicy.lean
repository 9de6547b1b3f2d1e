import EtlTool.Core.FileIo
import EtlTool.Core.JsonText
import Mathlib.Algebra.Group.Nat.Defs

/-!
# The policy for requests to other hosts

A host is denied when one of its addresses lies in a private or otherwise special range,
unless the policy lists the name of the host or a network with the address.  Requests,
database connections and the connectivity tester ask the same question, the first two after
a look at the name of their own.

An IPv4 address that is mapped into IPv6 is looked up in the ranges as the IPv4 address, and
in the listed networks as it is written.

Main results:

- Theorem {lit}`findBlocked_eq_none_iff`: when a host is allowed.
- Theorem {lit}`findBlocked_mono`: a longer list of allowed hosts allows more.
- Theorem {lit}`judgesRight_iff`: the verdict is the one that judges mapped addresses as IPv4
  addresses, for all who ask, exactly if mapped addresses in special ranges are not listed in
  one of their forms only, and no name is listed that still has spaces around it.

Current gaps:

- The module {lit}`ipaddress`, the resolver and the splitting of URLs are parameters.
-/

namespace EtlTool

/-! ## Libraries -/

/-- What the guard takes from {lit}`ipaddress`, from the resolver and from strings; an
absent result is a {lit}`ValueError`. -/
structure NetworkLibraries (α ν : Type) where
  /-- {lit}`ip_address(text)`. -/
  address : String → Option α
  /-- {lit}`ip_network(text, strict=False)`. -/
  network : String → Option ν
  /-- {lit}`ip_network(address)`. -/
  hostNetwork : α → ν
  /-- {lit}`address in network`. -/
  contains : ν → α → Bool
  /-- {lit}`address.ipv4_mapped` of an IPv6 address. -/
  ipv4Mapped : α → Option α
  isPrivate : α → Bool
  isLoopback : α → Bool
  isLinkLocal : α → Bool
  isMulticast : α → Bool
  isReserved : α → Bool
  isUnspecified : α → Bool
  /-- The addresses of {lit}`getaddrinfo(host, port)`. -/
  getaddrinfo : String → Option Nat → Except PyException (List String)
  /-- {lit}`text.lower()`. -/
  lower : String → String

/-- {lit}`text.strip("[]")`. -/
def stripBrackets (text : List Char) : List Char :=
  let isBracket := fun c : Char => c = '[' || c = ']'
  ((text.dropWhile isBracket).reverse.dropWhile isBracket).reverse

/-- {lit}`SSRFPolicy`. -/
structure SsrfPolicy where
  enabled : Bool := true
  allowHosts : List String := []

section

variable {α ν : Type} (rt : Runtime) (libs : NetworkLibraries α ν)

/-! ## The verdict -/

/-- {lit}`text.strip().strip("[]")`. -/
def bareHost (host : String) : String :=
  String.ofList (stripBrackets (pyStrip host.toList))

/-- {lit}`_allowed_names`. -/
def SsrfPolicy.allowedNames (policy : SsrfPolicy) : List String :=
  (policy.allowHosts.filter fun entry => !entry.toList.contains '/').map
    fun entry => libs.lower (bareHost entry)

/-- The network of an entry; {lean}`none` for the name of a host. -/
def allowedNetwork? (entry : String) : Option ν :=
  let entry := pyStrip entry.toList
  if entry.contains '/' then libs.network (String.ofList entry)
  else (libs.address (String.ofList (stripBrackets entry))).map libs.hostNetwork

/-- {lit}`_allowed_networks`. -/
def SsrfPolicy.allowedNetworks (policy : SsrfPolicy) : List ν :=
  policy.allowHosts.filterMap (allowedNetwork? libs)

/-- {lit}`_EXTRA_BLOCKED_NETWORKS`. -/
def extraBlockedNetworks : List ν :=
  ["100.64.0.0/10", "192.0.0.0/24"].filterMap libs.network

/-- An IPv4 address in place of the IPv6 address that it is mapped to. -/
def judgedAddress (address : α) : α :=
  (libs.ipv4Mapped address).getD address

/-- The ranges of {lit}`_is_blocked_address`. -/
def inBlockedRange (address : α) : Bool :=
  libs.isPrivate address || libs.isLoopback address || libs.isLinkLocal address ||
    libs.isMulticast address || libs.isReserved address || libs.isUnspecified address ||
    (extraBlockedNetworks libs).any fun network => libs.contains network address

/-- {lit}`_is_blocked_address`. -/
def isBlockedAddress (address : α) : Bool :=
  inBlockedRange libs (judgedAddress libs address)

/-- The policy lists a network with the address. -/
def SsrfPolicy.covers (policy : SsrfPolicy) (address : α) : Bool :=
  (policy.allowedNetworks libs).any fun network => libs.contains network address

/-- The loop of {lit}`find_blocked`. -/
def firstBlocked (policy : SsrfPolicy) (host : String) : List String → Option String
  | [] => none
  | ip :: rest =>
      match libs.address ip with
      | none =>
          some ("could not parse resolved address " ++ rt.reprStr ip ++ " for host " ++
            rt.reprStr host)
      | some address =>
          if policy.covers libs address then firstBlocked policy host rest
          else if isBlockedAddress libs address then
            some ("host " ++ rt.reprStr host ++ " resolves to " ++ ip ++
              ", which is in a blocked range (private/loopback/link-local/metadata). " ++
              "Add the host to the SSRF allowlist if this is intentional.")
          else firstBlocked policy host rest

/-- The name of the host is listed. -/
def SsrfPolicy.names (policy : SsrfPolicy) (host : String) : Prop :=
  libs.lower (bareHost host) ∈ policy.allowedNames libs

instance (policy : SsrfPolicy) (host : String) : Decidable (policy.names libs host) :=
  inferInstanceAs (Decidable (_ ∈ _))

/-- {lit}`find_blocked`: the reason of a denial. -/
def findBlocked (host : String) (ips : List String) (policy : SsrfPolicy) : Option String :=
  if policy.enabled = false then none
  else if policy.names libs host then none
  else firstBlocked rt libs policy host ips

/-! ## Those who ask -/

/-- {lit}`resolve_host`. -/
def resolveHost (host : String) (port : Option Nat) : Except PyException (List String) :=
  let bare := bareHost host
  match libs.address bare with
  | some _ => .ok [bare]
  | none =>
      (libs.getaddrinfo bare port).map fun found =>
        found.eraseDups.mergeSort fun a b => decide (a ≤ b)

/-- Why a target is not reached. -/
inductive SsrfFailure where
  /-- {lit}`SSRFBlockedError`. -/
  | blocked (reason : String)
  | raised (exc : PyException)

/-- The last lines of {lit}`ensure_url_allowed` and {lit}`ensure_db_host_allowed`. -/
def ensureHostAllowed (host : String) (port : Except PyException (Option Nat))
    (policy : SsrfPolicy) : Except SsrfFailure Unit :=
  if libs.lower host ∈ policy.allowedNames libs then .ok ()
  else
    match port.bind (resolveHost libs host) with
    | .error exc => .error (.raised exc)
    | .ok ips =>
        match findBlocked rt libs host ips policy with
        | none => .ok ()
        | some reason => .error (.blocked reason)

/-- {lit}`urlsplit(url)`: the host, and the port or the {lit}`ValueError` of a port that is no
number. -/
structure SplitUrl where
  hostname : Option String
  port : Except PyException (Option Nat)

/-- {lit}`ensure_url_allowed`. -/
def ensureUrlAllowed (url : String) (parts : SplitUrl) (policy : SsrfPolicy) :
    Except SsrfFailure Unit :=
  if policy.enabled = false then .ok ()
  else
    match parts.hostname with
    | none => .error (.blocked ("URL " ++ rt.reprStr url ++ " has no host"))
    | some host =>
        if host = "" then .error (.blocked ("URL " ++ rt.reprStr url ++ " has no host"))
        else ensureHostAllowed rt libs host parts.port policy

/-- The drivers of {lit}`DbConnectionConfig`. -/
inductive DbDriver where
  | postgresql
  | sqlite
deriving DecidableEq

/-- The host of a {lit}`DbConnectionConfig`. -/
structure DbConnectionConfig where
  driver : DbDriver
  host : Option String
  port : Option Nat
  host_required : driver = .postgresql → ∃ name, host = some name ∧ name ≠ ""

/-- {lit}`endpoint`. -/
def DbConnectionConfig.endpoint (config : DbConnectionConfig) : Option String × Option Nat :=
  match config.driver with
  | .sqlite => (none, none)
  | .postgresql =>
      (config.host,
        match config.port with
        | none => some 5432
        | some 0 => some 5432
        | some port => some port)

/-- {lit}`ensure_db_host_allowed`. -/
def ensureDbHostAllowed (config : DbConnectionConfig) (policy : SsrfPolicy) :
    Except SsrfFailure Unit :=
  match config.endpoint with
  | (none, _) => .ok ()
  | (some host, port) =>
      if policy.enabled = false then .ok () else ensureHostAllowed rt libs host (.ok port) policy

/-- The status of a rung of the tester. -/
inductive RungStatus where
  | passed
  | failed
  | skipped
deriving DecidableEq

/-- The rung {lit}`ssrf_policy` of the tester, with its error or its detail. -/
def ssrfRung (host : String) (ips : List String) (policy : SsrfPolicy) : RungStatus × String :=
  if policy.enabled then
    match findBlocked rt libs host ips policy with
    | some reason => (.failed, reason)
    | none => (.passed, "host allowed by SSRF policy")
  else (.skipped, "SSRF guard disabled")

/-! ## What the verdict depends on -/

/-- The address is read, and it is listed as it is written, or outside the ranges. -/
def SsrfPolicy.Passes (policy : SsrfPolicy) (ip : String) : Prop :=
  ∃ address, libs.address ip = some address ∧
    (policy.covers libs address = true ∨ isBlockedAddress libs address = false)

variable {rt libs}

private theorem firstBlocked_eq_none_iff {policy : SsrfPolicy} {host : String} {ips : List String} :
    firstBlocked rt libs policy host ips = none ↔ ∀ ip ∈ ips, policy.Passes libs ip := by
  induction ips with
  | nil => simp [firstBlocked]
  | cons ip rest ih =>
      rw [firstBlocked, List.forall_mem_cons, ← ih]
      cases haddress : libs.address ip with
      | none => simp [SsrfPolicy.Passes, haddress]
      | some address =>
          by_cases hcovers : policy.covers libs address = true
          · simp [SsrfPolicy.Passes, haddress, hcovers]
          · by_cases hblocked : isBlockedAddress libs address = true
            · simp [SsrfPolicy.Passes, haddress, hcovers, hblocked]
            · simp [SsrfPolicy.Passes, haddress, hcovers, hblocked]

/-- When a host is allowed. -/
theorem findBlocked_eq_none_iff {policy : SsrfPolicy} {host : String} {ips : List String} :
    findBlocked rt libs host ips policy = none ↔
      policy.enabled = false ∨ policy.names libs host ∨ ∀ ip ∈ ips, policy.Passes libs ip := by
  rw [findBlocked]
  by_cases henabled : policy.enabled = false
  · simp [henabled]
  · rw [if_neg henabled, or_iff_right henabled]
    by_cases hnames : policy.names libs host
    · simp [hnames]
    · rw [if_neg hnames, or_iff_right hnames, firstBlocked_eq_none_iff]

/-- The verdict does not depend on the order or the repetition of the addresses. -/
theorem findBlocked_congr {policy : SsrfPolicy} {host : String} {ips ips' : List String}
    (h : ∀ ip, ip ∈ ips ↔ ip ∈ ips') :
    findBlocked rt libs host ips policy = none ↔ findBlocked rt libs host ips' policy = none := by
  simp only [findBlocked_eq_none_iff, h]

/-- A longer list of allowed hosts lists more names and more networks. -/
theorem SsrfPolicy.names_mono {policy policy' : SsrfPolicy}
    (h : policy.allowHosts ⊆ policy'.allowHosts) {host : String} (hnames : policy.names libs host) :
    policy'.names libs host := by
  rcases List.mem_map.mp hnames with ⟨entry, hentry, heq⟩
  have hmem := List.mem_filter.mp hentry
  exact List.mem_map.mpr ⟨entry, List.mem_filter.mpr ⟨h hmem.1, hmem.2⟩, heq⟩

private theorem SsrfPolicy.covers_mono {policy policy' : SsrfPolicy}
    (h : policy.allowHosts ⊆ policy'.allowHosts) {address : α}
    (hcovers : policy.covers libs address = true) : policy'.covers libs address = true := by
  rcases List.any_eq_true.mp hcovers with ⟨network, hnetwork, hcontains⟩
  rcases List.mem_filterMap.mp hnetwork with ⟨entry, hentry, heq⟩
  exact List.any_eq_true.mpr
    ⟨network, List.mem_filterMap.mpr ⟨entry, h hentry, heq⟩, hcontains⟩

/-- A longer list of allowed hosts allows more. -/
theorem findBlocked_mono {policy policy' : SsrfPolicy} (henabled : policy'.enabled = policy.enabled)
    (h : policy.allowHosts ⊆ policy'.allowHosts) {host : String} {ips : List String}
    (hallowed : findBlocked rt libs host ips policy = none) :
    findBlocked rt libs host ips policy' = none := by
  rw [findBlocked_eq_none_iff] at hallowed ⊢
  rcases hallowed with hoff | hnames | hpass
  · exact Or.inl (henabled.trans hoff)
  · exact Or.inr (Or.inl (SsrfPolicy.names_mono h hnames))
  · refine Or.inr (Or.inr fun ip hip => ?_)
    rcases hpass ip hip with ⟨address, haddress, hcovers | hopen⟩
    · exact ⟨address, haddress, Or.inl (SsrfPolicy.covers_mono h hcovers)⟩
    · exact ⟨address, haddress, Or.inr hopen⟩

/-! ## Mapped addresses -/

/-- Every address is read, and judged as an IPv4 address if it is mapped, in the listed
networks as well as in the ranges. -/
def SsrfPolicy.Permits (libs : NetworkLibraries α ν) (policy : SsrfPolicy) (host : String)
    (ips : List String) : Prop :=
  policy.enabled = false ∨ policy.names libs host ∨ ∀ ip ∈ ips, ∃ address,
    libs.address ip = some address ∧
      (policy.covers libs (judgedAddress libs address) = true ∨
        inBlockedRange libs (judgedAddress libs address) = false)

/-- The address is not read, or lies in a range and is not listed in any form. -/
def SsrfPolicy.Refuses (libs : NetworkLibraries α ν) (policy : SsrfPolicy) (ip : String) : Prop :=
  ∀ address, libs.address ip = some address → isBlockedAddress libs address = true ∧
    policy.covers libs address = false ∧
    policy.covers libs (judgedAddress libs address) = false

/-- The address lies in a range and is listed only as it is written. -/
def SsrfPolicy.ListsWritten (libs : NetworkLibraries α ν) (policy : SsrfPolicy) (ip : String) :
    Prop :=
  ∃ address, libs.address ip = some address ∧ isBlockedAddress libs address = true ∧
    policy.covers libs address = true ∧
    policy.covers libs (judgedAddress libs address) = false

/-- The address lies in a range and is listed only as the IPv4 address. -/
def SsrfPolicy.ListsMapped (libs : NetworkLibraries α ν) (policy : SsrfPolicy) (ip : String) :
    Prop :=
  ∃ address, libs.address ip = some address ∧ isBlockedAddress libs address = true ∧
    policy.covers libs address = false ∧
    policy.covers libs (judgedAddress libs address) = true

private theorem passes_iff {policy : SsrfPolicy} {ip : String} :
    policy.Passes libs ip ↔ ¬ policy.Refuses libs ip ∧ ¬ policy.ListsMapped libs ip := by
  unfold SsrfPolicy.Passes SsrfPolicy.Refuses SsrfPolicy.ListsMapped
  cases haddress : libs.address ip with
  | none => simp
  | some address =>
      cases hblocked : isBlockedAddress libs address <;>
        cases hwritten : policy.covers libs address <;>
        cases hmapped : policy.covers libs (judgedAddress libs address) <;>
        simp [hblocked, hwritten, hmapped]

private theorem permitted_iff {policy : SsrfPolicy} {ip : String} :
    (∃ address, libs.address ip = some address ∧
      (policy.covers libs (judgedAddress libs address) = true ∨
        inBlockedRange libs (judgedAddress libs address) = false)) ↔
      ¬ policy.Refuses libs ip ∧ ¬ policy.ListsWritten libs ip := by
  unfold SsrfPolicy.Refuses SsrfPolicy.ListsWritten
  cases haddress : libs.address ip with
  | none => simp
  | some address =>
      have hrange : inBlockedRange libs (judgedAddress libs address) =
          isBlockedAddress libs address := rfl
      cases hblocked : isBlockedAddress libs address <;>
        cases hwritten : policy.covers libs address <;>
        cases hmapped : policy.covers libs (judgedAddress libs address) <;>
        simp [hrange, hblocked, hwritten, hmapped]

/-- The addresses are listed in both forms, or it makes no difference. -/
def SsrfPolicy.ListsAlike (libs : NetworkLibraries α ν) (policy : SsrfPolicy) (host : String)
    (ips : List String) : Prop :=
  policy.enabled = false ∨ policy.names libs host ∨ (∃ ip ∈ ips, policy.Refuses libs ip) ∨
    ((∃ ip ∈ ips, policy.ListsWritten libs ip) ↔ ∃ ip ∈ ips, policy.ListsMapped libs ip)

/-- The verdict judges mapped addresses as IPv4 addresses exactly if the policy lists them in
both forms, or it makes no difference. -/
theorem findBlocked_permits_iff {policy : SsrfPolicy} {host : String} {ips : List String} :
    (findBlocked rt libs host ips policy = none ↔ policy.Permits libs host ips) ↔
      policy.ListsAlike libs host ips := by
  rw [findBlocked_eq_none_iff, SsrfPolicy.Permits, SsrfPolicy.ListsAlike]
  simp only [passes_iff, permitted_iff]
  by_cases hoff : policy.enabled = false
  · simp [hoff]
  by_cases hnames : policy.names libs host
  · simp [hnames]
  simp only [or_iff_right hoff, or_iff_right hnames]
  by_cases hrefuses : ∃ ip ∈ ips, policy.Refuses libs ip
  · rw [or_iff_left_of_imp fun _ => hrefuses]
    refine iff_of_true ?_ hrefuses
    rcases hrefuses with ⟨ip, hip, hrefused⟩
    exact iff_of_false (fun h => (h ip hip).1 hrefused) fun h => (h ip hip).1 hrefused
  · rw [or_iff_right hrefuses]
    have hread : ∀ ip ∈ ips, ¬ policy.Refuses libs ip := fun ip hip h => hrefuses ⟨ip, hip, h⟩
    have hall : ∀ bad : String → Prop,
        (∀ ip ∈ ips, ¬ policy.Refuses libs ip ∧ ¬ bad ip) ↔ ¬ ∃ ip ∈ ips, bad ip := by
      intro bad
      constructor
      · rintro h ⟨ip, hip, hbad⟩
        exact (h ip hip).2 hbad
      · exact fun h ip hip => ⟨hread ip hip, fun hbad => h ⟨ip, hip, hbad⟩⟩
    rw [hall, hall, not_iff_not]
    exact Iff.comm

/-! ## The same verdict for all -/

/-- The shortcut of those who ask by name: a name that is listed, but not without the spaces
and brackets around it, is not the name of a host whose addresses are denied. -/
def SsrfPolicy.NamesAlike (libs : NetworkLibraries α ν) (policy : SsrfPolicy) (host : String)
    (port : Option Nat) : Prop :=
  policy.enabled = true → host ≠ "" → libs.lower host ∈ policy.allowedNames libs →
    policy.names libs host ∨ ∀ found, resolveHost libs host port = .ok found →
      ∀ ip ∈ found, policy.Passes libs ip

/-- After the shortcut the verdict is that on the resolved addresses. -/
theorem ensureHostAllowed_eq_ok_iff {policy : SsrfPolicy} {host : String} {port : Option Nat}
    {found : List String} (hfound : resolveHost libs host port = .ok found) :
    ensureHostAllowed rt libs host (.ok port) policy = .ok () ↔
      libs.lower host ∈ policy.allowedNames libs ∨ findBlocked rt libs host found policy = none := by
  have hresolved : (Except.ok port : Except PyException (Option Nat)).bind
      (resolveHost libs host) = .ok found := hfound
  rw [ensureHostAllowed, hresolved]
  by_cases hname : libs.lower host ∈ policy.allowedNames libs
  · simp [hname]
  · cases hverdict : findBlocked rt libs host found policy with
    | none => simp [hname, hverdict]
    | some reason => simp [hname, hverdict]

/-- With the shortcut the verdict is the same unless it answers for a denied host. -/
theorem shortcut_agrees_iff {policy : SsrfPolicy} {host : String} {found : List String}
    (henabled : policy.enabled = true) :
    ((libs.lower host ∈ policy.allowedNames libs ∨ findBlocked rt libs host found policy = none) ↔
        findBlocked rt libs host found policy = none) ↔
      (libs.lower host ∈ policy.allowedNames libs →
        policy.names libs host ∨ ∀ ip ∈ found, policy.Passes libs ip) := by
  have hon : ¬ policy.enabled = false := by
    rw [henabled]
    exact Bool.noConfusion
  rw [findBlocked_eq_none_iff, or_iff_right hon]
  exact or_iff_right_iff_imp

/-- The url, the connection and the tester give the verdict on the resolved addresses. -/
structure SameVerdict (rt : Runtime) (libs : NetworkLibraries α ν) (policy : SsrfPolicy)
    (host : String) (port : Option Nat) (found : List String) : Prop where
  url : host ≠ "" → ∀ url,
    (ensureUrlAllowed rt libs url ⟨some host, .ok port⟩ policy = .ok () ↔
      findBlocked rt libs host found policy = none)
  db : ∀ config : DbConnectionConfig, config.endpoint = (some host, port) →
    (ensureDbHostAllowed rt libs config policy = .ok () ↔
      findBlocked rt libs host found policy = none)
  tester : (ssrfRung rt libs host found policy).1 ≠ .failed ↔
    findBlocked rt libs host found policy = none

/-- The rung of the tester shows the verdict. -/
theorem ssrfRung_failed_iff (policy : SsrfPolicy) (host : String) (found : List String) :
    (ssrfRung rt libs host found policy).1 ≠ .failed ↔
      findBlocked rt libs host found policy = none := by
  rw [ssrfRung]
  by_cases henabled : policy.enabled = true
  · rw [if_pos henabled]
    cases hverdict : findBlocked rt libs host found policy <;> simp
  · rw [if_neg henabled]
    have hoff : policy.enabled = false := by simpa using henabled
    exact iff_of_true (by simp) (findBlocked_eq_none_iff.mpr (Or.inl hoff))

/-- A connection to a host names it. -/
theorem host_ne_of_endpoint {config : DbConnectionConfig} {host : String} {port : Option Nat}
    (h : config.endpoint = (some host, port)) : host ≠ "" := by
  rw [DbConnectionConfig.endpoint] at h
  cases hdriver : config.driver with
  | sqlite =>
      rw [hdriver] at h
      cases h
  | postgresql =>
      rw [hdriver] at h
      rcases config.host_required hdriver with ⟨name, hname, hne⟩
      have hhost : config.host = some host := congrArg Prod.fst h
      rw [hname] at hhost
      cases hhost
      exact hne

private theorem sameVerdict_iff {policy : SsrfPolicy} {host : String} {port : Option Nat}
    {found : List String} (hfound : resolveHost libs host port = .ok found) :
    SameVerdict rt libs policy host port found ↔
      (policy.enabled = true → host ≠ "" → libs.lower host ∈ policy.allowedNames libs →
        policy.names libs host ∨ ∀ ip ∈ found, policy.Passes libs ip) := by
  by_cases henabled : policy.enabled = true
  · have hon : ¬ policy.enabled = false := by
      rw [henabled]
      exact Bool.noConfusion
    have hurl : ∀ url, host ≠ "" → (ensureUrlAllowed rt libs url ⟨some host, .ok port⟩ policy =
        .ok () ↔ libs.lower host ∈ policy.allowedNames libs ∨
          findBlocked rt libs host found policy = none) := by
      intro url hhost
      rw [ensureUrlAllowed, if_neg hon]
      dsimp only
      rw [if_neg hhost, ensureHostAllowed_eq_ok_iff hfound]
    constructor
    · intro h _ hhost
      have hsame := h.url hhost ""
      rw [hurl "" hhost, shortcut_agrees_iff henabled] at hsame
      exact hsame
    · intro h
      refine ⟨fun hhost url => ?_, fun config hconfig => ?_, ssrfRung_failed_iff policy host found⟩
      · rw [hurl url hhost, shortcut_agrees_iff henabled]
        exact h henabled hhost
      · rw [ensureDbHostAllowed, hconfig]
        dsimp only
        rw [if_neg hon, ensureHostAllowed_eq_ok_iff hfound, shortcut_agrees_iff henabled]
        exact h henabled (host_ne_of_endpoint hconfig)
  · have hoff : policy.enabled = false := by simpa using henabled
    have hnone : findBlocked rt libs host found policy = none :=
      findBlocked_eq_none_iff.mpr (Or.inl hoff)
    refine iff_of_true ⟨fun _ url => ?_, fun config hconfig => ?_,
      ssrfRung_failed_iff policy host found⟩ fun h => absurd h henabled
    · exact iff_of_true (by rw [ensureUrlAllowed, if_pos hoff]) hnone
    · refine iff_of_true ?_ hnone
      rw [ensureDbHostAllowed, hconfig]
      dsimp only
      rw [if_pos hoff]

/-- The verdict on a host: it judges mapped addresses as IPv4 addresses, the order and the
repetition of addresses do not matter, a longer list of allowed hosts allows more, and all
who ask get it. -/
structure JudgesRight (rt : Runtime) (libs : NetworkLibraries α ν) (policy : SsrfPolicy)
    (host : String) (port : Option Nat) (ips : List String) : Prop where
  permits : findBlocked rt libs host ips policy = none ↔ policy.Permits libs host ips
  unordered : ∀ ips', (∀ ip, ip ∈ ips' ↔ ip ∈ ips) →
    (findBlocked rt libs host ips' policy = none ↔ findBlocked rt libs host ips policy = none)
  growing : ∀ policy' : SsrfPolicy, policy'.enabled = policy.enabled →
    policy.allowHosts ⊆ policy'.allowHosts → findBlocked rt libs host ips policy = none →
      findBlocked rt libs host ips policy' = none
  same : ∀ found, resolveHost libs host port = .ok found →
    SameVerdict rt libs policy host port found

end

/-- The verdict is right exactly if the policy lists mapped addresses in special ranges in
both forms, or it makes no difference, and lists no name with spaces around it that answers
for a denied host. -/
theorem judgesRight_iff {α ν : Type} (rt : Runtime) (libs : NetworkLibraries α ν)
    (policy : SsrfPolicy) (host : String) (port : Option Nat) (ips : List String) :
    JudgesRight rt libs policy host port ips ↔
      policy.ListsAlike libs host ips ∧ policy.NamesAlike libs host port := by
  constructor
  · intro h
    refine ⟨findBlocked_permits_iff.mp h.permits, ?_⟩
    intro henabled hhost hname
    by_cases hbare : policy.names libs host
    · exact Or.inl hbare
    · refine Or.inr fun found hfound => ?_
      have hsame := (sameVerdict_iff hfound).mp (h.same found hfound) henabled hhost hname
      exact (or_iff_right hbare).mp hsame
  · rintro ⟨hlists, hnames⟩
    refine ⟨findBlocked_permits_iff.mpr hlists, fun ips' hips => findBlocked_congr hips,
      fun policy' henabled hhosts => findBlocked_mono henabled hhosts, fun found hfound => ?_⟩
    refine (sameVerdict_iff hfound).mpr fun henabled hhost hname => ?_
    exact (hnames henabled hhost hname).imp id fun hpass => hpass found hfound

namespace Samples

/-- An IP address: its version and its number. -/
structure SampleAddress where
  version : Nat
  number : Nat

/-- A network: the version, the first number and how many numbers there are. -/
structure SampleNetwork where
  version : Nat
  first : Nat
  size : Nat

/-- The addresses and networks of an office. -/
def officeNetwork : NetworkLibraries SampleAddress SampleNetwork where
  address := fun text =>
    if text = "10.0.0.5" then some ⟨4, 167772165⟩
    else if text = "::ffff:10.0.0.5" then some ⟨6, 0xffff0a000005⟩
    else none
  network := fun text =>
    if text = "10.0.0.0/8" then some ⟨4, 167772160, 2 ^ 24⟩
    else if text = "100.64.0.0/10" then some ⟨4, 1681915904, 2 ^ 22⟩
    else if text = "192.0.0.0/24" then some ⟨4, 3221225472, 2 ^ 8⟩
    else none
  hostNetwork := fun address => ⟨address.version, address.number, 1⟩
  contains := fun network address =>
    network.version = address.version && decide (network.first ≤ address.number) &&
      decide (address.number < network.first + network.size)
  ipv4Mapped := fun address =>
    if address.version = 6 ∧ address.number / 2 ^ 32 = 0xffff then
      some ⟨4, address.number % 2 ^ 32⟩
    else none
  isPrivate := fun address => address.version = 4 && decide (address.number / 2 ^ 24 = 10)
  isLoopback := fun _ => false
  isLinkLocal := fun _ => false
  isMulticast := fun _ => false
  isReserved := fun _ => false
  isUnspecified := fun _ => false
  getaddrinfo := fun _ _ => .ok ["::ffff:10.0.0.5"]
  lower := fun text => text

end Samples

open Samples

/-- The listed network of a host is not found when its address comes mapped. -/
theorem mapped_address_blocked :
    ¬ ∀ (rt : Runtime) (policy : SsrfPolicy) (host : String) (port : Option Nat)
      (ips : List String), JudgesRight rt officeNetwork policy host port ips := by
  intro h
  have hright := (h decimalRuntime { allowHosts := ["10.0.0.0/8"] } "db.internal" none
    ["::ffff:10.0.0.5"]).permits
  have hblocked : findBlocked decimalRuntime officeNetwork "db.internal" ["::ffff:10.0.0.5"]
      { allowHosts := ["10.0.0.0/8"] } ≠ none := by
    decide +kernel
  refine hblocked (hright.mpr (Or.inr (Or.inr fun ip hip => ?_)))
  rw [List.mem_singleton] at hip
  subst hip
  exact ⟨⟨6, 0xffff0a000005⟩, rfl, Or.inl (by decide +kernel)⟩

end EtlTool
