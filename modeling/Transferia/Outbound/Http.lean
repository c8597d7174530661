import Mathlib

/-!
# The network policy of outbound requests

A request is checked twice: the text of a literal address when the request is
built, and the answers of the resolver when it is sent.  The text of an IPv6
host stands in brackets and is not read as an address, and a literal address
never reaches the resolver.
-/

namespace Transferia.OutboundHttp

inductive NetworkPolicy
  | publicInternet | allowPrivateNetworks

structure Ipv4Addr where
  (a b c d : UInt8)
  deriving DecidableEq

structure Ipv6Addr where
  (s₀ s₁ s₂ s₃ s₄ s₅ s₆ s₇ : UInt16)
  deriving DecidableEq

inductive IpAddr
  | v4 (address : Ipv4Addr)
  | v6 (address : Ipv6Addr)

/-- The ranges that both policies refuse.  The unspecified address and the broadcast
address are in those of the first octet. -/
def Ipv4Addr.isReserved : Ipv4Addr → Bool
  | ⟨a, b, c, _⟩ =>
    (a = 169 && b = 254) || (224 ≤ a && a ≤ 239) || a = 0 || 240 ≤ a || (a = 192 && b = 0 && c =
      0) || (a = 192 && b = 0 && c = 2) || (a = 198 && (b = 18 || b = 19)) || (a = 198 && b =
      51 && c = 100) || (a = 203 && b = 0 && c = 113)

def isPublicIpv4 (address : Ipv4Addr) : Bool :=
  let ⟨a, b, _, _⟩ := address
  !((a = 10 || (a = 172 && 16 ≤ b && b ≤ 31) || (a = 192 && b = 168)) || a = 127 ||
    address.isReserved || (a = 100 && 64 ≤ b && b ≤ 127))

def Ipv6Addr.toIpv4Mapped : Ipv6Addr → Option Ipv4Addr
  | ⟨0, 0, 0, 0, 0, 0xffff, s₆, s₇⟩ =>
    some ⟨(s₆ >>> 8).toUInt8, s₆.toUInt8, (s₇ >>> 8).toUInt8, s₇.toUInt8⟩
  | _ => none

def Ipv6Addr.isReserved (address : Ipv6Addr) : Bool :=
  address = ⟨0, 0, 0, 0, 0, 0, 0, 0⟩ || address.s₀ &&& 0xff00 = 0xff00 ||
    address.s₀ &&& 0xffc0 = 0xfe80 || (address.s₀ = 0x2001 && address.s₁ = 0x0db8)

def isPublicIpv6 (address : Ipv6Addr) : Bool :=
  match address.toIpv4Mapped with
  | some mapped => isPublicIpv4 mapped
  | none => !(address = ⟨0, 0, 0, 0, 0, 0, 0, 1⟩ || address.isReserved ||
      address.s₀ &&& 0xfe00 = 0xfc00)

def isPublicAddress : IpAddr → Bool
  | .v4 address => isPublicIpv4 address
  | .v6 address => isPublicIpv6 address

def isSpecialAddress : IpAddr → Bool
  | .v4 address => address.isReserved
  | .v6 address =>
    match address.toIpv4Mapped with
    | some mapped => mapped.isReserved
    | none => address.isReserved

def isAllowedAddress (policy : NetworkPolicy) (address : IpAddr) : Bool :=
  match policy with
  | .publicInternet => isPublicAddress address
  | .allowPrivateNetworks => !isSpecialAddress address

inductive OutboundHttpError
  | invalidUrl (reason : String)
  | redirectRejected (status : ℕ)
  | request (message : String)

/-- The host of a URL, with names of type `T`. -/
inductive Host (T : Type)
  | domain (name : T)
  | ipv4 (address : Ipv4Addr)
  | ipv6 (address : Ipv6Addr)

structure Url (T : Type) where
  (scheme username : String)
  password : Option String
  host : Option (Host T)

variable {T : Type}

/-- Texts of hosts, and what the HTTP library does with the addresses it is given:
the addresses it connects to, and the status of the response. -/
structure Library (T : Type) where
  printIpv4 : Ipv4Addr → T
  /-- The text of an IPv6 host, in brackets. -/
  printIpv6 : Ipv6Addr → T
  parse : T → Option IpAddr
  exchange : List IpAddr → List IpAddr × Except String ℕ

structure Library.Lawful (library : Library T) : Prop where
  parse_ipv4 : ∀ address, library.parse (library.printIpv4 address) = some (.v4 address)
  parse_ipv6 : ∀ address, library.parse (library.printIpv6 address) = none
  exchange : ∀ addresses, (library.exchange addresses).1 ⊆ addresses

structure OutboundHttpClient (T : Type) where
  policy : NetworkPolicy
  pinnedHost : Option T

def OutboundHttpClient.new (policy : NetworkPolicy) : OutboundHttpClient T := ⟨policy, none⟩

variable (library : Library T)

def hostStr : Host T → T
  | .domain name => name
  | .ipv4 address => library.printIpv4 address
  | .ipv6 address => library.printIpv6 address

def policyError [DecidableEq T] (client : OutboundHttpClient T) (url : Url T) : Option String :=
  if url.scheme ≠ "http" ∧ url.scheme ≠ "https" then some "scheme must be http or https"
  else if client.pinnedHost.any (url.host.map (hostStr library) ≠ some ·) then
    some "URL host does not match the client's pinned tunnel host"
  else if url.username ≠ "" ∨ url.password.isSome then
    some "credentials must not be embedded in the URL"
  else if ((url.host.map (hostStr library)).bind library.parse).any
      (!isAllowedAddress client.policy ·) then
    some "network policy forbids this IP address"
  else none

/-- The resolver's answer for a name, from the addresses that DNS returns. -/
def resolve (policy : NetworkPolicy) (addresses : Except String (List IpAddr)) :
    Except String (List IpAddr) := do
  let addresses ← addresses
  if addresses.isEmpty then .error "DNS returned no addresses"
  else if addresses.any (!isAllowedAddress policy ·) then
    .error "DNS resolved to an address forbidden by the policy"
  else .ok addresses

def candidates (policy : NetworkPolicy) (lookup : T → Except String (List IpAddr)) (url : Url T) :
    Except String (List IpAddr) :=
  match url.host with
  | none => .error "URL has no host"
  | some (.domain name) => resolve policy (lookup name)
  | some (.ipv4 address) => .ok [.v4 address]
  | some (.ipv6 address) => .ok [.v6 address]

/-- The addresses that a request connects to, and its result. -/
def send [DecidableEq T] (client : OutboundHttpClient T)
    (lookup : T → Except String (List IpAddr)) (url : Url T) :
    List IpAddr × Except OutboundHttpError ℕ :=
  match policyError library client url with
  | some reason => ([], .error (.invalidUrl reason))
  | none =>
    match candidates client.policy lookup url with
    | .error message => ([], .error (.request message))
    | .ok addresses =>
      let (connected, answer) := library.exchange addresses
      (connected, match answer with
        | .error message => .error (.request message)
        | .ok status =>
          if 300 ≤ status ∧ status < 400 then .error (.redirectRejected status) else .ok status)

def Host.literal : Host T → Option IpAddr
  | .domain _ => none
  | .ipv4 address => some (.v4 address)
  | .ipv6 address => some (.v6 address)

/-- Connections go to allowed addresses, and a forbidden literal is refused before
any connection. -/
def Enforced [DecidableEq T] (policy : NetworkPolicy) (lookup : T → Except String (List IpAddr))
    (url : Url T) : Prop :=
  (∀ address ∈ (send library (.new policy) lookup url).1, isAllowedAddress policy address) ∧
    ∀ address, url.host.bind Host.literal = some address → isAllowedAddress policy address = false →
      ∃ reason, send library (.new policy) lookup url = ([], .error (.invalidUrl reason))

variable {library} {policy : NetworkPolicy} {url : Url T} {lookup : T → Except String (List IpAddr)}

theorem isAllowedAddress_mapped {addr : Ipv6Addr} {mapped : Ipv4Addr}
    (h : addr.toIpv4Mapped = some mapped) :
    isAllowedAddress policy (.v6 addr) = isAllowedAddress policy (.v4 mapped) := by
  cases policy <;> simp [isAllowedAddress, isPublicAddress, isPublicIpv6, isSpecialAddress, h]

theorem allowed_of_resolve {answers : Except String (List IpAddr)} {addresses : List IpAddr}
    (h : resolve policy answers = .ok addresses) :
    ∀ addr ∈ addresses, isAllowedAddress policy addr := by
  cases answers with
  | error => cases h
  | ok found =>
    simp only [resolve, bind, Except.bind] at h
    split_ifs at h with _ hallowed
    cases h
    simpa using hallowed

variable [DecidableEq T]

/-- Without a policy error the candidates of a URL are allowed, an IPv6 literal
apart. -/
theorem candidates_allowed (hlawful : library.Lawful)
    (hok : policyError library (.new policy) url = none)
    (hipv6 : ∀ addr, url.host = some (.ipv6 addr) → isAllowedAddress policy (.v6 addr))
    {addresses : List IpAddr} (h : candidates policy lookup url = .ok addresses) :
    ∀ addr ∈ addresses, isAllowedAddress policy addr := by
  unfold candidates at h
  split at h
  · cases h
  · exact allowed_of_resolve h
  next addr hhost =>
    cases h
    simp only [policyError, OutboundHttpClient.new, hhost, Option.map_some, hostStr,
      Option.bind_some, hlawful.parse_ipv4] at hok
    split_ifs at hok with _ _ _ hallowed
    simpa using hallowed
  rename_i addr hhost
  cases h
  simpa using hipv6 addr hhost

theorem send_of_refused {reason : String}
    (h : policyError library (.new policy) url = some reason) :
    send library (.new policy) lookup url = ([], .error (.invalidUrl reason)) := by
  simp [send, h]

theorem send_of_ok (h : policyError library (.new policy) url = none) :
    ∀ reason, (send library (.new policy) lookup url).2 ≠ .error (.invalidUrl reason) := by
  intro reason
  simp only [send, h]
  split
  · simp
  split
  · simp
  · split_ifs <;> simp

/-- The policy is enforced exactly when the URL does not name a forbidden address
as an IPv6 literal, or is refused for its scheme or its credentials. -/
theorem policy_enforced_iff (hlawful : library.Lawful) (policy : NetworkPolicy)
    (lookup : T → Except String (List IpAddr)) (url : Url T) :
    (Enforced library policy lookup url ∧
      ∀ address mapped, Ipv6Addr.toIpv4Mapped address = some mapped →
        isAllowedAddress policy (.v6 address) = isAllowedAddress policy (.v4 mapped)) ↔
      ∀ address, url.host = some (.ipv6 address) → (url.scheme = "http" ∨ url.scheme = "https") →
        url.username = "" → url.password = none → isAllowedAddress policy (.v6 address) := by
  constructor
  · rintro ⟨⟨_, hrefused⟩, _⟩ address hhost hscheme huser hpassword
    by_contra hforbidden
    obtain ⟨reason, hreason⟩ := hrefused (.v6 address) (by simp [hhost, Host.literal])
      (by simpa using hforbidden)
    have hok : policyError library (.new policy) url = none := by
      rcases hscheme with hscheme | hscheme <;>
        simp [policyError, OutboundHttpClient.new, hscheme, huser, hpassword, hhost, hostStr,
          hlawful.parse_ipv6]
    exact send_of_ok hok reason (by rw [hreason])
  intro hipv6
  refine ⟨?_, fun _ _ => isAllowedAddress_mapped⟩
  cases hok : policyError library (.new policy) url with
  | some reason =>
    rw [Enforced, send_of_refused hok]
    exact ⟨by simp, fun _ _ _ => ⟨reason, rfl⟩⟩
  | none =>
    have hscheme : url.scheme = "http" ∨ url.scheme = "https" := by grind [policyError]
    have huser : url.username = "" ∧ url.password = none := by
      simp only [policyError] at hok
      split_ifs at hok with _ _ hcredentials
      simpa using hcredentials
    have ha : ∀ address, url.host = some (.ipv6 address) →
        isAllowedAddress policy (.v6 address) :=
      fun address hhost => hipv6 address hhost hscheme huser.1 huser.2
    constructor
    · intro address hmem
      simp only [send, hok] at hmem
      split at hmem
      · cases hmem
      rename_i addresses hc
      exact candidates_allowed hlawful hok ha hc address (hlawful.exchange addresses hmem)
    intro address hliteral hforbidden
    exfalso
    have hc : candidates policy lookup url = .ok [address] := by
      unfold candidates
      cases hhost : url.host with
      | none => simp [hhost] at hliteral
      | some host =>
        cases host with
        | domain => simp [hhost, Host.literal] at hliteral
        | ipv4 | ipv6 => simp_all [Host.literal]
    have hget := candidates_allowed hlawful hok ha hc address (List.mem_singleton_self _)
    simp [hforbidden] at hget

/-- Hosts as their own texts, and a library that connects to every address. -/
def sampleLibrary : Library (Option Ipv4Addr) where
  printIpv4 := some
  printIpv6 _ := none
  parse := Option.map .v4
  exchange addresses := (addresses, .ok 200)

def sampleUrl (address : Ipv6Addr) : Url (Option Ipv4Addr) :=
  ⟨"http", "", none, some (.ipv6 address)⟩

theorem sampleLibrary_lawful : sampleLibrary.Lawful :=
  ⟨fun _ => rfl, fun _ => rfl, fun _ => List.Subset.refl _⟩

theorem policy_enforced_at_public_address :
    Enforced sampleLibrary .publicInternet (fun _ => .error "")
      (sampleUrl ⟨0x2606, 0x4700, 0, 0, 0, 0, 0, 0x1111⟩) := by
  refine ((policy_enforced_iff sampleLibrary_lawful _ _ _).mpr ?_).1
  rintro address ⟨⟩ - - -
  decide

/-- A request to the loopback address in brackets is sent. -/
theorem loopback_literal_is_connected :
    ∃ loopback : Ipv6Addr, isAllowedAddress .publicInternet (.v6 loopback) = false ∧
      (send sampleLibrary (.new .publicInternet) (fun _ => .error "") (sampleUrl loopback)).1 =
        [.v6 loopback] ∧
      ¬ Enforced sampleLibrary .publicInternet (fun _ => .error "") (sampleUrl loopback) := by
  refine ⟨⟨0, 0, 0, 0, 0, 0, 0, 1⟩, by decide, rfl, fun h => ?_⟩
  have hallowed := h.1 _ (List.mem_singleton_self _)
  revert hallowed
  decide

end Transferia.OutboundHttp
