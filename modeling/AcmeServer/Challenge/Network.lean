import AcmeServer.Interaction.Trace
import AcmeServer.Name.Identifier
import AcmeServer.Server.Host
import Mathlib.Data.List.ReduceOption

/-!
# The egress of validators

`challenge/network.go` decides to which addresses a validator may connect. A validator is a program
over the calls `NetCall`. The resolver and the peers may answer them in any way, so what
`dial_follows` says of a connection holds whatever a client publishes under its names.
-/

namespace AcmeServer.Challenge

open Interaction Interaction.Program Name

/-! ## Address policy -/

/-- A `netip.Prefix`. -/
structure Network where
  address : Addr
  bits : Nat

/-- The bytes of the address. -/
def addrBytes : Addr → Bytes
  | .v4 bytes => bytes.val
  | .v6 bytes _ => bytes.val

/-- The big-endian number of the bytes without its last bits. -/
def leadingBits (bits : Nat) (bytes : Bytes) : Nat :=
  bytes.foldl (fun n b => n * 256 + b.toNat) 0 / 2 ^ (8 * bytes.length - bits)

/-- `netip.Prefix.Contains`. An address with a zone is in no network. -/
def Network.contains (n : Network) (a : Addr) : Bool :=
  a.zone == "" && (addrBytes n.address).length == (addrBytes a).length &&
    leadingBits n.bits (addrBytes n.address) == leadingBits n.bits (addrBytes a)

/-- An IPv4 network, without the zero bytes at its end. -/
def v4Network (leading : Bytes) (bits : Nat) : Network :=
  ⟨.v4 ⟨(leading ++ List.replicate 4 0).take 4, by simp⟩, bits⟩

/-- An IPv6 network, without the zero bytes at its end. -/
def v6Network (leading : Bytes) (bits : Nat) : Network :=
  ⟨.v6 ⟨(leading ++ List.replicate 16 0).take 16, by simp⟩ "", bits⟩

/-- The exclusions of IANA special-purpose ranges and non-unicast destinations. -/
def specialNetworks : List Network :=
  [v4Network [0] 8, v4Network [10] 8, v4Network [100, 64] 10, v4Network [127] 8,
    v4Network [169, 254] 16, v4Network [172, 16] 12, v4Network [192, 0, 0] 24,
    v4Network [192, 0, 2] 24, v4Network [192, 31, 196] 24, v4Network [192, 52, 193] 24,
    v4Network [192, 88, 99] 24, v4Network [192, 168] 16, v4Network [192, 175, 48] 24,
    v4Network [198, 18] 15, v4Network [198, 51, 100] 24, v4Network [203, 0, 113] 24,
    v4Network [224] 3, v6Network [0x20, 0x01] 23, v6Network [0x20, 0x01, 0x0d, 0xb8] 32,
    v6Network [0x20, 0x02] 16, v6Network [0x26, 0x20, 0x00, 0x4f, 0x80] 48,
    v6Network [0x3f, 0xff] 20]

/-- `netip.Addr.IsGlobalUnicast`, for an address that is not IPv4-mapped. -/
def isGlobalUnicast (a : Addr) : Bool :=
  !a.isUnspecified && !a.isMulticast && match a with
  | .v4 bytes =>
      bytes.val != [255, 255, 255, 255] && !(v4Network [127] 8).contains a &&
        !(v4Network [169, 254] 16).contains a
  | .v6 bytes _ =>
      bytes.val != List.replicate 15 0 ++ [1] && leadingBits 10 bytes.val != 0xfe80 / 64

/-- Reports whether an address is ordinary public unicast under the conservative default policy. -/
def publicAddress (address : Addr) : Bool :=
  let address := address.unmap
  address.zone == "" && isGlobalUnicast address &&
    (match address with
      | .v4 _ => true
      | .v6 _ _ => (v6Network [0x20] 3).contains address) &&
    specialNetworks.all fun network => !network.contains address

/-- A network configuration. The time limit shows in the answers only. -/
structure NetworkPolicy where
  allowed : List Network
  maxAddresses : Nat

/-- Applies explicit network permissions after normalizing IPv4-mapped addresses. The address that
is not valid is none. -/
def NetworkPolicy.permits (p : NetworkPolicy) : Option Addr → Bool
  | none => false
  | some address =>
      let address := address.unmap
      address.zone == "" &&
        (publicAddress address || p.allowed.any fun network => network.contains address)

theorem unmap_unmap (a : Addr) : a.unmap.unmap = a.unmap := by
  cases a with
  | v4 bytes => rfl
  | v6 bytes zone =>
      by_cases hmapped : bytes.val.take 12 == Addr.v4InV6Prefix
      · simp only [Addr.unmap, if_pos hmapped]
      · simp only [Addr.unmap, if_neg hmapped]

/-- A mapped address gets the verdict of the address behind it. -/
theorem permits_unmap (p : NetworkPolicy) (a : Addr) :
    p.permits (some a.unmap) = p.permits (some a) := by
  simp only [NetworkPolicy.permits, unmap_unmap]

/-- `8.8.8.8` is permitted, but not the private address behind `::ffff:10.0.0.1`. -/
example : (⟨[], 32⟩ : NetworkPolicy).permits (some (.v4 ⟨[8, 8, 8, 8], rfl⟩)) ∧
    ¬(⟨[], 32⟩ : NetworkPolicy).permits
      (some (.v6 ⟨Addr.v4InV6Prefix ++ [10, 0, 0, 1], rfl⟩ "")) := by
  decide

/-! ## Calls -/

/-- A URL that a client is sent to. Without a port or a user, these are empty or false. -/
structure Target where
  scheme : String
  host : String
  port : String := ""
  hasUser : Bool := false
  opaqueText : String := ""
  fragment : String := ""
  path : String

/-- A response. `redirect` is the target the client would go on to, if the response is a redirect
with a location, and `failure` the error at the end of the body. -/
structure Response where
  status : Nat
  redirect : Option (Except HostError Target)
  content : Bytes
  failure : Option HostError

/-- What a validator does outside its process. `get` uses the connection that was opened last. -/
inductive NetCall where
  | lookup (name : String)
  | connect (address : Addr) (port : Int)
  | get (target : Target)

/-- What comes back. -/
abbrev NetCall.Answer : NetCall → Type
  | .lookup _ => Except HostError (List (Option Addr))
  | .connect _ _ => Except HostError Unit
  | .get _ => Except HostError Response

abbrev NetLog := Log NetCall NetCall.Answer

/-- The programs of validators. -/
abbrev Validation := Program NetCall NetCall.Answer

def ask (call : NetCall) : Validation call.Answer := perform call

/-! ## Destinations -/

/-- Returns a terminal invalid-proof result without exposing fetched content. -/
def incorrect (detail : String) : HostError := .problem (newProblem .incorrectResponse detail)

/-- Whether a retryable failure is in the chain. -/
def classified : HostError → Bool
  | .text _ => false
  | .problem _ => false
  | .retryable _ _ => true
  | .wrapped _ cause => classified cause

/-- Marks a failure for retry. A problem in the chain stays final and an already classified failure
keeps its type. -/
def retryable (type : ErrorType) (detail : String) (err : HostError) : HostError :=
  if err.asProblem.isSome || classified err then err
  else .retryable (some (newProblem type detail)) err

namespace NetworkPolicy

variable (platform : Platform) (p : NetworkPolicy)

/-- The addresses of a host: its own, or those of one lookup. -/
def addressesOf (host : String) : Validation (Except HostError (List (Option Addr))) :=
  match platform.parseAddr host with
  | some address => pure (.ok [some address])
  | none =>
      match platform.normalize ⟨.dns, host⟩ with
      | .error _ => pure (.error (incorrect "invalid validation hostname"))
      | .ok id =>
          if id.isWildcard then pure (.error (incorrect "invalid validation hostname"))
          else do
            match ← ask (.lookup (id.value ++ ".")) with
            | .error err =>
                pure (.error (retryable .dns "validation destination could not be resolved"
                  (.wrapped "challenge: destination resolution" err)))
            | .ok addresses => pure (.ok addresses)

/-- The checks of a whole answer. An answer that passes has valid addresses only. -/
def checkAddresses (addresses : List (Option Addr)) : Except HostError (List Addr) :=
  if addresses = [] ∨ p.maxAddresses < addresses.length then
    .error (incorrect "destination address count is outside the limit")
  else if addresses.all p.permits then .ok addresses.reduceOption
  else .error (incorrect "validation destination is denied by egress policy")

/-- Resolves once and rejects the entire answer if any destination violates egress policy. -/
def resolve (host : String) : Validation (Except HostError (List Addr)) := do
  match ← addressesOf platform host with
  | .error err => pure (.error err)
  | .ok addresses => pure (p.checkAddresses addresses)

/-- The loop of `dial` with the last failure. -/
def dialEach (port : Int) : List Addr → HostError → Validation (Except HostError Unit)
  | [], last =>
      pure (.error (retryable .connection "could not connect to the validation destination"
        (.wrapped "challenge: connection failed" last)))
  | address :: rest, _ => do
      match ← ask (.connect address.unmap port) with
      | .ok () => pure (.ok ())
      | .error err => dialEach port rest err

/-- Dials only numeric addresses from the approved resolution result. -/
def dial (host : String) (port : Int) : Validation (Except HostError Unit) := do
  match ← p.resolve platform host with
  | .error err => pure (.error err)
  | .ok addresses => dialEach port addresses (.text "<nil>")

end NetworkPolicy

/-- Checks the unpadded base64url alphabet without accepting whitespace. -/
def base64URL (value : String) : Bool :=
  value.toList.all (fun c => c.isAlphanum || c == '_' || c == '-') && value != ""

/-- Checks identifier scope and the captured proof before any network access. -/
def checkRequest (platform : Platform) (req : ValidationRequest) (type : ChallengeType) :
    Except HostError Identifier :=
  match platform.normalize req.identifier with
  | .error problem => .error (.problem problem)
  | .ok id =>
      if req.challenge.type ≠ type ∨ (id.type ≠ .dns ∧ id.type ≠ .ip) ∨ id.isWildcard ∨
          (req.wildcard ∧ type ≠ .dns01) ∨ (id.type = .ip ∧ type = .dns01) then
        .error (incorrect "identifier does not support this challenge")
      else if req.challenge.token.utf8ByteSize < 22 ∨ 256 < req.challenge.token.utf8ByteSize ∨
          ¬base64URL req.challenge.token ∨ req.accountKeyThumbprint.utf8ByteSize ≠ 43 ∨
          ¬base64URL req.accountKeyThumbprint ∨
          req.keyAuthorization ≠ req.challenge.token ++ "." ++ req.accountKeyThumbprint then
        .error (incorrect "invalid captured key authorization")
      else .ok id

/-! ## What a connection rests on -/

/-- The answer may be used: it is within the limit and the policy permits all of it. -/
def NetworkPolicy.Accepts (p : NetworkPolicy) (addresses : List (Option Addr)) : Prop :=
  addresses.length ≤ p.maxAddresses ∧ ∀ address ∈ addresses, p.permits address

/-- The lookup succeeded with an answer that may be used. -/
def NetworkPolicy.Clean (p : NetworkPolicy) : Exchange NetCall NetCall.Answer → Prop
  | ⟨.lookup _, .ok addresses⟩ => p.Accepts addresses
  | ⟨.lookup _, .error _⟩ => False
  | _ => True

def NetCall.isLookup : NetCall → Bool
  | .lookup _ => true
  | _ => false

def NetCall.isConnect : NetCall → Bool
  | .connect _ _ => true
  | _ => false

def NetCall.isGet : NetCall → Bool
  | .get _ => true
  | _ => false

/-- The number of calls of the kind. -/
def calls (kind : NetCall → Bool) (log : NetLog) : Nat := log.countP fun e => kind e.call

/-- The last call opened a connection. -/
def Connected (log : NetLog) : Prop :=
  ∃ address port, log.getLast? = some ⟨.connect address port, .ok ()⟩

/-- When a validation with at most `rounds` requests may make a call: all lookups so far were
answered within the policy, a connection goes to a permitted address in its unmapped form, and a
request goes to a target in reach, on the connection that was opened just before. -/
def Egress (p : NetworkPolicy) (ports : Int → Prop) (reach : NetLog → Target → Prop) (rounds : Nat)
    (log : NetLog) (call : NetCall) : Prop :=
  (∀ e ∈ log, p.Clean e) ∧
    match call with
    | .lookup _ => calls NetCall.isLookup log < rounds
    | .connect address port =>
        p.permits (some address) ∧ address.unmap = address ∧ ports port ∧
          calls NetCall.isConnect log < rounds * p.maxAddresses
    | .get target => Connected log ∧ reach log target ∧ calls NetCall.isGet log < rounds

/-- The lookups so far may be used, and the calls so far are within the bounds. -/
structure Used (p : NetworkPolicy) (lookups connects gets : Nat) (log : NetLog) : Prop where
  clean : ∀ e ∈ log, p.Clean e
  lookups : calls NetCall.isLookup log ≤ lookups
  connects : calls NetCall.isConnect log ≤ connects
  gets : calls NetCall.isGet log ≤ gets

/-- What holds once a part of a validation has succeeded. -/
def Succeeds {α : Type} (post : α → NetLog → Prop) : Except HostError α → NetLog → Prop
  | .ok value, log => post value log
  | .error _, _ => True

section Walk

variable {platform : Platform} {p : NetworkPolicy} {ports : Int → Prop} {rounds k c : Nat}
variable {reach : NetLog → Target → Prop} {log : NetLog}

theorem calls_append (kind : NetCall → Bool) (log : NetLog) (e : Exchange NetCall NetCall.Answer) :
    calls kind (log ++ [e]) = calls kind log + if kind e.call then 1 else 0 := by
  rw [calls, List.countP_append, List.countP_singleton]
  rfl

theorem Used.append {k' c' t t' : Nat} {e : Exchange NetCall NetCall.Answer} (h : Used p k c t log)
    (hclean : p.Clean e) (hk : k + (if e.call.isLookup then 1 else 0) ≤ k')
    (hc : c + (if e.call.isConnect then 1 else 0) ≤ c')
    (ht : t + (if e.call.isGet then 1 else 0) ≤ t') : Used p k' c' t' (log ++ [e]) where
  clean := List.forall_mem_append.2 ⟨h.clean, List.forall_mem_singleton.2 hclean⟩
  lookups := by
    rw [calls_append]
    exact (Nat.add_le_add_right h.lookups _).trans hk
  connects := by
    rw [calls_append]
    exact (Nat.add_le_add_right h.connects _).trans hc
  gets := by
    rw [calls_append]
    exact (Nat.add_le_add_right h.gets _).trans ht

theorem check_addresses_ok {addresses : List (Option Addr)} {approved : List Addr}
    (h : p.checkAddresses addresses = .ok approved) :
    p.Accepts addresses ∧ approved.length ≤ p.maxAddresses ∧
      ∀ address ∈ approved, p.permits (some address) := by
  unfold NetworkPolicy.checkAddresses at h
  split at h
  · cases h
  · next hcount =>
    split at h
    · next hall =>
      cases h
      have hlength : addresses.length ≤ p.maxAddresses := by omega
      have hpermits : ∀ address ∈ addresses, p.permits address := List.all_eq_true.1 hall
      refine ⟨⟨hlength, hpermits⟩, ?_, fun address haddress => ?_⟩
      · exact (List.reduceOption_length_le addresses).trans hlength
      · exact hpermits _ (List.reduceOption_mem_iff.1 haddress)
    · cases h

/-- A resolution makes at most one lookup. What it returns is approved, and so is the answer it
comes from. -/
theorem resolve_follows (host : String) (hk : k < rounds) (h : Used p k c k log) :
    (p.resolve platform host).Follows (Egress p ports reach rounds)
      (Succeeds fun approved log' => Used p (k + 1) c k log' ∧
        approved.length ≤ p.maxAddresses ∧ ∀ address ∈ approved, p.permits (some address)) log := by
  have haddresses : (NetworkPolicy.addressesOf platform host).Follows (Egress p ports reach rounds)
      (Succeeds fun addresses log' => p.Accepts addresses → Used p (k + 1) c k log') log := by
    unfold NetworkPolicy.addressesOf
    split
    · exact fun _ => ⟨h.clean, h.lookups.trans (Nat.le_succ k), h.connects, h.gets⟩
    · split
      · trivial
      · split
        · trivial
        · refine follows_bind (follows_perform ⟨h.clean, h.lookups.trans_lt hk⟩ fun answer => ?_)
          cases answer with
          | error err => trivial
          | ok addresses => exact fun haccepts => h.append haccepts le_rfl le_rfl le_rfl
  unfold NetworkPolicy.resolve
  refine follows_bind (haddresses.weaken fun outcome log' hused => ?_)
  cases outcome with
  | error err => trivial
  | ok addresses =>
      show Succeeds _ (p.checkAddresses addresses) log'
      cases hcheck : p.checkAddresses addresses with
      | error err => trivial
      | ok approved =>
          obtain ⟨haccepts, happroved⟩ := check_addresses_ok hcheck
          exact ⟨hused haccepts, happroved⟩

/-- Each of the approved addresses is tried at most once, and a connection is the last call. -/
theorem dial_each_follows {port : Int} (hport : ports port) (approved : List Addr)
    (last : HostError) (happroved : ∀ address ∈ approved, p.permits (some address))
    (hc : c + approved.length ≤ rounds * p.maxAddresses) (h : Used p (k + 1) c k log) :
    (NetworkPolicy.dialEach port approved last).Follows (Egress p ports reach rounds)
      (Succeeds fun _ log' => Used p (k + 1) (c + approved.length) k log' ∧ Connected log')
      log := by
  induction approved generalizing last c log with
  | nil => trivial
  | cons address rest ih =>
      rw [List.length_cons] at hc ⊢
      have hpermits : p.permits (some address.unmap) := by
        rw [permits_unmap]
        exact happroved address List.mem_cons_self
      have hconnects : calls NetCall.isConnect log < rounds * p.maxAddresses :=
        h.connects.trans_lt (by omega)
      refine follows_bind (follows_perform
        ⟨h.clean, hpermits, unmap_unmap address, hport, hconnects⟩ fun answer => ?_)
      have hnext : Used p (k + 1) (c + 1) k (log ++ [⟨.connect address.unmap port, answer⟩]) :=
        h.append trivial le_rfl le_rfl le_rfl
      cases answer with
      | ok value =>
          exact ⟨{ hnext with connects := hnext.connects.trans (by omega) },
            _, _, List.getLast?_concat⟩
      | error err =>
          rw [show c + (rest.length + 1) = c + 1 + rest.length by omega]
          exact ih err (fun a ha => happroved a (List.mem_cons_of_mem _ ha)) (by omega) hnext

/-- A round: one resolution, and connections to what it approved until one is open. -/
theorem dial_follows (host : String) {port : Int} (hport : ports port) (hk : k < rounds)
    (h : Used p k (k * p.maxAddresses) k log) :
    (p.dial platform host port).Follows (Egress p ports reach rounds)
      (Succeeds fun _ log' => Used p (k + 1) ((k + 1) * p.maxAddresses) k log' ∧ Connected log')
      log := by
  unfold NetworkPolicy.dial
  refine follows_bind ((resolve_follows host hk h).weaken fun outcome log' hresolve => ?_)
  cases outcome with
  | error err => trivial
  | ok approved =>
      obtain ⟨hused, hlength, happroved⟩ := hresolve
      have hround : k * p.maxAddresses + approved.length ≤ (k + 1) * p.maxAddresses := by
        rw [Nat.succ_mul]
        exact Nat.add_le_add_left hlength _
      refine (dial_each_follows hport approved _ happroved
        (hround.trans (Nat.mul_le_mul_right _ hk)) hused).weaken fun outcome log'' hlog => ?_
      cases outcome with
      | error err => trivial
      | ok value => exact ⟨{ hlog.1 with connects := hlog.1.connects.trans hround }, hlog.2⟩

end Walk

end AcmeServer.Challenge
