import AcmeServer.Memstore.State

/-!
# The nonce manager

`nonce.Manager` of `nonce.go`: a map of the outstanding nonces with their expiry times, and a queue
that remembers in which order they were issued. A consumed nonce leaves the map but stays in the
queue; entries before `head` are done with.

The clock reading of a call is an argument. `rand` is what the random source will give from now on,
one entry for each read. A source that has nothing left is one whose next read has not returned, and
then `Issue` is still `waiting` for it.
-/

namespace AcmeServer.Nonce

open Memstore (ContextError)

/-- How long an issued nonce stays valid by default, in nanoseconds: one hour. -/
def defaultTTL : Duration := 3600000000000

/-- How many nonces are outstanding at most by default. -/
def defaultCapacity : Nat := 100000

/-- Configures a manager. Zero values select the defaults. -/
structure Options where
  ttl : Duration := 0
  capacity : Int := 0

/-- Records a nonce in issue order for expiry and eviction. -/
structure Entry where
  value : String
  expires : Time
deriving DecidableEq, Repr

/-- Issues single-use nonces for one process. A read of the random source that fails is `none`. -/
structure Manager where
  ttl : Duration
  capacity : Nat
  rand : List (Option Bytes)
  live : Finmap fun _ : String => Time
  queue : List Entry
  head : Nat

/-- What a call returns. -/
inductive Answer where
  | issued (value : String)
  | consumed (valid : Bool)
  | contextEnded (cause : ContextError)
  | randomFailed
  | waiting
deriving DecidableEq, Repr

/-- Returns a manager with the given options. -/
def new (opts : Options) (rand : List (Option Bytes)) : Manager where
  ttl := if opts.ttl ≤ 0 then defaultTTL else opts.ttl
  capacity := if opts.capacity ≤ 0 then defaultCapacity else opts.capacity.toNat
  rand := rand
  live := ∅
  queue := []
  head := 0

namespace Manager

/-- Returns the number of outstanding nonces. -/
def len (m : Manager) : Nat := m.live.keys.card

/-- Whether the queue entry is the one of an outstanding nonce. -/
def keeps (m : Manager) (e : Entry) : Bool := m.live.lookup e.value = some e.expires

/-- The entries at or after the head. -/
def pending (m : Manager) : List Entry := m.queue.drop m.head

/-- Goes past an entry of the queue and drops its nonce. -/
def skip (m : Manager) (e : Entry) : Manager :=
  { m with live := m.live.erase e.value, head := m.head + 1 }

/-- The loop of `compact`: moves the entries to keep to the front of the queue. `i` is the entry
that is looked at, `n` the place for the next one to keep. -/
def compactLoop (m : Manager) : Nat → Nat → Nat → List Entry → List Entry × Nat
  | 0, _, n, queue => (queue, n)
  | steps + 1, i, n, queue =>
      match queue[i]? with
      | some e =>
          if m.keeps e then m.compactLoop steps (i + 1) (n + 1) (queue.set n e)
          else m.compactLoop steps (i + 1) n queue
      | none => (queue, n)

/-- Compacts consumed entries once either the prefix or retained tombstones reach the bound. -/
def compact (m : Manager) : Manager :=
  if m.head < m.queue.length / 2 ∧ (m.queue.length : Int) - m.len < m.capacity then m
  else
    let (queue, n) := m.compactLoop (m.queue.length - m.head) m.head 0 m.queue
    { m with queue := queue.take n, head := 0 }

/-- The loop of `purge` over the entries from the head on. -/
def purgeLoop (now : Time) : List Entry → Manager → Manager
  | [], m => m
  | e :: rest, m =>
      match m.live.lookup e.value with
      | some expires => if now < expires then m else purgeLoop now rest (m.skip e)
      | none => purgeLoop now rest (m.skip e)

/-- Drops expired nonces from the front of the queue and skips consumed ones. -/
def purge (m : Manager) (now : Time) : Manager := (purgeLoop now m.pending m).compact

/-- The loop of `evictOldest` over the entries from the head on. -/
def evictLoop : List Entry → Manager → Manager
  | [], m => m
  | e :: rest, m =>
      if m.live.lookup e.value ≠ none then m.skip e
      else evictLoop rest { m with head := m.head + 1 }

/-- Drops the oldest outstanding nonce. -/
def evictOldest (m : Manager) : Manager := (evictLoop m.pending m).compact

/-- Drops nonces until there is room for one more. Every round goes past an entry, so there are at
most as many rounds as entries. -/
def evictSurplus : Nat → Manager → Manager
  | 0, m => m
  | rounds + 1, m =>
      if m.capacity ≤ m.len ∧ m.head < m.queue.length then evictSurplus rounds m.evictOldest else m

/-- Drops expired and surplus nonces. -/
def makeRoom (m : Manager) (now : Time) : Manager :=
  let m := m.purge now
  evictSurplus m.pending.length m

variable (encode : Bytes → String)

/-- Reads the random source until it gives a value that is not outstanding, and adds it. -/
def issueLoop (now : Time) : List (Option Bytes) → Manager → Answer × Manager
  | [], m => (.waiting, { m with rand := [] })
  | none :: rest, m => (.randomFailed, { m with rand := rest })
  | some buf :: rest, m =>
      let value := encode buf
      if m.live.lookup value ≠ none then issueLoop now rest m
      else
        let expires := now + m.ttl
        (.issued value, { m with
          rand := rest
          live := m.live.insert value expires
          queue := m.queue ++ [⟨value, expires⟩] })

/-- Returns a fresh nonce and drops expired or surplus nonces. -/
def issue (m : Manager) (ctx : Option ContextError) (now : Time) : Answer × Manager :=
  match ctx with
  | some cause => (.contextEnded cause, m)
  | none =>
      let m := m.makeRoom now
      issueLoop encode now m.rand m

/-- Invalidates the nonce and reports whether it was valid. -/
def consume (m : Manager) (ctx : Option ContextError) (now : Time) (value : String) :
    Answer × Manager :=
  match ctx with
  | some cause => (.contextEnded cause, m)
  | none =>
      match m.live.lookup value with
      | none => (.consumed false, m)
      | some expires => (.consumed (decide (now < expires)), { m with live := m.live.erase value })

end Manager

/-! ## Runs -/

/-- A call of the manager with the state of its context and its clock reading. -/
inductive Call where
  | issue (ctx : Option ContextError) (now : Time)
  | consume (ctx : Option ContextError) (now : Time) (value : String)
deriving DecidableEq, Repr

/-- The clock reading of a call. -/
def Call.now : Call → Time
  | .issue _ now => now
  | .consume _ now _ => now

namespace Manager

variable (encode : Bytes → String)

/-- Executes a call. -/
def step (m : Manager) : Call → Answer × Manager
  | .issue ctx now => m.issue encode ctx now
  | .consume ctx now value => m.consume ctx now value

/-- Executes calls one after the other. -/
def run (m : Manager) : List Call → List Answer × Manager
  | [] => ([], m)
  | call :: rest =>
      let (answer, m) := m.step encode call
      let (answers, m) := run m rest
      (answer :: answers, m)

/-- The manager after some calls. -/
def after (m : Manager) (calls : List Call) : Manager := (m.run encode calls).2

end Manager

end AcmeServer.Nonce
