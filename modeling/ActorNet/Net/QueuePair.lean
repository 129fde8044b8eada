import Mathlib.Algebra.GroupWithZero.Nat
import Mathlib.Data.Nat.Init

/-!
# Queue pairs

The part of `qp` that is shared by all devices: the queue of outgoing packets,
which `poll_tx` fills from the packet providers of the upper layers and hands to
the device, the queue of packets that other cpus send through this one, and the
statistics of both directions. A provider is the packets it has to give.
-/

namespace ActorNet.Net

/-- `qp_stats_good`, as far as `update_pkts_bunch` changes it. -/
structure QpStatsGood where
  packets : BitVec 64 := 0
  lastBunch : BitVec 64 := 0
  deriving DecidableEq, Repr

def QpStatsGood.updatePktsBunch (s : QpStatsGood) (count : BitVec 64) : QpStatsGood where
  packets := s.packets + count
  lastBunch := count

/-- `qp`, with `_stats.tx.good`. -/
structure Qp (P : Type) where
  pktProviders : List (List P)
  txPacketq : List P
  proxyPacketq : List P
  good : QpStatsGood
  deriving DecidableEq, Repr

namespace Qp

variable {P : Type}

/-- One pass of `poll_tx` over the providers, with `work`: each gives a packet, if
it has one, until the queue holds 128. -/
def pass : List (List P) → List P → List (List P) × List P × Nat
  | [], q => ([], q, 0)
  | [] :: providers, q =>
      let (providers, q, work) := pass providers q
      ([] :: providers, q, work)
  | (p :: ps) :: providers, q =>
      let q := q ++ [p]
      if q.length = 128 then (ps :: providers, q, 1)
      else
        let (providers, q, work) := pass providers q
        (ps :: providers, q, work + 1)

/-- The packets that the providers have. -/
def offered (providers : List (List P)) : Nat := (providers.map List.length).sum

/-- The loop of `poll_tx` that refills the queue. -/
def refillLoop : Nat → List (List P) → List P → List (List P) × List P
  | 0, providers, q => (providers, q)
  | fuel + 1, providers, q =>
      let (providers, q, work) := pass providers q
      if work ≠ 0 ∧ q.length < 128 then refillLoop fuel providers q else (providers, q)

/-- A pass that is followed by another one has taken a packet. -/
def refill (providers : List (List P)) (q : List P) : List (List P) × List P :=
  if q.length < 16 then refillLoop (offered providers + 1) providers q else (providers, q)

/-- `poll_tx`, for a device whose `send` leaves a part of the queue and returns a
count. The device itself is the state `σ`. -/
def pollTx {σ : Type} (send : List P → σ → BitVec 32 × List P × σ) (qp : Qp P) (device : σ) :
    Qp P × σ :=
  let (providers, q) := refill qp.pktProviders qp.txPacketq
  if q = [] then ({ qp with pktProviders := providers, txPacketq := q }, device)
  else
    let (count, q, device) := send q device
    ({ qp with
      pktProviders := providers
      txPacketq := q
      good := qp.good.updatePktsBunch (count.setWidth 64) }, device)

/-- `proxy_send`. -/
def proxySend (qp : Qp P) (p : P) : Qp P := { qp with proxyPacketq := qp.proxyPacketq ++ [p] }

/-- The provider that `configure_proxies` registers. -/
def proxyProvider (qp : Qp P) : Option P × Qp P :=
  match qp.proxyPacketq with
  | [] => (none, qp)
  | p :: ps => (some p, { qp with proxyPacketq := ps })

end Qp

end ActorNet.Net
