import ActorNet.Lib.Bytes
import ActorNet.Lib.OrdMap

/-!
# RPC feature negotiation

The client sends a map of the features it wants, the server answers with a map
of the features it granted, and each side reads its own decision off the map
it received. Both connections must come out with the same compressor and the
same decision on timeout propagation, since the layout of every later frame
depends on nothing else (`negotiation_agrees`).
-/

namespace ActorNet.Rpc

open Lib

/-- `sstring`. -/
abbrev Sstring := List Byte

/-! ## Compressors -/

/-- A compressor as the negotiation sees it: `compressor::name`. -/
structure Compressor where
  name : Sstring
  deriving DecidableEq, Repr

/-- A factory of one compression algorithm, such as `lz4_compressor::factory`. -/
structure Factory where
  name : Sstring
  deriving DecidableEq, Repr

def Factory.supported (f : Factory) : Sstring := f.name

def Factory.negotiate (f : Factory) (feature : Sstring) (_isServer : Bool) : Option Compressor :=
  if feature = f.supported then some ⟨f.name⟩ else none

/-- The separator of names, `","`. -/
def comma : Byte := 0x2c#8

/-- `multi_algo_compressor_factory`. -/
structure MultiAlgoCompressorFactory where
  factories : List Factory
  deriving DecidableEq, Repr

namespace MultiAlgoCompressorFactory

/-- The constructor joins the names of the factories once, into `_features`. -/
def supported (m : MultiAlgoCompressorFactory) : Sstring :=
  [comma].intercalate (m.factories.map Factory.supported)

/-- `negotiate`: the server prefers the order of the names it was sent, the
client the order of its own factories. -/
def negotiate (m : MultiAlgoCompressorFactory) (feature : Sstring) (isServer : Bool) :
    Option Compressor :=
  let names := feature.splitOn comma
  if isServer then
    names.findSome? fun n => m.factories.findSome? fun f => f.negotiate n isServer
  else
    m.factories.findSome? fun f => names.findSome? fun n => f.negotiate n isServer

end MultiAlgoCompressorFactory

/-! ## Features -/

/-- `protocol_features`; a peer may send any other 32-bit value. -/
inductive ProtocolFeature
  | compress
  | timeout
  | connectionId
  | streamParent
  | isolation
  | other (raw : BitVec 32)
  deriving DecidableEq, Repr

def ProtocolFeature.code : ProtocolFeature → Nat
  | compress => 0
  | timeout => 1
  | connectionId => 2
  | streamParent => 3
  | isolation => 4
  | other raw => raw.toNat

/-- `feature_map`, a `std::map` in iteration order. -/
abbrev FeatureMap := List (ProtocolFeature × Sstring)

def FeatureMap.lt (a b : ProtocolFeature) : Bool := a.code < b.code

/-- `map[feature] = data`. -/
def FeatureMap.assign (m : FeatureMap) (feature : ProtocolFeature) (data : Sstring) :
    FeatureMap :=
  OrdMap.assign FeatureMap.lt feature data m

/-- `map.emplace(feature, data)`. -/
def FeatureMap.emplace (m : FeatureMap) (feature : ProtocolFeature) (data : Sstring) :
    FeatureMap :=
  OrdMap.emplace FeatureMap.lt feature data m

/-! ## Connection ids -/

/-- `connection_id`. -/
abbrev ConnectionId := BitVec 64

/-- `connection_id::operator bool`: the shard is not the invalid one. -/
def ConnectionId.valid (id : ConnectionId) : Bool := id &&& 0xffff#64 != 0xffff#64

def serializeConnectionId (id : ConnectionId) : Sstring := toBytesLE 8 id.toNat

/-- `deserialize_connection_id` reads eight bytes from `c_str()`, which ends in
a NUL; `none` is a read past that. -/
def deserializeConnectionId (s : Sstring) : Option ConnectionId :=
  if s.length + 1 < 8 then none
  else some (BitVec.ofNat 64 (ofBytesLE ((s ++ [0#8]).take 8)))

/-! ## The two sides -/

/-- Why a negotiation ends the connection instead of completing. -/
inductive NegotiationError
  | unsupportedCompression (data : Sstring)
  | streamingNotConfigured
  | streamParentUnknown
  | isolationRejected
  | connectionIdOverread
  deriving DecidableEq, Repr

/-- The fields of `rpc::connection` that decide how frames are laid out. -/
structure Link where
  compressor : Option Compressor
  timeoutNegotiated : Bool
  deriving DecidableEq, Repr

def Link.initial : Link := ⟨none, false⟩

/-- `client_options`, as far as the negotiation reads them. -/
structure ClientOptions where
  compressorFactory : Option MultiAlgoCompressorFactory
  sendTimeoutData : Bool
  streamParent : ConnectionId
  isolationCookie : Sstring

/-- `server_options` and `resource_limits`, as far as the negotiation reads
them. `registerStream` is the lookup of the parent connection on its shard,
`isolateConnection` the user's hook; both may throw. The shard is the one that the
peer's id names, which nobody checks: that `submit_to` answers for it at all is
assumed here. -/
structure ServerOptions where
  compressorFactory : Option MultiAlgoCompressorFactory
  streamingDomain : Bool
  registerStream : ConnectionId → Bool
  isolateConnection : Sstring → Bool

/-- The features the client asks for, in `client::client`. -/
def ClientOptions.features (o : ClientOptions) : FeatureMap :=
  let features : FeatureMap := []
  let features := match o.compressorFactory with
    | some factory => features.assign .compress factory.supported
    | none => features
  let features := if o.sendTimeoutData then features.assign .timeout [] else features
  let features := if ConnectionId.valid o.streamParent then
      features.assign .streamParent (serializeConnectionId o.streamParent)
    else features
  if o.isolationCookie ≠ [] then features.assign .isolation o.isolationCookie else features

/-- `server::connection` during `negotiate`: its link, the map to return, and
the failure recorded in the future `f`. -/
structure ServerNegotiation where
  link : Link
  ret : FeatureMap
  isStream : Bool
  failed : Option NegotiationError

/-- One iteration of the loop of `server::connection::negotiate`. -/
def ServerNegotiation.entry (o : ServerOptions) (s : ServerNegotiation)
    (e : ProtocolFeature × Sstring) : Except NegotiationError ServerNegotiation :=
  match e.1 with
  | .compress =>
      match o.compressorFactory with
      | some factory =>
          match factory.negotiate e.2 true with
          | some compressor => .ok { s with
              link := { s.link with compressor := some compressor }
              ret := s.ret.assign .compress compressor.name }
          | none => .ok { s with link := { s.link with compressor := none } }
      | none => .ok s
  | .timeout => .ok { s with
      link := { s.link with timeoutNegotiated := true }
      ret := s.ret.assign .timeout [] }
  | .streamParent =>
      if o.streamingDomain then
        match deserializeConnectionId e.2 with
        | some parent => .ok { s with
            isStream := true
            failed := if o.registerStream parent then none else some .streamParentUnknown }
        | none => .error .connectionIdOverread
      else .ok { s with failed := some .streamingNotConfigured }
  | .isolation =>
      if o.isolateConnection e.2 then .ok { s with ret := s.ret.emplace e.1 e.2 }
      else .error .isolationRejected
  | _ => .ok s

/-- `server::connection::negotiate`: the link of the server and the map it
sends back. -/
def ServerOptions.negotiate (o : ServerOptions) (id : ConnectionId) (requested : FeatureMap) :
    Except NegotiationError (Link × FeatureMap) := do
  let s ← requested.foldlM (ServerNegotiation.entry o) ⟨Link.initial, [], false, none⟩
  let ret := if o.streamingDomain then
      s.ret.assign .connectionId (serializeConnectionId id)
    else s.ret
  match s.failed with
  | some e => .error e
  | none => .ok (s.link, ret)

/-- `client` during `negotiate`. -/
structure ClientNegotiation where
  link : Link
  id : ConnectionId

/-- One iteration of the loop of `client::negotiate`. -/
def ClientNegotiation.entry (o : ClientOptions) (c : ClientNegotiation)
    (e : ProtocolFeature × Sstring) : Except NegotiationError ClientNegotiation :=
  match e.1 with
  | .compress =>
      let compressor := match o.compressorFactory with
        | some factory => factory.negotiate e.2 false
        | none => c.link.compressor
      match compressor with
      | some compressor => .ok { c with link := { c.link with compressor := some compressor } }
      | none => .error (.unsupportedCompression e.2)
  | .timeout => .ok { c with link := { c.link with timeoutNegotiated := true } }
  | .connectionId =>
      match deserializeConnectionId e.2 with
      | some id => .ok { c with id := id }
      | none => .error .connectionIdOverread
  | _ => .ok c

/-- `client::negotiate`. -/
def ClientOptions.negotiate (o : ClientOptions) (provided : FeatureMap) :
    Except NegotiationError Link := do
  -- `invalid_connection_id`: id 0 on the invalid shard
  let c ← provided.foldlM (ClientNegotiation.entry o) ⟨Link.initial, 0xffff#64⟩
  .ok c.link

/-- The whole exchange: what the server and the client hold afterwards. -/
def negotiate (client : ClientOptions) (server : ServerOptions) (id : ConnectionId) :
    Except NegotiationError (Link × Link) := do
  let (serverLink, returned) ← server.negotiate id client.features
  let clientLink ← client.negotiate returned
  .ok (clientLink, serverLink)

/-! ## What a factory negotiates -/

namespace MultiAlgoCompressorFactory

/-- The names of the algorithms, in the order of the factories. -/
def names (m : MultiAlgoCompressorFactory) : List Sstring := m.factories.map Factory.name

/-- The algorithms a factory finds, as a search for one name. -/
theorem findSome_factories (m : MultiAlgoCompressorFactory) (n : Sstring) (isServer : Bool) :
    (m.factories.findSome? fun f => f.negotiate n isServer) =
      if n ∈ m.names then some ⟨n⟩ else none := by
  unfold names
  induction m.factories with
  | nil => rfl
  | cons f fs ih =>
      by_cases hit : n = f.name
      · simp [Factory.negotiate, Factory.supported, hit]
      · simp only [List.findSome?_cons, Factory.negotiate, Factory.supported, hit, if_false,
          List.map_cons, List.mem_cons, false_or]
        exact ih

/-- The server takes the first name it was sent that it supports. -/
theorem negotiate_server (m : MultiAlgoCompressorFactory) (feature : Sstring) :
    m.negotiate feature true =
      ((feature.splitOn comma).find? (· ∈ m.names)).map Compressor.mk := by
  simp only [negotiate, if_true, findSome_factories]
  induction feature.splitOn comma with
  | nil => rfl
  | cons n ns ih =>
      by_cases hit : n ∈ m.names
      · simp [hit]
      · simpa [hit] using ih

/-- A single name comes back to the client as that name, when it has it. -/
theorem negotiate_client (m : MultiAlgoCompressorFactory) {n : Sstring}
    (commaFree : comma ∉ n) :
    m.negotiate n false = if n ∈ m.names then some ⟨n⟩ else none := by
  have single : n.splitOn comma = [n] := List.splitOn_eq_singleton commaFree
  simp only [negotiate, single, Bool.false_eq_true, if_false, List.findSome?_singleton]
  exact findSome_factories m n false

/-- Splitting the joined names gives the names back, unless there are none. -/
theorem splitOn_supported (m : MultiAlgoCompressorFactory)
    (commaFree : ∀ n ∈ m.names, comma ∉ n) :
    m.supported.splitOn comma = if m.names = [] then [[]] else m.names := by
  have joined : m.supported = [comma].intercalate m.names := rfl
  split
  case isTrue empty => rw [joined, empty]; rfl
  case isFalse nonempty =>
      rw [joined]
      exact List.splitOn_intercalate comma commaFree nonempty

end MultiAlgoCompressorFactory

/-! ## What the server returns -/

/-- A computation that succeeds does so through a successful first part. -/
theorem ok_of_bind {ε α β : Type} {x : Except ε α} {f : α → Except ε β} {b : β}
    (ok : (x >>= f) = .ok b) : ∃ a, x = .ok a ∧ f a = .ok b := by
  cases x with
  | error e => cases ok
  | ok a => exact ⟨a, rfl, ok⟩

/-- The compressor the server picks for a client's request. -/
def ServerOptions.choice (o : ServerOptions) (client : ClientOptions) : Option Compressor :=
  match client.compressorFactory, o.compressorFactory with
  | some offered, some factory => factory.negotiate offered.supported true
  | _, _ => none

/-- The map a server returns, in iteration order, from the parts that made it. -/
def returnedFeatures (compressor : Option Compressor) (timeout : Bool)
    (id : Option ConnectionId) (cookie : Option Sstring) : FeatureMap :=
  (compressor.map fun c => (ProtocolFeature.compress, c.name)).toList ++
    (if timeout then [(.timeout, [])] else []) ++
    (id.map fun id => (.connectionId, serializeConnectionId id)).toList ++
    (cookie.map fun cookie => (.isolation, cookie)).toList

theorem emplace_isolation (compressor : Option Compressor) (timeout : Bool)
    (cookie : Sstring) :
    (returnedFeatures compressor timeout none none).emplace .isolation cookie =
      returnedFeatures compressor timeout none (some cookie) := by
  cases compressor <;> cases timeout <;> rfl

theorem assign_connectionId (compressor : Option Compressor) (timeout : Bool)
    (id : ConnectionId) (cookie : Option Sstring) :
    (returnedFeatures compressor timeout none cookie).assign .connectionId
        (serializeConnectionId id) =
      returnedFeatures compressor timeout (some id) cookie := by
  cases compressor <;> cases timeout <;> cases cookie <;> rfl

/-- The part of a client's request that decides the layout of frames. -/
def ClientOptions.layoutFeatures (o : ClientOptions) : FeatureMap :=
  (o.compressorFactory.map fun f => (ProtocolFeature.compress, f.supported)).toList ++
    if o.sendTimeoutData then [(.timeout, [])] else []

/-- The rest of a client's request. -/
def ClientOptions.otherFeatures (o : ClientOptions) : FeatureMap :=
  (if ConnectionId.valid o.streamParent then
    [(.streamParent, serializeConnectionId o.streamParent)] else []) ++
  if o.isolationCookie ≠ [] then [(.isolation, o.isolationCookie)] else []

/-- The requested features in iteration order. -/
theorem ClientOptions.features_eq (o : ClientOptions) :
    o.features = o.layoutFeatures ++ o.otherFeatures := by
  unfold features layoutFeatures otherFeatures
  cases o.compressorFactory <;> cases o.sendTimeoutData <;>
    cases ConnectionId.valid o.streamParent <;>
    by_cases cookie : o.isolationCookie = [] <;> simp [cookie] <;> rfl

/-- The layout requests settle the server's link and its first two answers. -/
theorem ServerNegotiation.entry_layout (o : ServerOptions) (client : ClientOptions) :
    client.layoutFeatures.foldlM (ServerNegotiation.entry o) ⟨Link.initial, [], false, none⟩ =
      .ok ⟨⟨o.choice client, client.sendTimeoutData⟩,
        returnedFeatures (o.choice client) client.sendTimeoutData none none, false, none⟩ := by
  unfold ServerOptions.choice ClientOptions.layoutFeatures
  cases client.compressorFactory with
  | none => cases client.sendTimeoutData <;> rfl
  | some offered =>
      cases factory : o.compressorFactory with
      | none =>
          cases client.sendTimeoutData <;>
            simp [entry, factory, Link.initial, returnedFeatures, FeatureMap.assign,
              OrdMap.assign, bind, pure, Except.bind, Except.pure]
      | some factory' =>
          cases picked : factory'.negotiate offered.supported true <;>
            cases client.sendTimeoutData <;>
            simp [entry, factory, picked, Link.initial, returnedFeatures, FeatureMap.assign,
              OrdMap.assign, FeatureMap.lt, ProtocolFeature.code, bind, pure, Except.bind,
              Except.pure]

/-- The request for a parent stream leaves the link and the answers alone. -/
theorem ServerNegotiation.entry_streamParent {o : ServerOptions} {s s' : ServerNegotiation}
    {data : Sstring} (step : ServerNegotiation.entry o s (.streamParent, data) = .ok s') :
    s'.link = s.link ∧ s'.ret = s.ret := by
  simp only [entry] at step
  split at step
  · split at step
    · cases step; exact ⟨rfl, rfl⟩
    · cases step
  · cases step; exact ⟨rfl, rfl⟩

/-- A request for isolation is answered with the same cookie. -/
theorem ServerNegotiation.entry_isolation {o : ServerOptions} {s s' : ServerNegotiation}
    {cookie : Sstring} (step : ServerNegotiation.entry o s (.isolation, cookie) = .ok s') :
    s'.link = s.link ∧ s'.ret = s.ret.emplace .isolation cookie := by
  simp only [entry] at step
  split at step
  · cases step; exact ⟨rfl, rfl⟩
  · cases step

/-- The other requests leave the link alone and add at most the cookie. -/
theorem ServerNegotiation.entry_others {o : ServerOptions} {client : ClientOptions}
    {s s' : ServerNegotiation}
    (run : client.otherFeatures.foldlM (ServerNegotiation.entry o) s = .ok s') :
    s'.link = s.link ∧
      (s'.ret = s.ret ∨ s'.ret = s.ret.emplace .isolation client.isolationCookie) := by
  rw [ClientOptions.otherFeatures, List.foldlM_append] at run
  obtain ⟨middle, parent, isolation⟩ := ok_of_bind run
  have parentKeeps : middle.link = s.link ∧ middle.ret = s.ret := by
    split at parent
    · obtain ⟨_, step, done⟩ := ok_of_bind parent
      cases done
      exact entry_streamParent step
    · cases parent; exact ⟨rfl, rfl⟩
  split at isolation
  · obtain ⟨_, step, done⟩ := ok_of_bind isolation
    cases done
    obtain ⟨link, ret⟩ := entry_isolation step
    exact ⟨link.trans parentKeeps.1, .inr (parentKeeps.2 ▸ ret)⟩
  · cases isolation; exact ⟨parentKeeps.1, .inl parentKeeps.2⟩

/-- What a completed negotiation leaves the server with, and what it returns. -/
theorem ServerOptions.negotiate_features {o : ServerOptions} {client : ClientOptions}
    {id : ConnectionId} {link : Link} {ret : FeatureMap}
    (completes : o.negotiate id client.features = .ok (link, ret)) :
    link = ⟨o.choice client, client.sendTimeoutData⟩ ∧
      ∃ id' cookie, ret =
        returnedFeatures (o.choice client) client.sendTimeoutData id' cookie := by
  obtain ⟨s, run, rest⟩ := ok_of_bind completes
  rw [client.features_eq, List.foldlM_append, ServerNegotiation.entry_layout] at run
  obtain ⟨keepsLink, rets⟩ := ServerNegotiation.entry_others run
  have finished : s.link = link ∧ (if o.streamingDomain then
      s.ret.assign .connectionId (serializeConnectionId id) else s.ret) = ret := by
    cases failed : s.failed with
    | some e => simp only [failed] at rest; cases rest
    | none =>
        simp only [failed] at rest
        exact Prod.mk.inj (Except.ok.inj rest)
  refine ⟨finished.1 ▸ keepsLink, ?_⟩
  obtain ⟨cookie, added⟩ : ∃ cookie, s.ret =
      returnedFeatures (o.choice client) client.sendTimeoutData none cookie := by
    rcases rets with plain | added
    · exact ⟨none, plain⟩
    · exact ⟨some client.isolationCookie, added.trans (emplace_isolation _ _ _)⟩
  rw [← finished.2, added]
  split
  · exact ⟨some id, cookie, assign_connectionId _ _ _ _⟩
  · exact ⟨none, cookie, rfl⟩

/-! ## What the client reads off the returned map -/

@[simp] theorem deserializeConnectionId_serialize (id : ConnectionId) :
    deserializeConnectionId (serializeConnectionId id) = some id := by
  have length : (serializeConnectionId id).length = 8 := length_toBytesLE 8 id.toNat
  have value : ofBytesLE (serializeConnectionId id) = id.toNat :=
    ofBytesLE_toBytesLE_of_lt id.isLt
  simp [deserializeConnectionId, length, value]

/-- The client ends with what the server returned, when its own factory finds
the compressor of that name. -/
theorem ClientOptions.negotiate_returned {o : ClientOptions} {compressor : Option Compressor}
    (found : ∀ c, compressor = some c →
      ∃ factory, o.compressorFactory = some factory ∧ factory.negotiate c.name false = some c)
    (timeout : Bool) (id : Option ConnectionId) (cookie : Option Sstring) :
    o.negotiate (returnedFeatures compressor timeout id cookie) = .ok ⟨compressor, timeout⟩ := by
  cases compressor with
  | none => cases timeout <;> cases id <;> cases cookie <;>
      simp [negotiate, returnedFeatures, ClientNegotiation.entry, Link.initial, bind, pure,
        Except.bind, Except.pure]
  | some c =>
      obtain ⟨factory, configured, negotiated⟩ := found c rfl
      cases timeout <;> cases id <;> cases cookie <;>
        simp [negotiate, returnedFeatures, ClientNegotiation.entry, Link.initial, configured,
          negotiated, bind, pure, Except.bind, Except.pure]

/-! ## Agreement -/

/-- The first name in the client's order that the server's factory supports. -/
def firstCommon (client : ClientOptions) (server : ServerOptions) : Option Compressor :=
  match client.compressorFactory, server.compressorFactory with
  | some offered, some factory =>
      (offered.names.find? (· ∈ factory.names)).map Compressor.mk
  | _, _ => none

/-- The names of a configuration's factory. -/
def ClientOptions.names (o : ClientOptions) : List Sstring :=
  (o.compressorFactory.map MultiAlgoCompressorFactory.names).getD []

/-- A client that brings a factory of no algorithms asks for the empty name. -/
def asksEmptyName (client : ClientOptions) (server : ServerOptions) : Prop :=
  ∃ offered factory, client.compressorFactory = some offered ∧
    server.compressorFactory = some factory ∧ offered.names = [] ∧ [] ∈ factory.names

/-- The server's choice is the first common name, apart from the empty one. -/
theorem ServerOptions.choice_eq {client : ClientOptions} {server : ServerOptions}
    (commaFree : ∀ n ∈ client.names, comma ∉ n) (named : ¬ asksEmptyName client server) :
    server.choice client = firstCommon client server := by
  unfold choice firstCommon
  cases clientSide : client.compressorFactory with
  | none => rfl
  | some offered =>
      cases serverSide : server.compressorFactory with
      | none => rfl
      | some factory =>
          have free : ∀ n ∈ offered.names, comma ∉ n := by
            simpa [ClientOptions.names, clientSide] using commaFree
          simp only [factory.negotiate_server, offered.splitOn_supported free]
          split
          · rename_i empty
            have absent : [] ∉ factory.names := fun present =>
              named ⟨offered, factory, clientSide, serverSide, empty, present⟩
            simp [empty, absent]
          · rfl

/-- The client's own factory finds the first common name again. -/
theorem firstCommon_found {client : ClientOptions} {server : ServerOptions}
    (commaFree : ∀ n ∈ client.names, comma ∉ n) {c : Compressor}
    (common : firstCommon client server = some c) :
    ∃ factory, client.compressorFactory = some factory ∧
      factory.negotiate c.name false = some c := by
  unfold firstCommon at common
  split at common
  · rename_i offered factory clientSide _
    obtain ⟨n, picked, rfl⟩ := Option.map_eq_some_iff.mp common
    have member : n ∈ offered.names := List.mem_of_find?_eq_some picked
    have free : comma ∉ n := commaFree n (by simpa [ClientOptions.names, clientSide])
    exact ⟨offered, clientSide, by simp [offered.negotiate_client free, member]⟩
  · cases common

/-- Whenever the server's negotiation completes, so does the client's, and both
links hold the first common compressor and the same decision on timeouts. -/
theorem negotiation_agrees {client : ClientOptions} {server : ServerOptions}
    {id : ConnectionId} {serverLink : Link} {returned : FeatureMap}
    (commaFree : ∀ n ∈ client.names, comma ∉ n) (named : ¬ asksEmptyName client server)
    (completes : server.negotiate id client.features = .ok (serverLink, returned)) :
    negotiate client server id =
        .ok (⟨firstCommon client server, client.sendTimeoutData⟩,
          ⟨firstCommon client server, client.sendTimeoutData⟩) := by
  obtain ⟨link, id', cookie, ret⟩ := ServerOptions.negotiate_features completes
  rw [ServerOptions.choice_eq commaFree named] at link ret
  have clientSide : client.negotiate returned =
      .ok ⟨firstCommon client server, client.sendTimeoutData⟩ :=
    ret ▸ ClientOptions.negotiate_returned
      (fun _ common => firstCommon_found commaFree common) client.sendTimeoutData id' cookie
  simp only [negotiate, completes, link, clientSide, bind, Except.bind]

/-- A client that offers LZ4 before ZSTD meets a server that knows both. -/
theorem negotiation_agrees_lz4 :
    negotiate ⟨some ⟨[⟨[0x4c, 0x5a, 0x34]⟩, ⟨[0x5a, 0x53, 0x54, 0x44]⟩]⟩, true, 0xffff#64, []⟩
        ⟨some ⟨[⟨[0x5a, 0x53, 0x54, 0x44]⟩, ⟨[0x4c, 0x5a, 0x34]⟩]⟩, true, fun _ => true,
          fun _ => true⟩ 7#64 =
      .ok (⟨some ⟨[0x4c, 0x5a, 0x34]⟩, true⟩, ⟨some ⟨[0x4c, 0x5a, 0x34]⟩, true⟩) :=
  negotiation_agrees (by decide)
    (by
      rintro ⟨offered, factory, clientSide, _, empty, _⟩
      cases clientSide
      exact absurd empty (by decide))
    rfl

/-- A factory of no algorithms joins to the empty name, which a server may
support: it then compresses, and the client gives up. -/
theorem negotiation_emptyName :
    ∃ (client : ClientOptions) (server : ServerOptions) (id : ConnectionId),
      firstCommon client server = none ∧
        ((server.negotiate id client.features).toOption.map Prod.fst) = some ⟨some ⟨[]⟩, false⟩ ∧
        negotiate client server id = .error (.unsupportedCompression []) :=
  ⟨⟨some ⟨[]⟩, false, 0xffff#64, []⟩,
    ⟨some ⟨[⟨[]⟩]⟩, false, fun _ => true, fun _ => true⟩, 7#64, rfl, rfl, rfl⟩

end ActorNet.Rpc
