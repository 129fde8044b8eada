import ActorNet.Rpc.Negotiation

/-!
# The arguments of a call, and other versions of the other side

The arguments of a call, or the results of a handler, are written one after the
other, by the serializer of the user or, for the end of a stream, as the number of
its connection. Nothing is written about their types or their number: the receiver
reads what its own signature says.

A parameter that the receiver calls `optional` is read if there is anything left to
read. So a signature can grow by optional parameters at its end, and each side may be
the older one: the sender's further arguments stay unread, and the receiver's further
parameters are empty.
-/

namespace ActorNet.Rpc

open Lib

variable {T : Type} {Val : T → Type}

/-! ## The model -/

/-- What the user's `write` and `read` do for the types `T`; the values are `Val`. What
`read` leaves is the rest of the stream, and `none` is an exception. -/
structure Serializer (T : Type) (Val : T → Type) where
  write : (t : T) → Val t → List Byte
  read : (t : T) → List Byte → Option (Val t × List Byte)
  reads : ∀ t v rest, read t (write t v ++ rest) = some (v, rest)

/-- The type of an argument: one the serializer knows, `sink` or `source`, or `tuple`. -/
inductive ArgType (T : Type) where
  | plain (t : T)
  | stream
  | tuple (ts : List (ArgType T))

/-- A parameter of a signature. -/
inductive Param (T : Type) where
  | one (t : ArgType T)
  | optional (t : T)

inductive Arg {T : Type} (Val : T → Type) where
  | plain (t : T) (v : Val t)
  | stream (id : BitVec 64)
  | tuple (as : List (Arg Val))

/-- `remove_optional`. -/
def Param.removeOptional : Param T → ArgType T
  | .one t => t
  | .optional t => .plain t

/-- `get_connection_id`; `none` if the input ends before. -/
def getConnectionId (s : List Byte) : Option (BitVec 64 × List Byte) :=
  if s.length < 8 then none else some (BitVec.ofNat 64 (ofBytesLE (s.take 8)), s.drop 8)

namespace Serializer

mutual

/-- `marshall_one`. -/
def marshallOne (S : Serializer T Val) : Arg Val → List Byte
  | .plain t v => S.write t v
  | .stream id => serializeConnectionId id
  | .tuple as => S.doMarshall as

def doMarshall (S : Serializer T Val) : List (Arg Val) → List Byte
  | [] => []
  | a :: as => S.marshallOne a ++ S.doMarshall as

end

mutual

/-- `unmarshal_one`, for what is always sent. `streams` are the numbers `get_stream`
finds. -/
def unmarshalOne (S : Serializer T Val) (streams : BitVec 64 → Bool) :
    ArgType T → List Byte → Option (Arg Val × List Byte)
  | .plain t, s => (S.read t s).map fun (v, s) => (.plain t v, s)
  | .stream, s => do
      let (id, s) ← getConnectionId s
      if streams id then some (.stream id, s) else none
  | .tuple ts, s => (S.unmarshalAll streams ts s).map fun (as, s) => (.tuple as, s)

def unmarshalAll (S : Serializer T Val) (streams : BitVec 64 → Bool) :
    List (ArgType T) → List Byte → Option (List (Arg Val) × List Byte)
  | [], s => some ([], s)
  | t :: ts, s => do
      let (a, s) ← S.unmarshalOne streams t s
      let (as, s) ← S.unmarshalAll streams ts s
      some (a :: as, s)

end

/-- `unmarshal_one` for a parameter. An optional one is read if there is input. -/
def unmarshalParam (S : Serializer T Val) (streams : BitVec 64 → Bool) :
    Param T → List Byte → Option (Option (Arg Val) × List Byte)
  | .one t, s => (S.unmarshalOne streams t s).map fun (a, s) => (some a, s)
  | .optional t, s =>
      if s.length ≠ 0 then (S.read t s).map fun (v, s) => (some (.plain t v), s)
      else some (none, s)

/-- `do_unmarshall`; the second part is what stays unread. -/
def doUnmarshall (S : Serializer T Val) (streams : BitVec 64 → Bool) :
    List (Param T) → List Byte → Option (List (Option (Arg Val)) × List Byte)
  | [], s => some ([], s)
  | p :: ps, s => do
      let (a, s) ← S.unmarshalParam streams p s
      let (as, s) ← S.doUnmarshall streams ps s
      some (a :: as, s)

end Serializer

/-! ## What fits a signature -/

mutual

/-- The argument is of the type, and its streams are open. -/
def Arg.Is (streams : BitVec 64 → Bool) : Arg Val → ArgType T → Prop
  | .plain t _, .plain t' => t = t'
  | .stream id, .stream => streams id = true
  | .tuple as, .tuple ts => Arg.AllAre streams as ts
  | _, _ => False

def Arg.AllAre (streams : BitVec 64 → Bool) : List (Arg Val) → List (ArgType T) → Prop
  | [], [] => True
  | a :: as, t :: ts => a.Is streams t ∧ Arg.AllAre streams as ts
  | _, _ => False

end

/-- The arguments serve the parameters: each that is there is of its type, and the
parameters for which there is none are optional. -/
def Serve (streams : BitVec 64 → Bool) : List (Arg Val) → List (Param T) → Prop
  | _, [] => True
  | a :: as, p :: ps => a.Is streams p.removeOptional ∧ Serve streams as ps
  | [], .optional _ :: ps => Serve streams ([] : List (Arg Val)) ps
  | [], .one _ :: _ => False

/-- What the receiver is to get. An argument that is the last to be written anything for
is found by an optional parameter; one with nothing written from it on is not. -/
def received (S : Serializer T Val) : List (Param T) → List (Arg Val) → List (Option (Arg Val))
  | [], _ => []
  | .one _ :: ps, a :: as => some a :: received S ps as
  | .optional _ :: ps, a :: as =>
      (if S.doMarshall (a :: as) = [] then none else some a) :: received S ps as
  | _ :: ps, [] => none :: received S ps []

/-! ## Reading what was written -/

theorem getConnectionId_serialize (id : BitVec 64) (rest : List Byte) :
    getConnectionId (serializeConnectionId id ++ rest) = some (id, rest) := by
  have length : (serializeConnectionId id).length = 8 := length_toBytesLE 8 id.toNat
  unfold getConnectionId
  rw [if_neg (by rw [List.length_append, length]; omega), ← length, List.take_left, List.drop_left,
    serializeConnectionId, ofBytesLE_toBytesLE_of_lt (by have := id.isLt; omega),
    BitVec.ofNat_toNat, BitVec.setWidth_eq]

/-- What an optional parameter reads was written by the serializer. -/
theorem Arg.plain_of_is {streams : BitVec 64 → Bool} {a : Arg Val} {t : T}
    (fits : a.Is streams (.plain t)) : ∃ v, a = .plain t v := by
  cases a with
  | plain t' v =>
      have same : t' = t := by simpa only [Arg.Is] using fits
      subst same
      exact ⟨v, rfl⟩
  | stream id => simp [Arg.Is] at fits
  | tuple as => simp [Arg.Is] at fits

namespace Serializer

variable (S : Serializer T Val) (streams : BitVec 64 → Bool)

mutual

theorem unmarshalOne_marshallOne : ∀ (a : Arg Val) (t : ArgType T) (rest : List Byte),
    a.Is streams t → S.unmarshalOne streams t (S.marshallOne a ++ rest) = some (a, rest)
  | .plain t v, .plain t', rest, fits => by
      have same : t = t' := by simpa only [Arg.Is] using fits
      subst same
      rw [marshallOne, unmarshalOne, S.reads, Option.map_some]
  | .stream id, .stream, rest, fits => by
      have opened : streams id = true := by simpa only [Arg.Is] using fits
      simp [marshallOne, unmarshalOne, getConnectionId_serialize, opened]
  | .tuple as, .tuple ts, rest, fits => by
      have all : Arg.AllAre streams as ts := by simpa only [Arg.Is] using fits
      rw [marshallOne, unmarshalOne, unmarshalAll_doMarshall as ts rest all, Option.map_some]
  | .plain _ _, .stream, _, fits | .plain _ _, .tuple _, _, fits | .stream _, .plain _, _, fits
  | .stream _, .tuple _, _, fits | .tuple _, .plain _, _, fits | .tuple _, .stream, _, fits => by
      simp [Arg.Is] at fits

theorem unmarshalAll_doMarshall : ∀ (as : List (Arg Val)) (ts : List (ArgType T))
    (rest : List Byte), Arg.AllAre streams as ts →
      S.unmarshalAll streams ts (S.doMarshall as ++ rest) = some (as, rest)
  | [], [], rest, _ => by simp [doMarshall, unmarshalAll]
  | a :: as, t :: ts, rest, fits => by
      have both : a.Is streams t ∧ Arg.AllAre streams as ts := by simpa only [Arg.AllAre] using fits
      rw [doMarshall, List.append_assoc, unmarshalAll,
        unmarshalOne_marshallOne a t (S.doMarshall as ++ rest) both.1]
      simp [unmarshalAll_doMarshall as ts rest both.2]
  | [], _ :: _, _, fits | _ :: _, [], _, fits => by simp [Arg.AllAre] at fits

end

variable {streams}

/-- What is read of the arguments that serve a signature, and what stays unread. -/
theorem doUnmarshall_doMarshall {ps : List (Param T)} (as : List (Arg Val))
    (serve : Serve streams as ps) :
    S.doUnmarshall streams ps (S.doMarshall as) =
      some (received S ps as, S.doMarshall (as.drop ps.length)) := by
  induction ps generalizing as with
  | nil => simp [doUnmarshall, received]
  | cons p ps ih =>
      cases as with
      | nil =>
          cases p with
          | one t => simp [Serve] at serve
          | optional t =>
              have rest := ih [] (by simpa only [Serve] using serve)
              simp only [doMarshall, List.drop_nil] at rest
              simp [doUnmarshall, unmarshalParam, doMarshall, received, rest]
      | cons a as =>
          obtain ⟨fits, serve⟩ : a.Is streams p.removeOptional ∧ Serve streams as ps := by
            simpa only [Serve] using serve
          have rest := ih as serve
          cases p with
          | one t =>
              have read := S.unmarshalOne_marshallOne streams a t (S.doMarshall as) fits
              simp [doUnmarshall, unmarshalParam, doMarshall, received, read, rest]
          | optional t =>
              obtain ⟨v, rfl⟩ := Arg.plain_of_is fits
              by_cases empty : S.doMarshall (.plain t v :: as) = []
              · -- nothing is written from here on, so nothing is read
                have none := empty
                rw [doMarshall, List.append_eq_nil_iff] at none
                rw [none.2] at rest
                simp [doUnmarshall, unmarshalParam, received, empty, rest]
              · have more : (S.doMarshall (.plain t v :: as)).length ≠ 0 :=
                  fun none => empty (List.length_eq_zero_iff.mp none)
                have read : S.read t (S.doMarshall (.plain t v :: as)) =
                    some (v, S.doMarshall as) := by
                  rw [doMarshall, marshallOne, S.reads]
                simp [doUnmarshall, unmarshalParam, received, empty, read, rest]

/-- When every argument leaves something, each that has a parameter is received, and
the parameters that are left are empty. -/
theorem received_eq {ps : List (Param T)} (as : List (Arg Val))
    (visible : ∀ a ∈ as, S.marshallOne a ≠ []) :
    received S ps as =
      (as.take ps.length).map some ++ List.replicate (ps.length - as.length) none := by
  induction ps generalizing as with
  | nil => simp [received]
  | cons p ps ih =>
      cases as with
      | nil =>
          have rest := ih [] (by simp)
          simp only [List.take_nil, List.map_nil, List.nil_append, List.length_nil, Nat.sub_zero]
            at rest
          cases p <;> simp [received, rest, List.replicate_succ]
      | cons a as =>
          obtain ⟨first, others⟩ := List.forall_mem_cons.mp visible
          have rest := ih as others
          cases p <;> simp [received, rest, doMarshall, first]

end Serializer

/-! ## Two versions of a signature -/

theorem serve_of_versions {streams : BitVec 64 → Bool} (cs : List (Param T)) {ss : List (Param T)}
    {as : List (Arg Val)} (typed : Arg.AllAre streams as (cs.map Param.removeOptional))
    (shared : ∀ x ∈ cs.zip ss, x.1.removeOptional = x.2.removeOptional)
    (newer : ∀ p ∈ ss.drop cs.length, ∃ t, p = .optional t) : Serve streams as ss := by
  induction ss generalizing cs as with
  | nil => cases as <;> simp [Serve]
  | cons s ss ih =>
      cases cs with
      | nil =>
          obtain ⟨t, rfl⟩ := newer s (by simp)
          cases as with
          | nil =>
              simp only [Serve]
              exact ih [] (by simp [Arg.AllAre]) (by simp) fun p mem =>
                newer p (List.mem_cons_of_mem _ mem)
          | cons a as => simp [Arg.AllAre] at typed
      | cons c cs =>
          cases as with
          | nil => simp [Arg.AllAre] at typed
          | cons a as =>
              obtain ⟨first, others⟩ : a.Is streams c.removeOptional ∧
                  Arg.AllAre streams as (cs.map Param.removeOptional) := by
                simpa only [List.map_cons, Arg.AllAre] using typed
              have same : c.removeOptional = s.removeOptional := shared (c, s) (by simp)
              simp only [Serve]
              exact ⟨same ▸ first, ih cs others (fun x mem => shared x (List.mem_cons_of_mem _ mem))
                (by simpa using newer)⟩

/-- A sender whose signature is `cs` and a receiver whose signature is `ss` understand
each other if they agree on the parameters both have and those that only the receiver
has are optional: the receiver reads the arguments it has a parameter for, finds the
other parameters empty, and leaves the arguments it does not know unread. An optional
parameter alone cannot see an argument if nothing is written from it on. -/
theorem versions_understand (S : Serializer T Val) (streams : BitVec 64 → Bool)
    (cs ss : List (Param T)) (as : List (Arg Val))
    (typed : Arg.AllAre streams as (cs.map Param.removeOptional))
    (shared : ∀ x ∈ cs.zip ss, x.1.removeOptional = x.2.removeOptional)
    (newer : ∀ p ∈ ss.drop cs.length, ∃ t, p = .optional t) :
    S.doUnmarshall streams ss (S.doMarshall as) =
        some (received S ss as, S.doMarshall (as.drop ss.length)) ∧
      ((∀ a ∈ as, S.marshallOne a ≠ []) → received S ss as =
        (as.take ss.length).map some ++ List.replicate (ss.length - as.length) none) :=
  ⟨S.doUnmarshall_doMarshall as (serve_of_versions cs typed shared newer), S.received_eq as⟩

/-- A serializer of bytes, and of a type with one value, for which nothing is written. -/
def bytesAndNothing : Serializer Bool (fun t => if t then Byte else Unit) where
  write
    | true, b => [b]
    | false, _ => []
  read
    | true, b :: rest => some (b, rest)
    | true, [] => none
    | false, rest => some ((), rest)
  reads t v rest := by cases t <;> rfl

/-- An older sender leaves the second parameter empty. -/
theorem versions_understand_older :
    bytesAndNothing.doUnmarshall (fun _ => false) [.one (.plain true), .optional true]
        (bytesAndNothing.doMarshall [.plain true 7#8]) =
      some ([some (.plain true 7#8), none], []) :=
  (versions_understand bytesAndNothing (fun _ => false) [.one (.plain true)]
    [.one (.plain true), .optional true] [.plain true 7#8] (by simp [Arg.AllAre, Arg.Is,
      Param.removeOptional]) (by simp [Param.removeOptional]) (by simp)).1

/-- An argument for which nothing is written is not seen by an optional parameter, though
sender and receiver have the same signature. -/
example : bytesAndNothing.doUnmarshall (fun _ => false) [.optional false]
    (bytesAndNothing.doMarshall [.plain false ()]) = some ([none], []) := rfl

end ActorNet.Rpc
