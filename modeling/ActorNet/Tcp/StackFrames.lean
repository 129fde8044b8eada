import ActorNet.Tcp.Stack

/-!
# What the functions of a stack change

A handler changes one block, and what it asks for changes the table, the resets
or one listener; a new block stands behind the others and enters the table if
its name is free.
-/

namespace ActorNet.Tcp

open Lib Net

variable {Q : Type} [BoundedQueue Nat Q]

namespace Stack

variable {s : Stack Q} {b : Nat} {x : Block} {t : Tcb}

/-! ## Handlers -/

/-- The connection of a block after its handler ran, with its requests met. -/
def putTcb (b : Nat) (t : Tcb) (s : Stack Q) : Stack Q :=
  { s with
    blocks := s.blocks.modify b fun x => { x with tcb := { t with requests := [] } }
    crash := t.crash }

theorem onTcb_eq (here : s.blocks[b]? = some x) (handler : Tcb → Tcb) :
    s.onTcb b handler = (handler x.tcb).requests.foldl (meet b (handler x.tcb).id)
      (s.putTcb b (handler x.tcb)) := by
  unfold onTcb
  rw [here]
  rfl

omit [BoundedQueue Nat Q] in
theorem modify_blocks (f : Block → Block) (here : s.blocks[b]? = some x) (j : Nat) :
    (s.blocks.modify b f)[j]? = if j = b then some (f x) else s.blocks[j]? := by
  rw [List.getElem?_modify]
  split
  · rename_i same
    subst same
    rw [here, if_pos rfl]
    rfl
  · rename_i other
    rw [if_neg (Ne.symm other)]
    cases s.blocks[j]? <;> rfl

omit [BoundedQueue Nat Q] in
theorem putTcb_blocks (here : s.blocks[b]? = some x) (j : Nat) : (s.putTcb b t).blocks[j]? =
    if j = b then some { x with tcb := { t with requests := [] } } else s.blocks[j]? :=
  modify_blocks _ here j

theorem update_none_iff {f : ConnId → Option Nat} {id id' : ConnId} {j : Nat} :
    Function.update f id none id' = some j ↔ id' ≠ id ∧ f id' = some j := by
  by_cases same : id' = id
  · subst same
    simp
  · simp [same]

/-- Requests other than to be queued send resets, and may take the name away. -/
theorem foldl_meet_of_noAdd {id : ConnId} {rs : List Request} (noAdd : .addConnectedTcb ∉ rs) :
    ∃ resets tcbs, rs.foldl (meet b id) s = { s with resets, tcbs } ∧
      (tcbs = s.tcbs ∨ .removeFromTcbs ∈ rs ∧ tcbs = Function.update s.tcbs id none) := by
  induction rs generalizing s with
  | nil => exact ⟨s.resets, s.tcbs, rfl, .inl rfl⟩
  | cons r rest ih =>
      have noAdd := List.ne_and_not_mem_of_not_mem_cons noAdd
      cases r with
      | removeFromTcbs =>
          obtain ⟨resets, tcbs, result, table⟩ := @ih (meet b id s .removeFromTcbs) noAdd.2
          refine ⟨resets, tcbs, result, .inr ⟨List.mem_cons_self, ?_⟩⟩
          rcases table with same | ⟨-, again⟩
          · exact same
          · exact again.trans (Function.update_idem ..)
      | addConnectedTcb => exact absurd rfl noAdd.1
      | respondWithReset th =>
          obtain ⟨resets, sent⟩ := respondWithReset_eq th id.localIp id.foreignIp s
          obtain ⟨resets', tcbs, result, table⟩ := @ih { s with resets } noAdd.2
          refine ⟨resets', tcbs, ?_, table.imp_right (And.imp_left (List.mem_cons_of_mem _))⟩
          show rest.foldl (meet b id) (s.respondWithReset th id.localIp id.foreignIp) = _
          rw [sent]
          exact result

theorem putTcb_addConnectedTcb (port : BitVec 16) (s : Stack Q) :
    (s.putTcb b t).addConnectedTcb b port = (s.addConnectedTcb b port).putTcb b t := by
  have same : (s.putTcb b t).listening port = s.listening port := rfl
  unfold Stack.addConnectedTcb
  rw [same]
  cases s.listening port with
  | none => rfl
  | some l =>
      unfold putTcb
      dsimp only
      rw [List.modify_modify_eq, List.modify_modify_eq]
      rfl

/-! ## Listeners and new blocks -/

omit [BoundedQueue Nat Q] in
/-- The listeners after one of them was changed. -/
theorem modify_listener {f : Listener Q → Listener Q} {l l' : Nat} {y' : Listener Q}
    (there : (s.listeners.modify l f)[l']? = some y') :
    ∃ y, s.listeners[l']? = some y ∧ y' = if l = l' then f y else y := by
  rw [List.getElem?_modify] at there
  cases before : s.listeners[l']? with
  | none =>
      rw [before] at there
      cases there
  | some y =>
      rw [before] at there
      cases there
      exact ⟨y, rfl, rfl⟩

omit [BoundedQueue Nat Q] in
theorem insertTcb_last (id : ConnId) (memory : Tcb) (awaits : Option Nat) (s : Stack Q) :
    (s.insertTcb id memory awaits).blocks[s.blocks.length]? = some ⟨Tcb.new id memory, awaits⟩ := by
  unfold insertTcb
  simp

omit [BoundedQueue Nat Q] in
theorem insertTcb_blocks (id : ConnId) (memory : Tcb) (awaits : Option Nat) (s : Stack Q)
    (j : Nat) : (s.insertTcb id memory awaits).blocks[j]? =
      if j = s.blocks.length then some ⟨Tcb.new id memory, awaits⟩ else s.blocks[j]? := by
  split
  · rename_i last
    rw [last]
    exact insertTcb_last id memory awaits s
  · rename_i other
    unfold insertTcb
    dsimp only
    rw [List.getElem?_append]
    split
    · rfl
    · rw [List.getElem?_eq_none (by simp; omega), List.getElem?_eq_none (by omega)]

omit [BoundedQueue Nat Q] in
theorem insertTcb_tcbs (id : ConnId) (memory : Tcb) (awaits : Option Nat) (s : Stack Q)
    (id' : ConnId) : (s.insertTcb id memory awaits).tcbs id' =
      if id' = id ∧ s.tcbs id = none then some s.blocks.length else s.tcbs id' := by
  unfold insertTcb
  cases entry : s.tcbs id with
  | none =>
      simp only [Option.isSome_none, Bool.false_eq_true, if_false, and_true]
      exact Function.update_apply ..
  | some k => simp

/-! ## Segments -/

/-- The block that gets a segment, with its header and what `received` hands on. -/
def delivers (hw : HwFeatures) (p : Impl) (src dst : BitVec 32) (s : Stack Q) :
    Option (Block × TcpHdr × Impl) :=
  match p.getHeader 0 tcpHdrLen with
  | .ok (q, some th) =>
      let h := TcpHdr.read th
      if h.length < tcpHdrLen then none
      else if checksumFails hw q src dst then none
      else ((s.tcbs ⟨dst, src, h.dstPort, h.srcPort⟩).bind fun b => s.blocks[b]?).map (·, h, q)
  | _ => none

/-- How `received` ends: as it began but for the resets, in the handler of the
block the table has for the segment, or with a new block. -/
theorem received_cases {P : Stack Q → Prop} {hw : HwFeatures} {beyond : Nat → Byte} {iss : TcpSeq}
    {memory : Tcb} {p : Impl} {src dst : BitVec 32}
    (ends : P { s with crash := some .nullHeader }) (same : ∀ resets, P { s with resets })
    (handed : ∀ b h q, s.tcbs ⟨dst, src, h.dstPort, h.srcPort⟩ = some b →
      s.delivers hw p src dst = (s.blocks[b]?).map (·, h, q) →
      P (s.onTcb b (Tcb.inputHandle hw beyond h q)))
    (syn : ∀ l id h q, s.tcbs id = none → s.listening id.localPort = some l →
      (s.listeners[l]?).any Listener.full = false →
      P (s.acceptSyn hw beyond iss memory l id h q)) :
    P (s.received hw beyond iss memory p src dst) := by
  have unchanged : P s := same s.resets
  have reset : ∀ th localIp foreignIp, P (s.respondWithReset th localIp foreignIp) := by
    intro th localIp foreignIp
    obtain ⟨resets, result⟩ := respondWithReset_eq th localIp foreignIp s
    rw [result]
    exact same resets
  have found := handed
  unfold delivers at found
  unfold received
  split
  · exact ends
  · exact unchanged
  rename_i q th header
  simp only [header] at found
  dsimp only
  split
  · exact unchanged
  rename_i long
  split
  · exact unchanged
  rename_i right
  split
  · rename_i absent
    unfold receivedUnknown
    split
    · exact reset _ _ _
    rename_i l listens
    split
    · exact reset _ _ _
    rename_i room
    split
    · exact unchanged
    split
    · exact reset _ _ _
    split
    · exact syn l _ _ q absent listens (Bool.eq_false_iff.mpr room)
    · exact unchanged
  · rename_i b entry
    refine found b _ q entry ?_
    rw [if_neg long, if_neg right, entry]
    rfl

end Stack

end ActorNet.Tcp
