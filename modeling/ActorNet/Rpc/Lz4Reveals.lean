import ActorNet.Rpc.Lz4Undone

/-!
# What LZ4 decompression reveals

The result has the size that the frame declares, whatever the decoder wrote of it:
the rest is what the destination held before. So a frame is decompressed in the same
way behind any two histories just if the decoder fills the declared size. Where
allocations may have thrown, a stale buffer makes another difference.
-/

namespace ActorNet.Rpc.Lz4Compressor

open Lib Failing
open Lz4Fragmented (Buf Bufs compressBound)

variable {lz4 : Codec} {mem : Memory} {t t' : Thread} {which : Scratch} {frame data : Buf} {n : Nat}

/-- The outcome is the same behind any two histories and with any two contents of new
memory. -/
def Independent (lz4 : Codec) (heaps : Memory → Prop) (frame : Buf) : Prop :=
  ∀ t₁ t₂ mem₁ mem₂, Reached lz4 heaps t₁ → Reached lz4 heaps t₂ → Grants mem₁ → Grants mem₂ →
    (decompress lz4 mem₁ frame t₁).1 = (decompress lz4 mem₂ frame t₂).1

/-- What the decoder accepts has the declared size. -/
def Filled (lz4 : Codec) (frame : Buf) : Prop :=
  (decoded lz4 frame).ok → (decoded lz4 frame).written.length = declaredSize frame

/-! ## Where no allocation throws -/

/-- What neither the log of the codec nor the bytes of a block make a difference to. -/
structure Insensitive (I : Thread → Prop) : Prop where
  heap : ∀ t, I t → I { t with heap := t.heap + 1 }
  calls : ∀ t call, I t → I { t with calls := call :: t.calls }
  write : ∀ t which bytes, I t → I (t.write which bytes)

section

variable {I : Thread → Prop} (insensitive : Insensitive I)
include insensitive

theorem keeps_alloc (n : Nat) : Keeps I (alloc mem n) := by
  intro t holds
  unfold alloc
  cases mem t.heap with
  | some uninit => exact insensitive.heap t holds
  | none => exact holds

theorem keeps_callCodec (src dst : Area) (room : List Byte) (coded : Coded) :
    Keeps I (callCodec src dst room coded) := by
  unfold callCodec
  refine .bind (.modify fun t holds => insensitive.calls t _ holds) fun _ => ?_
  exact .ite (fun _ => .pure _) fun _ => .ofExcept _

theorem keeps_copyChunks (src : List Byte) (pos left : Nat) :
    Keeps I (copyChunks mem src pos left) := by
  induction left using Nat.strongRecOn generalizing pos with
  | ind left ih =>
      rw [copyChunks]
      split
      · exact .pure _
      · have positive : 0 < chunkSize := by decide
        refine .bind (keeps_alloc insensitive _) fun _ => .bind (.ofExcept _) fun _ => ?_
        exact .bind (ih _ (by omega) _) fun _ => .pure _

/-- The invariant is there once the buffer is reserved. -/
theorem withReserved_leads {maxSize : Nat}
    {fn : Base → List Byte → Run (List Byte × Except Stop Nat)}
    (direct : maxSize ≤ chunkSize → I t)
    (reserved : Post (reserve mem which maxSize t) (fun _ => I) (fun _ => I))
    (body : ∀ base dst, Keeps I (fn base dst)) :
    Post (withReserved mem which maxSize fn t) (fun _ => I) (fun _ => I) := by
  unfold withReserved
  split
  · rename_i small
    refine Keeps.bind (keeps_alloc insensitive _) (fun dst => ?_) t (direct small)
    refine .bind (body _ _) fun p => ?_
    exact .bind (.ofExcept _) fun _ => .pure _
  · apply Post.bind reserved
    intro _ s holds
    refine Keeps.bind (.gets _) (fun b => ?_) s holds
    refine .bind (body _ _) fun p => ?_
    refine .bind (.modify fun t holds => insensitive.write t _ _ holds) fun _ => ?_
    refine .bind (.ofExcept _) fun dstSize => .ite (fun _ => ?_) fun _ => ?_
    · exact .bind (keeps_alloc insensitive _) fun _ => .bind (.ofExcept _) fun _ => .pure _
    · exact .bind (keeps_copyChunks insensitive _ _ _) fun _ => .pure _

theorem prepare_leads {input : Bufs} {size : Nat} (direct : ∀ single, input = .buffer single → I t)
    (reserved : Post (reserve mem which size t) (fun _ => I) (fun _ => I)) :
    Post (prepare mem which input size t) (fun _ => I) (fun _ => I) := by
  cases input with
  | buffer single => exact Post.pure (direct single rfl)
  | vector fragments =>
      apply Post.bind reserved
      intro _ s holds
      refine Keeps.bind (.gets _) (fun b => ?_) s holds
      refine .bind (.ofExcept _) fun bytes => ?_
      exact .bind (.modify fun t holds => insensitive.write t _ _ holds) fun _ => .pure _

variable {J : Thread → Prop} (weaker : ∀ t, I t → J t)
  (counted : ∀ t, I t → J t.afterBufferUse)
include weaker counted

theorem compress_leads {headSpace : BitVec 64} {maxSize : Nat}
    (total : (headSpace + 4#64 + BitVec.ofNat 64 (compressBound data.size.toNat)).toNat = maxSize)
    (direct : maxSize ≤ chunkSize → I t)
    (reserved : Post (reserve mem .compressed maxSize t) (fun _ => I) (fun _ => I))
    (prepared : Keeps I (prepare mem .decompressed data.bufs data.size.toNat)) :
    Post (compress lz4 mem headSpace data t) (fun _ => J) (fun _ => J) := by
  unfold compress
  rw [total]
  apply Post.bind ((withReserved_leads insensitive direct reserved ?_).mono
    (fun _ _ holds => holds) fun _ => weaker)
  · intro out s holds
    exact Post.pure (counted s holds)
  · intro base dst
    refine .bind prepared fun p => .bind (.ofExcept _) fun src => ?_
    refine .bind (keeps_callCodec insensitive _ _ _ _) fun dst => ?_
    refine .ite (fun _ => .pure _) fun _ => ?_
    exact .bind (.ofExcept _) fun _ => .pure _

theorem decompress_leads (long : 4 ≤ data.size.toNat)
    (prepared : Post (prepare mem .decompressed data.bufs data.size.toNat t) (fun _ => I)
      (fun _ => I))
    (reserved : ∀ n, Keeps I (reserve mem .compressed n)) :
    Post (decompress lz4 mem data t) (fun _ => J) (fun _ => J) := by
  unfold decompress
  rw [if_neg (by omega)]
  apply Post.bind (prepared.mono (fun _ _ holds => holds) fun _ => weaker)
  rintro ⟨srcBase, src⟩ s holds
  dsimp only
  refine Post.bind ((Keeps.ofExcept (load src 0 4) s holds).mono (fun _ _ holds => holds)
    fun _ => weaker) fun header s holds => ?_
  split
  · exact weaker s holds
  · apply Post.bind ((withReserved_leads insensitive (fun _ => holds) (reserved _ s holds) ?_).mono
      (fun _ _ holds => holds) fun _ => weaker)
    · intro out s holds
      exact Post.pure (counted s holds)
    · intro base dst
      refine .bind (.ofExcept _) fun src => ?_
      refine .bind (keeps_callCodec insensitive _ _ _ _) fun dst => ?_
      exact .ite (fun _ => .pure _) fun _ => .pure _

end

/-- A buffer without a block has no size. -/
def Thread.Backed (t : Thread) : Prop :=
  ∀ which, (t.buffer which).data = none → (t.buffer which).size = 0

theorem buffer_write (t : Thread) (which other : Scratch) (bytes : List Byte) :
    ((t.write which bytes).buffer other).size = (t.buffer other).size ∧
      (((t.write which bytes).buffer other).data = none ↔ (t.buffer other).data = none) := by
  by_cases same : other = which
  · subst same
    rw [Thread.write, Thread.buffer_setBuffer]
    exact ⟨rfl, ReusableBuffer.data_withBytes_eq_none⟩
  · rw [Thread.write, Thread.buffer_setBuffer_of_ne _ _ _ same]
    exact ⟨rfl, Iff.rfl⟩

theorem Thread.Backed.not_stale (backed : t.Backed) (which : Scratch) (n : Nat) :
    ¬ (t.buffer which).Stale n := by
  rintro ⟨held, positive, enough⟩
  have zero := backed which held
  omega

theorem backed_insensitive : Insensitive Thread.Backed where
  heap t backed which held := by
    rw [Thread.buffer_heap] at held ⊢
    exact backed which held
  calls t call backed which held := by
    cases which with
    | compressed => exact backed .compressed held
    | decompressed => exact backed .decompressed held
  write t which bytes backed other held := by
    obtain ⟨size, data⟩ := buffer_write t which other bytes
    rw [size]
    exact backed other (data.mp held)

theorem Thread.Backed.afterBufferUse (backed : t.Backed) : t.afterBufferUse.Backed := by
  unfold Thread.afterBufferUse
  split
  · intro which _
    cases which <;> rfl
  · intro which held
    cases which with
    | compressed => exact backed .compressed held
    | decompressed => exact backed .decompressed held

theorem keeps_reserve (grants : Grants mem) (which : Scratch) (n : Nat) :
    Keeps Thread.Backed (reserve mem which n) := by
  intro t backed
  unfold reserve
  rw [gets_bind]
  split
  · rw [modify_bind]
    apply Post.bind ((alloc_post _ n).mono (fun _ _ ends => ends) (by
      rintro e s ⟨-, denied, -⟩
      exact absurd grants denied))
    rintro block s ⟨-, -, rfl⟩
    refine Post.modify fun other held => ?_
    by_cases same : other = which
    · subst same
      rw [Thread.buffer_setBuffer] at held
      cases held
    · rw [Thread.buffer_setBuffer_of_ne _ _ _ same, Thread.buffer_heap,
        Thread.buffer_setBuffer_of_ne _ _ _ same] at held ⊢
      exact backed other held
  · exact Post.pure backed

/-- Where no allocation throws, no buffer is ever stale. -/
theorem Reached.backed (reached : Reached lz4 Grants t) : t.Backed := by
  induction reached with
  | start =>
      intro which _
      cases which <;> rfl
  | @call t t' r call mem _ grants whole ran _ ih =>
      have prepared (input : Bufs) (size : Nat) : Keeps Thread.Backed
          (prepare mem .decompressed input size) := fun s backed =>
        prepare_leads backed_insensitive (fun _ _ => backed) (keeps_reserve grants _ _ s backed)
      have kept : Post (call.run lz4 mem t) (fun _ => Thread.Backed) (fun _ => Thread.Backed) := by
        cases call with
        | compress headSpace data =>
            exact compress_leads backed_insensitive (fun _ => id) (fun _ => .afterBufferUse) rfl
              (fun _ => ih) (keeps_reserve grants _ _ t ih) (prepared _ _)
        | decompress data =>
            by_cases long : 4 ≤ data.size.toNat
            · exact decompress_leads backed_insensitive (fun _ => id) (fun _ => .afterBufferUse) long
                (prepared _ _ t ih) (keeps_reserve grants .compressed)
            · show Post (decompress lz4 mem data t) _ _
              rw [decompress, if_pos (by omega)]
              exact ih
      rw [ran] at kept
      cases r with
      | ok out => exact kept
      | error e => exact kept

/-! ## Where an allocation throws -/

theorem Reached.mono {heaps : Memory → Prop} (reached : Reached lz4 heaps t) :
    Reached lz4 (fun _ => True) t := by
  induction reached with
  | start => exact .start
  | call _ _ whole ran fine ih => exact .call ih trivial whole ran fine

/-- The buffer loses its block and keeps its size. -/
theorem reserve_denied (grows : (t.buffer which).size < n) :
    reserve (fun _ => none) which n t =
      (.error .badAlloc, t.setBuffer which ⟨none, (t.buffer which).size⟩) := by
  unfold reserve
  rw [gets_bind, if_pos grows]
  rfl

/-- A new thread has no stale buffer. -/
theorem start_fine (frame : Buf) (n : Nat) :
    ¬ Thread.start.CannotPrepare frame ∧ ¬ Thread.start.CannotReserve n := by
  have fresh (n : Nat) : ¬ ReusableBuffer.empty.Stale n := by
    rintro ⟨-, positive, small⟩
    exact Nat.lt_irrefl 0 (Nat.lt_of_lt_of_le positive small)
  refine ⟨?_, fun cannot => fresh n cannot.2⟩
  unfold Thread.CannotPrepare
  split
  · exact id
  · exact fresh _

theorem reserve_start (grants : Grants mem) (which : Scratch) (n : Nat) :
    Post (reserve mem which n .start)
      (fun _ t => (t.buffer which).size = n ∧ t.bufferUseCount = 0)
      (fun _ t => (t.buffer which).size = n ∧ t.bufferUseCount = 0) := by
  unfold reserve
  rw [gets_bind]
  split
  · rw [modify_bind]
    apply Post.bind ((alloc_post _ n).mono (fun _ _ ends => ends) (by
      rintro e s ⟨-, denied, -⟩
      exact absurd grants denied))
    rintro block s ⟨-, -, rfl⟩
    refine Post.modify ⟨?_, ?_⟩
    · rw [Thread.buffer_setBuffer]
    · cases which <;> rfl
  · rename_i zero
    have none_left : n = 0 := by
      cases which <;> exact Nat.le_zero.mp (Nat.le_of_not_lt zero)
    subst none_left
    exact Post.pure ⟨by cases which <;> rfl, rfl⟩

theorem sized_insensitive (which : Scratch) (n : Nat) :
    Insensitive fun t => (t.buffer which).size = n ∧ t.bufferUseCount = 0 where
  heap t holds := by
    rw [Thread.buffer_heap]
    exact holds
  calls t call holds := by
    cases which <;> exact holds
  write t other bytes holds := by
    rw [(buffer_write t other which bytes).1]
    cases other <;> exact holds

theorem size_afterBufferUse (unused : t.bufferUseCount = 0) :
    (t.afterBufferUse.buffer which).size = (t.buffer which).size := by
  unfold Thread.afterBufferUse
  rw [if_neg (by rw [unused]; decide)]
  cases which <;> rfl

theorem reserve_other (other : Scratch) (different : which ≠ other) (m : Nat) :
    Keeps (fun t => (t.buffer which).size = n ∧ t.bufferUseCount = 0) (reserve mem other m) := by
  have kept (t : Thread) (b : ReusableBuffer)
      (holds : (t.buffer which).size = n ∧ t.bufferUseCount = 0) :
      ((t.setBuffer other b).buffer which).size = n ∧
        (t.setBuffer other b).bufferUseCount = 0 := by
    rw [Thread.buffer_setBuffer_of_ne _ _ _ different]
    cases other <;> exact holds
  unfold reserve
  refine .bind (.gets _) fun b => .ite (fun _ => ?_) fun _ => .pure _
  refine .bind (.modify fun t holds => kept t _ holds) fun _ => ?_
  refine .bind (keeps_alloc (sized_insensitive which n) _) fun block => ?_
  exact .modify fun t holds => kept t _ holds

/-- A call that leaves a buffer of that size, and one that needs a larger one for which
`new` throws. -/
theorem stale_after {first second : Call} (whole : first.data.Whole) (whole' : second.data.Whole)
    (leads : Post (first.run lz4 mem .start) (fun _ t => (t.buffer which).size = n)
      (fun _ t => (t.buffer which).size = n))
    (fine : ∀ t, first.run lz4 mem .start ≠ (.error .fault, t))
    (denied : ∀ t, (t.buffer which).size = n →
      second.run lz4 (fun _ => none) t = (.error .badAlloc, t.setBuffer which ⟨none, n⟩))
    (positive : 0 < n) :
    ∃ t, Reached lz4 (fun _ => True) t ∧ (t.buffer which).Stale n := by
  cases ran : first.run lz4 mem .start with
  | mk r t =>
      rw [ran] at leads
      have held : (t.buffer which).size = n := by
        cases r with
        | ok out => exact leads
        | error e => exact leads
      have reached : Reached lz4 (fun _ => True) t := by
        refine .call .start trivial whole ran ?_
        rintro rfl
        exact fine t ran
      refine ⟨_, .call reached trivial whole' (denied t held) (by simp), ?_⟩
      rw [Thread.buffer_setBuffer]
      exact ⟨rfl, positive, Nat.le_refl n⟩

/-- A frame of zeros, and a longer one. -/
theorem decompressed_stale (contained : lz4.Contained) {n : Nat} (four : 4 ≤ n)
    (short : n + 1 < 2 ^ 32) :
    ∃ t, Reached lz4 (fun _ => True) t ∧ t.decompressedData.Stale n := by
  obtain ⟨whole, content⟩ := oneFragment_whole (List.replicate n 0) (by
    rw [List.length_replicate]; omega)
  obtain ⟨whole', content'⟩ := oneFragment_whole (List.replicate (n + 1) 0) (by
    rw [List.length_replicate]; omega)
  have size : (oneFragment (List.replicate n 0)).size.toNat = n := by
    rw [whole, content, List.length_replicate]
  have size' : (oneFragment (List.replicate (n + 1) 0)).size.toNat = n + 1 := by
    rw [whole', content', List.length_replicate]
  have grants : Grants fun _ => some fun _ => 0 := fun _ => rfl
  refine @stale_after lz4 (fun _ => some fun _ => 0) .decompressed n
    (.decompress (oneFragment (List.replicate n 0)))
    (.decompress (oneFragment (List.replicate (n + 1) 0))) whole whole' ?_ ?_ ?_ (by omega)
  · refine decompress_leads (sized_insensitive .decompressed n) (fun _ holds => holds.1)
      (fun _ holds => (size_afterBufferUse holds.2).trans holds.1) (by omega) ?_
      (reserve_other .compressed nofun)
    rw [size]
    exact prepare_leads (sized_insensitive .decompressed n) (fun _ is => nomatch is)
      (reserve_start grants _ _)
  · intro t ran
    change decompress lz4 _ _ .start = _ at ran
    have post := decompress_post (fun _ => some fun _ => 0) contained .start whole
    rw [ran] at post
    cases post.1 with
    | unprepared _ cannot => exact (start_fine _ 0).1 cannot
    | unreserved _ _ _ cannot => exact (start_fine (oneFragment []) _).2 cannot
  · intro t held
    show decompress lz4 (fun _ => none) (oneFragment (List.replicate (n + 1) 0)) t = _
    unfold decompress
    rw [if_neg (by omega), size', ← held]
    exact bind_stop (bind_stop (reserve_denied (by rw [held]; omega)))

/-- A head space that needs a buffer of that size, and a larger one. -/
theorem compressed_stale (contained : lz4.Contained) {n : Nat} (long : chunkSize < n)
    (short : n < 2 ^ 31) :
    ∃ t, Reached lz4 (fun _ => True) t ∧ t.compressedData.Stale n := by
  have chunk : chunkSize = 131072 := rfl
  have whole : (⟨0#32, .buffer []⟩ : Buf).Whole := rfl
  have bound : compressBound (0#32).toNat = 16 := rfl
  have total (m : Nat) (enough : 20 ≤ m) (small : m ≤ 2 ^ 31) :
      (BitVec.ofNat 64 (m - 20) + 4#64 + BitVec.ofNat 64 (compressBound (0#32).toNat)).toNat =
        m := by
    rw [bound, BitVec.toNat_add, BitVec.toNat_add]
    simp only [BitVec.toNat_ofNat]
    omega
  have grants : Grants fun _ => some fun _ => 0 := fun _ => rfl
  refine @stale_after lz4 (fun _ => some fun _ => 0) .compressed n
    (.compress (BitVec.ofNat 64 (n - 20)) ⟨0#32, .buffer []⟩)
    (.compress (BitVec.ofNat 64 (n + 1 - 20)) ⟨0#32, .buffer []⟩) whole whole ?_ ?_ ?_ (by omega)
  · exact compress_leads (sized_insensitive .compressed n) (fun _ holds => holds.1)
      (fun _ holds => (size_afterBufferUse holds.2).trans holds.1) (total n (by omega) (by omega))
      (fun small => absurd small (by omega)) (reserve_start grants _ _) (.pure _)
  · intro t ran
    change compress lz4 _ _ _ .start = _ at ran
    have post := compress_post (fun _ => some fun _ => 0) contained .start whole
      (BitVec.ofNat 64 (n - 20))
    rw [ran] at post
    cases post.1 with
    | unprepared cannot => exact (start_fine _ 0).1 cannot
    | unreserved cannot => exact (start_fine (oneFragment []) _).2 cannot
    | wrapped beyond =>
        rw [roomFor, BitVec.toNat_ofNat, bound] at beyond
        omega
  · intro t held
    show compress lz4 (fun _ => none) (BitVec.ofNat 64 (n + 1 - 20)) ⟨0#32, .buffer []⟩ t = _
    unfold Lz4Compressor.compress withReserved
    rw [total (n + 1) (by omega) (by omega), if_neg (by omega), ← held]
    exact bind_stop (bind_stop (reserve_denied (by rw [held]; omega)))

/-! ## What makes a difference -/

/-- The outcome as a function of the frame. -/
def expected (lz4 : Codec) (frame : Buf) : Except Stop Buf :=
  if frame.size.toNat < 4 then .ok ⟨0#32, .vector []⟩
  else if declaredSize frame = 0 then
    .error (.runtimeError "RPC frame LZ4 decompression failure: decompressed size cannot be zero")
  else if (decoded lz4 frame).ok then .ok (pack (decoded lz4 frame).written (declaredSize frame))
  else .error (.runtimeError "RPC frame LZ4 decompression failure")

theorem decoded_within (contained : lz4.Contained) (frame : Buf) :
    (decoded lz4 frame).written.length ≤ declaredSize frame := by
  have within : (decoded lz4 frame).written.length ≤
      (BitVec.ofNat 32 (declaredSize frame)).toInt.toNat := contained.decompress _ _ _
  have capacity := toNat_toInt_le (BitVec.ofNat 32 (declaredSize frame))
  have fits := Nat.mod_le (declaredSize frame) (2 ^ 32)
  rw [BitVec.toNat_ofNat] at capacity
  omega

/-- No buffer is in the way, and the decoder fills what is handed out. -/
theorem Decompresses.settled {r : Except Stop Buf} (is : Decompresses lz4 mem t frame r)
    (grants : Grants mem) (prepared : 4 ≤ frame.size.toNat → ¬ t.CannotPrepare frame)
    (reserved : 4 ≤ frame.size.toNat → declaredSize frame < 2 ^ 31 →
      ¬ t.CannotReserve (declaredSize frame))
    (filled : 4 ≤ frame.size.toNat → declaredSize frame = 0 ∨ Filled lz4 frame) :
    r = expected lz4 frame := by
  unfold expected
  cases is with
  | short few => rw [if_pos few]
  | unprepared long cannot => exact absurd cannot (prepared long)
  | zero long _ none_left => rw [if_neg (by omega), if_pos none_left]
  | unreserved long _ small cannot => exact absurd cannot (reserved long small)
  | rejected long _ positive bad =>
      rw [if_neg (by omega), if_neg positive, if_neg (by rw [bad]; exact nofun)]
  | accepted dst long _ positive good _ enough =>
      have all : (decoded lz4 frame).written.length = declaredSize frame :=
        ((filled long).resolve_left positive) good
      have front := take_overwrite (decoded lz4 frame).written (Nat.zero_le dst.length)
      rw [Nat.zero_add, all] at front
      have written : (decoded lz4 frame).written.take (declaredSize frame) =
          (decoded lz4 frame).written := by
        rw [← all, List.take_length]
      rw [if_neg (by omega), if_neg positive, if_pos good, pack, pack, front, written]
      rfl
  | denied none_left => exact absurd grants none_left

/-- Behind a stale buffer that is needed there is a fault. -/
theorem Decompresses.faults {r : Except Stop Buf} (is : Decompresses lz4 mem t frame r)
    (grants : Grants mem) (long : 4 ≤ frame.size.toNat)
    (stale : t.CannotPrepare frame ∨ declaredSize frame ≠ 0 ∧ declaredSize frame < 2 ^ 31 ∧
      t.CannotReserve (declaredSize frame)) : r = .error .fault := by
  cases is with
  | short few => omega
  | unprepared => rfl
  | zero _ prepared none_left => exact absurd none_left (stale.resolve_left prepared).1
  | unreserved => rfl
  | rejected _ prepared _ _ reserved => exact absurd (stale.resolve_left prepared).2 reserved
  | accepted _ _ prepared _ _ reserved =>
      exact absurd (stale.resolve_left prepared).2.2 reserved
  | denied none_left => exact absurd grants none_left

/-- A new thread has no fault. -/
theorem Decompresses.start_no_fault {r : Except Stop Buf}
    (is : Decompresses lz4 mem .start frame r) : r ≠ .error .fault := by
  rintro rfl
  cases is with
  | unprepared _ cannot => exact (start_fine _ 0).1 cannot
  | unreserved _ _ _ cannot => exact (start_fine frame _).2 cannot

/-- Behind the bytes that were decoded a new thread hands out what the memory held. -/
theorem Decompresses.start_accepted {r : Except Stop Buf} {byte : Byte}
    (is : Decompresses lz4 (fun _ => some fun _ => byte) .start frame r)
    (contained : lz4.Contained) (long : 4 ≤ frame.size.toNat)
    (positive : declaredSize frame ≠ 0) (good : (decoded lz4 frame).ok) :
    ∃ out, r = .ok out ∧ out.content = (decoded lz4 frame).written ++
      List.replicate (declaredSize frame - (decoded lz4 frame).written.length) byte := by
  have within := decoded_within contained frame
  cases is with
  | short few => omega
  | unprepared _ cannot => exact absurd cannot (start_fine _ 0).1
  | zero _ _ none_left => exact absurd none_left positive
  | unreserved _ _ _ cannot => exact absurd cannot (start_fine frame _).2
  | rejected _ _ _ bad =>
      rw [bad] at good
      cases good
  | accepted dst _ _ _ _ _ enough origin =>
      refine ⟨_, rfl, ?_⟩
      rcases origin with ⟨_, _, ⟨⟩, rfl⟩ | ⟨-, none_left, -⟩
      · rw [content_pack, overwrite, List.map_const', List.length_range, List.take_zero,
          List.nil_append, Nat.zero_add, List.drop_replicate]
        apply List.take_of_length_le
        rw [List.length_append, List.length_replicate]
        omega
      · exact absurd (Nat.le_zero.mp none_left) positive
  | denied none_left => exact absurd (fun _ => rfl) none_left

section

variable (contained : lz4.Contained) (whole : frame.Whole)
include contained whole

/-- A result that is not filled shows what the memory held. -/
theorem Independent.filled (independent : Independent lz4 Grants frame)
    (long : 4 ≤ frame.size.toNat) : declaredSize frame = 0 ∨ Filled lz4 frame := by
  refine or_iff_not_imp_left.mpr fun positive good => ?_
  have within := decoded_within contained frame
  have shows (byte : Byte) : ∃ out,
      (decompress lz4 (fun _ => some fun _ => byte) frame .start).1 = .ok out ∧
        out.content = (decoded lz4 frame).written ++
          List.replicate (declaredSize frame - (decoded lz4 frame).written.length) byte := by
    have post := decompress_post (fun _ => some fun _ => byte) contained .start whole
    cases ran : decompress lz4 (fun _ => some fun _ => byte) frame .start with
    | mk r t =>
        rw [ran] at post
        cases r with
        | ok out => exact post.1.start_accepted contained long positive good
        | error e => exact post.1.start_accepted contained long positive good
  obtain ⟨zeros, returned₀, content₀⟩ := shows 0
  obtain ⟨ones, returned₁, content₁⟩ := shows 1
  have same := independent .start .start (fun _ => some fun _ => 0) (fun _ => some fun _ => 1)
    .start .start (fun _ => rfl) (fun _ => rfl)
  rw [returned₀, returned₁] at same
  cases same
  rw [content₀] at content₁
  have tails := List.append_cancel_left content₁
  by_contra unfilled
  obtain ⟨k, behind⟩ : ∃ k, declaredSize frame - (decoded lz4 frame).written.length = k + 1 :=
    ⟨declaredSize frame - (decoded lz4 frame).written.length - 1, by omega⟩
  rw [behind, List.replicate_succ, List.replicate_succ] at tails
  cases (List.cons.inj tails).1

/-- What any thread does, as a case of `Decompresses`. -/
theorem decompresses {heaps : Memory → Prop} (reached : Reached lz4 heaps t) (mem : Memory) :
    Decompresses lz4 mem t frame (decompress lz4 mem frame t).1 := by
  have post := decompress_post mem contained (reached.sound contained) whole
  cases ran : decompress lz4 mem frame t with
  | mk r t' =>
      rw [ran] at post
      cases r with
      | ok out => exact post.1
      | error e => exact post.1

/-- A stale buffer that is needed makes a difference. -/
theorem not_independent (long : 4 ≤ frame.size.toNat) (reached : Reached lz4 (fun _ => True) t)
    (stale : t.CannotPrepare frame ∨ declaredSize frame ≠ 0 ∧ declaredSize frame < 2 ^ 31 ∧
      t.CannotReserve (declaredSize frame)) : ¬ Independent lz4 (fun _ => True) frame := by
  intro independent
  have grants : Grants fun _ => some fun _ => 0 := fun _ => rfl
  have same := independent t .start _ _ reached .start grants grants
  rw [(decompresses contained whole reached _).faults grants long stale] at same
  exact (decompresses contained whole (.start : Reached lz4 (fun _ => True) .start) _).start_no_fault
    same.symm

/-- Where no buffer can be in the way, one outcome is left. -/
theorem independent_of {heaps : Memory → Prop}
    (filled : 4 ≤ frame.size.toNat → declaredSize frame = 0 ∨ Filled lz4 frame)
    (prepared : ∀ t, Reached lz4 heaps t → 4 ≤ frame.size.toNat → ¬ t.CannotPrepare frame)
    (reserved : ∀ t, Reached lz4 heaps t → 4 ≤ frame.size.toNat → declaredSize frame < 2 ^ 31 →
      ¬ t.CannotReserve (declaredSize frame)) : Independent lz4 heaps frame := by
  intro t₁ t₂ mem₁ mem₂ reached₁ reached₂ grants₁ grants₂
  calc (decompress lz4 mem₁ frame t₁).1
      = expected lz4 frame := (decompresses contained whole reached₁ mem₁).settled grants₁
        (prepared t₁ reached₁) (reserved t₁ reached₁) filled
    _ = (decompress lz4 mem₂ frame t₂).1 := ((decompresses contained whole reached₂ mem₂).settled
        grants₂ (prepared t₂ reached₂) (reserved t₂ reached₂) filled).symm

theorem independent_granted :
    Independent lz4 Grants frame ↔
      frame.size.toNat < 4 ∨ declaredSize frame = 0 ∨ Filled lz4 frame := by
  constructor
  · intro independent
    by_cases few : frame.size.toNat < 4
    · exact .inl few
    · exact .inr (independent.filled contained whole (by omega))
  · intro condition
    apply independent_of contained whole
    · exact fun long => condition.resolve_left (by omega)
    · intro t reached _ cannot
      unfold Thread.CannotPrepare at cannot
      split at cannot
      · exact cannot
      · exact reached.backed.not_stale .decompressed _ cannot
    · intro t reached _ _ cannot
      exact reached.backed.not_stale .compressed _ cannot.2

theorem independent_anyhow :
    Independent lz4 (fun _ => True) frame ↔
      frame.size.toNat < 4 ∨
        ((∃ buf, frame.bufs = .buffer buf) ∨ frame.size.toNat = 2 ^ 32 - 1) ∧
          (declaredSize frame = 0 ∨ Filled lz4 frame ∧
            (declaredSize frame ≤ chunkSize ∨ 2 ^ 31 ≤ declaredSize frame)) := by
  have small : frame.size.toNat < 2 ^ 32 := frame.size.isLt
  constructor
  · intro independent
    by_cases few : frame.size.toNat < 4
    · exact .inl few
    · have filled : declaredSize frame = 0 ∨ Filled lz4 frame := by
        refine Independent.filled contained whole ?_ (by omega)
        intro t₁ t₂ mem₁ mem₂ reached₁ reached₂
        exact independent t₁ t₂ mem₁ mem₂ reached₁.mono reached₂.mono
      refine .inr ⟨?_, ?_⟩
      · cases bufs : frame.bufs with
        | buffer buf => exact .inl ⟨buf, rfl⟩
        | vector fragments =>
            -- a shorter size can be that of a stale buffer
            refine .inr (by_contra fun shorter => ?_)
            obtain ⟨t, reached, stale⟩ :=
              decompressed_stale contained (n := frame.size.toNat) (by omega) (by omega)
            refine not_independent contained whole (by omega) reached (.inl ?_) independent
            rw [Thread.CannotPrepare, bufs]
            exact stale
      · by_cases zero : declaredSize frame = 0
        · exact .inl zero
        · refine .inr ⟨filled.resolve_left zero, by_contra fun between => ?_⟩
          obtain ⟨t, reached, stale⟩ :=
            compressed_stale contained (n := declaredSize frame) (by omega) (by omega)
          exact not_independent contained whole (by omega) reached
            (.inr ⟨zero, by omega, by omega, stale⟩) independent
  · intro condition
    apply independent_of contained whole
    · intro long
      rcases (condition.resolve_left (by omega)).2 with zero | ⟨filled, -⟩
      · exact .inl zero
      · exact .inr filled
    · intro t reached long cannot
      unfold Thread.CannotPrepare at cannot
      rcases (condition.resolve_left (by omega)).1 with ⟨buf, bufs⟩ | longest
      · rw [bufs] at cannot
        exact cannot
      · have short := (reached.sound contained).short
        split at cannot
        · exact cannot
        · have below := short cannot.1
          have enough := cannot.2.2
          omega
    · intro t reached long below cannot
      have chunked := cannot.1
      have positive := cannot.2.2
      rcases (condition.resolve_left (by omega)).2 with zero | ⟨-, direct | huge⟩ <;> omega

end

/-- A frame has one outcome behind all histories just if it is too short to be one,
declares no size, or is decoded to the declared size or not at all. Where allocations
may have thrown, it also has to do without a scratch buffer that may be stale. -/
theorem independent_iff (contained : lz4.Contained) (frame : Buf) (whole : frame.Whole) :
    (Independent lz4 Grants frame ↔
        frame.size.toNat < 4 ∨ declaredSize frame = 0 ∨ Filled lz4 frame) ∧
      (Independent lz4 (fun _ => True) frame ↔
        frame.size.toNat < 4 ∨
          ((∃ buf, frame.bufs = .buffer buf) ∨ frame.size.toNat = 2 ^ 32 - 1) ∧
            (declaredSize frame = 0 ∨ Filled lz4 frame ∧
              (declaredSize frame ≤ chunkSize ∨ 2 ^ 31 ≤ declaredSize frame))) :=
  ⟨independent_granted contained whole, independent_anyhow contained whole⟩

/-- Three bytes as they are sent. -/
theorem independent_iff_literals :
    Independent literalBlocks (fun _ => True) ⟨8#32, .buffer [3, 0, 0, 0, 0x30, 1, 2, 3]⟩ :=
  (independent_iff literalBlocks_inverse.toContained _ (by decide)).2.mpr
    (.inr ⟨.inl ⟨_, rfl⟩, .inr ⟨fun _ => rfl, .inl (by decide)⟩⟩)

/-- An empty block that is declared as five bytes: they are those of the new buffer. -/
theorem declared_reveals :
    ¬ Independent literalBlocks Grants ⟨5#32, .buffer [5, 0, 0, 0, 0]⟩ := by
  intro independent
  have same := independent .start .start (fun _ => some fun _ => 0) (fun _ => some fun _ => 1)
    .start .start (fun _ => rfl) fun _ => rfl
  have zeros : (decompress literalBlocks (fun _ => some fun _ => 0)
      ⟨5#32, .buffer [5, 0, 0, 0, 0]⟩ .start).1 = .ok (.ofBuffer [0, 0, 0, 0, 0]) := rfl
  have ones : (decompress literalBlocks (fun _ => some fun _ => 1)
      ⟨5#32, .buffer [5, 0, 0, 0, 0]⟩ .start).1 = .ok (.ofBuffer [1, 1, 1, 1, 1]) := rfl
  rw [zeros, ones] at same
  cases same

end ActorNet.Rpc.Lz4Compressor
