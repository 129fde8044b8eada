import ActorNet.Rpc.Lz4Compressor

/-!
# The scratch buffers of the LZ4 compressor

Between the calls a scratch buffer holds a block of its declared size, or no block
at all. It is not always empty then: where `new` throws, the size of the block that
was given up stays. Such a buffer is `Stale` for every size up to that one, and a
later call writes to a null pointer. One lemma for each function says all that it
does in a sound state; what it gives back does not depend on what the blocks hold.
-/

namespace ActorNet.Rpc.Lz4Compressor

open Lib Failing
open Lz4Fragmented (Buf Bufs compressBound)

variable {lz4 : Codec} {mem : Memory} {t t' : Thread} {b : ReusableBuffer} {which : Scratch}
  {base : Base} {data : Buf} {n : Nat}

/-! ## Sound states -/

/-- No block, and yet `reserve` takes it for large enough. -/
def ReusableBuffer.Stale (b : ReusableBuffer) (n : Nat) : Prop :=
  b.data = none ∧ 0 < n ∧ n ≤ b.size

instance : Decidable (b.Stale n) :=
  inferInstanceAs (Decidable (b.data = none ∧ 0 < n ∧ n ≤ b.size))

/-- A block has the declared size and was allocated before. -/
structure ReusableBuffer.Sound (b : ReusableBuffer) (heap : Nat) : Prop where
  length : ∀ block, b.data = some block → block.bytes.length = b.size
  old : ∀ block, b.data = some block → block.id < heap
  small : b.size < 2 ^ 64

/-- What holds of a thread after every call that was no fault. -/
structure Thread.Sound (t : Thread) : Prop where
  compressed : t.compressedData.Sound t.heap
  decompressed : t.decompressedData.Sound t.heap
  distinct : ∀ id, t.compressedData.base = .block id → t.decompressedData.base ≠ .block id
  short : t.decompressedData.data = none → t.decompressedData.size + 1 < 2 ^ 32
  apart : ∀ call ∈ t.calls, ¬ call.src.Overlap call.dst

namespace ReusableBuffer

theorem Sound.empty (heap : Nat) : empty.Sound heap where
  length := by
    intro block held
    cases held
  old := by
    intro block held
    cases held
  small := by decide

theorem Sound.later {heap heap' : Nat} (sound : b.Sound heap) (later : heap ≤ heap') :
    b.Sound heap' where
  length := sound.length
  old := fun block held => Nat.lt_of_lt_of_le (sound.old block held) later
  small := sound.small

theorem base_eq_block {id : Nat} :
    b.base = .block id ↔ ∃ block, b.data = some block ∧ block.id = id := by
  unfold base
  cases b.data with
  | none => simp
  | some block => simp

theorem Sound.base_lt {heap id : Nat} (sound : b.Sound heap) (is : b.base = .block id) :
    id < heap := by
  obtain ⟨block, held, rfl⟩ := base_eq_block.mp is
  exact sound.old block held

/-- All that is known of the bytes of a sound buffer. -/
theorem Sound.length_bytes {heap : Nat} (sound : b.Sound heap) :
    b.bytes.length = b.size ∨ b.data = none ∧ b.bytes = [] := by
  unfold bytes
  cases held : b.data with
  | none => exact .inr ⟨rfl, rfl⟩
  | some block => exact .inl (sound.length block held)

@[simp] theorem base_withBytes (b : ReusableBuffer) (bytes : List Byte) :
    (b.withBytes bytes).base = b.base := by
  unfold withBytes base
  cases b.data <;> rfl

theorem data_withBytes_eq_none {bytes : List Byte} :
    (b.withBytes bytes).data = none ↔ b.data = none := Option.map_eq_none_iff

theorem Sound.withBytes {heap : Nat} {bytes : List Byte} (sound : b.Sound heap)
    (length : bytes.length = b.bytes.length) : (b.withBytes bytes).Sound heap where
  length := by
    intro written held
    obtain ⟨block, before, rfl⟩ := Option.map_eq_some_iff.mp held
    have size := sound.length block before
    rw [ReusableBuffer.bytes, before] at length
    exact length.trans size
  old := by
    intro written held
    obtain ⟨block, before, rfl⟩ := Option.map_eq_some_iff.mp held
    exact sound.old block before
  small := sound.small

end ReusableBuffer

/-- A pointer to a block that is not the one for decompressed data. -/
structure Foreign (base : Base) (t : Thread) : Prop where
  own : base ≠ .caller
  old : ∀ id, base = .block id → id < t.heap
  other : ∀ id, base = .block id → t.decompressedData.base ≠ .block id

namespace Thread.Sound

theorem start : Thread.start.Sound where
  compressed := .empty 0
  decompressed := .empty 0
  distinct := by
    intro id is
    cases is
  short := fun _ => by decide
  apart := by
    intro call recorded
    cases recorded

theorem foreign (sound : t.Sound) : Foreign t.compressedData.base t where
  own := by
    unfold ReusableBuffer.base
    cases t.compressedData.data <;> exact nofun
  old := fun _ is => sound.compressed.base_lt is
  other := sound.distinct

/-- The state after an allocation. -/
theorem allocated (sound : t.Sound) : { t with heap := t.heap + 1 : Thread }.Sound where
  compressed := sound.compressed.later (Nat.le_succ _)
  decompressed := sound.decompressed.later (Nat.le_succ _)
  distinct := sound.distinct
  short := sound.short
  apart := sound.apart

theorem buffer (sound : t.Sound) (which : Scratch) : (t.buffer which).Sound t.heap := by
  cases which with
  | compressed => exact sound.compressed
  | decompressed => exact sound.decompressed

/-- One buffer with another content, or with none. -/
theorem setBuffer (sound : t.Sound) (new : b.Sound t.heap)
    (same : ∀ id, b.base = .block id → (t.buffer which).base = .block id ∨
      ∀ other, (t.buffer other).base ≠ .block id)
    (short : which = .decompressed → b.data = none → b.size + 1 < 2 ^ 32) :
    (t.setBuffer which b).Sound := by
  cases which with
  | compressed =>
      exact {
        compressed := new
        decompressed := sound.decompressed
        distinct := by
          intro id is
          rcases same id is with kept | fresh
          · exact sound.distinct id kept
          · exact fresh .decompressed
        short := sound.short
        apart := sound.apart }
  | decompressed =>
      exact {
        compressed := sound.compressed
        decompressed := new
        distinct := by
          intro id is taken
          rcases same id taken with kept | fresh
          · exact sound.distinct id is kept
          · exact fresh .compressed is
        short := short rfl
        apart := sound.apart }

/-- A buffer whose block was written to. -/
theorem write {bytes : List Byte} (sound : t.Sound)
    (length : bytes.length = (t.buffer which).bytes.length) : (t.write which bytes).Sound := by
  apply sound.setBuffer ((sound.buffer which).withBytes length)
  · intro id is
    rw [ReusableBuffer.base_withBytes] at is
    exact .inl is
  · intro is none_held
    subst is
    exact sound.short (ReusableBuffer.data_withBytes_eq_none.mp none_held)

/-- The state after a use that was counted. -/
theorem afterBufferUse (sound : t.Sound) : t.afterBufferUse.Sound := by
  unfold Thread.afterBufferUse
  split
  · exact {
      compressed := .empty _
      decompressed := .empty _
      distinct := by
        intro id is
        cases is
      short := fun _ => Nat.lt_of_lt_of_le Nat.one_lt_two (by decide)
      apart := sound.apart }
  · exact {
      compressed := sound.compressed
      decompressed := sound.decompressed
      distinct := sound.distinct
      short := sound.short
      apart := sound.apart }

end Thread.Sound

/-! ## Allocation -/

/-- Bytes as an allocation left them. -/
def Fresh (mem : Memory) (n : Nat) (bytes : List Byte) : Prop :=
  ∃ k uninit, mem k = some uninit ∧ bytes = (List.range n).map uninit

theorem Fresh.length {bytes : List Byte} (fresh : Fresh mem n bytes) : bytes.length = n := by
  obtain ⟨_, _, -, rfl⟩ := fresh
  rw [List.length_map, List.length_range]

/-- `alloc` gives a new block of the length asked for, unless it throws. -/
theorem alloc_post (t : Thread) (n : Nat) :
    Post (alloc mem n t)
      (fun block t' => block.id = t.heap ∧ Fresh mem n block.bytes ∧
        t' = { t with heap := t.heap + 1 })
      (fun e t' => e = .badAlloc ∧ ¬ Grants mem ∧ t' = t) := by
  unfold alloc
  cases contents : mem t.heap with
  | some uninit => exact ⟨rfl, ⟨_, uninit, contents, rfl⟩, rfl⟩
  | none =>
      refine ⟨rfl, ?_, rfl⟩
      intro grants
      have some_content := grants t.heap
      rw [contents] at some_content
      cases some_content

/-- The state with a new block in one buffer. -/
theorem Thread.Sound.install (sound : t.Sound) (which : Scratch) {block : Block}
    (id : block.id = t.heap) (length : block.bytes.length = n) (small : n < 2 ^ 64) :
    ({ t with heap := t.heap + 1 : Thread }.setBuffer which ⟨some block, n⟩).Sound := by
  apply sound.allocated.setBuffer
  · exact {
      length := by
        rintro _ ⟨⟩
        exact length
      old := by
        rintro _ ⟨⟩
        show block.id < t.heap + 1
        omega
      small := small }
  · -- no buffer holds a block that was allocated only now
    rintro _ ⟨⟩
    refine .inr fun other is => ?_
    have before : block.id < t.heap := (sound.buffer other).base_lt (by
      rw [← is]
      cases other <;> rfl)
    omega
  · exact fun _ held => nomatch held

theorem Foreign.install {given_up : ReusableBuffer} (foreign : Foreign base t)
    {block : Block} (id : block.id = (t.setBuffer which given_up).heap) :
    Foreign base ({ t.setBuffer which given_up with
      heap := (t.setBuffer which given_up).heap + 1 : Thread }.setBuffer which
        ⟨some block, n⟩) where
  own := foreign.own
  old := by
    intro old is
    have before := foreign.old old is
    rw [Thread.heap_setBuffer] at id ⊢
    show old < (t.setBuffer which given_up).heap + 1
    rw [Thread.heap_setBuffer]
    omega
  other := by
    intro old is taken
    have before := foreign.old old is
    rw [Thread.heap_setBuffer] at id
    cases which with
    | compressed => exact foreign.other old is taken
    | decompressed =>
        cases taken
        omega

/-- A buffer that `reserve` leaves alone, or fills with a new block. -/
theorem reserve_post (sound : t.Sound) (which : Scratch) (n : Nat) (small : n < 2 ^ 64)
    (short : which = .decompressed → n < 2 ^ 32) :
    Post (reserve mem which n t)
      (fun _ t' => t'.Sound ∧ (∀ other ≠ which, t'.buffer other = t.buffer other) ∧
        (∀ base, Foreign base t → Foreign base t') ∧
        (¬ (t.buffer which).Stale n ∧ n ≤ (t'.buffer which).bytes.length ∧
            (Fresh mem n (t'.buffer which).bytes ∨
              n ≤ (t.buffer which).size ∧ t'.buffer which = t.buffer which) ∨
          (t.buffer which).Stale n ∧ (t'.buffer which).bytes = []))
      (fun e t' => e = .badAlloc ∧ ¬ Grants mem ∧ t'.Sound) := by
  unfold reserve
  rw [gets_bind]
  split
  · rename_i grows
    -- the old block is given up first
    have dropped : (t.setBuffer which ⟨none, (t.buffer which).size⟩).Sound := by
      apply sound.setBuffer
      · exact ⟨nofun, nofun, (sound.buffer which).small⟩
      · exact fun _ is => nomatch is
      · intro is _
        have below := short is
        show (t.buffer which).size + 1 < 2 ^ 32
        omega
    rw [modify_bind]
    apply Post.bind ((alloc_post _ n).mono (fun _ _ ends => ends) (by
      rintro e s' ⟨threw, denied, rfl⟩
      exact ⟨threw, denied, dropped⟩))
    rintro block s' ⟨id, fresh, rfl⟩
    refine Post.modify ⟨dropped.install which id fresh.length small, ?_, ?_, .inl ⟨?_, ?_, ?_⟩⟩
    · intro other ne
      rw [Thread.buffer_setBuffer_of_ne _ _ _ ne, Thread.buffer_heap,
        Thread.buffer_setBuffer_of_ne _ _ _ ne]
    · intro base foreign
      exact foreign.install id
    · rintro ⟨-, -, stale⟩
      omega
    · rw [Thread.buffer_setBuffer]
      exact Nat.le_of_eq fresh.length.symm
    · rw [Thread.buffer_setBuffer]
      exact .inl fresh
  · rename_i kept
    refine Post.pure ⟨sound, fun _ _ => rfl, fun _ foreign => foreign, ?_⟩
    rcases (sound.buffer which).length_bytes with length | ⟨none_held, empty⟩
    · refine .inl ⟨?_, by omega, .inr ⟨by omega, rfl⟩⟩
      rintro ⟨none_held, positive, -⟩
      have nothing : (t.buffer which).bytes = [] := by
        rw [ReusableBuffer.bytes, none_held]
      rw [nothing, List.length_nil] at length
      omega
    · by_cases positive : 0 < n
      · exact .inr ⟨⟨none_held, positive, by omega⟩, empty⟩
      · exact .inl ⟨fun stale => positive stale.2.1, by omega, .inr ⟨by omega, rfl⟩⟩

/-! ## Gathering the fragments -/

theorem copyFragments_within (fragments : List (List Byte)) {dst : List Byte} {at_ : Nat}
    (room : at_ + fragments.flatten.length ≤ dst.length) :
    copyFragments dst at_ fragments = .ok (overwrite dst at_ fragments.flatten) := by
  induction fragments generalizing dst at_ with
  | nil => simp [copyFragments]
  | cons fragment fragments ih =>
      rw [List.flatten_cons, List.length_append] at room
      have fits : at_ + fragment.length ≤ dst.length := by omega
      rw [copyFragments, store, if_pos fits]
      show copyFragments (overwrite dst at_ fragment) (at_ + fragment.length) fragments = _
      rw [ih (by rw [length_overwrite fits]; omega), overwrite_append (by omega),
        List.flatten_cons]

theorem copyFragments_null (fragments : List (List Byte)) (some_bytes : 0 < fragments.flatten.length) :
    copyFragments [] 0 fragments = .error .fault := by
  induction fragments with
  | nil => cases some_bytes
  | cons fragment fragments ih =>
      cases fragment with
      | nil => exact ih some_bytes
      | cons byte bytes => rfl

/-- `prepare` would write to a null pointer. -/
def Thread.CannotPrepare (t : Thread) (data : Buf) : Prop :=
  match data.bufs with
  | .buffer _ => False
  | .vector _ => t.decompressedData.Stale data.size.toNat

/-- `with_reserved` would give its function a null pointer. -/
def Thread.CannotReserve (t : Thread) (n : Nat) : Prop :=
  chunkSize < n ∧ t.compressedData.Stale n

/-- What `prepare` returns points to the content of its input. -/
theorem prepare_post (sound : t.Sound) (whole : data.Whole) :
    Post (prepare mem .decompressed data.bufs data.size.toNat t)
      (fun p t' => t'.Sound ∧ t'.compressedData = t.compressedData ∧
        (∀ base, Foreign base t → Foreign base t') ∧
        (p.1 = .caller ∨ p.1 = t'.decompressedData.base) ∧
        p.2.take data.content.length = data.content ∧ ¬ t.CannotPrepare data)
      (fun e t' => (e = .badAlloc ∧ ¬ Grants mem ∧ t'.Sound) ∨
        (e = .fault ∧ t.CannotPrepare data)) := by
  unfold Thread.CannotPrepare
  unfold Buf.Whole at whole
  cases bufs : data.bufs with
  | buffer single =>
      have content : data.content = single := by
        rw [Buf.content, bufs, Bufs.fragments, List.flatten_singleton]
      refine Post.pure ⟨sound, rfl, fun _ foreign => foreign, .inl rfl, ?_, id⟩
      rw [content, List.take_length]
  | vector fragments =>
      have content : data.content = fragments.flatten := by
        rw [Buf.content, bufs, Bufs.fragments]
      have fits : data.size.toNat < 2 ^ 32 := data.size.isLt
      apply Post.bind ((reserve_post sound .decompressed data.size.toNat (by omega)
        fun _ => fits).mono (fun _ _ ends => ends) fun _ _ stops => .inl stops)
      rintro - t₁ ⟨sound₁, others, foreign, room⟩
      rw [gets_bind]
      rcases room with ⟨ready, room, -⟩ | ⟨stale, null⟩
      · have fits : 0 + fragments.flatten.length ≤ (t₁.buffer .decompressed).bytes.length := by
          rw [← content, ← whole, Nat.zero_add]
          exact room
        rw [copyFragments_within fragments fits, ok_bind, modify_bind]
        refine Post.pure ⟨sound₁.write (length_overwrite fits), ?_, ?_, ?_, ?_, ready⟩
        · exact others .compressed nofun
        · intro base before
          refine ⟨before.own, (foreign base before).old, fun id is => ?_⟩
          show (t₁.decompressedData.withBytes _).base ≠ _
          rw [ReusableBuffer.base_withBytes]
          exact (foreign base before).other id is
        · exact .inr (ReusableBuffer.base_withBytes _ _).symm
        · have written := take_overwrite fragments.flatten
            (Nat.zero_le (t₁.buffer .decompressed).bytes.length)
          rw [Nat.zero_add] at written
          rw [content]
          exact written
      · have positive : 0 < fragments.flatten.length := by
          rw [← content, ← whole]
          exact stale.2.1
        rw [null, copyFragments_null fragments positive, error_bind]
        exact .inr ⟨rfl, stale⟩

/-! ## Handing out what was written -/

/-- The buffers for the first `n` bytes of a block. -/
def pack (dst : List Byte) (n : Nat) : Buf :=
  if n ≤ chunkSize then .ofBuffer (dst.take n) else .ofVector (cutChunks (dst.take n)) n

theorem content_pack (dst : List Byte) (n : Nat) : (pack dst n).content = dst.take n := by
  unfold pack
  split
  · exact List.flatten_singleton
  · exact flatten_cutChunks _

theorem size_pack {dst : List Byte} (inside : n ≤ dst.length) :
    (pack dst n).size = BitVec.ofNat 32 n := by
  unfold pack
  split
  · show BitVec.ofNat 32 (dst.take n).length = _
    rw [List.length_take, Nat.min_eq_left inside]
  · rfl

/-- The declared size is right as far as the field goes. -/
theorem whole_pack {dst : List Byte} (inside : n ≤ dst.length) :
    (pack dst n).Whole ↔ n < 2 ^ 32 := by
  unfold Buf.Whole
  rw [size_pack inside, content_pack, List.length_take, Nat.min_eq_left inside,
    BitVec.toNat_ofNat]
  constructor
  · intro whole
    rw [← whole]
    exact Nat.mod_lt _ (by decide)
  · exact Nat.mod_eq_of_lt

theorem load_within {src : List Byte} {at_ : Nat} (inside : at_ + n ≤ src.length) :
    load src at_ n = .ok ((src.drop at_).take n) := if_pos inside

/-- The loop of `with_reserved` cuts what is left into chunks. -/
theorem copyChunks_post {src : List Byte} (left pos : Nat) (sound : t.Sound)
    (inside : pos + left ≤ src.length) (positive : 0 < left) :
    Post (copyChunks mem src pos left t)
      (fun bufs t' => t'.Sound ∧ bufs = cutChunks ((src.drop pos).take left))
      (fun e t' => e = .badAlloc ∧ ¬ Grants mem ∧ t'.Sound) := by
  induction left using Nat.strongRecOn generalizing pos t with
  | ind left ih =>
      have chunk : 0 < chunkSize := by decide
      have length : ((src.drop pos).take left).length = left := by
        rw [List.length_take, List.length_drop]
        omega
      rw [copyChunks, dif_neg (by omega)]
      apply Post.bind ((alloc_post t _).mono (fun _ _ ends => ends) (by
        rintro e s ⟨threw, denied, rfl⟩
        exact ⟨threw, denied, sound⟩))
      rintro block s ⟨-, -, rfl⟩
      rw [load_within (by omega), ok_bind]
      by_cases last : left ≤ chunkSize
      · rw [Nat.min_eq_left last, copyChunks, dif_pos (Nat.sub_self left), cutChunks,
          if_pos (by rw [length]; exact last)]
        exact ⟨sound.allocated, rfl⟩
      · rw [Nat.min_eq_right (by omega)]
        apply Post.bind (ih (left - chunkSize) (by omega) (pos + chunkSize) sound.allocated
          (by omega) (by omega))
        rintro bufs s' ⟨sound', rfl⟩
        refine Post.pure ⟨sound', ?_⟩
        rw [cutChunks.eq_def ((src.drop pos).take left), if_neg (by rw [length]; exact last),
          List.take_take, Nat.min_eq_left (by omega), List.drop_take, List.drop_drop]

/-- What the destination of `n` bytes holds before the codec writes to it. -/
def Destination (mem : Memory) (t : Thread) (n : Nat) (dst : List Byte) : Prop :=
  Fresh mem n dst ∨ chunkSize < n ∧ n ≤ t.compressedData.size ∧ dst = t.compressedData.bytes

/-- What the function of `with_reserved` is given: a destination that is large enough,
or a null pointer. -/
def Room (mem : Memory) (t : Thread) (maxSize : Nat) (dst : List Byte) : Prop :=
  ¬ t.CannotReserve maxSize ∧ maxSize ≤ dst.length ∧ dst.length < 2 ^ 64 ∧
      Destination mem t maxSize dst ∨
    t.CannotReserve maxSize ∧ dst = []

/-- What it does with that: `R` is what it leaves and returns or throws, `E` how it
stops. -/
def Fills (mem : Memory) (t : Thread) (maxSize : Nat) (R : List Byte → Except Stop Nat → Prop)
    (E : Stop → Thread → Prop) (fn : Base → List Byte → Run (List Byte × Except Stop Nat)) :
    Prop :=
  ∀ base dst s, s.Sound → Foreign base s → s.decompressedData = t.decompressedData →
    Room mem t maxSize dst →
    Post (fn base dst s)
      (fun p s' => s'.Sound ∧ s'.compressedData = s.compressedData ∧
        p.1.length = dst.length ∧ R p.1 p.2 ∧ ∀ n, p.2 = .ok n → n ≤ maxSize ∧ n ≤ dst.length) E

/-- What is returned is copied out of the scratch buffer. -/
theorem copyOut_post {bytes : List Byte} (sound : t.Sound) (inside : n ≤ bytes.length) :
    Post ((if n ≤ chunkSize then do
        let _ ← alloc mem n
        let dst ← .ofExcept (load bytes 0 n)
        pure (.ofBuffer dst)
      else do
        let buffers ← copyChunks mem bytes 0 n
        pure (.ofVector buffers n) : Run Buf) t)
      (fun out t' => t'.Sound ∧ out = pack bytes n)
      (fun e t' => e = .badAlloc ∧ ¬ Grants mem ∧ t'.Sound) := by
  split
  · rename_i short
    apply Post.bind ((alloc_post t n).mono (fun _ _ ends => ends) (by
      rintro e s ⟨rfl, denied, rfl⟩
      exact ⟨rfl, denied, sound⟩))
    rintro block s ⟨-, -, rfl⟩
    rw [load_within (by omega), ok_bind]
    refine Post.pure ⟨sound.allocated, ?_⟩
    rw [pack, if_pos short, List.drop_zero]
  · rename_i chunked
    apply Post.bind (copyChunks_post n 0 sound (by omega) (by omega))
    rintro bufs s ⟨sound', rfl⟩
    refine Post.pure ⟨sound', ?_⟩
    rw [pack, if_neg chunked, List.drop_zero]

section

variable {fn : Base → List Byte → Run (List Byte × Except Stop Nat)} {maxSize : Nat}
  {R : List Byte → Except Stop Nat → Prop} {E : Stop → Thread → Prop}

/-- A small destination is a block of its own. -/
theorem withReserved_direct (sound : t.Sound) (direct : maxSize ≤ chunkSize)
    (fills : Fills mem t maxSize R E fn)
    (threw : ∀ t', t'.Sound → ¬ Grants mem → E .badAlloc t')
    (raised : ∀ dst e t', t'.Sound → R dst (.error e) → E e t') :
    Post (withReserved mem .compressed maxSize fn t)
      (fun out t' => t'.Sound ∧ ∃ dst n, R dst (.ok n) ∧ n ≤ dst.length ∧ out = pack dst n) E := by
  unfold withReserved
  rw [if_pos direct]
  apply Post.bind ((alloc_post t _).mono (fun _ _ ends => ends) (by
    rintro e s ⟨rfl, denied, rfl⟩
    exact threw _ sound denied))
  rintro block s ⟨id, fresh, rfl⟩
  have length := fresh.length
  have foreign : Foreign (.block block.id) { t with heap := t.heap + 1 : Thread } := {
    own := nofun
    old := by
      rintro _ ⟨⟩
      show block.id < t.heap + 1
      omega
    other := by
      rintro _ ⟨⟩ is
      have before := sound.decompressed.base_lt is
      omega }
  have small : chunkSize = 131072 := rfl
  apply Post.bind (fills (.block block.id) block.bytes _ sound.allocated foreign rfl
    (.inl ⟨fun cannot => by have long := cannot.1; omega, by omega, by omega, .inl fresh⟩))
  rintro ⟨bytes, size⟩ s ⟨sound', -, kept, result, bounded⟩
  cases size with
  | error e => exact raised _ _ _ sound' result
  | ok n =>
      dsimp only at kept result bounded ⊢
      rw [ok_bind]
      have bound := bounded n rfl
      refine Post.pure ⟨sound', bytes, n, result, by omega, ?_⟩
      rw [pack, if_pos (by omega)]

/-- The buffer is reserved, or it is the null pointer that an allocation left. -/
theorem room_of_reserve (long : chunkSize < maxSize) (sound : t'.Sound)
    (room : (¬ t.compressedData.Stale maxSize ∧ maxSize ≤ t'.compressedData.bytes.length ∧
        (Fresh mem maxSize t'.compressedData.bytes ∨
          maxSize ≤ t.compressedData.size ∧ t'.compressedData = t.compressedData)) ∨
      (t.compressedData.Stale maxSize ∧ t'.compressedData.bytes = [])) :
    Room mem t maxSize t'.compressedData.bytes := by
  have small := sound.compressed.small
  rcases room with ⟨ready, room, origin⟩ | ⟨stale, null⟩
  · refine .inl ⟨fun cannot => ready cannot.2, room, ?_, ?_⟩
    · rcases sound.compressed.length_bytes with length | ⟨-, nothing⟩
      · omega
      · rw [nothing]
        decide
    · rcases origin with fresh | ⟨large, same⟩
      · exact .inl fresh
      · exact .inr ⟨long, large, congrArg ReusableBuffer.bytes same⟩
  · exact .inr ⟨⟨long, stale⟩, null⟩

/-- A large one is the scratch buffer. -/
theorem withReserved_buffered (sound : t.Sound) (long : chunkSize < maxSize)
    (small : maxSize < 2 ^ 64) (fills : Fills mem t maxSize R E fn)
    (threw : ∀ t', t'.Sound → ¬ Grants mem → E .badAlloc t')
    (raised : ∀ dst e t', t'.Sound → R dst (.error e) → E e t') :
    Post (withReserved mem .compressed maxSize fn t)
      (fun out t' => t'.Sound ∧ ∃ dst n, R dst (.ok n) ∧ n ≤ dst.length ∧ out = pack dst n) E := by
  unfold withReserved
  rw [if_neg (by omega)]
  apply Post.bind ((reserve_post sound .compressed maxSize small nofun).mono
    (fun _ _ ends => ends) (by
      rintro e s ⟨rfl, denied, sound'⟩
      exact threw _ sound' denied))
  rintro - s ⟨sound₁, others, -, room⟩
  rw [gets_bind]
  apply Post.bind (fills s.compressedData.base s.compressedData.bytes s sound₁ sound₁.foreign
    (others .decompressed nofun) (room_of_reserve long sound₁ room))
  rintro ⟨bytes, size⟩ s' ⟨sound', same, kept, result, bounded⟩
  have written : (s'.write .compressed bytes).Sound :=
    sound'.write (by rw [kept, ← same]; rfl)
  dsimp only at kept result bounded ⊢
  rw [modify_bind]
  cases size with
  | error e => exact raised _ _ _ written result
  | ok n =>
      have inside : n ≤ bytes.length := by
        rw [kept]
        exact (bounded n rfl).2
      rw [ok_bind]
      refine (copyOut_post written inside).mono ?_ ?_
      · rintro out s ⟨sound', rfl⟩
        exact ⟨sound', bytes, n, result, inside, rfl⟩
      · rintro e s ⟨rfl, denied, sound'⟩
        exact threw _ sound' denied

/-- `with_reserved`, given what its function does. -/
theorem withReserved_post (sound : t.Sound) (small : maxSize < 2 ^ 64)
    (fills : Fills mem t maxSize R E fn)
    (threw : ∀ t', t'.Sound → ¬ Grants mem → E .badAlloc t')
    (raised : ∀ dst e t', t'.Sound → R dst (.error e) → E e t') :
    Post (withReserved mem .compressed maxSize fn t)
      (fun out t' => t'.Sound ∧ ∃ dst n, R dst (.ok n) ∧ n ≤ dst.length ∧ out = pack dst n) E := by
  rcases Nat.lt_or_ge chunkSize maxSize with long | direct
  · exact withReserved_buffered sound long small fills threw raised
  · exact withReserved_direct sound direct fills threw raised

end

/-! ## The two functions -/

/-- The areas of a call are apart, and the bytes land in the destination. -/
theorem callCodec_post {coded : Coded} {srcBase : Base} {offset length at_ capacity : Nat}
    {room : List Byte} (sound : t.Sound) (foreign : Foreign base t)
    (source : srcBase = .caller ∨ srcBase = t.decompressedData.base) :
    Post (callCodec ⟨srcBase, offset, length⟩ ⟨base, at_, capacity⟩ room coded t)
      (fun dst t' => t'.Sound ∧ t'.compressedData = t.compressedData ∧
        dst = overwrite room at_ coded.written ∧ at_ + capacity ≤ room.length)
      (fun e _ => e = .fault ∧ room.length < at_ + capacity) := by
  have recorded : { t with
      calls := ⟨⟨srcBase, offset, length⟩, ⟨base, at_, capacity⟩⟩ :: t.calls : Thread }.Sound := {
    compressed := sound.compressed
    decompressed := sound.decompressed
    distinct := sound.distinct
    short := sound.short
    apart := by
      intro call known
      rcases List.mem_cons.mp known with rfl | before
      · -- one pointer is not null and leads to the block for compressed data
        rintro ⟨same, not_null, -⟩
        cases srcBase with
        | null => exact not_null rfl
        | caller => exact foreign.own same.symm
        | block id =>
            rcases source with is | is
            · cases is
            · exact foreign.other id same.symm is.symm
      · exact sound.apart call before }
  unfold callCodec
  rw [modify_bind]
  split
  · rename_i fits
    exact ⟨recorded, rfl, rfl, fits⟩
  · rename_i beyond
    exact ⟨rfl, by
      show room.length < at_ + capacity
      have outside : ¬ at_ + capacity ≤ room.length := beyond
      omega⟩

/-- A read inside of what was gathered. -/
theorem load_gathered {src content : List Byte} {at_ : Nat}
    (gathered : src.take content.length = content) (inside : at_ + n ≤ content.length) :
    load src at_ n = .ok ((content.drop at_).take n) := by
  have length : content.length ≤ src.length := by
    rw [← gathered, List.length_take]
    exact Nat.min_le_right _ _
  rw [load_within (by omega)]
  conv_rhs => rw [← gathered]
  rw [List.drop_take, List.take_take, Nat.min_eq_left (by omega)]

theorem toNat_toInt_le {w : Nat} (x : BitVec w) : x.toInt.toNat ≤ x.toNat := by
  rw [BitVec.toInt_eq_toNat_cond]
  split <;> omega

/-- The size a compressed message declares. -/
def declaredSize (data : Buf) : Nat := ofBytesLE (data.content.take 4)

/-- What the decoder makes of a compressed message. -/
def decoded (lz4 : Codec) (data : Buf) : Coded :=
  let srcSize := data.size - 4#32
  lz4.decompressSafe ((data.content.drop 4).take srcSize.toInt.toNat) srcSize.toInt
    (BitVec.ofNat 32 (declaredSize data)).toInt

/-- All that `decompress` can give back. -/
inductive Decompresses (lz4 : Codec) (mem : Memory) (t : Thread) (data : Buf) :
    Except Stop Buf → Prop
  | short : data.size.toNat < 4 → Decompresses lz4 mem t data (.ok ⟨0#32, .vector []⟩)
  | unprepared : 4 ≤ data.size.toNat → t.CannotPrepare data →
      Decompresses lz4 mem t data (.error .fault)
  | zero : 4 ≤ data.size.toNat → ¬ t.CannotPrepare data → declaredSize data = 0 →
      Decompresses lz4 mem t data (.error (.runtimeError
        "RPC frame LZ4 decompression failure: decompressed size cannot be zero"))
  | unreserved : 4 ≤ data.size.toNat → ¬ t.CannotPrepare data → declaredSize data < 2 ^ 31 →
      t.CannotReserve (declaredSize data) → Decompresses lz4 mem t data (.error .fault)
  | rejected : 4 ≤ data.size.toNat → ¬ t.CannotPrepare data → declaredSize data ≠ 0 →
      (decoded lz4 data).ok = false →
      ¬ (declaredSize data < 2 ^ 31 ∧ t.CannotReserve (declaredSize data)) →
      Decompresses lz4 mem t data (.error (.runtimeError "RPC frame LZ4 decompression failure"))
  | accepted (dst : List Byte) : 4 ≤ data.size.toNat → ¬ t.CannotPrepare data →
      declaredSize data ≠ 0 → (decoded lz4 data).ok → ¬ t.CannotReserve (declaredSize data) →
      declaredSize data ≤ dst.length → Destination mem t (declaredSize data) dst →
      Decompresses lz4 mem t data
        (.ok (pack (overwrite dst 0 (decoded lz4 data).written) (declaredSize data)))
  | denied : ¬ Grants mem → Decompresses lz4 mem t data (.error .badAlloc)

/-- What `decompress` leaves in its destination, with what it returns or throws there. -/
def Decodes (lz4 : Codec) (mem : Memory) (t : Thread) (data : Buf) (dst : List Byte)
    (r : Except Stop Nat) : Prop :=
  r = .error (.runtimeError "RPC frame LZ4 decompression failure") ∧
      (decoded lz4 data).ok = false ∧
      ¬ (declaredSize data < 2 ^ 31 ∧ t.CannotReserve (declaredSize data)) ∨
    r = .ok (declaredSize data) ∧ (decoded lz4 data).ok ∧
      ¬ t.CannotReserve (declaredSize data) ∧
      ∃ room, declaredSize data ≤ room.length ∧ Destination mem t (declaredSize data) room ∧
        dst = overwrite room 0 (decoded lz4 data).written

/-- What `decompress` does with its destination. -/
def decodeInto (lz4 : Codec) (data : Buf) (srcBase : Base) (src : List Byte) (base : Base)
    (dst : List Byte) : Run (List Byte × Except Stop Nat) := do
  let srcSize := data.size - 4#32
  let dstSize := BitVec.ofNat 32 (declaredSize data)
  let src ← .ofExcept (load src 4 srcSize.toInt.toNat)
  let coded := lz4.decompressSafe src srcSize.toInt dstSize.toInt
  let dst ← callCodec ⟨srcBase, 4, srcSize.toInt.toNat⟩ ⟨base, 0, dstSize.toInt.toNat⟩ dst coded
  if coded.ok = false then
    pure (dst, .error (.runtimeError "RPC frame LZ4 decompression failure"))
  else pure (dst, .ok (declaredSize data))

theorem declaredSize_lt (data : Buf) (long : 4 ≤ data.content.length) :
    declaredSize data < 2 ^ 32 :=
  @ofBytesLE_lt (data.content.take 4) 4 (by rw [List.length_take]; omega)

/-- Sizes from 2 ^ 31 on are negative for LZ4. -/
theorem toInt_declaredSize (data : Buf) (small : declaredSize data < 2 ^ 32) :
    (BitVec.ofNat 32 (declaredSize data)).toInt =
      if declaredSize data < 2 ^ 31 then (declaredSize data : Int)
      else (declaredSize data : Int) - 2 ^ 32 := by
  rw [BitVec.toInt_eq_toNat_cond, BitVec.toNat_ofNat, Nat.mod_eq_of_lt small]
  split <;> split <;> omega

theorem decodeInto_fills {s : Thread} {srcBase : Base} {src : List Byte}
    (contained : lz4.Contained) (whole : data.Whole) (long : 4 ≤ data.size.toNat)
    (same : s.compressedData = t.compressedData) (prepared : ¬ t.CannotPrepare data)
    (source : srcBase = .caller ∨ srcBase = s.decompressedData.base)
    (gathered : src.take data.content.length = data.content) :
    Fills mem s (declaredSize data) (Decodes lz4 mem t data)
      (fun e t' => Decompresses lz4 mem t data (.error e) ∧ (e ≠ .fault → t'.Sound))
      (decodeInto lz4 data srcBase src) := by
  intro base dst u sound_u foreign kept room
  unfold Buf.Whole at whole
  have small := declaredSize_lt data (by omega)
  have reserve : s.CannotReserve (declaredSize data) ↔ t.CannotReserve (declaredSize data) := by
    rw [Thread.CannotReserve, same]
    rfl
  have srcSize := toNat_toInt_le (data.size - 4#32)
  have minus : (data.size - 4#32).toNat = data.size.toNat - 4 := BitVec.toNat_sub_of_le long
  unfold decodeInto
  dsimp only
  rw [load_gathered gathered (by omega), ok_bind]
  have coded : lz4.decompressSafe
      ((data.content.drop 4).take (data.size - 4#32).toInt.toNat) (data.size - 4#32).toInt
        (BitVec.ofNat 32 (declaredSize data)).toInt = decoded lz4 data := rfl
  rw [coded]
  have within : (decoded lz4 data).written.length ≤
      (BitVec.ofNat 32 (declaredSize data)).toInt.toNat := contained.decompress _ _ _
  have capacity := toInt_declaredSize data small
  -- a null pointer will do only where nothing can be written
  have ready : t.CannotReserve (declaredSize data) →
      0 + (BitVec.ofNat 32 (declaredSize data)).toInt.toNat ≤ dst.length →
      ¬ declaredSize data < 2 ^ 31 := by
    intro cannot fits below
    rcases room with ⟨reserved, -⟩ | ⟨-, rfl⟩
    · exact reserved (reserve.mpr cannot)
    · have long := cannot.1
      rw [capacity, if_pos below, List.length_nil] at fits
      omega
  apply Post.bind ((callCodec_post sound_u foreign (by rw [kept]; exact source)).mono
    (fun _ _ ends => ends) (by
      rintro e u' ⟨rfl, beyond⟩
      have less := toNat_toInt_le (BitVec.ofNat 32 (declaredSize data))
      rcases room with ⟨-, enough, -⟩ | ⟨cannot, rfl⟩
      · omega
      · refine ⟨.unreserved long prepared ?_ (reserve.mp cannot),
          fun none_left => absurd rfl none_left⟩
        rw [capacity, List.length_nil] at beyond
        split at beyond <;> omega))
  rintro dst' u' ⟨sound', same', rfl, fits⟩
  have length : (overwrite dst 0 (decoded lz4 data).written).length = dst.length :=
    length_overwrite (by omega)
  split
  · rename_i bad
    refine Post.pure ⟨sound', same', length, .inl ⟨rfl, bad, ?_⟩, nofun⟩
    rintro ⟨below, cannot⟩
    exact ready cannot fits below
  · rename_i good
    have good : (decoded lz4 data).ok := by simpa using good
    have nonnegative := contained.nonnegative _ _ _ good
    rw [capacity] at nonnegative
    have below : declaredSize data < 2 ^ 31 := by
      split at nonnegative <;> omega
    have reserved : ¬ t.CannotReserve (declaredSize data) := fun cannot => ready cannot fits below
    rw [capacity, if_pos below] at fits
    refine Post.pure ⟨sound', same', length, .inr ⟨rfl, good, reserved, dst, by omega, ?_, rfl⟩, ?_⟩
    · rcases room with ⟨-, -, -, origin⟩ | ⟨cannot, -⟩
      · unfold Destination at origin ⊢
        rw [← same]
        exact origin
      · exact absurd (reserve.mp cannot) reserved
    · rintro _ ⟨⟩
      exact ⟨Nat.le_refl _, by omega⟩

theorem decompress_post (mem : Memory) (contained : lz4.Contained) (sound : t.Sound)
    (whole : data.Whole) :
    Post (decompress lz4 mem data t)
      (fun out t' => Decompresses lz4 mem t data (.ok out) ∧ t'.Sound)
      (fun e t' => Decompresses lz4 mem t data (.error e) ∧ (e ≠ .fault → t'.Sound)) := by
  unfold decompress
  split
  · rename_i short
    exact ⟨.short short, sound⟩
  · rename_i long
    have long : 4 ≤ data.size.toNat := Nat.le_of_not_lt long
    have length : data.size.toNat = data.content.length := whole
    apply Post.bind ((prepare_post sound whole).mono (fun _ _ ends => ends) (by
      rintro e s (⟨rfl, denied, sound'⟩ | ⟨rfl, unprepared⟩)
      · exact ⟨.denied denied, fun _ => sound'⟩
      · exact ⟨.unprepared long unprepared, fun none_left => absurd rfl none_left⟩))
    rintro ⟨srcBase, src⟩ s ⟨sound₁, same, -, source, gathered, prepared⟩
    dsimp only at source gathered ⊢
    have small := declaredSize_lt data (by omega)
    have size : (BitVec.ofNat 32 (declaredSize data)).toNat = declaredSize data := by
      rw [BitVec.toNat_ofNat, Nat.mod_eq_of_lt small]
    have declared : ofBytesLE (data.content.take 4) = declaredSize data := rfl
    rw [load_gathered gathered (by omega), ok_bind, List.drop_zero, declared]
    split
    · rename_i is_zero
      refine ⟨.zero long prepared ?_, fun _ => sound₁⟩
      rw [← size, is_zero]
      rfl
    · rename_i nonzero
      have positive : declaredSize data ≠ 0 := fun is_zero => nonzero (by rw [is_zero])
      have fills := @decodeInto_fills lz4 mem t data s srcBase src contained whole long same
        prepared source gathered
      rw [size]
      apply Post.bind (withReserved_post sound₁ (by omega) fills ?_ ?_)
      · rintro out s' ⟨sound', dst, n, ⟨failed, -⟩ | ⟨returned, good, reserved, room, fits,
          origin, rfl⟩, inside, rfl⟩
        · cases failed
        · cases returned
          exact ⟨.accepted room long prepared positive good reserved fits origin,
            sound'.afterBufferUse⟩
      · intro s' sound' denied
        exact ⟨.denied denied, fun _ => sound'⟩
      · rintro dst e s' sound' (⟨failed, bad, ready⟩ | ⟨returned, -⟩)
        · cases failed
          exact ⟨.rejected long prepared positive bad ready, fun _ => sound'⟩
        · cases returned

/-- What the encoder makes of a message. -/
def encoded (lz4 : Codec) (data : Buf) : Coded :=
  lz4.compressDefault (data.content.take data.size.toInt.toNat) data.size.toInt
    (compressBound data.size.toNat)

/-- The room that `compress` asks for, when the sum fits a `size_t`. -/
def roomFor (headSpace : BitVec 64) (data : Buf) : Nat :=
  headSpace.toNat + 4 + compressBound data.size.toNat

/-- All that `compress` can give back. -/
inductive Compresses (lz4 : Codec) (mem : Memory) (t : Thread) (headSpace : BitVec 64)
    (data : Buf) : Except Stop Buf → Prop
  | unprepared : t.CannotPrepare data → Compresses lz4 mem t headSpace data (.error .fault)
  | unreserved : t.CannotReserve (roomFor headSpace data) →
      Compresses lz4 mem t headSpace data (.error .fault)
  | wrapped : 2 ^ 64 ≤ roomFor headSpace data → Compresses lz4 mem t headSpace data (.error .fault)
  | rejected : (encoded lz4 data).ok = false ∨ (encoded lz4 data).written = [] →
      Compresses lz4 mem t headSpace data
        (.error (.runtimeError "RPC frame LZ4 compression failure"))
  | accepted (space rest : List Byte) : ¬ t.CannotPrepare data → roomFor headSpace data < 2 ^ 64 →
      ¬ t.CannotReserve (roomFor headSpace data) → space.length = headSpace.toNat →
      Compresses lz4 mem t headSpace data (.ok (pack
        (space ++ toBytesLE 4 data.size.toNat ++ (encoded lz4 data).written ++ rest)
        (headSpace.toNat + 4 + (encoded lz4 data).written.length)))
  | denied : ¬ Grants mem → Compresses lz4 mem t headSpace data (.error .badAlloc)

/-- The size goes between the head space and the block. -/
theorem overwrite_header {dst bytes header : List Byte} {n : Nat} (four : header.length = 4)
    (inside : n + 4 + bytes.length ≤ dst.length) :
    overwrite (overwrite dst (n + 4) bytes) n header =
      dst.take n ++ header ++ bytes ++ dst.drop (n + 4 + bytes.length) := by
  have front : (overwrite dst (n + 4) bytes).take n = dst.take n := by
    rw [overwrite, List.append_assoc, List.take_append_of_le_length (by
      rw [List.length_take]; omega), List.take_take, Nat.min_eq_left (by omega)]
  have back : (overwrite dst (n + 4) bytes).drop (n + 4) =
      bytes ++ dst.drop (n + 4 + bytes.length) := by
    rw [overwrite, List.append_assoc]
    exact List.drop_left' (by rw [List.length_take]; omega)
  rw [overwrite, four, front, back, ← List.append_assoc]

/-- What `compress` leaves in its destination, with what it returns or throws there. -/
def Encodes (lz4 : Codec) (t : Thread) (headSpace : BitVec 64) (data : Buf) (dst : List Byte)
    (r : Except Stop Nat) : Prop :=
  r = .error (.runtimeError "RPC frame LZ4 compression failure") ∧
      ((encoded lz4 data).ok = false ∨ (encoded lz4 data).written = []) ∨
    r = .ok (headSpace.toNat + 4 + (encoded lz4 data).written.length) ∧
      ¬ t.CannotPrepare data ∧ roomFor headSpace data < 2 ^ 64 ∧
      ¬ t.CannotReserve (roomFor headSpace data) ∧
      ∃ space rest, space.length = headSpace.toNat ∧
        dst = space ++ toBytesLE 4 data.size.toNat ++ (encoded lz4 data).written ++ rest

/-- What `compress` does with its destination. -/
def encodeInto (lz4 : Codec) (mem : Memory) (headSpace : BitVec 64) (data : Buf) (base : Base)
    (dst : List Byte) : Run (List Byte × Except Stop Nat) := do
  let headSpace := headSpace + 4#64
  let srcSize := data.size
  let (srcBase, src) ← prepare mem .decompressed data.bufs data.size.toNat
  let capacity := compressBound srcSize.toNat
  let src ← .ofExcept (load src 0 srcSize.toInt.toNat)
  let coded := lz4.compressDefault src srcSize.toInt capacity
  let dst ← callCodec ⟨srcBase, 0, srcSize.toInt.toNat⟩ ⟨base, headSpace.toNat, capacity⟩
    dst coded
  if coded.ok = false ∨ coded.written = [] then
    pure (dst, .error (.runtimeError "RPC frame LZ4 compression failure"))
  else do
    let dst ← .ofExcept (store dst (headSpace - 4#64).toNat (toBytesLE 4 srcSize.toNat))
    pure (dst, .ok (coded.written.length + headSpace.toNat))

theorem toNat_headSpace (headSpace : BitVec 64) :
    (headSpace + 4#64).toNat = (headSpace.toNat + 4) % 2 ^ 64 := by
  rw [BitVec.toNat_add]
  rfl

theorem compressBound_short (data : Buf) : compressBound data.size.toNat < 2 ^ 32 := by
  unfold compressBound
  split <;> omega

/-- The room as the code sums it up. -/
theorem toNat_room (headSpace : BitVec 64) (data : Buf) :
    (headSpace + 4#64 + BitVec.ofNat 64 (compressBound data.size.toNat)).toNat =
      roomFor headSpace data % 2 ^ 64 := by
  have bound := compressBound_short data
  rw [BitVec.toNat_add, toNat_headSpace, BitVec.toNat_ofNat, roomFor]
  omega

/-- Less room than is needed ends the call, whether the sum wrapped or not. -/
theorem compresses_fault {headSpace : BitVec 64} {dst : List Byte}
    (room : Room mem t (roomFor headSpace data % 2 ^ 64) dst)
    (less : roomFor headSpace data < 2 ^ 64 → dst.length < roomFor headSpace data) :
    Compresses lz4 mem t headSpace data (.error .fault) := by
  by_cases fits : roomFor headSpace data < 2 ^ 64
  · rw [Nat.mod_eq_of_lt fits] at room
    rcases room with ⟨-, enough, -⟩ | ⟨cannot, -⟩
    · have short := less fits
      omega
    · exact .unreserved cannot
  · exact .wrapped (by omega)

theorem encodeInto_fills {headSpace : BitVec 64} (contained : lz4.Contained)
    (whole : data.Whole) :
    Fills mem t (headSpace + 4#64 + BitVec.ofNat 64 (compressBound data.size.toNat)).toNat
      (Encodes lz4 t headSpace data)
      (fun e t' => Compresses lz4 mem t headSpace data (.error e) ∧ (e ≠ .fault → t'.Sound))
      (encodeInto lz4 mem headSpace data) := by
  intro base dst s sound₁ foreign kept room
  have total := toNat_room headSpace data
  rw [total] at room
  have bound := compressBound_short data
  have four := toNat_headSpace headSpace
  have back : headSpace + 4#64 - 4#64 = headSpace := BitVec.add_sub_cancel _ _
  have prepare : s.CannotPrepare data ↔ t.CannotPrepare data := by
    rw [Thread.CannotPrepare, kept]
    rfl
  apply Post.bind ((prepare_post sound₁ whole).mono (fun _ _ ends => ends) (by
    rintro e u (⟨rfl, denied, sound'⟩ | ⟨rfl, unprepared⟩)
    · exact ⟨.denied denied, fun _ => sound'⟩
    · exact ⟨.unprepared (prepare.mp unprepared), fun none_left => absurd rfl none_left⟩))
  rintro ⟨srcBase, src⟩ u ⟨sound_u, same, foreign_u, source, gathered, prepared⟩
  dsimp only at source gathered ⊢
  have srcSize := toNat_toInt_le data.size
  unfold Buf.Whole at whole
  rw [load_gathered gathered (by omega), ok_bind, List.drop_zero]
  have coded : lz4.compressDefault (data.content.take data.size.toInt.toNat) data.size.toInt
      (compressBound data.size.toNat) = encoded lz4 data := rfl
  rw [coded]
  have within : (encoded lz4 data).written.length ≤ compressBound data.size.toNat :=
    contained.compress _ _ _
  apply Post.bind ((callCodec_post sound_u (foreign_u base foreign) source).mono
    (fun _ _ ends => ends) (by
      rintro e u' ⟨rfl, beyond⟩
      refine ⟨compresses_fault room fun fits => ?_, fun none_left => absurd rfl none_left⟩
      unfold roomFor at fits ⊢
      omega))
  rintro dst' u' ⟨sound', same', rfl, fits⟩
  have length : (overwrite dst (headSpace + 4#64).toNat (encoded lz4 data).written).length =
      dst.length := length_overwrite (by omega)
  split
  · rename_i bad
    exact Post.pure ⟨sound', same'.trans same, length, .inl ⟨rfl, bad⟩, nofun⟩
  rw [back, store, length, length_toBytesLE]
  by_cases inside : headSpace.toNat + 4 ≤ dst.length
  · -- the destination ends below 2 ^ 64, so no sum wrapped
    have ends : ¬ t.CannotReserve (roomFor headSpace data % 2 ^ 64) ∧ dst.length < 2 ^ 64 := by
      rcases room with ⟨reserved, -, small, -⟩ | ⟨-, rfl⟩
      · exact ⟨reserved, small⟩
      · exact absurd inside (by rw [List.length_nil]; omega)
    have sum : (headSpace + 4#64).toNat = headSpace.toNat + 4 := by omega
    rw [sum] at fits
    have small : roomFor headSpace data < 2 ^ 64 := by
      unfold roomFor
      omega
    rw [Nat.mod_eq_of_lt small] at ends
    rw [if_pos inside, ok_bind, sum, overwrite_header (length_toBytesLE 4 _) (by omega)]
    refine Post.pure ⟨sound', same'.trans same, ?_, .inr ⟨?_, fun cannot => ?_, small, ends.1,
      dst.take headSpace.toNat, _, ?_, rfl⟩, ?_⟩
    · simp only [List.length_append, List.length_take, List.length_drop, length_toBytesLE]
      omega
    · rw [Nat.add_comm]
    · exact prepared (prepare.mpr cannot)
    · rw [List.length_take]
      omega
    · rintro _ ⟨⟩
      rw [total, Nat.mod_eq_of_lt small]
      unfold roomFor
      omega
  · rw [if_neg inside, error_bind]
    refine ⟨compresses_fault room fun _ => ?_, fun none_left => absurd rfl none_left⟩
    unfold roomFor
    omega

theorem compress_post (mem : Memory) (contained : lz4.Contained) (sound : t.Sound)
    (whole : data.Whole) (headSpace : BitVec 64) :
    Post (compress lz4 mem headSpace data t)
      (fun out t' => Compresses lz4 mem t headSpace data (.ok out) ∧ t'.Sound)
      (fun e t' => Compresses lz4 mem t headSpace data (.error e) ∧ (e ≠ .fault → t'.Sound)) := by
  have fills := @encodeInto_fills lz4 mem t data headSpace contained whole
  unfold compress
  apply Post.bind (withReserved_post sound (BitVec.isLt _) fills ?_ ?_)
  · rintro out s' ⟨sound', dst, n, ⟨failed, -⟩ | ⟨returned, prepared, fits, reserved, space, rest,
      length, rfl⟩, inside, rfl⟩
    · cases failed
    · cases returned
      exact ⟨.accepted space rest prepared fits reserved length, sound'.afterBufferUse⟩
  · intro s' sound' denied
    exact ⟨.denied denied, fun _ => sound'⟩
  · rintro dst e s' sound' (⟨failed, bad⟩ | ⟨returned, -⟩)
    · cases failed
      exact ⟨.rejected bad, fun _ => sound'⟩
    · cases returned

/-! ## Runs -/

/-- One call keeps a sound state. -/
theorem Thread.Sound.call (contained : lz4.Contained) (sound : t.Sound) {call : Call}
    {r : Except Stop Buf} (whole : call.data.Whole) (ran : call.run lz4 mem t = (r, t'))
    (fine : r ≠ .error .fault) : t'.Sound := by
  have kept : Post (call.run lz4 mem t) (fun _ s => s.Sound) (fun e s => e ≠ .fault → s.Sound) := by
    cases call with
    | compress headSpace data =>
        exact (compress_post mem contained sound whole headSpace).mono (fun _ _ ends => ends.2)
          fun _ _ stops => stops.2
    | decompress data =>
        exact (decompress_post mem contained sound whole).mono (fun _ _ ends => ends.2)
          fun _ _ stops => stops.2
  rw [ran] at kept
  cases r with
  | ok out => exact kept
  | error e => exact kept fun is => fine (by rw [is])

/-- Every history without a fault leads to a sound state. -/
theorem Reached.sound {heaps : Memory → Prop} (contained : lz4.Contained)
    (reached : Reached lz4 heaps t) : t.Sound := by
  induction reached with
  | start => exact Thread.Sound.start
  | call _ _ whole ran fine ih => exact ih.call contained whole ran fine

end ActorNet.Rpc.Lz4Compressor
