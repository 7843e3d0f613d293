import VirtioDisk.BlockContents

/-!
The refcounts of an image by its blocks, in the cache and in the file, and what the
steps of the allocator do to them: each one by what the state before it and the host
must be like, so that no count is lost and no other one is taken for it.
-/

namespace VirtioDisk.RefcountView

open BlockContents NodeCache NodeInvariants QcowNodes
open QcowImage (ImageFile RefcountBlock)
open QcowWrite (Machine tableBytes)
open RefcountConsistency (Clean storedCount sync_inside)

/-- An operation gives a result and leaves a state of this kind. -/
def Sure {Result : Type} (op : Op Result) (post : Result → Image → Prop) (s : Image) : Prop :=
  ∃ result after, op s = (.ok result, after) ∧ post result after

/-- What holds where the program goes on after an operation. -/
def After {Result : Type} (op : Op Result) (s : Image) (holds : Result → Image → Prop) : Prop :=
  ∀ result after, op s = (.ok result, after) → holds result after

section Rules
variable {First Second : Type} {op : Op First} {rest : First → Op Second} {s after : Image}
  {result : First} {post other : First → Image → Prop} {last : Second → Image → Prop}

theorem sure_ran (ran : op s = (.ok result, after)) (holds : post result after) : Sure op post s :=
  ⟨result, after, ran, holds⟩

theorem sure_pure (holds : post result s) : Sure (pure result) post s := sure_ran rfl holds

theorem Sure.imp (sure : Sure op post s) (more : ∀ result after, post result after →
    other result after) : Sure op other s := by
  obtain ⟨result, after, ran, holds⟩ := sure
  exact sure_ran ran (more result after holds)

theorem Sure.also (sure : Sure op post s) (holds : After op s other) :
    Sure op (fun result after => post result after ∧ other result after) s := by
  obtain ⟨result, after, ran, kept⟩ := sure
  exact sure_ran ran ⟨kept, holds result after ran⟩

theorem Sure.bind (sure : Sure op (fun result after => Sure (rest result) last after) s) :
    Sure (op >>= rest) last s := by
  obtain ⟨result, after, ran, next⟩ := sure
  unfold Sure
  rw [bind_ok ran]
  exact next

instance [∀ result after, Decidable (post result after)] : Decidable (After op s post) :=
  match ran : op s with
  | (.ok result, after) => decidable_of_iff (post result after)
      ⟨fun holds _ _ other => by cases ran.symm.trans other; exact holds,
        fun holds => holds result after ran⟩
  | (.error _, _) => .isTrue fun _ _ other => by cases ran.symm.trans other

end Rules

/-! The counts. -/

instance (s : Image) (clustIdx : UInt64) : Decidable (Uncovered s clustIdx) :=
  inferInstanceAs (Decidable (_ ∨ _))

/-- The entries of the block at an offset. -/
def content (s : Image) (offset : UInt64) : Nat → UInt16 :=
  match held blockKey offset.toNat s.rf with
  | some rfb => rfb.entries
  | none => storedCount s.disk.file offset.toNat

def blockOffset (s : Image) (clustIdx : UInt64) : UInt64 := s.rfTable (rftIndex s clustIdx)

/-- A cluster without a block has no references. -/
def refcount (s : Image) (clustIdx : UInt64) : UInt16 :=
  if Uncovered s clustIdx then 0 else content s (blockOffset s clustIdx) (rfbIndex s clustIdx)

/-- The cache is in order and agrees with the file. -/
structure Ready (s : Image) : Prop where
  bits : 1 ≤ s.header.clusterBits ∧ s.header.clusterBits ≤ 30
  ordered : Ordered s
  known : ∀ offset, Named s offset → Contains s offset (content s offset)

section Counts
variable {s after : Image} {clustIdx offset : UInt64} {entries : Nat → UInt16}

theorem contains_content (has : Contains s offset entries) :
    ∀ i < s.clusterSize / 2, content s offset i = entries i := by
  unfold Contains Has at has
  unfold content
  split at has
  · next missing =>
      rw [missing]
      exact has
  · next rfb there =>
      rw [there]
      exact has.1

theorem Has.congr {size : Nat} {rf : Cache RefcountBlock} {file : ReadWrite.File}
    {first second : Nat → UInt16} (has : Has size rf file offset first)
    (same : ∀ i < size, second i = first i) : Has size rf file offset second := by
  unfold Has at has ⊢
  split at has
  · next missing =>
      exact fun i early => (has i early).trans (same i early).symm
  · next rfb there =>
      exact ⟨fun i early => (has.1 i early).trans (same i early).symm,
        fun tidy i early => (has.2 tidy i early).trans (same i early).symm⟩

theorem Contains.known (has : Contains s offset entries) :
    Contains s offset (content s offset) :=
  Has.congr has (contains_content has)

theorem half_cluster (bits : 1 ≤ s.header.clusterBits) :
    s.clusterSize / 2 = 2 ^ (s.header.clusterBits - 1) := by
  rw [Image.clusterSize]
  obtain ⟨less, same⟩ := Nat.exists_eq_add_of_le bits
  rw [same, Nat.add_sub_cancel_left, Nat.pow_add]
  omega

theorem rfb_index_lt (bits : 1 ≤ s.header.clusterBits) (clustIdx : UInt64) :
    rfbIndex s clustIdx < s.clusterSize / 2 := by
  rw [half_cluster bits]
  exact Nat.mod_lt _ (Nat.two_pow_pos _)

theorem Covered.named (covered : ¬ Uncovered s clustIdx) : Named s (blockOffset s clustIdx) := by
  obtain ⟨inside, somewhere⟩ := not_or.mp covered
  exact ⟨_, Nat.not_le.mp inside, rfl, somewhere⟩

theorem refcount_uncovered (uncovered : Uncovered s clustIdx) : refcount s clustIdx = 0 :=
  if_pos uncovered

theorem refcount_of_contains (bits : 1 ≤ s.header.clusterBits) (covered : ¬ Uncovered s clustIdx)
    (has : Contains s (blockOffset s clustIdx) entries) :
    refcount s clustIdx = entries (rfbIndex s clustIdx) :=
  (if_neg covered).trans (contains_content has _ (rfb_index_lt bits clustIdx))

theorem Ready.refcount (ready : Ready s) (covered : ¬ Uncovered s clustIdx) {p : Nat}
    {rfb : RefcountBlock} (there : s.rf.cells p = some rfb)
    (own : rfb.offset = blockOffset s clustIdx) :
    RefcountView.refcount s clustIdx = rfb.entries (rfbIndex s clustIdx) := by
  have held := Blocks.held ready.ordered there
  rw [RefcountView.refcount, if_neg covered, content, ← own, held]

end Counts

/-! What an allocation changes. -/

/-- The cluster of a block that the table did not have before. -/
def GrownAt (s after : Image) (clustIdx : UInt64) : Prop :=
  ∃ i < s.rfSize, s.rfTable i = 0 ∧ after.rfTable i ≠ 0 ∧
    after.rfTable i >>> UInt64.ofNat s.header.clusterBits = clustIdx

/-- A node that was there before belongs to the block that it belonged to. -/
structure Older (rf after : Cache RefcountBlock) : Prop where
  next : rf.next ≤ after.next
  nodes : ∀ p < rf.next, ∀ now, after.cells p = some now →
    ∃ before, rf.cells p = some before ∧ before.offset = now.offset

/-- Some clusters without references have one now, and the others have theirs. -/
structure Moved (s after : Image) (marked : UInt64 → Prop) : Prop where
  header : after.header = s.header
  rfSize : after.rfSize = s.rfSize
  ready : Ready after
  free : s.freeClustIdx.toNat ≤ after.freeClustIdx.toNat
  table : ∀ i, s.rfTable i ≠ 0 → after.rfTable i = s.rfTable i
  taken : ∀ clustIdx, marked clustIdx → refcount s clustIdx = 0 ∧ refcount after clustIdx = 1
  others : ∀ clustIdx, ¬ marked clustIdx → refcount after clustIdx = refcount s clustIdx
  older : Older s.rf after.rf

abbrev Recached (s after : Image) : Prop :=
  Moved s after (fun _ => False) ∧ after.rfTable = s.rfTable

abbrev Looked (s after : Image) : Prop :=
  Recached s after ∧ after.freeClustIdx = s.freeClustIdx

/-- The marked clusters have a reference now, and so have those of the blocks that grew,
which are behind these. -/
structure Counted (floor : Nat) (s after : Image) (marked : UInt64 → Prop) : Prop where
  moved : Moved s after fun clustIdx => marked clustIdx ∨ GrownAt s after clustIdx
  behind : ∀ clustIdx, GrownAt s after clustIdx → floor ≤ clustIdx.toNat

section Relation
variable {s middle after : Image} {first second marked : UInt64 → Prop} {clustIdx : UInt64}

theorem Older.trans {rf middle after : Cache RefcountBlock} (before : Older rf middle)
    (behind : Older middle after) : Older rf after := by
  refine ⟨Nat.le_trans before.next behind.next, ?_⟩
  intro p known now there
  obtain ⟨between, here, same⟩ :=
    behind.nodes p (Nat.lt_of_lt_of_le known before.next) now there
  obtain ⟨old, was, still⟩ := before.nodes p known between here
  exact ⟨old, was, still.trans same⟩

theorem grown_same (same : after.rfTable = s.rfTable) : ¬ GrownAt s after clustIdx := by
  rintro ⟨i, _, nowhere, somewhere, _⟩
  exact somewhere (by rwa [same])

theorem Moved.grown_trans (before : Moved s middle first) (behind : Moved middle after second) :
    GrownAt s after clustIdx ↔ GrownAt s middle clustIdx ∨ GrownAt middle after clustIdx := by
  unfold GrownAt
  rw [before.header, before.rfSize]
  constructor
  · rintro ⟨i, inside, nowhere, somewhere, own⟩
    by_cases absent : middle.rfTable i = 0
    · exact .inr ⟨i, inside, absent, somewhere, own⟩
    · rw [behind.table i absent] at own
      exact .inl ⟨i, inside, nowhere, absent, own⟩
  · rintro (⟨i, inside, nowhere, somewhere, own⟩ | ⟨i, inside, nowhere, somewhere, own⟩)
    · have same := behind.table i somewhere
      exact ⟨i, inside, nowhere, same ▸ somewhere, same ▸ own⟩
    · refine ⟨i, inside, ?_, somewhere, own⟩
      by_contra there
      exact there ((before.table i there).symm.trans nowhere)

theorem Moved.trans (before : Moved s middle first) (behind : Moved middle after second) :
    Moved s after fun clustIdx => first clustIdx ∨ second clustIdx where
  header := behind.header.trans before.header
  rfSize := behind.rfSize.trans before.rfSize
  ready := behind.ready
  free := Nat.le_trans before.free behind.free
  table := by
    intro i somewhere
    have same := before.table i somewhere
    rw [behind.table i (by rwa [same]), same]
  taken := by
    intro clustIdx taken
    by_cases early : first clustIdx
    · obtain ⟨zero, one⟩ := before.taken clustIdx early
      refine ⟨zero, (behind.others clustIdx ?_).trans one⟩
      -- What has a reference is not taken again.
      intro late
      rw [(behind.taken clustIdx late).1] at one
      exact absurd one (by decide)
    · obtain ⟨zero, one⟩ := behind.taken clustIdx (taken.resolve_left early)
      exact ⟨(before.others clustIdx early).symm.trans zero, one⟩
  others := by
    intro clustIdx neither
    obtain ⟨early, late⟩ := not_or.mp neither
    exact (behind.others clustIdx late).trans (before.others clustIdx early)
  older := before.older.trans behind.older

theorem Moved.congr (moved : Moved s after first) (same : ∀ clustIdx, second clustIdx ↔
    first clustIdx) : Moved s after second :=
  { moved with
    taken := fun clustIdx taken => moved.taken clustIdx ((same clustIdx).mp taken)
    others := fun clustIdx not => moved.others clustIdx (mt (same clustIdx).mpr not) }

theorem Counted.congr {floor : Nat} (counted : Counted floor s after first)
    (same : ∀ clustIdx, second clustIdx ↔ first clustIdx) : Counted floor s after second :=
  ⟨counted.moved.congr fun clustIdx => or_congr_left (same clustIdx), counted.behind⟩

theorem Counted.trans {floor : Nat} (before : Counted floor s middle first)
    (behind : Counted floor middle after second) :
    Counted floor s after fun clustIdx => first clustIdx ∨ second clustIdx := by
  have grown (clustIdx : UInt64) : GrownAt s after clustIdx ↔ _ :=
    before.moved.grown_trans behind.moved
  refine ⟨(before.moved.trans behind.moved).congr ?_, ?_⟩
  · intro clustIdx
    rw [grown, or_or_or_comm]
  · intro clustIdx either
    exact ((grown clustIdx).mp either).elim (before.behind clustIdx) (behind.behind clustIdx)

theorem Counted.lower {floor lower : Nat} (counted : Counted floor s after marked)
    (less : lower ≤ floor) : Counted lower s after marked :=
  ⟨counted.moved, fun clustIdx grown => Nat.le_trans less (counted.behind clustIdx grown)⟩

/-- Where the table is the same, no block grew. -/
theorem counted_same {floor : Nat} (moved : Moved s after marked)
    (same : after.rfTable = s.rfTable) : Counted floor s after marked :=
  ⟨moved.congr fun _ => or_iff_left (grown_same same),
    fun _ grown => absurd grown (grown_same same)⟩

theorem Recached.counted {floor : Nat} (same : Recached s middle)
    (counted : Counted floor middle after marked) : Counted floor s after marked :=
  ((counted_same same.1 same.2).trans counted).congr fun _ => (false_or _).to_iff.symm

theorem Recached.then (same : Recached s middle) (moved : Moved middle after marked) :
    Moved s after marked :=
  (same.1.trans moved).congr fun _ => (false_or _).to_iff.symm

theorem Recached.trans (first : Recached s middle) (second : Recached middle after) :
    Recached s after :=
  ⟨first.then second.1, second.2.trans first.2⟩

theorem Recached.refcount (same : Recached s after) (clustIdx : UInt64) :
    RefcountView.refcount after clustIdx = RefcountView.refcount s clustIdx :=
  same.1.others clustIdx not_false

theorem Recached.uncovered (same : Recached s after) :
    Uncovered after clustIdx ↔ Uncovered s clustIdx := by
  unfold Uncovered rftIndex
  rw [same.1.header, same.1.rfSize, same.2]

theorem Recached.block_offset (same : Recached s after) : blockOffset after clustIdx =
    blockOffset s clustIdx := by
  unfold blockOffset rftIndex
  rw [same.1.header, same.2]

/-- The blocks have the entries that they had. -/
theorem recached_blocks (ready : Ready s) (header : after.header = s.header)
    (rfSize : after.rfSize = s.rfSize) (table : after.rfTable = s.rfTable)
    (free : s.freeClustIdx.toNat ≤ after.freeClustIdx.toNat) (ordered : Ordered after)
    (older : Older s.rf after.rf)
    (blocks : ∀ offset content, Named s offset → Contains s offset content →
      Contains after offset content) : Recached s after := by
  have named {offset : UInt64} (named : Named after offset) : Named s offset := by
    unfold Named at named
    rwa [rfSize, table] at named
  have uncovered (clustIdx : UInt64) : Uncovered after clustIdx ↔ Uncovered s clustIdx := by
    unfold Uncovered rftIndex
    rw [header, rfSize, table]
  refine ⟨⟨header, rfSize, ⟨?_, ordered, ?_⟩, free, ?_, nofun, ?_, older⟩, table⟩
  · rw [header]
    exact ready.bits
  · intro offset there
    have old := named there
    exact Contains.known (blocks offset _ old (ready.known offset old))
  · intro i _
    rw [table]
  · intro clustIdx _
    by_cases gone : Uncovered s clustIdx
    · rw [refcount_uncovered gone, refcount_uncovered ((uncovered clustIdx).mpr gone)]
    · have covered := mt (uncovered clustIdx).mp gone
      have old := Covered.named gone
      have has := blocks _ _ old (ready.known _ old)
      have offset : blockOffset after clustIdx = blockOffset s clustIdx := by
        unfold blockOffset rftIndex
        rw [header, table]
      have index : rfbIndex after clustIdx = rfbIndex s clustIdx := by
        unfold rfbIndex
        rw [header]
      rw [← offset] at has
      rw [refcount_of_contains (header ▸ ready.bits.1) covered has, index,
        RefcountView.refcount, if_neg gone, offset]

theorem recached_refl (ready : Ready s) : Recached s s :=
  recached_blocks ready rfl rfl rfl (Nat.le_refl _) ready.ordered
    ⟨Nat.le_refl _, fun _ _ now there => ⟨now, there, rfl⟩⟩ fun _ _ _ has => has

end Relation

/-! The steps that count nothing. -/

/-- The read of the block of a cluster, when the cache has it not: it fails, or gives the
whole block, and no dirty node makes room for it. -/
def SoundRead (s : Image) (clustIdx : UInt64) : Prop :=
  ¬ Uncovered s clustIdx → find blockKey (blockOffset s clustIdx).toNat s.rf = none →
    ∀ bytes ∈ readBlock s (blockOffset s clustIdx),
      bytes.length = 2 * (s.clusterSize / 2) ∧ ¬ DirtyLeaves s.rf

instance (s : Image) (clustIdx : UInt64) : Decidable (SoundRead s clustIdx) :=
  inferInstanceAs (Decidable (_ → _ → _))

section Looks
variable {m : Machine} {s : Image} {offset clustIdx : UInt64}

theorem search_recached (ready : Ready s) (offset : UInt64) :
    ∃ after, refcountBlockSearch offset s = (.ok (find blockKey offset.toNat s.rf), after) ∧
      Looked s after ∧ after.rf.cells = s.rf.cells ∧
      (find blockKey offset.toNat s.rf = none → after = s) := by
  obtain ⟨rf, found, blocks, cells, next, held⟩ := Blocks.search ready.ordered offset
  refine ⟨{ s with rf := rf }, ?_, ?_, cells, ?_⟩
  · rw [refcountBlockSearch, found]
  · refine ⟨recached_blocks ready rfl rfl rfl (Nat.le_refl _) blocks
      ⟨Nat.le_of_eq next.symm, ?_⟩ ?_, rfl⟩
    · intro p _ now there
      exact ⟨now, (congrFun cells p).symm.trans there, rfl⟩
    · exact fun other _ _ has => (has_congr (held other.toNat)).mpr has
  · intro missing
    rw [search, if_neg ready.ordered.sound.intact, missing] at found
    cases found
    rfl

theorem load_sure (ready : Ready s) (named : Named s offset)
    (missing : find blockKey offset.toNat s.rf = none)
    (sound : ∀ bytes ∈ readBlock s offset,
      bytes.length = 2 * (s.clusterSize / 2) ∧ ¬ DirtyLeaves s.rf) :
    Sure (loadRefcountBlock m offset) (fun block after => Looked s after ∧
      match block with
      | .absent => False
      | .failed => True
      | .found p => ∃ rfb, after.rf.cells p = some rfb ∧ rfb.offset = offset) s := by
  rcases load_block_ran m ready.ordered named missing with
    ⟨disk, file, ran⟩ | ⟨turns, rf, disk, ran, loaded⟩
  · refine sure_ran ran ⟨⟨?_, rfl⟩, trivial⟩
    refine recached_blocks ready rfl rfl rfl (Nat.le_refl _) ?_
      ⟨Nat.le_refl _, fun _ _ now there => ⟨now, there, rfl⟩⟩ ?_
    · refine Blocks.rewritten ready.ordered ?_
      rw [file]
      exact ready.ordered.clean
    · intro other content _ has
      apply has.rewritten
      rw [file]
      exact fun _ _ => rfl
  · obtain ⟨bytes, read⟩ := loaded.read
    have whole : WholeRead s offset := fun bytes read => (sound bytes read).1
    have tidy : ¬ DirtyLeaves s.rf := (sound bytes read).2
    refine sure_ran ran ?_
    refine ⟨⟨recached_blocks ready rfl rfl rfl (Nat.le_refl _) loaded.ordered ⟨?_, ?_⟩ ?_, rfl⟩,
      loaded.node⟩
    · rw [loaded.next]
      exact Nat.le_succ _
    · intro p known now there
      exact ⟨now, loaded.cells p now (Nat.ne_of_lt known) there, rfl⟩
    · intro other content _ has
      by_cases own : other = offset
      · subst own
        exact loaded.own whole content has
      · exact loaded.others tidy other content own has

/-- The block of a cluster is cached after it was read, with the counts as they were. -/
theorem read_block_sure (m : Machine) (ready : Ready s) (sound : SoundRead s clustIdx) :
    Sure (qcowReadRefcountBlock m clustIdx) (fun block after => Looked s after ∧
      match block with
      | .absent => after = s ∧ Uncovered s clustIdx
      | .failed => True
      | .found p => ¬ Uncovered s clustIdx ∧
          ∃ rfb, after.rf.cells p = some rfb ∧ rfb.offset = blockOffset s clustIdx) s := by
  by_cases gone : Uncovered s clustIdx
  · exact sure_ran (read_block_uncovered m gone) ⟨⟨recached_refl ready, rfl⟩, rfl, gone⟩
  · obtain ⟨named, body⟩ := read_block_covered m gone
    unfold Sure
    rw [body]
    change Named s (blockOffset s clustIdx) at named
    obtain ⟨middle, searched, same, cells, missing⟩ :=
      search_recached ready (s.rfTable (rftIndex s clustIdx))
    rw [bind_ok searched]
    cases found : find blockKey (s.rfTable (rftIndex s clustIdx)).toNat s.rf with
    | some p =>
        obtain ⟨_, rfb, there, key⟩ := find_spec found
        refine sure_pure ⟨same, gone, rfb, (congrFun cells p).trans there, ?_⟩
        exact UInt64.toNat_inj.mp key
    | none =>
        have stays : middle = s := missing found
        rw [stays]
        refine (load_sure ready named found (sound gone found)).imp ?_
        rintro block after ⟨loaded, holds⟩
        refine ⟨loaded, ?_⟩
        cases block with
        | absent => exact holds.elim
        | failed => trivial
        | found p => exact ⟨gone, holds⟩

theorem get_refcount_sure (m : Machine) (ready : Ready s) (sound : SoundRead s clustIdx) :
    Sure (qcowGetRefcount m clustIdx) (fun count after => Looked s after ∧
      (count = -1 ∨ count = refcount s clustIdx)) s := by
  unfold qcowGetRefcount
  refine ((read_block_sure m ready sound).imp ?_).bind
  · rintro block after ⟨same, holds⟩
    cases block with
    | absent => exact sure_pure ⟨same, .inr (refcount_uncovered holds.2).symm⟩
    | failed => exact sure_pure ⟨same, .inl rfl⟩
    | found p =>
        obtain ⟨covered, rfb, there, own⟩ := holds
        have index : QcowNodes.read (rfbIndex · clustIdx) after =
          (.ok (rfbIndex after clustIdx), after) := rfl
        unfold Sure
        dsimp only
        rw [bind_ok (block_alive there), bind_ok index]
        split
        · exact sure_pure ⟨same, .inl rfl⟩
        · refine sure_pure ⟨same, .inr ?_⟩
          rw [← same.1.refcount clustIdx]
          exact (same.1.1.ready.refcount (mt same.1.uncovered.mp covered) there
            (own.trans same.1.block_offset.symm)).symm

/-- The scan goes on by one cluster. -/
theorem next_index_sure (ready : Ready s) (below : s.freeClustIdx.toNat < 2 ^ 32) :
    Sure nextClustIdx (fun index after => Recached s after ∧
      index.toNat = s.freeClustIdx.toNat ∧
      after.freeClustIdx.toNat = s.freeClustIdx.toNat + 1) s := by
  have index : QcowNodes.read Image.freeClustIdx s = (.ok s.freeClustIdx, s) := rfl
  have ran : nextClustIdx s = (.ok s.freeClustIdx.toUInt32, { s with
      turns := (if decide (2 ^ 32 ≤ s.freeClustIdx.toNat + 1) = true then [.indexCut] else []) ++
        s.turns
      freeClustIdx := s.freeClustIdx + 1 }) := by
    rw [nextClustIdx, bind_ok index, bind_ok (note_if_ran ..)]
    rfl
  have more : (s.freeClustIdx + 1).toNat = s.freeClustIdx.toNat + 1 := by
    simp only [UInt64.toNat_add, UInt64.reduceToNat]
    exact Nat.mod_eq_of_lt (by omega)
  refine sure_ran ran ⟨?_, ?_, more⟩
  · refine recached_blocks ready rfl rfl rfl ?_ ready.ordered
      ⟨Nat.le_refl _, fun _ _ now there => ⟨now, there, rfl⟩⟩ fun _ _ _ has => has
    exact (Nat.le_succ _).trans_eq more.symm
  · rw [UInt64.toNat_toUInt32]
    exact Nat.mod_eq_of_lt (by omega)

end Looks

/-! The steps that count. -/

/-- The block of a cluster has its place for itself: no other entry of the refcount table
names a block there. -/
def SoundCount (s : Image) (clustIdx : UInt64) : Prop :=
  ∀ i < s.rfSize, i ≠ rftIndex s clustIdx → s.rfTable i ≠ 0 →
    (s.rfTable i).toNat + s.clusterSize ≤ (blockOffset s clustIdx).toNat ∨
      (blockOffset s clustIdx).toNat + s.clusterSize ≤ (s.rfTable i).toNat

instance (s : Image) (clustIdx : UInt64) : Decidable (SoundCount s clustIdx) :=
  inferInstanceAs (Decidable (∀ i < s.rfSize, _))

section Counting
variable {s : Image} {p rftIdx : Nat} {rfb : RefcountBlock} {clustIdx other : UInt64}

theorem index_apart (rft : rftIndex s other = rftIndex s clustIdx)
    (rfb : rfbIndex s other = rfbIndex s clustIdx) : other = clustIdx := by
  apply UInt64.toNat_inj.mp
  unfold rftIndex at rft
  unfold rfbIndex at rfb
  rw [← Nat.div_add_mod other.toNat, rft, rfb, Nat.div_add_mod]

theorem SoundCount.alone (sound : SoundCount s clustIdx) {i : Nat} (covered : i < s.rfSize)
    (same : s.rfTable i = blockOffset s clustIdx) (somewhere : s.rfTable i ≠ 0) :
    i = rftIndex s clustIdx := by
  by_contra other
  have large : 0 < s.clusterSize := Nat.two_pow_pos _
  have apart := sound i covered other somewhere
  rw [same] at apart
  omega

theorem SoundCount.clear (sound : SoundCount s clustIdx) : ¬ OverBlock s
    (.block (blockOffset s clustIdx)) (blockOffset s clustIdx).toNat (2 * (s.clusterSize / 2)) := by
  rintro ⟨i, covered, somewhere, other, first, last⟩
  have different : i ≠ rftIndex s clustIdx := by
    rintro rfl
    exact absurd other (by simp [Owner.owns, blockOffset])
  have apart := sound i covered different somewhere
  omega

theorem update_block_sure (ready : Ready s) (sound : SoundCount s clustIdx)
    (covered : ¬ Uncovered s clustIdx) (there : s.rf.cells p = some rfb)
    (own : rfb.offset = blockOffset s clustIdx)
    (zero : refcount s clustIdx = 0) :
    Sure (updateBlock p clustIdx 1) (fun _ after => Moved s after (· = clustIdx) ∧
      after.rfTable = s.rfTable ∧ after.freeClustIdx = s.freeClustIdx) s := by
  have inside : rfbIndex s clustIdx < rfb.size := by
    rw [ready.ordered.sized p rfb there]
    exact rfb_index_lt ready.bits.1 clustIdx
  have entry : rfb.entries (rfbIndex s clustIdx) = 0 :=
    (ready.refcount covered there own).symm.trans zero
  obtain ⟨written, turns, rf, disk, free, ran, updated, same⟩ :=
    update_block_ran ready.ordered there clustIdx 1 inside
  have across := sound.clear
  rw [← own] at across
  refine sure_ran ran ?_
  have unused : free = s.freeClustIdx := by
    apply same
    rw [entry]
    decide
  generalize reached : { s with
    turns := turns ++ s.turns
    rf := rf
    disk := disk
    freeClustIdx := free
    changedBlocks := fun other => if other = rfb.offset then
      some (counted s rfb clustIdx 1) else s.changedBlocks other } = after
  have header : after.header = s.header := by rw [← reached]
  have table : after.rfTable = s.rfTable := by rw [← reached]
  have rfSize : after.rfSize = s.rfSize := by rw [← reached]
  have next : after.freeClustIdx = s.freeClustIdx := by
    rw [← reached]
    exact unused
  have changed : Contains after rfb.offset (counted s rfb clustIdx 1) := by
    rw [← reached]
    exact updated.own across
  have kept {offset : UInt64} (different : offset ≠ rfb.offset) (named : Named s offset) :
      Contains after offset (content s offset) := by
    rw [← reached]
    exact updated.others across offset _ different named (ready.known offset named)
  have uncovered (other : UInt64) : Uncovered after other ↔ Uncovered s other := by
    unfold Uncovered rftIndex
    rw [header, rfSize, table]
  have offset (other : UInt64) : blockOffset after other = blockOffset s other := by
    unfold blockOffset rftIndex
    rw [header, table]
  have index (other : UInt64) : rfbIndex after other = rfbIndex s other := by
    unfold rfbIndex
    rw [header]
  have bits : 1 ≤ after.header.clusterBits := header ▸ ready.bits.1
  -- The count of a cluster in the block that was changed.
  have count {other : UInt64} (covered : ¬ Uncovered s other)
      (own : blockOffset s other = rfb.offset) :
      refcount after other = counted s rfb clustIdx 1 (rfbIndex s other) := by
    rw [← index]
    refine refcount_of_contains bits (mt (uncovered other).mp covered) ?_
    rw [offset, own]
    exact changed
  refine ⟨⟨header, rfSize, ⟨header ▸ ready.bits, ?_, ?_⟩, ?_, ?_, ?_, ?_, ?_⟩, table, next⟩
  · rw [← reached]
    exact updated.ordered
  · intro at_ named
    have old : Named s at_ := by
      unfold Named at named
      rwa [rfSize, table] at named
    by_cases same : at_ = rfb.offset
    · rw [same]
      exact Contains.known changed
    · exact Contains.known (kept same old)
  · rw [next]
  · intro i _
    rw [table]
  · rintro _ rfl
    refine ⟨zero, (count covered own.symm).trans ?_⟩
    rw [counted, if_pos rfl, entry]
    rfl
  · intro other different
    by_cases gone : Uncovered s other
    · rw [refcount_uncovered gone, refcount_uncovered ((uncovered other).mpr gone)]
    · by_cases shared : blockOffset s other = rfb.offset
      · have apart : rfbIndex s other ≠ rfbIndex s clustIdx := by
          intro same
          refine different (index_apart ?_ same)
          obtain ⟨first, somewhere⟩ := not_or.mp gone
          exact sound.alone (Nat.not_le.mp first) (shared.trans own) somewhere
        rw [count gone shared, counted, if_neg apart]
        exact (ready.refcount gone there shared.symm).symm
      · have has := kept shared (Covered.named gone)
        rw [← offset] at has
        rw [refcount_of_contains bits (mt (uncovered other).mp gone) has, index, refcount,
          if_neg gone, offset]
  · rw [← reached]
    refine ⟨Nat.le_of_eq updated.next.symm, ?_⟩
    intro q _ now here
    exact updated.offsets q now here

/-- The block of a cluster is in the table, and nothing is counted in it. -/
structure Linked (s after : Image) (rftIdx : Nat) (offset clustIdx : UInt64) (p : Nat) :
    Prop where
  moved : Moved s after fun _ => False
  free : after.freeClustIdx = s.freeClustIdx
  entry : after.rfTable rftIdx = offset
  somewhere : offset ≠ 0
  grown : ∀ other, GrownAt s after other ↔ other = clustIdx
  allocated : p < after.rf.next
  node : ∃ rfb, after.rf.cells p = some rfb ∧ rfb.offset = offset

theorem shift_amount {bits : Nat} (bound : bits ≤ 30) : (UInt64.ofNat bits).toNat % 64 = bits := by
  rw [UInt64.toNat_ofNat']
  omega

theorem shifted_index {bits : Nat} (bound : bits ≤ 30) (small : clustIdx.toNat < 2 ^ 32) :
    (clustIdx <<< UInt64.ofNat bits).toNat = clustIdx.toNat * 2 ^ bits := by
  have fits : clustIdx.toNat * 2 ^ bits < 2 ^ 64 :=
    calc clustIdx.toNat * 2 ^ bits
      _ < 2 ^ 32 * 2 ^ bits := Nat.mul_lt_mul_of_pos_right small (Nat.two_pow_pos _)
      _ ≤ 2 ^ 32 * 2 ^ 30 := Nat.mul_le_mul_left _ (Nat.pow_le_pow_right (by decide) bound)
      _ < 2 ^ 64 := by decide
  rw [UInt64.toNat_shiftLeft, shift_amount bound, Nat.shiftLeft_eq, Nat.mod_eq_of_lt fits]

theorem shifted_back {bits : Nat} (bound : bits ≤ 30) (small : clustIdx.toNat < 2 ^ 32) :
    clustIdx <<< UInt64.ofNat bits >>> UInt64.ofNat bits = clustIdx := by
  apply UInt64.toNat_inj.mp
  rw [UInt64.toNat_shiftRight, shifted_index bound small, shift_amount bound,
    Nat.shiftRight_eq_div_pow, Nat.mul_div_cancel _ (Nat.two_pow_pos _)]

/-- What is in the table and in the cache after a block grew. -/
theorem grown_linked {turns more : List Turn} {rf : Cache RefcountBlock} {disk : ImageFile}
    {changed : UInt64 → Option (Nat → UInt16)} {offset : UInt64} (ready : Ready s)
    (absent : Absent s rftIdx) (somewhere : offset ≠ 0)
    (back : offset >>> UInt64.ofNat s.header.clusterBits = clustIdx) (unnamed : ¬ Named s offset)
    (others : ∀ other content, other ≠ offset → Named s other → Contains s other content →
      Contains { s with rf := rf, disk := disk } other content)
    (grown : Grown s rftIdx offset turns rf disk) :
    Linked s { s with
      turns := more
      rf := rf
      disk := disk
      rfTable := grownTable s rftIdx offset
      changedBlocks := changed } rftIdx offset clustIdx s.rf.next := by
  generalize reached : { s with
      turns := more
      rf := rf
      disk := disk
      rfTable := grownTable s rftIdx offset
      changedBlocks := changed } = after
  have header : after.header = s.header := by rw [← reached]
  have rfSize : after.rfSize = s.rfSize := by rw [← reached]
  have own : after.rfTable rftIdx = offset := by
    rw [← reached]
    exact if_pos rfl
  have kept {i : Nat} (apart : i ≠ rftIdx) : after.rfTable i = s.rfTable i := by
    rw [← reached]
    exact if_neg apart
  have old {i : Nat} (there : s.rfTable i ≠ 0) : i ≠ rftIdx := by
    rintro rfl
    exact there absent.2
  have zeroes : Contains after offset fun _ => 0 := by
    rw [← reached]
    exact grown.own
  have contains {other : UInt64} (named : Named s other) :
      Contains after other (content s other) := by
    have different : other ≠ offset := by
      rintro rfl
      exact unnamed named
    rw [← reached]
    exact others other _ different named (ready.known other named)
  have rft (other : UInt64) : rftIndex after other = rftIndex s other := by
    unfold rftIndex
    rw [header]
  have index (other : UInt64) : rfbIndex after other = rfbIndex s other := by
    unfold rfbIndex
    rw [header]
  have bits : 1 ≤ after.header.clusterBits := header ▸ ready.bits.1
  refine ⟨⟨header, rfSize, ⟨header ▸ ready.bits, ?_, ?_⟩, ?_, ?_, nofun, ?_, ?_⟩, ?_, own,
    somewhere, ?_, ?_, ?_⟩
  · rw [← reached]
    exact grown.ordered
  · rintro other ⟨i, inside, named, there⟩
    by_cases new : i = rftIdx
    · rw [← named, new, own]
      exact Contains.known zeroes
    · rw [kept new] at named
      exact Contains.known (contains ⟨i, rfSize ▸ inside, named, there⟩)
  · rw [← reached]
  · exact fun i there => kept (old there)
  · intro other _
    by_cases new : rftIndex s other = rftIdx
    · have gone : Uncovered s other := .inr (new ▸ absent.2)
      have place : blockOffset after other = offset := by
        rw [blockOffset, rft, new, own]
      have covered : ¬ Uncovered after other := by
        unfold Uncovered
        rw [rft, new, rfSize, own]
        exact not_or.mpr ⟨Nat.not_le.mpr absent.1, somewhere⟩
      rw [refcount_uncovered gone]
      exact refcount_of_contains bits covered (place ▸ zeroes)
    · have place : blockOffset after other = blockOffset s other := by
        rw [blockOffset, rft, kept new, blockOffset]
      have uncovered : Uncovered after other ↔ Uncovered s other := by
        unfold Uncovered
        rw [rft, rfSize, kept new]
      by_cases gone : Uncovered s other
      · rw [refcount_uncovered gone, refcount_uncovered (uncovered.mpr gone)]
      · have has := contains (Covered.named gone)
        rw [← place] at has
        rw [refcount_of_contains bits (mt uncovered.mp gone) has, index, refcount, if_neg gone,
          place]
  · rw [← reached]
    refine ⟨grown.next ▸ Nat.le_succ _, ?_⟩
    intro q known now there
    exact ⟨now, grown.cells q now (Nat.ne_of_lt known) there, rfl⟩
  · rw [← reached]
  · intro other
    constructor
    · rintro ⟨i, _, nowhere, there, same⟩
      by_cases new : i = rftIdx
      · rw [new, own, back] at same
        exact same.symm
      · rw [kept new] at there
        exact absurd nowhere there
    · rintro rfl
      exact ⟨rftIdx, absent.1, absent.2, own ▸ somewhere, own ▸ back⟩
  · rw [← reached]
    exact grown.next ▸ Nat.lt_succ_self _
  · rw [← reached]
    exact grown.node

theorem link_grown_sure (ready : Ready s) (absent : Absent s rftIdx)
    (small : clustIdx.toNat < 2 ^ 32)
    (somewhere : clustIdx <<< UInt64.ofNat s.header.clusterBits ≠ 0)
    (clear : ¬ GrowsOver s (clustIdx <<< UInt64.ofNat s.header.clusterBits))
    (tidy : After (linkGrown rftIdx (clustIdx <<< UInt64.ofNat s.header.clusterBits)) s
      fun linked _ => linked ≠ none → ¬ DirtyLeaves s.rf) :
    Sure (linkGrown rftIdx (clustIdx <<< UInt64.ofNat s.header.clusterBits))
      (fun linked after => ∀ p ∈ linked, Linked s after rftIdx
        (clustIdx <<< UInt64.ofNat s.header.clusterBits) clustIdx p) s := by
  have back := shifted_back ready.bits.2 small
  generalize clustIdx <<< UInt64.ofNat s.header.clusterBits = offset at somewhere clear tidy back ⊢
  have large : 2 ≤ s.clusterSize := Nat.le_self_pow (Nat.ne_of_gt ready.bits.1) 2
  have unnamed : ¬ Named s offset := fun named => clear (grows_over_named named large)
  -- The cache has blocks of the table only.
  have missing : find blockKey offset.toNat s.rf = none := by
    cases found : find blockKey offset.toNat s.rf with
    | none => rfl
    | some p =>
        obtain ⟨_, rfb, there, key⟩ := find_spec found
        have own : rfb.offset = offset := UInt64.toNat_inj.mp key
        exact absurd (own ▸ ready.ordered.named p rfb there) unnamed
  rcases grow_ran ready.ordered absent somewhere (.inl missing) with
    ⟨turns, rf, disk, ran, _⟩ | ⟨turns, rf, disk, ran, grown⟩
  · exact sure_ran ran nofun
  · refine sure_ran ran ?_
    rintro _ ⟨⟩
    have kept := tidy _ _ ran nofun
    exact grown_linked ready absent somewhere back unnamed
      (fun other content => grown.others clear kept other content) grown

theorem table_length (table : Nat → UInt64) (size : Nat) :
    (tableBytes table size).length = 8 * size := by
  simp [tableBytes, QcowWrite.be64Bytes, List.length_flatMap, Nat.mul_comm]

/-- The write of the refcount table goes over no refcount block. -/
def SoundTable (s : Image) : Prop :=
  ¬ OverBlock s .data s.header.refcountTableOffset.toNat (8 * s.rfSize)

instance (s : Image) : Decidable (SoundTable s) := inferInstanceAs (Decidable (¬ _))

theorem write_table_sure (ready : Ready s) (sound : SoundTable s) :
    Sure qcowWriteRefcountTable (fun _ after => Looked s after ∧ after.rf = s.rf) s := by
  have bytes : QcowNodes.read (fun s => tableBytes s.rfTable s.rfSize) s =
    (.ok (tableBytes s.rfTable s.rfSize), s) := rfl
  have offset : QcowNodes.read (fun s => s.header.refcountTableOffset) s =
    (.ok s.header.refcountTableOffset, s) := rfl
  have ran : qcowWriteRefcountTable s =
      qcowPwriteSync .data (tableBytes s.rfTable s.rfSize) s.header.refcountTableOffset s := by
    rw [qcowWriteRefcountTable, bind_ok bytes, bind_ok offset]
  have wrote := sync_inside ready.ordered.clean (tableBytes s.rfTable s.rfSize)
    s.header.refcountTableOffset
  rw [table_length] at wrote
  refine sure_ran (ran.trans (sync_ran ..)) ?_
  refine ⟨⟨recached_blocks ready rfl rfl rfl (Nat.le_refl _)
    (Blocks.rewritten ready.ordered wrote.clean)
    ⟨Nat.le_refl _, fun _ _ now there => ⟨now, there, rfl⟩⟩ ?_, rfl⟩, rfl⟩
  intro other content named has
  exact has.rewritten (spared_block .data sound wrote named rfl)

theorem undo_ran (there : s.rf.cells p = some rfb) (rftIdx : Nat) :
    ∃ after, undoGrowth p rftIdx s = (.ok none, after) := by
  let recovered : Image := { noted .growthUndone s with
    rfTable := fun i => if i = rftIdx then 0 else s.rfTable i }
  have recover : undoGrowth p rftIdx s = (freeBlock p >>= fun _ => pure none : Op _) recovered := rfl
  have freed := free_block_ran (s := recovered) there
  exact ⟨_, recover.trans (bind_ok freed)⟩

end Counting

end VirtioDisk.RefcountView
