import VirtioDisk.GuestAccess

/-!
Accesses to the device-specific region, over whole sequences of them. Both callbacks
of virtio/mmio-legacy.c and virtio/mmio-modern.c hand everything from
VIRTIO_MMIO_CONFIG on to virtio_mmio_device_specific, before either looks at the
length. `size` is the size of `struct virtio_blk_config`.
-/

namespace VirtioDisk.ConfigFrame

open ByteStore GuestAccess MmioRegisters

def virtioMmioIoSize : UInt32 := 0x200

/-- An ioreq that hits the region. A write stores the first bytes of `data`. -/
structure ConfigAccess where
  offset : UInt32
  len : UInt32
  isWrite : Bool
  data : UInt32
  first : virtioMmioConfig ≤ offset
  last : offset < virtioMmioIoSize

-- The members after the access, and the data of the reply.
def virtioMmioDeviceSpecific (bdev : Members) (addr data len : UInt32) (isWrite : Bool) :
    Members × UInt32 :=
  if isWrite then (virtioWriteConfig bdev addr.toNat len.toNat data, data)
  else (bdev, virtioReadConfig bdev addr.toNat len.toNat)

def ConfigAccess.addr (a : ConfigAccess) : UInt32 := a.offset - virtioMmioConfig

def mmioCallback (bdev : Members) (a : ConfigAccess) : Members × UInt32 :=
  virtioMmioDeviceSpecific bdev a.addr a.data a.len a.isWrite

def serve : Members → List ConfigAccess → Members × List UInt32
  | bdev, [] => (bdev, [])
  | bdev, a :: rest =>
      let (next, reply) := mmioCallback bdev a
      let (final, replies) := serve next rest
      (final, reply :: replies)

/-- However far a sequence has got, its replies and the config depend on nothing but
the config, and no other member has changed. -/
def Framed (size : Nat) (accesses : List ConfigAccess) : Prop :=
  ∀ done, done <+: accesses → ∀ first second, Agree size first second →
    (serve first done).2 = (serve second done).2 ∧
      Agree size (serve first done).1 (serve second done).1 ∧
      ∀ i, size ≤ i → (serve first done).1 i = first i

def Inside (size : Nat) (a : ConfigAccess) : Prop := Fits size a.addr.toNat a.len.toNat

instance (size : Nat) (a : ConfigAccess) : Decidable (Inside size a) :=
  inferInstanceAs (Decidable (Fits _ _ _))

section Accesses
variable {size : Nat} {first second bdev : Members} {a : ConfigAccess}

-- What one access keeps, as long as it stays inside.
theorem callback_framed (inside : Inside size a) (agree : Agree size first second) :
    (mmioCallback first a).2 = (mmioCallback second a).2 ∧
      Agree size (mmioCallback first a).1 (mmioCallback second a).1 ∧
      ∀ i, size ≤ i → (mmioCallback first a).1 i = first i := by
  unfold mmioCallback virtioMmioDeviceSpecific
  split
  · exact ⟨rfl, write_agrees agree _, fun i => write_outside inside _⟩
  · exact ⟨read_agrees inside agree, agree, fun _ _ => rfl⟩

theorem inside_framed {accesses : List ConfigAccess} (inside : ∀ a ∈ accesses, Inside size a)
    (agree : Agree size first second) :
    (serve first accesses).2 = (serve second accesses).2 ∧
      Agree size (serve first accesses).1 (serve second accesses).1 ∧
      ∀ i, size ≤ i → (serve first accesses).1 i = first i := by
  induction accesses generalizing first second with
  | nil => exact ⟨rfl, agree, fun _ _ => rfl⟩
  | cons a rest ih =>
      obtain ⟨reply, next, kept⟩ := callback_framed (inside a (by simp)) agree
      obtain ⟨replies, final, still⟩ := ih (fun b member => inside b (by simp [member])) next
      refine ⟨?_, final, fun i outside => ?_⟩
      · simp only [serve, reply, replies]
      · exact (still i outside).trans (kept i outside)

theorem serve_append (bdev : Members) (before after : List ConfigAccess) :
    serve bdev (before ++ after) =
      ((serve (serve bdev before).1 after).1,
        (serve bdev before).2 ++ (serve (serve bdev before).1 after).2) := by
  induction before generalizing bdev with
  | nil => rfl
  | cons a rest ih => simp only [List.cons_append, serve, ih]

/-- The first byte behind the config that the access covers. -/
theorem outside_byte (outside : ¬ Inside size a) : ConfigSize a.len.toNat ∧
    ∃ i < a.len.toNat, size ≤ a.addr.toNat + i := by
  rw [Inside, Fits, Classical.not_imp, Nat.not_le] at outside
  obtain ⟨known, beyond⟩ := outside
  have some : 0 < a.len.toNat := by
    rcases known with one | two | four <;> omega
  exact ⟨known, a.len.toNat - 1, by omega, by omega⟩

theorem write_changes (outside : ¬ Inside size a) :
    ∃ j, size ≤ j ∧ ∃ byte, ∀ bdev : Members,
      virtioWriteConfig bdev a.addr.toNat a.len.toNat a.data j = byte := by
  obtain ⟨known, i, covered, beyond⟩ := outside_byte outside
  have here : i < (wordBytes a.data a.len.toNat).length := by rwa [length_wordBytes]
  refine ⟨a.addr.toNat + i, beyond, (wordBytes a.data a.len.toNat)[i], fun bdev => ?_⟩
  rw [virtioWriteConfig, if_pos known]
  exact writeRange_inside bdev _ _ i here

theorem read_reveals (outside : ¬ Inside size a)
    (same : virtioReadConfig first a.addr.toNat a.len.toNat =
      virtioReadConfig second a.addr.toNat a.len.toNat) : ∃ j, size ≤ j ∧ first j = second j := by
  obtain ⟨known, i, covered, beyond⟩ := outside_byte outside
  have short : a.len.toNat ≤ 4 := by
    rcases known with one | two | four <;> omega
  have word (bdev : Members) : littleEndian bdev a.addr.toNat a.len.toNat < 2 ^ 32 :=
    Nat.lt_of_lt_of_le (littleEndian_lt bdev _ _) (Nat.pow_le_pow_right (by decide) short)
  rw [virtioReadConfig, virtioReadConfig, if_pos known, if_pos known] at same
  have equal := congrArg UInt32.toNat same
  rw [UInt32.toNat_ofNat', UInt32.toNat_ofNat', Nat.mod_eq_of_lt (word first),
    Nat.mod_eq_of_lt (word second)] at equal
  exact ⟨a.addr.toNat + i, beyond, littleEndian_injective equal i covered⟩

/-- A sequence that has been inside so far does not survive an access outside. -/
theorem outside_unframed {before : List ConfigAccess} (inside : ∀ b ∈ before, Inside size b)
    (outside : ¬ Inside size a) : ¬ Framed size (before ++ [a]) := by
  intro framed
  have whole := framed (before ++ [a]) (List.prefix_refl _)
  cases direction : a.isWrite with
  | true =>
      obtain ⟨j, beyond, byte, changed⟩ := write_changes outside
      obtain ⟨_, _, kept⟩ := whole (fun _ => byte + 1) _ (fun _ _ => rfl)
      have stays := kept j beyond
      rw [serve_append] at stays
      simp only [serve, mmioCallback, virtioMmioDeviceSpecific, direction, if_true,
        changed] at stays
      exact absurd stays (by simp)
  | false =>
      have agree : Agree size (fun _ => 0) fun i => if i < size then 0 else 1 := by
        intro i here
        simp [here]
      obtain ⟨_, _, low⟩ := inside_framed inside agree
      obtain ⟨_, _, high⟩ := inside_framed inside fun i here => (agree i here).symm
      obtain ⟨replies, _⟩ := whole _ _ agree
      simp only [serve_append, serve, mmioCallback, virtioMmioDeviceSpecific, direction,
        Bool.false_eq_true, if_false] at replies
      have last := (List.append_inj' replies rfl).2
      obtain ⟨j, beyond, equal⟩ := read_reveals outside (List.singleton_inj.mp last)
      rw [low j beyond, high j beyond, if_neg (Nat.not_lt.mpr beyond)] at equal
      exact absurd equal (by decide)

end Accesses

/-- A sequence of accesses stays inside the config exactly if each of them does: nothing
compares the end of an access with the size of the config. -/
theorem config_framed_iff (size : Nat) (accesses : List ConfigAccess) :
    Framed size accesses ↔ ∀ a ∈ accesses, Inside size a := by
  constructor
  · intro framed
    by_contra some
    have found : (accesses.find? fun a => !decide (Inside size a)).isSome := by
      rw [List.find?_isSome]
      simpa using some
    obtain ⟨a, first⟩ := Option.isSome_iff_exists.mp found
    obtain ⟨outside, before, rest, split, inside⟩ := List.find?_eq_some_iff_append.mp first
    have left : ¬ Inside size a := by simpa using outside
    have stayed : ∀ b ∈ before, Inside size b := by simpa using inside
    apply outside_unframed stayed left
    intro done here
    exact framed done (here.trans ⟨rest, by simp [split]⟩)
  · intro inside done here first second agree
    exact inside_framed (fun a member => inside a (here.subset member)) agree

/-- One access at the last word of the region. -/
def lastWord (isWrite : Bool) : ConfigAccess := ⟨0x1fc, 4, isWrite, 0, by decide, by decide⟩

theorem last_word_outside {size : Nat} (short : size < 0x100) (isWrite : Bool) :
    ¬ Inside size (lastWord isWrite) := by
  intro inside
  have addr : (lastWord isWrite).addr.toNat = 0xfc := by cases isWrite <;> decide
  have len : (lastWord isWrite).len.toNat = 4 := rfl
  have ends := inside (Or.inr (Or.inr len))
  omega

/-- No config that is shorter than the region confines it. -/
theorem last_word_unframed : ¬ ∃ size < 0x100,
    Framed size [lastWord true] ∨ Framed size [lastWord false] := by
  rintro ⟨size, short, write | read⟩
  · exact outside_unframed (nofun : ∀ b ∈ [], Inside size b) (last_word_outside short true) write
  · exact outside_unframed (nofun : ∀ b ∈ [], Inside size b) (last_word_outside short false) read

end VirtioDisk.ConfigFrame
