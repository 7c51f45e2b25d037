import Linux2Win.ExtentTree
import Linux2Win.ReadFile

namespace Linux2Win.Unwritten

open Bytes Devices Ext4Types Reader BlockMap FileData Programs FileContent ReadFile ExtentTree

variable {dev : Device Id} {rd : Ext4Reader} {inode : Ext4Inode} {depth : Nat}

theorem copyLoop_true_lt (hdev : Whole dev rd.blockSize) (h : 0 < rd.blockSize.toNat) {fuel : Nat}
    {offset remaining : UInt64} {written out : List Byte}
    (hrun : copyLoop dev rd inode depth fuel offset remaining written = pure (true, out)) :
    remaining.toNat < 2 ^ 32 := by
  induction fuel generalizing offset remaining written with
  | zero => exact absurd hrun throw_ne_pure
  | succ fuel ih =>
      by_cases hrem : remaining = 0
      · subst hrem
        decide
      · rcases copyLoop_cases hdev h hrem hrun with ⟨_, hok⟩ | ⟨b, _, hrun'⟩
        · cases hok
        · have hnext := ih hrun'
          have hchunk := chunkSize_toNat offset remaining h
          have hmod := Nat.mod_add_div remaining.toNat (2 ^ 32)
          have hle : (chunkSize rd offset remaining).toNat ≤ remaining.toNat := by omega
          rw [UInt64.toNat_sub_of_le _ _ (UInt64.le_iff_toNat_le.mpr hle)] at hnext
          omega

structure InUnwritten (dev : Device Id) (rd : Ext4Reader) (inode : Ext4Inode) (ex : Ext4Extent)
    (pos : UInt64) : Prop where
  inTree : InTree dev rd ex inode.iBlock
  unwritten : 32768 < ex.eeLen
  below : pos < fileSize inode
  start : ex.eeBlock.toNat ≤ pos.toNat / rd.blockSize.toNat
  stop : pos.toNat / rd.blockSize.toNat < extentEnd ex

/-- A read of the byte alone returns zero, and so does every read that returns it. -/
def DeliversZero (dev : Device Id) (rd : Ext4Reader) (inodeNum : UInt32) (pos : UInt64) : Prop :=
  (∃ depth, ∀ fuel ≥ depth, ∀ x,
    readFileData dev rd fuel inodeNum pos (some [x]) 1 = pure ⟨true, [0], 1⟩) ∧
  ∀ fuel offset buffer size r,
    readFileData dev rd fuel inodeNum offset (some buffer) size = pure r → r.ok = true →
    offset ≤ pos → pos.toNat < offset.toNat + r.bytesRead.toNat →
      r.buffer[pos.toNat - offset.toNat]? = some 0

theorem readFileData_true (hmounted : rd.mounted = true) {inodeNum : UInt32}
    (hinode : readInode dev rd inodeNum = pure (some inode)) {fuel : Nat} {offset size : UInt64}
    {buffer : List Byte} {r : ReadResult}
    (h : readFileData dev rd fuel inodeNum offset (some buffer) size = pure r) (hok : r.ok = true) :
    r.bytesRead = 0 ∨ offset < fileSize inode ∧ ∃ out,
      copyLoop dev rd inode fuel fuel offset (clippedSize inode offset size) [] = pure (true, out) ∧
        r = ⟨true, overlay out buffer, clippedSize inode offset size⟩ := by
  by_cases hsize : size = 0
  · rw [readFileData, hsize] at h
    simp only [hmounted, Bool.not_true, beq_self_eq_true, Bool.or_true, if_true] at h
    cases pure_injective h
    cases hok
  · rw [readFileData_eq hmounted hinode fuel offset buffer hsize] at h
    by_cases heof : offset ≥ fileSize inode
    · rw [if_pos heof] at h
      cases pure_injective h
      exact Or.inl rfl
    · rw [if_neg heof] at h
      obtain ⟨⟨ok, out⟩, hloop, h⟩ := bind_eq_pure.mp h
      cases pure_injective h
      dsimp only at hok
      subst hok
      exact Or.inr ⟨UInt64.not_le.mp heof, out, hloop, rfl⟩

/-- A tree whose extents all end below 2^32 - 1 maps every block of the file. -/
theorem mapBlock_extents (hext : usesExtents inode = true)
    (htree : WellFormed dev rd inode.iBlock 0 (2 ^ 32 - 1)) (logicalBlock : UInt32) :
    ∃ r, IsPlace dev rd inode.iBlock logicalBlock r ∧
      ∃ depth, ∀ fuel ≥ depth, mapBlock dev rd fuel inode logicalBlock = pure r := by
  obtain ⟨r, hplace, d, hd⟩ := lookup htree logicalBlock (by decide)
  refine ⟨r, hplace, d, fun fuel hfuel => ?_⟩
  rw [mapBlock, if_pos hext]
  exact resolve_of_nodeAnswer (hd fuel hfuel)

theorem InUnwritten.covers {ex : Ext4Extent} {pos : UInt64} (h : InUnwritten dev rd inode ex pos)
    (htree : WellFormed dev rd inode.iBlock 0 (2 ^ 32 - 1)) :
    pos.toNat / rd.blockSize.toNat < 2 ^ 32 ∧
      ex.covers (UInt32.ofNat (pos.toNat / rd.blockSize.toNat)) = true := by
  have hrange := (inTree_range htree h.inTree).2
  have hstart := h.start
  have hstop := h.stop
  have hlt : pos.toNat / rd.blockSize.toNat < 2 ^ 32 := by omega
  refine ⟨hlt, (covers_iff (by omega) _).mpr ?_⟩
  rw [UInt32.toNat_ofNat_of_lt' hlt]
  exact ⟨hstart, hstop⟩

/-- The stale byte of the position is a zero, or there is none. -/
def StaleZero (dev : Device Id) (rd : Ext4Reader) (ex : Ext4Extent) (pos : UInt64) : Prop :=
  ex.physical (UInt32.ofNat (pos.toNat / rd.blockSize.toNat)) = 0 ∨
    ∃ b, readBlock dev (ex.physical (UInt32.ofNat (pos.toNat / rd.blockSize.toNat))) rd.blockSize =
      pure (some b) ∧ b[pos.toNat % rd.blockSize.toNat]? = some 0

section Position

variable {ex : Ext4Extent} {pos : UInt64} {map : UInt32 → Option UInt64}

theorem isFileByte_iff
    (hmap : map (UInt32.ofNat (pos.toNat / rd.blockSize.toNat)) =
      some (ex.physical (UInt32.ofNat (pos.toNat / rd.blockSize.toNat)))) (x : Byte) :
    IsFileByte dev rd map pos.toNat x ↔
      if ex.physical (UInt32.ofNat (pos.toNat / rd.blockSize.toNat)) = 0 then x = 0
      else ∃ b, readBlock dev (ex.physical (UInt32.ofNat (pos.toNat / rd.blockSize.toNat)))
        rd.blockSize = pure (some b) ∧ b[pos.toNat % rd.blockSize.toNat]? = some x := by
  rw [IsFileByte, hmap]

theorem isFileByte_zero_iff
    (hmap : map (UInt32.ofNat (pos.toNat / rd.blockSize.toNat)) =
      some (ex.physical (UInt32.ofNat (pos.toNat / rd.blockSize.toNat)))) :
    IsFileByte dev rd map pos.toNat 0 ↔ StaleZero dev rd ex pos := by
  rw [isFileByte_iff hmap, StaleZero]
  split
  · rename_i h
    exact iff_of_true rfl (Or.inl h)
  · rename_i h
    exact (or_iff_right h).symm

end Position

theorem read_one (hmounted : rd.mounted = true) (hdev : Whole dev rd.blockSize) {inodeNum : UInt32}
    (hinode : readInode dev rd inodeNum = pure (some inode)) {fuel : Nat}
    {map : UInt32 → Option UInt64}
    (hmap : ∀ logicalBlock, mapBlock dev rd fuel inode logicalBlock = pure (map logicalBlock))
    {pos : UInt64} (hlt : pos < fileSize inode) (hfuel : 1 < fuel) (x : Byte) :
    IsUnreadable dev rd map pos.toNat ∧ (∃ r, r.ok = false ∧
        readFileData dev rd fuel inodeNum pos (some [x]) 1 = pure r) ∨
      ∃ y, IsFileByte dev rd map pos.toNat y ∧
        readFileData dev rd fuel inodeNum pos (some [x]) 1 = pure ⟨true, [y], 1⟩ := by
  have hltNat := UInt64.lt_iff_toNat_lt.mp hlt
  have hno : pos.toNat + (1 : UInt64).toNat < 2 ^ 64 := by
    have := (fileSize inode).toNat_lt
    change pos.toNat + 1 < _
    omega
  have hone : readCount inode pos 1 = 1 := by
    rw [readCount]
    change min 1 _ = 1
    omega
  have hclip : clippedSize inode pos 1 = 1 :=
    UInt64.toNat_inj.mp ((clippedSize_toNat hlt hno).trans hone)
  obtain ⟨ok, out, hread, hbad, hgood⟩ := readFileData_reads hmounted hdev hinode
    (fun _ _ _ => hmap _) [x] (by decide) (by decide) hno hfuel hlt
  rw [hone] at hbad hgood
  rw [hclip] at hread
  cases ok with
  | false =>
      obtain ⟨p, hge, hlt, h⟩ := hbad.mp rfl
      obtain rfl : p = pos.toNat := by omega
      exact Or.inl ⟨h, _, rfl, hread⟩
  | true =>
      obtain ⟨hlen, hbytes⟩ := hgood rfl
      obtain ⟨y, rfl⟩ := List.length_eq_one_iff.mp hlen
      exact Or.inr ⟨y, hbytes 0 Nat.zero_lt_one, hread⟩

theorem read_any (hmounted : rd.mounted = true) (hdev : Whole dev rd.blockSize)
    {inodeNum : UInt32}
    (hinode : readInode dev rd inodeNum = pure (some inode)) {map : UInt32 → Option UInt64}
    {bound : Nat} (hmap : ∀ fuel ≥ bound, ∀ l, mapBlock dev rd fuel inode l = pure (map l))
    {pos : UInt64} (hfar : pos.toNat < 2 ^ 32 * rd.blockSize.toNat) {fuel : Nat}
    {offset size : UInt64} {buffer : List Byte} {r : ReadResult}
    (hrun : readFileData dev rd fuel inodeNum offset (some buffer) size = pure r) (hok : r.ok = true)
    (hle : offset ≤ pos) (hlt : pos.toNat < offset.toNat + r.bytesRead.toNat) :
    ∃ x, IsFileByte dev rd map pos.toNat x ∧ r.buffer[pos.toNat - offset.toNat]? = some x := by
  have hleNat := UInt64.le_iff_toNat_le.mp hle
  obtain ⟨hpos, hbs⟩ := Accepted.bounds (rd.geometry hmounted).1
  rcases readFileData_true hmounted hinode hrun hok with hzero | ⟨_, out, hloop, rfl⟩
  · rw [hzero] at hlt
    change pos.toNat < offset.toNat + 0 at hlt
    omega
  · have hsmall := copyLoop_true_lt hdev hpos hloop
    have hloop' := copyLoop_mono (le_max_left fuel bound) (le_max_left fuel bound) hloop
    obtain ⟨_, hgood⟩ := copyLoop_spec hdev hpos (by omega) hloop'
    obtain ⟨hlen, hbytes⟩ := hgood rfl
    dsimp only at hlt
    have hi : pos.toNat - offset.toNat < out.length := by omega
    have hbyte := hbytes (pos.toNat - offset.toNat) hi
    have hmapOf : mapOf dev rd inode (max fuel bound) = map := by
      funext l
      rw [mapOf, hmap _ (le_max_right fuel bound) l]
      rfl
    rw [hmapOf, Nat.add_sub_of_le hleNat] at hbyte
    refine ⟨_, hbyte, ?_⟩
    dsimp only [overlay]
    rw [List.getElem?_append_left hi, List.getElem?_eq_getElem hi]

/-- The bytes of an unwritten extent come out as zeros exactly where the blocks it
points to hold zeros by chance. -/
theorem unwritten_zero_iff (disk : Disk) (w : BlockDevice) (rd : Ext4Reader)
    (hmounted : rd.mounted = true) (inodeNum : UInt32) (inode : Ext4Inode)
    (hinode : readInode (disk.device w) rd inodeNum = pure (some inode))
    (hext : usesExtents inode = true)
    (htree : WellFormed (disk.device w) rd inode.iBlock 0 (2 ^ 32 - 1)) (ex : Ext4Extent)
    (pos : UInt64) (hin : InUnwritten (disk.device w) rd inode ex pos) :
    DeliversZero (disk.device w) rd inodeNum pos ↔ StaleZero (disk.device w) rd ex pos := by
  have hacc := (rd.geometry hmounted).1
  have hdev := disk_whole disk w hacc
  obtain ⟨hpos, hbs⟩ := Accepted.bounds hacc
  choose map hplace depth hdepth using mapBlock_extents hext htree
  obtain ⟨bound, hbound⟩ := depths_bounded depth
  have hmap : ∀ fuel ≥ bound, ∀ l, mapBlock (disk.device w) rd fuel inode l = pure (map l) :=
    fun fuel hfuel l => hdepth l fuel ((hbound l).trans hfuel)
  obtain ⟨hlogical, hcov⟩ := hin.covers htree
  have hphys := (hplace _ _).mpr ⟨ex, hin.inTree, hcov, rfl⟩
  have hzero : IsFileByte (disk.device w) rd map pos.toNat 0 ↔ StaleZero (disk.device w) rd ex pos :=
    isFileByte_zero_iff hphys
  constructor
  · rintro ⟨⟨d, hd⟩, _⟩
    have hread := hd (max d (max bound 2)) (by omega) 1
    rcases read_one hmounted hdev hinode (hmap (max d (max bound 2)) (by omega)) hin.below (by omega) 1
      with ⟨_, r, hok, hr⟩ | ⟨y, hy, hr⟩
    · cases pure_injective (hr.symm.trans hread)
      cases hok
    · cases pure_injective (hr.symm.trans hread)
      exact hzero.mp hy
  · intro hstale
    refine ⟨⟨max bound 2, fun fuel hfuel x => ?_⟩, ?_⟩
    · rcases read_one hmounted hdev hinode (hmap fuel (by omega)) hin.below (by omega) x
        with ⟨hbad, _⟩ | ⟨y, hy, hr⟩
      · exact absurd hbad (hzero.mpr hstale).not_unreadable
      · rw [hr, hy.unique (hzero.mpr hstale)]
    · intro fuel offset buffer size r hrun hok hle hlt
      obtain ⟨x, hx, hget⟩ := read_any hmounted hdev hinode hmap
        ((Nat.div_lt_iff_lt_mul hpos).mp hlogical) hrun hok hle hlt
      rw [hget, hx.unique (hzero.mpr hstale)]

/-- Inode 11 is a file of 1024 bytes, preallocated at block 8, which still holds
the byte of another file. -/
def staleDisk : Disk :=
  .ofPieces 16384
    [(2056, le32Bytes 5), (6400, le16Bytes 0x8180 ++ [0, 0] ++ le32Bytes 1024),
      (6432, le32Bytes 0x00080000),
      (6440, le16Bytes 0xF30A ++ le16Bytes 1 ++ le16Bytes 4 ++ le16Bytes 0 ++ le32Bytes 0),
      (6452, le32Bytes 0 ++ le16Bytes 32769 ++ le16Bytes 0 ++ le32Bytes 8), (8192, [0x73])]

def staleDevice : Device Id := staleDisk.device wholeDevice

def staleInode : Ext4Inode :=
  (result (readInode staleDevice (plainReader 16) 11)).join.getD (Packed.zero 160)

def staleExtent : Ext4Extent := ⟨0, 32769, 0, 8⟩

theorem staleInode_read : readInode staleDevice (plainReader 16) 11 = pure (some staleInode) :=
  eq_pure_getD (by decide +kernel) _

theorem staleInode_tree : WellFormed staleDevice (plainReader 16) staleInode.iBlock 0 (2 ^ 32 - 1) := by
  have hone : entries staleInode.iBlock = 1 := by decide +kernel
  refine .leaf ⟨by decide +kernel, by decide +kernel⟩ (by decide +kernel) ?_ ?_
  · intro i hi
    obtain rfl : i = 0 := by omega
    decide +kernel
  · intro i j hij hj
    omega

theorem stale_position : InUnwritten staleDevice (plainReader 16) staleInode staleExtent 0 where
  inTree := .leaf (by decide +kernel) (by decide +kernel : 0 < _) (by decide +kernel)
  unwritten := by decide
  below := by decide +kernel
  start := by decide
  stop := by decide

theorem unwritten_zero_iff_stale : DeliversZero staleDevice (plainReader 16) 11 0 ↔
    StaleZero staleDevice (plainReader 16) staleExtent 0 :=
  unwritten_zero_iff staleDisk wholeDevice (plainReader 16) rfl 11 staleInode staleInode_read
    (by decide +kernel) staleInode_tree staleExtent 0 stale_position

theorem preallocated_block_leaks : usesExtents staleInode = true ∧
    WellFormed staleDevice (plainReader 16) staleInode.iBlock 0 (2 ^ 32 - 1) ∧
    InUnwritten staleDevice (plainReader 16) staleInode staleExtent 0 ∧
    ¬DeliversZero staleDevice (plainReader 16) 11 0 := by
  refine ⟨by decide +kernel, staleInode_tree, stale_position, fun h => ?_⟩
  have hrun : readFileData staleDevice (plainReader 16) 3 11 0 (some [0]) 1 =
      pure ⟨true, [0x73], 1⟩ := result_eq_some.mp (by decide +kernel)
  have hzero := h.2 3 0 [0] 1 _ hrun rfl (by decide) (by decide)
  exact absurd hzero (by decide)

end Linux2Win.Unwritten
