import Linux2Win.Geometry
import Mathlib.Data.Nat.Bitwise

namespace Linux2Win.InodeLayout

open Bytes Devices Ext4Types Reader Programs Traces ReadCalls DirRecords Linux2Win.Geometry

section Bytes

variable {b : List Byte} {n i : Nat}

theorem byteAt_take (h : i < n) : byteAt (b.take n) i = byteAt b i := by
  rw [byteAt, byteAt, List.getD_eq_getElem?_getD, List.getElem?_take_of_lt h,
    List.getD_eq_getElem?_getD]

theorem byteAt_zeroPad (h : i < n) : byteAt (zeroPad n b) i = byteAt b i := by
  rw [byteAt, byteAt, zeroPad, List.getD_eq_getElem?_getD, List.getD_eq_getElem?_getD]
  rcases Nat.lt_or_ge i b.length with hi | hi
  · rw [List.getElem?_append_left (by rw [List.length_take]; omega), List.getElem?_take_of_lt h]
  · rw [List.getElem?_append_right (by rw [List.length_take]; omega), List.getElem?_replicate,
      List.getElem?_eq_none hi, List.length_take, if_pos (by omega)]
    rfl

theorem le32_zeroPad (h : i + 4 ≤ n) : le32 (zeroPad n b) i = le32 b i := by
  simp only [le32, byteAt_zeroPad (show i < n by omega), byteAt_zeroPad (show i + 1 < n by omega),
    byteAt_zeroPad (show i + 2 < n by omega), byteAt_zeroPad (show i + 3 < n by omega)]

theorem le32_take (h : i + 4 ≤ n) : le32 (b.take n) i = le32 b i := by
  simp only [le32, byteAt_take (show i < n by omega), byteAt_take (show i + 1 < n by omega),
    byteAt_take (show i + 2 < n by omega), byteAt_take (show i + 3 < n by omega)]

theorem le32_past (h : b.length ≤ i) : le32 b i = 0 := by
  have hbyte : ∀ j, i ≤ j → byteAt b j = 0 := by
    intro j hj
    rw [byteAt, List.getD_eq_getElem?_getD, List.getElem?_eq_none (by omega)]
    rfl
  rw [le32, hbyte i (by omega), hbyte (i + 1) (by omega), hbyte (i + 2) (by omega),
    hbyte (i + 3) (by omega)]
  rfl

theorem halves (x : UInt64) : x.toUInt32.toUInt64 ||| ((x >>> 32).toUInt32.toUInt64 <<< 32) = x := by
  apply UInt64.toNat_inj.mp
  have hlt := x.toNat_lt
  have hcount : (32 : UInt64).toNat % 64 = 32 := rfl
  simp only [UInt64.toNat_or, UInt32.toNat_toUInt64, UInt64.toNat_toUInt32, UInt64.toNat_shiftLeft,
    UInt64.toNat_shiftRight, hcount, Nat.shiftRight_eq_div_pow, Nat.shiftLeft_eq]
  rw [Nat.mod_eq_of_lt (by omega : x.toNat / 2 ^ 32 < 2 ^ 32),
    Nat.mod_eq_of_lt (by omega : x.toNat / 2 ^ 32 * 2 ^ 32 < 2 ^ 64), Nat.lor_comm, Nat.mul_comm,
    ← Nat.two_pow_add_eq_or_of_lt (Nat.mod_lt _ (by decide)), Nat.div_add_mod]

theorem low_half {x : UInt64} (h : x.toNat < 2 ^ 32) : x.toUInt32.toUInt64 = x := by
  apply UInt64.toNat_inj.mp
  rw [UInt32.toNat_toUInt64, UInt64.toNat_toUInt32, Nat.mod_eq_of_lt h]

end Bytes

def StoredAt (disk : Disk) (w : BlockDevice) (pos : Nat) (bytes : List Byte) : Prop :=
  InWindow disk w pos bytes.length ∧
    (List.range' (w.partitionOffset.toNat + pos) bytes.length).map disk.byte = bytes

/-- What is stored: the descriptor of each group, with the block that the table of the
group starts in, and the record of each inode. -/
structure InodeTables (rd : Ext4Reader) where
  descriptor : Nat → List Byte
  table : Nat → UInt64
  record : UInt32 → List Byte
  descriptor_length : ∀ g, (descriptor g).length = rd.descSize.toNat
  record_length : ∀ n, (record n).length = rd.inodeSize.toNat
  table_low : ∀ g, le32 (descriptor g) 8 = (table g).toUInt32
  table_high : ∀ g, IsLong rd → le32 (descriptor g) 40 = (table g >>> 32).toUInt32
  table_short : ∀ g, ¬IsLong rd → (table g).toNat < 2 ^ 32

def descriptorsStart (rd : Ext4Reader) : Nat :=
  (superblockOffset.toNat / rd.blockSize.toNat + 1) * rd.blockSize.toNat

/-- Inodes are numbered from 1 on, group by group. -/
def groupOf (rd : Ext4Reader) (n : UInt32) : Nat := (n.toNat - 1) / rd.sb.sInodesPerGroup.toNat

def indexOf (rd : Ext4Reader) (n : UInt32) : Nat := (n.toNat - 1) % rd.sb.sInodesPerGroup.toNat

structure Written (disk : Disk) (w : BlockDevice) {rd : Ext4Reader} (tables : InodeTables rd) :
    Prop where
  descriptors : ∀ g < rd.groupsCount.toNat,
    StoredAt disk w (descriptorsStart rd + g * rd.descSize.toNat) (tables.descriptor g)
  records : ∀ n, n ≠ 0 → n ≤ rd.sb.sInodesCount → groupOf rd n < rd.groupsCount.toNat →
    StoredAt disk w ((tables.table (groupOf rd n)).toNat * rd.blockSize.toNat +
      indexOf rd n * rd.inodeSize.toNat) (tables.record n)

section Reads

variable {disk : Disk} {w : BlockDevice} {rd : Ext4Reader}

theorem descriptorsStart_eq (hacc : Accepted rd.blockSize) : descriptorsStart rd = tableStart rd := by
  obtain ⟨k, hk, hbs⟩ := hacc
  rw [descriptorsStart, tableStart]
  change (1024 / rd.blockSize.toNat + 1) * _ = _
  by_cases h : rd.blockSize = 1024
  · rw [if_pos h, h]
    rfl
  · have hne : rd.blockSize.toNat ≠ 1024 := fun heq => h (UInt32.toNat_inj.mp heq)
    have hpos := Nat.two_pow_pos k
    rw [if_neg h, Nat.div_eq_of_lt (by omega)]

theorem StoredAt.read {pos : Nat} {bytes : List Byte} (h : StoredAt disk w pos bytes)
    (hopen : w.isOpen = true) (hanswers : ∀ position count, disk.fails position count = false)
    (offset size : UInt64) (hoffset : offset.toNat = pos) (hpos : 0 < size.toNat)
    (hsmall : size.toNat < 2 ^ 31) (hle : size.toNat ≤ bytes.length) :
    disk.device w offset size = pure (some (bytes.take size.toNat)) := by
  obtain ⟨⟨hdisk, hwin⟩, hbytes⟩ := h
  rw [Disk.read_inside hopen hpos hsmall ⟨by omega, fun h => by have := hwin h; omega⟩ hanswers, hoffset]
  conv_rhs => rw [← hbytes]
  rw [← List.map_take, List.take_range'_of_length_ge hle]

theorem readGroupDescriptor_written (hmounted : rd.mounted = true) (hopen : w.isOpen = true)
    (hanswers : ∀ position count, disk.fails position count = false)
    (hstride : 32 ≤ rd.descSize.toNat) {tables : InodeTables rd} (hwritten : Written disk w tables)
    {groupIdx : UInt32} (hgroup : groupIdx.toNat < rd.groupsCount.toNat) :
    readGroupDescriptor (disk.device w) rd groupIdx = pure (some (Packed.ofBytes 64
      ((tables.descriptor groupIdx.toNat).take (descriptorSize rd).toNat))) := by
  have hacc := (rd.geometry hmounted).1
  have hrange : 0 < (descriptorSize rd).toNat ∧ (descriptorSize rd).toNat < 2 ^ 31 := by
    rw [descriptorSize_toNat]
    split <;> decide
  have hread := (hwritten.descriptors _ hgroup).read hopen hanswers
    (descriptorOffset rd groupIdx) (descriptorSize rd)
    (by rw [descriptorOffset_toNat hacc, descriptorsStart_eq hacc]) hrange.1 hrange.2
    (by rw [tables.descriptor_length]; exact descriptorSize_le hstride)
  have hin : ¬(!rd.mounted || decide (groupIdx ≥ rd.groupsCount)) = true := by
    simp only [hmounted, Bool.not_true, Bool.false_or, decide_eq_true_eq]
    exact UInt32.not_le.mpr (UInt32.lt_iff_toNat_lt.mpr hgroup)
  rw [readGroupDescriptor, if_neg hin]
  exact congrArg (fun x => x >>= fun b => pure (b.map (Packed.ofBytes 64))) hread

theorem inodeTableBlock_written (tables : InodeTables rd) (g : Nat) :
    inodeTableBlock rd (Packed.ofBytes 64 ((tables.descriptor g).take (descriptorSize rd).toNat)) =
      tables.table g := by
  have hsize := descriptorSize_toNat rd
  have hge : 12 ≤ (descriptorSize rd).toNat := by
    rw [hsize]
    split <;> decide
  have hlow : Ext4GroupDesc64.bgInodeTableLo (Packed.ofBytes 64
      ((tables.descriptor g).take (descriptorSize rd).toNat)) = (tables.table g).toUInt32 := by
    rw [← tables.table_low g]
    exact (le32_zeroPad (show 8 + 4 ≤ 64 by decide)).trans (le32_take hge)
  rw [inodeTableBlock, hlow]
  by_cases hlong : IsLong rd
  · have hhigh : Ext4GroupDesc64.bgInodeTableHi (Packed.ofBytes 64
        ((tables.descriptor g).take (descriptorSize rd).toNat)) =
          (tables.table g >>> 32).toUInt32 := by
      rw [← tables.table_high g hlong]
      refine (le32_zeroPad (show 40 + 4 ≤ 64 by decide)).trans (le32_take ?_)
      rw [hsize, if_pos hlong]
      decide
    rw [if_pos hlong.1, hhigh, halves]
  · have hhigh : Ext4GroupDesc64.bgInodeTableHi (Packed.ofBytes 64
        ((tables.descriptor g).take (descriptorSize rd).toNat)) = 0 := by
      refine (le32_zeroPad (show 40 + 4 ≤ 64 by decide)).trans (le32_past ?_)
      rw [List.length_take, hsize, if_neg hlong]
      omega
    rw [hhigh, low_half (tables.table_short g hlong)]
    split
    · exact UInt64.or_zero
    · rfl

theorem readInode_no_inode {m : Type → Type} [Monad m] (dev : Device m) (rd : Ext4Reader)
    {n : UInt32} (h : n = 0 ∨ rd.sb.sInodesCount < n) : readInode dev rd n = pure none := by
  rw [readInode, if_pos]
  simp only [Bool.or_eq_true, beq_iff_eq, decide_eq_true_eq, gt_iff_lt]
  exact h.elim (fun h => Or.inl (Or.inr h)) Or.inr

theorem index_toNat {n d : UInt32} (hn : n ≠ 0) :
    ((n - 1) / d).toNat = (n.toNat - 1) / d.toNat ∧ ((n - 1) % d).toNat = (n.toNat - 1) % d.toNat := by
  have hle : (1 : UInt32) ≤ n := by
    rw [UInt32.le_iff_toNat_le]
    exact Nat.pos_of_ne_zero fun h0 => hn (UInt32.toNat_inj.mp h0)
  have hsub : (n - 1).toNat = n.toNat - 1 := UInt32.toNat_sub_of_le _ _ hle
  rw [UInt32.toNat_div, UInt32.toNat_mod, hsub]
  exact ⟨rfl, rfl⟩

theorem readInode_written (hmounted : rd.mounted = true) (hopen : w.isOpen = true)
    (hanswers : ∀ position count, disk.fails position count = false)
    (hper : rd.sb.sInodesPerGroup ≠ 0) (hstride : 32 ≤ rd.descSize.toNat) {tables : InodeTables rd}
    (hwritten : Written disk w tables) {n : UInt32} (hn : n ≠ 0) (hle : n ≤ rd.sb.sInodesCount)
    (hgroup : groupOf rd n < rd.groupsCount.toNat) :
    readInode (disk.device w) rd n = pure (some (Packed.ofBytes 160 (tables.record n))) := by
  obtain ⟨hacc, hpos, hsize⟩ := rd.geometry hmounted
  have hbs := (Accepted.bounds hacc).2
  rw [UInt32.lt_iff_toNat_lt] at hpos
  rw [UInt32.le_iff_toNat_le] at hsize
  obtain ⟨hdiv, hmod⟩ := index_toNat (d := rd.sb.sInodesPerGroup) hn
  have hstored := hwritten.records n hn hle hgroup
  have hlen := tables.record_length n
  have hend := hstored.1.1
  have hdisk := disk.size_le
  have hin : ¬(!rd.mounted || n == 0 || n > rd.sb.sInodesCount) = true := by
    simp [hmounted, hn, UInt32.not_lt.mpr hle]
  have hoffset : (tables.table (groupOf rd n) * rd.blockSize.toUInt64 +
      ((n - 1) % rd.sb.sInodesPerGroup).toUInt64 * rd.inodeSize.toUInt64).toNat =
      (tables.table (groupOf rd n)).toNat * rd.blockSize.toNat + indexOf rd n * rd.inodeSize.toNat := by
    rw [UInt64.toNat_add, UInt64.toNat_mul, UInt64.toNat_mul, UInt32.toNat_toUInt64,
      UInt32.toNat_toUInt64, UInt32.toNat_toUInt64, hmod, ← Nat.add_mod, ← indexOf]
    exact Nat.mod_eq_of_lt (by omega)
  have hread := hstored.read hopen hanswers _ rd.inodeSize.toUInt64 hoffset
    (by rw [UInt32.toNat_toUInt64]; exact hpos) (by rw [UInt32.toNat_toUInt64]; omega)
    (by rw [UInt32.toNat_toUInt64, hlen])
  rw [UInt32.toNat_toUInt64, ← hlen, List.take_length] at hread
  rw [readInode, if_neg hin, if_neg (by simpa using hper)]
  dsimp only
  rw [readGroupDescriptor_written hmounted hopen hanswers hstride hwritten (by rwa [hdiv]), pure_bind,
    hdiv]
  dsimp only
  rw [inodeTableBlock_written tables, ← groupOf, hread]
  rfl

end Reads

/-- Reading an inode inverts the layout of the tables: it finds the record of each number
that has one, cut or padded to the 160 bytes that are kept, and reads nothing for others. -/
theorem readInode_inverts_layout (disk : Disk) (w : BlockDevice) (rd : Ext4Reader)
    (hmounted : rd.mounted = true) (hopen : w.isOpen = true)
    (hanswers : ∀ position count, disk.fails position count = false)
    (hper : rd.sb.sInodesPerGroup ≠ 0) (hstride : 32 ≤ rd.descSize.toNat) (tables : InodeTables rd)
    (hwritten : Written disk w tables) (n : UInt32) :
    (n ≠ 0 → n ≤ rd.sb.sInodesCount → groupOf rd n < rd.groupsCount.toNat →
      ∃ inode, readInode (disk.device w) rd n = pure (some inode) ∧
        inode.bytes = (tables.record n).take 160 ++ List.replicate (160 - rd.inodeSize.toNat) 0) ∧
    (n = 0 ∨ rd.sb.sInodesCount < n → readInode (disk.device w) rd n = pure none ∧
      ∀ log, exec (readInode (traced disk w) rd n) log = (.ok none, log)) := by
  refine ⟨fun hn hle hgroup => ?_, fun h => ⟨readInode_no_inode _ rd h, fun log => ?_⟩⟩
  · refine ⟨_, readInode_written hmounted hopen hanswers hper hstride hwritten hn hle hgroup, ?_⟩
    rw [← tables.record_length n]
    rfl
  · rw [readInode_no_inode _ rd h]
    rfl

def pairReader : Ext4Reader :=
  { plainReader 2 with
    sb := Packed.ofPieces 1024 [(0, le32Bytes 2), (40, le32Bytes 1)]
    groupsCount := 2
    descSize := 64
    is64bit := true }

def pairDisk : Disk :=
  .ofPieces 16384
    [(2056, le32Bytes 5), (2120, le32Bytes 6), (5120, le16Bytes 0x41ED), (6144, le16Bytes 0x81A4)]

def pairTables : InodeTables pairReader where
  descriptor g := zeroPad 64 (List.replicate 8 0 ++ le32Bytes (if g = 0 then 5 else 6))
  table g := if g = 0 then 5 else 6
  record n := zeroPad 128 (le16Bytes (if n = 1 then 0x41ED else 0x81A4))
  descriptor_length _ := zeroPad_length 64 _
  record_length _ := zeroPad_length 128 _
  table_low g := by split <;> decide
  table_high g _ := by split <;> decide
  table_short g _ := by split <;> decide

theorem pairTables_written : Written pairDisk wholeDevice pairTables where
  descriptors g hg := by
    obtain rfl | rfl : g = 0 ∨ g = 1 := by
      change g < 2 at hg
      omega
    · exact ⟨⟨by decide +kernel, by decide⟩, by decide +kernel⟩
    · exact ⟨⟨by decide +kernel, by decide⟩, by decide +kernel⟩
  records n hn hle _ := by
    have hcount : pairReader.sb.sInodesCount = 2 := by decide +kernel
    obtain rfl | rfl : n = 1 ∨ n = 2 := by
      rw [hcount, UInt32.le_iff_toNat_le] at hle
      have hpos : n.toNat ≠ 0 := fun h0 => hn (UInt32.toNat_inj.mp h0)
      change n.toNat ≤ 2 at hle
      rw [← UInt32.toNat_inj, ← UInt32.toNat_inj]
      change n.toNat = 1 ∨ n.toNat = 2
      omega
    · exact ⟨⟨by decide +kernel, by decide⟩, by decide +kernel⟩
    · exact ⟨⟨by decide +kernel, by decide⟩, by decide +kernel⟩

theorem readInode_inverts_layout_pair :
    (∃ inode, readInode (pairDisk.device wholeDevice) pairReader 2 = pure (some inode) ∧
        inode.bytes = zeroPad 160 (le16Bytes 0x81A4)) ∧
      readInode (pairDisk.device wholeDevice) pairReader 3 = pure none := by
  have hlayout := readInode_inverts_layout pairDisk wholeDevice pairReader rfl rfl (fun _ _ => rfl)
    (by decide +kernel) (by decide) pairTables pairTables_written
  obtain ⟨inode, hread, hbytes⟩ := (hlayout 2).1 (by decide) (by decide +kernel) (by decide +kernel)
  refine ⟨⟨inode, hread, hbytes.trans (by decide +kernel)⟩, ((hlayout 3).2 (Or.inr ?_)).1⟩
  decide +kernel

end Linux2Win.InodeLayout
