import Linux2Win.Resolvers
import Linux2Win.InodeLayout
import Linux2Win.Symlinks
import Linux2Win.Volumes

namespace Linux2Win.StoredVolumes

open Bytes Devices Ext4Types Reader BlockMap FileData Directory Programs Vfs FileContent PointerTree
  ReadFile ExtentTree ExtentMap DirRecords InodeLayout Symlinks Listings ListedPaths PathNames NodeTree
  TreeCalls Volumes

section Stored

variable (dev : Device Id) (rd : Ext4Reader) (inode : Ext4Inode)

/-- Where the block map of an inode puts a logical block: on a block of the device, or
nowhere. -/
inductive Placed (logicalBlock : UInt32) : Option UInt64 → Prop
  | extent (ex : Ext4Extent) (physBlock : UInt64) (uses : usesExtents inode = true)
      (tree : SearchTree dev rd inode.iBlock) (inTree : InTree dev rd ex inode.iBlock)
      (written : ex.eeLen ≤ 32768) (maps : Maps ex logicalBlock)
      (place : physBlock.toNat = firstBlock ex + (logicalBlock.toNat - ex.eeBlock.toNat))
      (ne : physBlock ≠ 0) : Placed logicalBlock (some physBlock)
  | noExtent (uses : usesExtents inode = true) (tree : SearchTree dev rd inode.iBlock)
      (hole : ∀ ex, InTree dev rd ex inode.iBlock → ¬Maps ex logicalBlock) : Placed logicalBlock none
  | pointer (physBlock : UInt64) (uses : usesExtents inode = false)
      (range : logicalBlock.toNat < 12 + pointersPerBlock rd + pointersPerBlock rd * pointersPerBlock rd)
      (path : pointerTree dev rd inode logicalBlock = pure (.entry physBlock)) (ne : physBlock ≠ 0) :
      Placed logicalBlock (some physBlock)
  | noPointer (uses : usesExtents inode = false)
      (range : logicalBlock.toNat < 12 + pointersPerBlock rd + pointersPerBlock rd * pointersPerBlock rd)
      (path : pointerTree dev rd inode logicalBlock = pure .absent) : Placed logicalBlock none

/-- The byte lies in its block, and the bytes of a hole are zeros. -/
def StoredByte (pos : Nat) (x : Byte) : Prop :=
  ∃ logicalBlock : UInt32, logicalBlock.toNat = pos / rd.blockSize.toNat ∧
    ((Placed dev rd inode logicalBlock none ∧ x = 0) ∨
      ∃ physBlock b, Placed dev rd inode logicalBlock (some physBlock) ∧
        readBlock dev physBlock rd.blockSize = pure (some b) ∧
        b[pos % rd.blockSize.toNat]? = some x)

structure StoredData (bytes : List Byte) : Prop where
  size : (fileSize inode).toNat = bytes.length
  data : ∀ pos (h : pos < bytes.length), StoredByte dev rd inode pos bytes[pos]

def StoredContent : Content → Prop
  | .directory size entries => fileSize inode = size.toUInt64 ∧ ∃ records : List Ext4DirEntry2,
      (records.filter (·.Live)).map (fun r => ⟨r.name, r.inode, r.fileType⟩) = entries ∧
        StoredData dev rd inode (encodeAll records)
  | .regular bytes => StoredData dev rd inode bytes
  | .symlink target => StoredTarget dev rd inode target
  | .special size => fileSize inode = size.toUInt64

/-- The inode has the attributes of the node and leads to its content. -/
structure StoredNode (n : Node) : Prop where
  mode : inode.iMode = n.mode
  uid : inode.iUid.toUInt32 ||| (inode.iUidHigh.toUInt32 <<< 16) = n.uid
  gid : inode.iGid.toUInt32 ||| (inode.iGidHigh.toUInt32 <<< 16) = n.gid
  atime : inode.iAtime = n.atime
  mtime : inode.iMtime = n.mtime
  ctime : inode.iCtime = n.ctime
  crtime : (if rd.inodeSize > 128 then inode.iCrtime else inode.iMtime) = n.crtime
  content : StoredContent dev rd inode n.content

/-- The device holds the volume for the reader that is mounted on it. -/
structure Stored (dev : Device Id) (rd : Ext4Reader) (v : Volume) : Prop where
  mounted : rd.mounted = true
  inodes : ∀ i n, v.node i = some n →
    ∃ inode, readInode dev rd i = pure (some inode) ∧ StoredNode dev rd inode n

/-- The inodes of a volume are stored if they lie in the tables of the filesystem. -/
theorem Stored.of_written {disk : Disk} {w : BlockDevice} {rd : Ext4Reader} {v : Volume}
    (hmounted : rd.mounted = true) (hopen : w.isOpen = true)
    (hanswers : ∀ position count, disk.fails position count = false)
    (hper : rd.sb.sInodesPerGroup ≠ 0) (hstride : 32 ≤ rd.descSize.toNat) {tables : InodeTables rd}
    (hwritten : Written disk w tables)
    (h : ∀ i n, v.node i = some n → i ≠ 0 ∧ i ≤ rd.sb.sInodesCount ∧ groupOf rd i < rd.groupsCount.toNat ∧
      StoredNode (disk.device w) rd (Packed.ofBytes 160 (tables.record i)) n) :
    Stored (disk.device w) rd v where
  mounted := hmounted
  inodes i n hn := by
    obtain ⟨hi, hle, hgroup, hnode⟩ := h i n hn
    exact ⟨_, readInode_written hmounted hopen hanswers hper hstride hwritten hi hle hgroup, hnode⟩

end Stored

section Data

variable {disk : Disk} {w : BlockDevice} {rd : Ext4Reader} {inode : Ext4Inode}

theorem Placed.mapBlock {dev : Device Id} {logicalBlock : UInt32} {r : Option UInt64}
    (hacc : Accepted rd.blockSize) (h : Placed dev rd inode logicalBlock r) :
    ∃ depth, BlockMap.mapBlock dev rd depth inode logicalBlock = pure r := by
  cases h with
  | extent ex physBlock uses tree inTree _ maps place _ =>
      exact (Stores.extent ex uses tree inTree maps place).mapBlock hacc
  | pointer physBlock uses range path _ => exact (Stores.pointer uses range path).mapBlock hacc
  | noExtent uses tree hole =>
      obtain ⟨r, hplace, depth, hdepth⟩ := tree.lookup logicalBlock
      refine ⟨depth, ?_⟩
      rw [BlockMap.mapBlock, if_pos uses, resolve_of_nodeAnswer (hdepth depth le_rfl)]
      cases r with
      | none => rfl
      | some physBlock =>
          obtain ⟨ex, hex, hcovers, _⟩ := (hplace physBlock).mp rfl
          exact absurd ((covers_iff_maps (inTree_lt tree hex) logicalBlock).mp hcovers) (hole ex hex)
  | noPointer uses range path =>
      refine ⟨0, ?_⟩
      rw [BlockMap.mapBlock, uses, if_neg Bool.false_ne_true, readIndirectBlock_eq dev hacc inode range,
        path]
      rfl

theorem Placed.ne_zero {dev : Device Id} {logicalBlock : UInt32} {physBlock : UInt64}
    (h : Placed dev rd inode logicalBlock (some physBlock)) : physBlock ≠ 0 := by
  cases h with
  | extent _ _ _ _ _ _ _ _ ne => exact ne
  | pointer _ _ _ _ ne => exact ne

theorem StoredData.map {dev : Device Id} {bytes : List Byte} (hacc : Accepted rd.blockSize)
    (h : StoredData dev rd inode bytes) : ∃ (map : UInt32 → Option UInt64) (bound : Nat),
      (∀ fuel ≥ bound, ∀ pos < bytes.length,
        mapBlock dev rd fuel inode (UInt32.ofNat (pos / rd.blockSize.toNat)) =
          pure (map (UInt32.ofNat (pos / rd.blockSize.toNat)))) ∧
      ∀ pos (hlt : pos < bytes.length), IsFileByte dev rd map pos bytes[pos] := by
  have hplaced : ∀ l, (∃ pos < bytes.length, UInt32.ofNat (pos / rd.blockSize.toNat) = l) →
      ∃ r depth, mapBlock dev rd depth inode l = pure r := by
    rintro _ ⟨pos, hlt, rfl⟩
    obtain ⟨l, hl, ⟨hnone, _⟩ | ⟨physBlock, b, hsome, _⟩⟩ := h.data pos hlt
    · rw [← hl, UInt32.ofNat_toNat]
      exact ⟨none, hnone.mapBlock hacc⟩
    · rw [← hl, UInt32.ofNat_toNat]
      exact ⟨some physBlock, hsome.mapBlock hacc⟩
  choose! map hmap using hplaced
  obtain ⟨bound, hbound⟩ := mapBlock_bounded hmap
  refine ⟨map, bound, fun fuel hfuel pos hlt => hbound fuel hfuel _ ⟨pos, hlt, rfl⟩, ?_⟩
  intro pos hlt
  have hagree : ∀ l r, l = UInt32.ofNat (pos / rd.blockSize.toNat) → Placed dev rd inode l r →
      map l = r := by
    rintro l r rfl hplaced
    obtain ⟨depth, hdepth⟩ := hplaced.mapBlock hacc
    exact pure_injective ((hbound _ (le_max_right depth bound) _ ⟨pos, hlt, rfl⟩).symm.trans
      (mapBlock_mono (le_max_left depth bound) hdepth))
  obtain ⟨l, hl, ⟨hnone, hx⟩ | ⟨physBlock, b, hsome, hread, hget⟩⟩ := h.data pos hlt
  · have hl' : l = UInt32.ofNat (pos / rd.blockSize.toNat) := by rw [← hl, UInt32.ofNat_toNat]
    rw [IsFileByte, ← hl', hagree l none hl' hnone]
    exact hx
  · have hl' : l = UInt32.ofNat (pos / rd.blockSize.toNat) := by rw [← hl, UInt32.ofNat_toNat]
    rw [IsFileByte, ← hl', hagree l _ hl' hsome]
    dsimp only
    rw [if_neg hsome.ne_zero]
    exact ⟨b, hread, hget⟩

end Data

section Nodes

variable {disk : Disk} {w : BlockDevice} {rd : Ext4Reader} {inode : Ext4Inode} {i : UInt32} {n : Node}
  {v : Volume}

theorem StoredNode.type {dev : Device Id} (h : StoredNode dev rd inode n) :
    (inode.iMode &&& sIfmt == sIfdir) = n.content.isDirectory ∧
      (inode.iMode &&& sIfmt == sIfreg) = n.content.isRegular ∧
        (inode.iMode &&& sIfmt == sIflnk) = n.content.isSymlink := by
  rw [h.mode]
  exact ⟨n.directory_mode, n.regular_mode, n.symlink_mode⟩

theorem StoredNode.fileSize {dev : Device Id} (h : StoredNode dev rd inode n) :
    FileData.fileSize inode = UInt64.ofNat n.content.size := by
  have hcontent := h.content
  have htype := h.type.2.2
  rw [← UInt64.toNat_inj]
  cases hc : n.content with
  | directory size entries =>
      rw [hc] at hcontent
      rw [hcontent.1, Content.size]
      simp
  | regular bytes =>
      rw [hc] at hcontent
      have hlt := (FileData.fileSize inode).toNat_lt
      rw [Content.size, UInt64.toNat_ofNat', ← hcontent.size, Nat.mod_eq_of_lt hlt]
  | symlink target =>
      rw [hc] at hcontent htype
      have hlt := inode.iSizeLo.toNat_lt
      rw [fileSize_symlink (beq_iff_eq.mp htype), UInt32.toNat_toUInt64, hcontent.size, Content.size,
        UInt64.toNat_ofNat', Nat.mod_eq_of_lt]
      have := hcontent.size
      omega
  | special size =>
      rw [hc] at hcontent
      rw [hcontent, Content.size]
      simp

theorem statInode_stored (hmounted : rd.mounted = true) (hn : v.node i = some n)
    (hinode : readInode (disk.device w) rd i = pure (some inode))
    (h : StoredNode (disk.device w) rd inode n) :
    ∃ depth, ∀ fuel ≥ depth, statInode (disk.device w) rd fuel i = pure (v.stat i) := by
  obtain ⟨hdir, hreg, hlnk⟩ := h.type
  have htarget : ∃ depth, ∀ fuel ≥ depth,
      (if n.content.isSymlink then readSymlinkTarget (disk.device w) rd fuel i else pure (true, [])) =
        pure (true, n.content.target) := by
    cases hc : n.content with
    | symlink target =>
        have hcontent := h.content
        rw [hc] at hcontent hlnk
        exact readSymlinkTarget_stored disk w hmounted hinode (beq_iff_eq.mp hlnk) hcontent
    | directory size entries => exact ⟨0, fun _ _ => rfl⟩
    | regular bytes => exact ⟨0, fun _ _ => rfl⟩
    | special size => exact ⟨0, fun _ _ => rfl⟩
  obtain ⟨depth, hdepth⟩ := htarget
  refine ⟨depth, fun fuel hfuel => ?_⟩
  have hreads := hdepth fuel hfuel
  rw [statInode, hinode, pure_bind, Volume.stat, hn]
  dsimp only
  rw [hlnk, hdir, hreg, h.fileSize, h.mode, h.uid, h.gid, h.crtime, h.atime, h.mtime, h.ctime]
  cases hsymlink : n.content.isSymlink with
  | true =>
      rw [hsymlink, if_pos rfl] at hreads
      rw [if_pos rfl, hreads, pure_bind, Option.map_some, hsymlink]
  | false =>
      rw [hsymlink, if_neg Bool.false_ne_true] at hreads
      rw [if_neg Bool.false_ne_true, hreads, pure_bind, Option.map_some, hsymlink]

theorem live_entries (hs : Stored (disk.device w) rd v) {d : UInt32} {entries : List Entry}
    (hentries : v.entries d = some entries) {records : List Ext4DirEntry2}
    (h : (records.filter (·.Live)).map (fun r => (⟨r.name, r.inode, r.fileType⟩ : Entry)) = entries) :
    (records.filter (·.Live)).map (·.entry (readable (disk.device w) rd)) =
      entries.map v.entryInfo := by
  subst h
  rw [List.map_map]
  refine List.map_congr_left fun r hr => ?_
  obtain ⟨child, hchild, htyped⟩ :=
    Volume.entry_node hentries (List.mem_map_of_mem (f := fun r => Entry.mk r.name r.inode r.fileType) hr)
  dsimp only at hchild htyped
  obtain ⟨inode, hinode, hnode⟩ := hs.inodes _ _ hchild
  rw [Function.comp_apply, Volume.entryInfo, hchild, Ext4DirEntry2.entry]
  by_cases hzero : r.fileType = 0
  · have hread : readable (disk.device w) rd r.inode = some inode := by
      rw [readable, hinode]
      rfl
    obtain ⟨hdir, _, hlnk⟩ := hnode.type
    rw [if_pos hzero, hread]
    dsimp only
    rw [hdir, hlnk]
    rfl
  · rw [if_neg hzero, (htyped hzero).1, (htyped hzero).2]
    rfl

theorem listDirectory_directory (hmounted : rd.mounted = true)
    (hinode : readInode (disk.device w) rd i = pure (some inode))
    (hdir : inode.iMode &&& sIfmt = sIfdir) {records : List Ext4DirEntry2}
    (hdata : StoredData (disk.device w) rd inode (encodeAll records)) :
    ∃ depth, ∀ fuel ≥ depth, listDirectory (disk.device w) rd fuel i =
      pure (some ((records.filter (·.Live)).map (·.entry (readable (disk.device w) rd)))) := by
  have hsize : inode.iSizeLo.toNat = (encodeAll records).length := by
    rw [← hdata.size, fileSize_directory hdir, UInt32.toNat_toUInt64]
  have htotal : inode.iSizeLo.toUInt64.toNat = (encodeAll records).length := by
    rw [UInt32.toNat_toUInt64, hsize]
  obtain ⟨map, bound, hmap, hbytes⟩ := hdata.map (rd.geometry hmounted).1
  refine ⟨max bound ((encodeAll records).length + 1), fun fuel hfuel => ?_⟩
  rw [listDirectory, hmounted, hinode]
  simp only [Bool.not_true, Bool.false_eq_true, if_false, pure_bind, hdir, bne_self_eq_false]
  by_cases hnone : records = []
  · rw [if_pos, hnone]
    · rfl
    · rw [beq_iff_eq, ← UInt64.toNat_inj, htotal, hnone]
      rfl
  · have hpos : 0 < (encodeAll records).length :=
      Nat.pos_of_ne_zero fun h => hnone (encodeAll_nil_iff.mp h)
    have hne : ¬(inode.iSizeLo.toUInt64 == 0) = true := by
      rw [beq_iff_eq, ← UInt64.toNat_inj, htotal]
      exact hpos.ne'
    have hscan := scanDirectory_encode (readInode_readable disk w hmounted hinode) records [] []
      (Nat.lt_succ_of_le (length_le_encodeAll records))
    rw [List.nil_append, List.nil_append] at hscan
    rw [if_neg hne, htotal, readFileData_whole disk w hmounted hinode (fileSize_directory hdir) hsize hpos
      (by omega) (hmap fuel (by omega)) hbytes, pure_bind,
      overlay_whole (by rw [List.length_replicate])]
    simp only [Bool.not_true, Bool.false_eq_true, if_false]
    rw [htotal]
    exact congrArg (· >>= fun found => pure (some found)) hscan

theorem listDirectory_stored (hs : Stored (disk.device w) rd v) (hn : v.node i = some n)
    (hinode : readInode (disk.device w) rd i = pure (some inode))
    (h : StoredNode (disk.device w) rd inode n) :
    ∃ depth, ∀ fuel ≥ depth, listDirectory (disk.device w) rd fuel i = pure (v.list i) := by
  have hdir := h.type.1
  cases hd : n.content.isDirectory with
  | false =>
      have hnone : v.list i = none := by
        rw [Volume.list, Volume.entries, hn, Option.bind_some]
        cases hc : n.content with
        | directory size entries => rw [hc] at hd; cases hd
        | regular bytes => rfl
        | symlink target => rfl
        | special size => rfl
      refine ⟨0, fun fuel _ => ?_⟩
      rw [hd, beq_eq_false_iff_ne] at hdir
      rw [hnone, listDirectory, hs.mounted, hinode]
      simp [hdir]
  | true =>
      cases hc : n.content with
      | directory size entries =>
          have hcontent := h.content
          rw [hc] at hcontent
          obtain ⟨_, records, hlive, hdata⟩ := hcontent
          rw [hd, beq_iff_eq] at hdir
          have hentries : v.entries i = some entries := Volume.entries_eq_some.mpr ⟨n, size, hn, hc⟩
          obtain ⟨depth, hdepth⟩ := listDirectory_directory hs.mounted hinode hdir hdata
          refine ⟨depth, fun fuel hfuel => ?_⟩
          rw [hdepth fuel hfuel, live_entries hs hentries hlive, Volume.list, hentries]
          rfl
      | regular bytes => rw [hc] at hd; cases hd
      | symlink target => rw [hc] at hd; cases hd
      | special size => rw [hc] at hd; cases hd

theorem readFileData_stored (hmounted : rd.mounted = true)
    (hinode : readInode (disk.device w) rd i = pure (some inode)) {bytes : List Byte}
    (h : StoredData (disk.device w) rd inode bytes) :
    ∃ depth, ∀ fuel ≥ depth, ∀ (offset size : UInt64) (buffer : List Byte), 0 < size.toNat →
      size.toNat < 2 ^ 32 → offset.toNat + size.toNat < 2 ^ 64 → size.toNat < fuel →
        readFileData (disk.device w) rd fuel i offset (some buffer) size =
          pure ⟨true, overlay ((bytes.drop offset.toNat).take size.toNat) buffer,
            UInt64.ofNat ((bytes.drop offset.toNat).take size.toNat).length⟩ := by
  have hacc := (rd.geometry hmounted).1
  have hdev := disk_whole disk w hacc
  have hpos := (Accepted.bounds hacc).1
  obtain ⟨map, bound, hmap, hbytes⟩ := h.map hacc
  refine ⟨bound, fun fuel hfuel offset size buffer hsize hsmall hno hturns => ?_⟩
  have hne : size ≠ 0 := by
    rintro rfl
    exact absurd hsize (by decide)
  rw [readFileData_eq hmounted hinode fuel offset buffer hne]
  by_cases hend : fileSize inode ≤ offset
  · have hle := UInt64.le_iff_toNat_le.mp hend
    rw [h.size] at hle
    rw [if_pos hend, List.drop_eq_nil_of_le hle, List.take_nil]
    rfl
  · have hlt := UInt64.not_le.mp hend
    have hlt' := UInt64.lt_iff_toNat_lt.mp hlt
    rw [h.size] at hlt'
    have hclip : (clippedSize inode offset size).toNat = min size.toNat (bytes.length - offset.toNat) := by
      rw [clippedSize_toNat hlt hno, readCount, h.size]
    obtain ⟨⟨ok, out⟩, hloop⟩ := copyLoop_returns hdev hpos
      (fun pos hge hlt => ⟨_, hmap fuel hfuel pos (by omega)⟩) []
      (by omega : (clippedSize inode offset size).toNat < 2 ^ 32)
      (by omega : offset.toNat + _ < 2 ^ 64) (by omega : _ < fuel)
    obtain ⟨hbad, hgood⟩ := copyLoop_spec hdev hpos (by omega) hloop
    have hmapOf : ∀ pos < bytes.length,
        mapOf (disk.device w) rd inode fuel (UInt32.ofNat (pos / rd.blockSize.toNat)) =
          map (UInt32.ofNat (pos / rd.blockSize.toNat)) := fun pos hlt => by
      rw [mapOf, hmap fuel hfuel pos hlt]
      rfl
    obtain rfl : ok = true := by
      refine Bool.of_not_eq_false fun hfalse => ?_
      obtain ⟨pos, _, hlt, hunreadable⟩ := hbad.mp hfalse
      have hlt' : pos < bytes.length := by omega
      rw [IsUnreadable, hmapOf pos hlt'] at hunreadable
      exact (hbytes pos hlt').not_unreadable hunreadable
    obtain ⟨hlen, hdata⟩ := hgood rfl
    have hout : out = (bytes.drop offset.toNat).take size.toNat := by
      refine List.ext_getElem (by simp [hlen, hclip]) fun k hk hk' => ?_
      have hlt' : offset.toNat + k < bytes.length := by omega
      have hbyte := hdata k hk
      rw [IsFileByte, hmapOf _ hlt', ← IsFileByte] at hbyte
      rw [List.getElem_take, List.getElem_drop]
      exact hbyte.unique (hbytes _ hlt')
    rw [if_neg hend, hloop, pure_bind, if_pos rfl, ← hout, hlen, UInt64.ofNat_toNat]

structure Answers (disk : Disk) (w : BlockDevice) (rd : Ext4Reader) (v : Volume) (fuel : Nat)
    (i : UInt32) : Prop where
  stat : statInode (disk.device w) rd fuel i = pure (v.stat i)
  list : listDirectory (disk.device w) rd fuel i = pure (v.list i)
  read : ∀ (offset size : UInt64) (buffer data : List Byte), 0 < size.toNat → size.toNat < 2 ^ 32 →
    offset.toNat + size.toNat < 2 ^ 64 → size.toNat < fuel →
      v.read i offset.toNat size.toNat = some data →
        readFileData (disk.device w) rd fuel i offset (some buffer) size =
          pure ⟨true, overlay data buffer, UInt64.ofNat data.length⟩

theorem answers_node (hs : Stored (disk.device w) rd v) (hn : v.node i = some n) :
    ∃ depth, ∀ fuel ≥ depth, Answers disk w rd v fuel i := by
  obtain ⟨inode, hinode, hnode⟩ := hs.inodes i n hn
  obtain ⟨depth, hstat⟩ := statInode_stored hs.mounted hn hinode hnode
  obtain ⟨depth', hlist⟩ := listDirectory_stored hs hn hinode hnode
  have hread : ∃ depth, ∀ fuel ≥ depth, ∀ (offset size : UInt64) (buffer data : List Byte),
      0 < size.toNat → size.toNat < 2 ^ 32 → offset.toNat + size.toNat < 2 ^ 64 → size.toNat < fuel →
        v.read i offset.toNat size.toNat = some data →
          readFileData (disk.device w) rd fuel i offset (some buffer) size =
            pure ⟨true, overlay data buffer, UInt64.ofNat data.length⟩ := by
    cases hc : n.content with
    | regular bytes =>
        have hcontent := hnode.content
        rw [hc] at hcontent
        obtain ⟨depth, hdepth⟩ := readFileData_stored hs.mounted hinode hcontent
        refine ⟨depth, fun fuel hfuel offset size buffer data hsize hsmall hno hturns hdata => ?_⟩
        rw [Volume.read, hn, Option.bind_some, hc, Option.some.injEq] at hdata
        rw [hdepth fuel hfuel offset size buffer hsize hsmall hno hturns, hdata]
    | directory _ _ =>
        refine ⟨0, fun _ _ _ _ _ _ _ _ _ _ hdata => ?_⟩
        rw [Volume.read, hn, Option.bind_some, hc] at hdata
        cases hdata
    | symlink _ =>
        refine ⟨0, fun _ _ _ _ _ _ _ _ _ _ hdata => ?_⟩
        rw [Volume.read, hn, Option.bind_some, hc] at hdata
        cases hdata
    | special _ =>
        refine ⟨0, fun _ _ _ _ _ _ _ _ _ _ hdata => ?_⟩
        rw [Volume.read, hn, Option.bind_some, hc] at hdata
        cases hdata
  obtain ⟨depth'', hread⟩ := hread
  exact ⟨max depth (max depth' depth''), fun fuel hfuel =>
    ⟨hstat fuel (by omega), hlist fuel (by omega), hread fuel (by omega)⟩⟩

/-- One amount of fuel is enough for all nodes: inode numbers have 32 bits. -/
theorem answers_all (hs : Stored (disk.device w) rd v) :
    ∃ bound, ∀ fuel ≥ bound, ∀ i n, v.node i = some n → Answers disk w rd v fuel i := by
  have hnode : ∀ i, ∃ depth, ∀ fuel ≥ depth, ∀ n, v.node i = some n → Answers disk w rd v fuel i := by
    intro i
    cases hn : v.node i with
    | none => exact ⟨0, fun _ _ n h => nomatch h⟩
    | some n =>
        obtain ⟨depth, hdepth⟩ := answers_node hs hn
        exact ⟨depth, fun fuel hfuel _ _ => hdepth fuel hfuel⟩
  choose depth hdepth using hnode
  obtain ⟨bound, hbound⟩ := depths_bounded depth
  exact ⟨bound, fun fuel hfuel i n hn => hdepth i fuel (le_trans (hbound i) hfuel) n hn⟩

end Nodes

section Paths

variable {disk : Disk} {w : BlockDevice} {rd : Ext4Reader} {v : Volume} {fuel : Nat}

theorem linked_node (v : Volume) {i : UInt32} (h : Linked v.reader i) : ∃ n, v.node i = some n := by
  induction h with
  | root =>
      obtain ⟨n, hn, _⟩ := v.root
      exact ⟨n, hn⟩
  | entry _ hlist mem _ =>
      obtain ⟨entries, hentries, rfl⟩ := Option.map_eq_some_iff.mp hlist
      obtain ⟨e, he, rfl⟩ := List.mem_map.mp mem
      obtain ⟨child, hchild, _⟩ := Volume.entry_node hentries he
      exact ⟨child, hchild⟩

theorem serves_stored (hmounted : rd.mounted = true)
    (h : ∀ i n, v.node i = some n → Answers disk w rd v fuel i) :
    Serves (ext4 (disk.device w) rd fuel) v.reader where
  isMounted := hmounted
  stat i hi := by
    obtain ⟨n, hn⟩ := linked_node v hi
    exact (h i n hn).stat
  list i hi := by
    obtain ⟨n, hn⟩ := linked_node v hi
    exact (h i n hn).list

theorem lookupPath_stored (hmounted : rd.mounted = true)
    (h : ∀ i n, v.node i = some n → Answers disk w rd v fuel i) (path : Name) :
    lookupPath (disk.device w) rd fuel path = pure (v.lookup path) := by
  rw [Volume.lookup]
  split
  · next hdot =>
      rw [hdot, lookupPath, hmounted]
      rfl
  · next hdot =>
      rw [Resolvers.lookupPath_served hmounted (serves_stored hmounted h) hdot,
        ← Volume.lookupParts_follow]
      rfl

theorem lookup_node {path : Name} {i : UInt32} (h : v.lookup path = some i) : ∃ n, v.node i = some n := by
  have hfollow : ∀ parts d, (∃ n, v.node d = some n) → ∀ i, v.follow (· == ·) parts d = some i →
      ∃ n, v.node i = some n := by
    intro parts
    induction parts with
    | nil => intro d hd i hi; cases hi; exact hd
    | cons part parts ih =>
        intro d _ i hi
        obtain ⟨entries, hentries, hi⟩ := Option.bind_eq_some_iff.mp hi
        obtain ⟨e, hfind, hi⟩ := Option.bind_eq_some_iff.mp hi
        obtain ⟨child, hchild, _⟩ := Volume.entry_node hentries (List.mem_of_find?_eq_some hfind)
        exact ih e.inode ⟨child, hchild⟩ i hi
  obtain ⟨root, hroot, _⟩ := v.root
  rw [Volume.lookup] at h
  split at h
  · cases h
    exact ⟨root, hroot⟩
  · exact hfollow _ 2 ⟨root, hroot⟩ i h

end Paths

/-- What the paths of a stored volume lead to is found, listed and described as the volume
has it, and every read of a regular file delivers its bytes. -/
theorem volume_read_back (disk : Disk) (w : BlockDevice) (rd : Ext4Reader) (v : Volume)
    (hs : Stored (disk.device w) rd v) : ∃ bound, ∀ fuel ≥ bound, ∀ path,
      lookupPath (disk.device w) rd fuel path = pure (v.lookup path) ∧
      listDirectoryPath (disk.device w) rd fuel path = pure ((v.lookup path).bind v.list) ∧
      statPath (disk.device w) rd fuel path = pure ((v.lookup path).bind v.stat) ∧
      ∀ (offset size : UInt64) (buffer : List Byte),
        (v.lookup path = none → readFileByPath (disk.device w) rd fuel path offset (some buffer) size =
          pure ⟨false, buffer, 0⟩) ∧
        ∀ data, (v.lookup path).bind (fun i => v.read i offset.toNat size.toNat) = some data →
          0 < size.toNat → size.toNat < 2 ^ 32 → offset.toNat + size.toNat < 2 ^ 64 →
            readFileByPath (disk.device w) rd fuel path offset (some buffer) size =
              pure ⟨true, overlay data buffer, UInt64.ofNat data.length⟩ := by
  obtain ⟨bound, hbound⟩ := answers_all hs
  refine ⟨max bound (2 ^ 32), fun fuel hfuel path => ?_⟩
  have h := hbound fuel ((le_max_left _ _).trans hfuel)
  have hlookup := lookupPath_stored hs.mounted h path
  rw [listDirectoryPath, statPath, hlookup, pure_bind, pure_bind]
  refine ⟨rfl, ?_, ?_, fun offset size buffer => ?_⟩
  · cases hpath : v.lookup path with
    | none => rfl
    | some i =>
        obtain ⟨n, hn⟩ := lookup_node hpath
        exact (h i n hn).list
  · cases hpath : v.lookup path with
    | none => rfl
    | some i =>
        obtain ⟨n, hn⟩ := lookup_node hpath
        exact (h i n hn).stat
  · rw [readFileByPath, hlookup, pure_bind]
    refine ⟨fun hnone => by rw [hnone]; rfl, fun data hdata hsize hsmall hno => ?_⟩
    obtain ⟨i, hpath, hread⟩ := Option.bind_eq_some_iff.mp hdata
    obtain ⟨n, hn⟩ := lookup_node hpath
    have hturns : size.toNat < fuel := lt_of_lt_of_le hsmall ((le_max_right _ _).trans hfuel)
    rw [hpath]
    exact (h i n hn).read offset size buffer data hsize hsmall hno hturns hread

/-- A root directory with the directory d, which has the empty file e (inode 13), and
beside it the file f (inode 12) with the text abc. -/
def plainDisk : Disk :=
  .ofPieces 16384
    [(1024, le32Bytes 16 ++ le32Bytes 16), (1056, le32Bytes 8192), (1064, le32Bytes 16),
      (1080, le16Bytes superblockMagic), (2056, le32Bytes 5),
      (5248, le16Bytes 0x41ED ++ [0, 0] ++ le32Bytes 1024), (5288, le32Bytes 8),
      (6400, le16Bytes 0x41ED ++ [0, 0] ++ le32Bytes 1024), (6440, le32Bytes 9),
      (6528, le16Bytes 0x8180 ++ [0, 0] ++ le32Bytes 3), (6568, le32Bytes 10),
      (6656, le16Bytes 0x8180),
      (8192, le32Bytes 11 ++ le16Bytes 12 ++ [1, 2, 0x64, 0, 0, 0]),
      (8204, le32Bytes 12 ++ le16Bytes 1012 ++ [1, 1, 0x66, 0, 0, 0]),
      (9216, le32Bytes 13 ++ le16Bytes 1024 ++ [1, 1, 0x65, 0, 0, 0]),
      (10240, [0x61, 0x62, 0x63])]

def plainWindow : BlockDevice := opened true 0 16384

def plainDevice : Device Id := plainDisk.device plainWindow

def plainRd : Ext4Reader :=
  match result (mount plainDevice true initial) with
  | some (_, rd) => rd
  | none => initial

theorem plain_superblock : (result (mount plainDevice true initial)).any Prod.fst = true := by
  decide +kernel

theorem plain_mounts : mount plainDevice true initial = pure (true, plainRd) := by
  obtain ⟨⟨ok, rd⟩, hrun, hok⟩ := (Option.any_eq_true _ _).mp plain_superblock
  obtain rfl : ok = true := hok
  have hrd : plainRd = rd := by
    unfold plainRd
    rw [hrun]
  rw [hrd]
  exact result_eq_some.mp hrun

def plainRecords : List Ext4DirEntry2 :=
  [⟨11, [0x64], 2, [0, 0, 0], by decide, by decide, by decide⟩,
    ⟨12, [0x66], 1, List.replicate 1003 0, by decide, by rw [List.length_replicate]; decide,
      by rw [List.length_replicate]; decide⟩]

def innerRecords : List Ext4DirEntry2 :=
  [⟨13, [0x65], 1, List.replicate 1015 0, by decide, by rw [List.length_replicate]; decide,
    by rw [List.length_replicate]; exact ⟨256, rfl⟩⟩]

def directoryNode (size : UInt32) (entries : List Entry) : Node :=
  ⟨0x41ED, 0, 0, 0, 0, 0, 0, .directory size entries, by rfl, by rfl, by rfl⟩

def regularNode (bytes : List Byte) : Node :=
  ⟨0x8180, 0, 0, 0, 0, 0, 0, .regular bytes, by rfl, by rfl, by rfl⟩

def plainNode (i : UInt32) : Option Node :=
  if i = 2 then some (directoryNode 1024 [⟨[0x64], 11, 2⟩, ⟨[0x66], 12, 1⟩])
  else if i = 11 then some (directoryNode 1024 [⟨[0x65], 13, 1⟩])
  else if i = 12 then some (regularNode [0x61, 0x62, 0x63])
  else if i = 13 then some (regularNode [])
  else none

theorem plainNode_cases {i : UInt32} {n : Node} (h : plainNode i = some n) :
    (i = 2 ∧ n = directoryNode 1024 [⟨[0x64], 11, 2⟩, ⟨[0x66], 12, 1⟩]) ∨
      (i = 11 ∧ n = directoryNode 1024 [⟨[0x65], 13, 1⟩]) ∨
      (i = 12 ∧ n = regularNode [0x61, 0x62, 0x63]) ∨ (i = 13 ∧ n = regularNode []) := by
  rw [plainNode] at h
  split at h
  · next hi => exact Or.inl ⟨hi, (Option.some.inj h).symm⟩
  · split at h
    · next hi => exact Or.inr (Or.inl ⟨hi, (Option.some.inj h).symm⟩)
    · split at h
      · next hi => exact Or.inr (Or.inr (Or.inl ⟨hi, (Option.some.inj h).symm⟩))
      · split at h
        · next hi => exact Or.inr (Or.inr (Or.inr ⟨hi, (Option.some.inj h).symm⟩))
        · cases h

theorem plainNode_entries {d : UInt32} {n : Node} {size : UInt32} {entries : List Entry}
    (hn : plainNode d = some n) (hc : n.content = .directory size entries) {e : Entry}
    (he : e ∈ entries) : (e = ⟨[0x64], 11, 2⟩ ∨ e = ⟨[0x66], 12, 1⟩ ∨ e = ⟨[0x65], 13, 1⟩) := by
  rcases plainNode_cases hn with ⟨_, rfl⟩ | ⟨_, rfl⟩ | ⟨_, rfl⟩ | ⟨_, rfl⟩
  · cases hc
    simp only [List.mem_cons, List.not_mem_nil, or_false] at he
    rcases he with rfl | rfl
    · exact Or.inl rfl
    · exact Or.inr (Or.inl rfl)
  · cases hc
    exact Or.inr (Or.inr (List.mem_singleton.mp he))
  · cases hc
  · cases hc

def plainVolume : Volume where
  node := plainNode
  root := ⟨_, rfl, rfl⟩
  names d n size entries hn hc e he := by
    rcases plainNode_entries hn hc he with rfl | rfl | rfl <;> exact ⟨by decide, by decide, by decide, by decide⟩
  linked d n size entries hn hc e he := by
    rcases plainNode_entries hn hc he with rfl | rfl | rfl
    · exact ⟨_, rfl, fun _ => ⟨rfl, rfl⟩⟩
    · exact ⟨_, rfl, fun _ => ⟨rfl, rfl⟩⟩
    · exact ⟨_, rfl, fun _ => ⟨rfl, rfl⟩⟩

theorem stored_first_block {dev : Device Id} {rd : Ext4Reader} {inode : Ext4Inode} {bytes : List Byte}
    (physBlock : UInt64) (b : List Byte) (hsize : (fileSize inode).toNat = bytes.length)
    (hfit : bytes.length ≤ rd.blockSize.toNat) (huses : usesExtents inode = false)
    (hpath : pointerTree dev rd inode 0 = pure (.entry physBlock)) (hne : physBlock ≠ 0)
    (hread : readBlock dev physBlock rd.blockSize = pure (some b)) (hb : b.take bytes.length = bytes) :
    StoredData dev rd inode bytes where
  size := hsize
  data pos hlt := by
    have hlt' : pos < rd.blockSize.toNat := by omega
    refine ⟨0, (Nat.div_eq_of_lt hlt').symm,
      Or.inr ⟨physBlock, b, .pointer physBlock huses (by change 0 < _; omega) hpath hne, hread, ?_⟩⟩
    rw [Nat.mod_eq_of_lt hlt', ← List.getElem?_take_of_lt hlt, hb]
    exact List.getElem?_eq_getElem hlt

theorem plain_geometry : plainRd.blockSize = 1024 ∧ plainRd.descSize = 32 ∧ plainRd.inodeSize = 128 ∧
    plainRd.groupsCount = 1 ∧ plainRd.is64bit = false := by
  decide +kernel

theorem plain_counts : plainRd.sb.sInodesCount = 16 ∧ plainRd.sb.sInodesPerGroup = 16 := by
  decide +kernel

def plainTables : InodeTables plainRd where
  descriptor g := (List.range' (2048 + g * 32) 32).map plainDisk.byte
  table g := (le32 ((List.range' (2048 + g * 32) 32).map plainDisk.byte) 8).toUInt64
  record i := (List.range' (5120 + indexOf plainRd i * 128) 128).map plainDisk.byte
  descriptor_length g := by rw [plain_geometry.2.1, List.length_map, List.length_range']; rfl
  record_length i := by rw [plain_geometry.2.2.1, List.length_map, List.length_range']; rfl
  table_low g := (UInt32.toUInt32_toUInt64 _).symm
  table_high g hlong := by
    rw [Linux2Win.Geometry.IsLong, plain_geometry.2.2.2.2] at hlong
    exact absurd hlong.1 Bool.false_ne_true
  table_short g _ := by
    rw [UInt32.toNat_toUInt64]
    exact UInt32.toNat_lt _

theorem plain_written : Written plainDisk plainWindow plainTables where
  descriptors g hg := by
    rw [plain_geometry.2.2.2.1] at hg
    obtain rfl : g = 0 := Nat.lt_one_iff.mp hg
    have hstart : descriptorsStart plainRd = 2048 := by decide +kernel
    rw [StoredAt, plainTables.descriptor_length, plain_geometry.2.1, hstart]
    exact ⟨⟨by decide, fun _ => by decide⟩, rfl⟩
  records n hn hle hgroup := by
    rw [plain_geometry.2.2.2.1] at hgroup
    have hindex : indexOf plainRd n < 16 := by
      rw [indexOf, plain_counts.2]
      exact Nat.mod_lt _ (by decide)
    have htable : (plainTables.table 0).toNat = 5 := by decide +kernel
    rw [Nat.lt_one_iff.mp hgroup, htable, StoredAt, plainTables.record_length, plain_geometry.1,
      plain_geometry.2.2.1]
    refine ⟨⟨?_, fun _ => ?_⟩, ?_⟩
    · change 0 + (5 * 1024 + indexOf plainRd n * 128) + 128 ≤ 16384
      omega
    · change 5 * 1024 + indexOf plainRd n * 128 + 128 ≤ 16384
      omega
    · change (List.range' (0 + (5120 + indexOf plainRd n * 128)) 128).map plainDisk.byte = _
      rw [Nat.zero_add]
      rfl

def plainInode (i : UInt32) : Ext4Inode := Packed.ofBytes 160 (plainTables.record i)

def plainInodes : List UInt32 := [2, 11, 12, 13]

theorem plain_pointers {i : UInt32} (hi : i ∈ plainInodes) : usesExtents (plainInode i) = false := by
  have h : plainInodes.all (fun i => !usesExtents (plainInode i)) = true := by
    decide +kernel
  simpa using List.all_eq_true.mp h i hi

theorem plain_attributes {i : UInt32} {n : Node} (hi : i ∈ plainInodes)
    (hzero : n.uid = 0 ∧ n.gid = 0 ∧ n.atime = 0 ∧ n.mtime = 0 ∧ n.ctime = 0 ∧ n.crtime = 0)
    (hmode : (plainInode i).iMode = n.mode)
    (hcontent : StoredContent plainDevice plainRd (plainInode i) n.content) :
    StoredNode plainDevice plainRd (plainInode i) n := by
  have h : plainInodes.all (fun i =>
      ((plainInode i).iUid.toUInt32 ||| ((plainInode i).iUidHigh.toUInt32 <<< 16) == 0) &&
      ((plainInode i).iGid.toUInt32 ||| ((plainInode i).iGidHigh.toUInt32 <<< 16) == 0) &&
      ((plainInode i).iAtime == 0) && ((plainInode i).iMtime == 0) && ((plainInode i).iCtime == 0)) =
        true := by
    decide +kernel
  have hi := List.all_eq_true.mp h i hi
  simp only [Bool.and_eq_true, beq_iff_eq] at hi
  obtain ⟨⟨⟨⟨huid, hgid⟩, hatime⟩, hmtime⟩, hctime⟩ := hi
  obtain ⟨huid', hgid', hatime', hmtime', hctime', hcrtime'⟩ := hzero
  have hshort : ¬plainRd.inodeSize > 128 := by decide +kernel
  exact ⟨hmode, huid.trans huid'.symm, hgid.trans hgid'.symm, hatime.trans hatime'.symm,
    hmtime.trans hmtime'.symm, hctime.trans hctime'.symm,
    (if_neg hshort).trans (hmtime.trans hcrtime'.symm), hcontent⟩

theorem plain_stored : Stored plainDevice plainRd plainVolume := by
  have hplace : ∀ i : UInt32, i ≠ 0 → i ≤ 16 → i ≠ 0 ∧ i ≤ plainRd.sb.sInodesCount ∧
      groupOf plainRd i < plainRd.groupsCount.toNat := by
    intro i hi hle
    rw [groupOf, plain_counts.1, plain_counts.2, plain_geometry.2.2.2.1]
    have hle' : i.toNat ≤ 16 := UInt32.le_iff_toNat_le.mp hle
    exact ⟨hi, hle, by change (i.toNat - 1) / 16 < 1; omega⟩
  refine .of_written (by decide +kernel) rfl (fun _ _ => rfl) (by decide +kernel) (by decide +kernel)
    plain_written fun i n hn => ?_
  rcases plainNode_cases hn with ⟨rfl, rfl⟩ | ⟨rfl, rfl⟩ | ⟨rfl, rfl⟩ | ⟨rfl, rfl⟩
  · have hi : 2 ∈ plainInodes := by decide
    obtain ⟨hne, hle, hgroup⟩ := hplace 2 (by decide) (by decide)
    refine ⟨hne, hle, hgroup, plain_attributes hi ⟨rfl, rfl, rfl, rfl, rfl, rfl⟩
      (by decide +kernel) ⟨by decide +kernel, plainRecords, by decide +kernel, ?_⟩⟩
    exact stored_first_block 8 (encodeAll plainRecords) (by decide +kernel)
      (by decide +kernel) (plain_pointers hi) (result_eq_some.mp (by decide +kernel)) (by decide)
      (result_eq_some.mp (by decide +kernel)) List.take_length
  · have hi : 11 ∈ plainInodes := by decide
    obtain ⟨hne, hle, hgroup⟩ := hplace 11 (by decide) (by decide)
    refine ⟨hne, hle, hgroup, plain_attributes hi ⟨rfl, rfl, rfl, rfl, rfl, rfl⟩
      (by decide +kernel) ⟨by decide +kernel, innerRecords, by decide +kernel, ?_⟩⟩
    exact stored_first_block 9 (encodeAll innerRecords) (by decide +kernel)
      (by decide +kernel) (plain_pointers hi) (result_eq_some.mp (by decide +kernel)) (by decide)
      (result_eq_some.mp (by decide +kernel)) List.take_length
  · have hi : 12 ∈ plainInodes := by decide
    obtain ⟨hne, hle, hgroup⟩ := hplace 12 (by decide) (by decide)
    refine ⟨hne, hle, hgroup, plain_attributes hi ⟨rfl, rfl, rfl, rfl, rfl, rfl⟩ (by decide +kernel) ?_⟩
    exact stored_first_block 10 ([0x61, 0x62, 0x63] ++ List.replicate 1021 0)
      (by decide +kernel) (by decide +kernel) (plain_pointers hi)
      (result_eq_some.mp (by decide +kernel)) (by decide) (result_eq_some.mp (by decide +kernel)) rfl
  · have hi : 13 ∈ plainInodes := by decide
    obtain ⟨hne, hle, hgroup⟩ := hplace 13 (by decide) (by decide)
    exact ⟨hne, hle, hgroup, plain_attributes hi ⟨rfl, rfl, rfl, rfl, rfl, rfl⟩
      (by decide +kernel) ⟨by decide +kernel, fun _ h => absurd h (Nat.not_lt_zero _)⟩⟩

theorem volume_read_back_plain : ∃ bound, ∀ fuel ≥ bound,
    lookupPath plainDevice plainRd fuel [0x64, slash, 0x65] = pure (some 13) ∧
      ∀ buffer, readFileByPath plainDevice plainRd fuel [0x66] 1 (some buffer) 3 =
        pure ⟨true, overlay [0x62, 0x63] buffer, 2⟩ := by
  obtain ⟨bound, hbound⟩ := volume_read_back plainDisk plainWindow plainRd plainVolume
    plain_stored
  refine ⟨bound, fun fuel hfuel => ⟨(hbound fuel hfuel _).1, fun buffer => ?_⟩⟩
  exact ((hbound fuel hfuel _).2.2.2 1 3 buffer).2 _ rfl (by decide) (by decide) (by decide)

end Linux2Win.StoredVolumes
