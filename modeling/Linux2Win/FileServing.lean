import Linux2Win.DirEnum
import Linux2Win.Symlinks

namespace Linux2Win.FileServing

open Bytes Devices Ext4Types Reader BlockMap FileData Directory Programs FileContent ReadFile
  DirRecords Symlinks Vfs DirEnum

def errorNotEnoughMemory : HResult := hresultFromWin32 8
def errorReadFault : HResult := hresultFromWin32 30

section Callback

variable {m : Type → Type} [Monad m] (dev : Device m) (rd : Ext4Reader) (fuel : Nat)

/-- `self` tells whether the context leads to a mount with a tree and a reader, and
`buffer` is what `PrjAllocateAlignedBuffer` gives. The bytes are those that are handed to
`PrjWriteFileData`, whose answer is then the answer of the callback. -/
def getFileDataCallback (self : Bool) (filePathName : Option WString) (byteOffset : UInt64)
    (length : UInt32) (buffer : Option (List Byte)) (t : VfsTree) :
    ExceptT Fault m (Except HResult (List Byte) × VfsTree) := do
  if !self then return (.error errorInvalidParameter, t)
  let (found, t) ← findNodeW (ext4 dev rd fuel) ((filePathName.map cStr).getD []) t
  match found.bind fun id => t.nodes[id]? with
  | none => return (.error errorFileNotFound, t)
  | some node =>
    if node.info.isDirectory then return (.error errorFileNotFound, t)
    match buffer with
    | none => return (.error errorNotEnoughMemory, t)
    | some buffer =>
      let r ← readFileData dev rd fuel node.info.inodeNum byteOffset (some buffer) length.toUInt64
      if !r.ok then return (.error errorReadFault, t)
      return (.ok (r.buffer.take r.bytesRead.toUInt32.toNat), t)

end Callback

section Agreement

variable (dev : Device Id) (rd : Ext4Reader) (inodeNum : UInt32) (inode : Ext4Inode)

/-- The text is what a read of the whole link delivers, and what the callback serves for
a node of the link that it is asked for in full. -/
structure Serves (fuel : Nat) (target : Name) : Prop where
  reads : ∀ buffer : List Byte, buffer.length = inode.iSizeLo.toNat →
    readFileData dev rd fuel inodeNum 0 (some buffer) inode.iSizeLo.toUInt64 =
      pure ⟨true, target, inode.iSizeLo.toUInt64⟩
  served : ∀ path t t' id node, ∀ buffer : List Byte, buffer.length = inode.iSizeLo.toNat →
    findNodeW (ext4 dev rd fuel) ((path.map cStr).getD []) t = pure (some id, t') →
    t'.nodes[id]? = some node → node.info.inodeNum = inodeNum → node.info.isDirectory = false →
    getFileDataCallback dev rd fuel true path 0 inode.iSizeLo (some buffer) t =
      pure (.ok target, t')

def Agree : Prop :=
  ∀ fuel target, readSymlinkTarget dev rd fuel inodeNum = pure (true, target) →
    ∃ bound, ∀ fuel ≥ bound, Serves dev rd inodeNum inode fuel target

/-- The bytes of the inode, read as pointers or as an extent tree, lead to a block that
holds the text itself. -/
def HoldsText : Prop :=
  ∃ mapped, (∃ depth, mapBlock dev rd depth inode 0 = pure mapped) ∧
    ∀ i (h : i < inode.iBlock.length), i < inode.iSizeLo.toNat →
      IsFileByte dev rd (fun _ => mapped) i inode.iBlock[i]

variable {dev rd inodeNum inode}

theorem serves_of_reads {fuel : Nat} {target : Name} (hlen : target.length = inode.iSizeLo.toNat)
    (h : ∀ buffer : List Byte, buffer.length = inode.iSizeLo.toNat →
      readFileData dev rd fuel inodeNum 0 (some buffer) inode.iSizeLo.toUInt64 =
        pure ⟨true, target, inode.iSizeLo.toUInt64⟩) : Serves dev rd inodeNum inode fuel target := by
  refine ⟨h, fun path t t' id node buffer hbuffer hfind hnode hnum hfile => ?_⟩
  rw [getFileDataCallback, hfind]
  simp only [Bool.not_true, Bool.false_eq_true, if_false, pure_bind, Option.bind_some, hnode, hfile,
    hnum, h buffer hbuffer]
  rw [List.take_of_length_le]
  rw [hlen, UInt64.toNat_toUInt32, UInt32.toNat_toUInt64, Nat.mod_eq_of_lt inode.iSizeLo.toNat_lt]

theorem first_block (hacc : Accepted rd.blockSize) {pos : Nat} (hlt : pos < 60) :
    UInt32.ofNat (pos / rd.blockSize.toNat) = 0 := by
  obtain ⟨k, _, hbs⟩ := hacc
  have hpos := Nat.two_pow_pos k
  rw [Nat.div_eq_of_lt (by omega)]
  rfl

theorem isFileByte_first (hacc : Accepted rd.blockSize) {map map' : UInt32 → Option UInt64}
    (hmap : map 0 = map' 0) {i : Nat} (hi : i < 60) {x : Byte} (h : IsFileByte dev rd map i x) :
    IsFileByte dev rd map' i x := by
  rw [IsFileByte, first_block hacc hi] at h ⊢
  rwa [← hmap]

end Agreement

section Links

variable {disk : Disk} {w : BlockDevice} {rd : Ext4Reader} (hmounted : rd.mounted = true)
  {inodeNum : UInt32} {inode : Ext4Inode}
  (hinode : readInode (disk.device w) rd inodeNum = pure (some inode))
  (hlink : inode.iMode &&& sIfmt = sIflnk) (hsize : inode.iSizeLo ≠ 0)
include hmounted hinode hlink hsize

theorem holdsText_of_agree (hshort : inode.iSizeLo.toNat < 60)
    (hagree : Agree (disk.device w) rd inodeNum inode) : HoldsText (disk.device w) rd inode := by
  have hacc := (rd.geometry hmounted).1
  have hdev := disk_whole disk w hacc
  have hpos := (Accepted.bounds hacc).1
  have hlen := UInt32.toNat_toUInt64 inode.iSizeLo
  have hne : inode.iSizeLo.toUInt64 ≠ 0 := fun h => hsize (UInt32.toUInt64_inj.mp h)
  obtain ⟨bound, hbound⟩ := hagree 0 _ (readSymlinkTarget_short hinode hshort 0)
  have hread := (hbound (bound + 1) (Nat.le_succ bound)).reads
    (List.replicate inode.iSizeLo.toNat 0) List.length_replicate
  obtain ⟨out, hloop, hout, hr⟩ :=
    (readFileData_whole_iff hmounted hdev hinode (fileSize_symlink hlink) hne).mp ⟨hread, rfl⟩
  rw [overlay_whole (by rw [List.length_replicate]; omega)] at hr
  obtain rfl : inode.iBlock.take inode.iSizeLo.toNat = out := congrArg ReadResult.buffer hr
  have hbytes := ((copyLoop_spec hdev hpos (by rw [UInt64.toNat_zero, hlen, Nat.zero_add]; omega)
    hloop).2 rfl).2
  rw [copyLoop_succ hdev hpos _ _ _ _ hne] at hloop
  obtain ⟨mapped, hmap, _⟩ := bind_eq_pure.mp hloop
  rw [UInt64.toNat_zero, Nat.zero_div] at hmap
  refine ⟨mapped, ⟨_, hmap⟩, fun i hi hlt => ?_⟩
  have hbyte := hbytes i (by rw [List.length_take]; omega)
  rw [UInt64.toNat_zero, Nat.zero_add, List.getElem_take] at hbyte
  apply isFileByte_first hacc _ (by omega) hbyte
  change mapOf _ _ _ _ (UInt32.ofNat 0) = mapped
  rw [mapOf, hmap]
  rfl

theorem agree_of_holdsText (hshort : inode.iSizeLo.toNat < 60)
    (hholds : HoldsText (disk.device w) rd inode) : Agree (disk.device w) rd inodeNum inode := by
  intro fuel target htarget
  obtain ⟨mapped, ⟨depth, hdepth⟩, hbytes⟩ := hholds
  rw [readSymlinkTarget_short hinode hshort] at htarget
  cases pure_injective htarget
  have hlength : (inode.iBlock.take inode.iSizeLo.toNat).length = inode.iSizeLo.toNat := by
    rw [List.length_take, inode.iBlock_length]
    omega
  have hpos : 0 < (inode.iBlock.take inode.iSizeLo.toNat).length := by
    rw [hlength]
    exact Nat.pos_of_ne_zero fun h => hsize (UInt32.toNat_inj.mp h)
  have hdata : ∀ pos (h : pos < (inode.iBlock.take inode.iSizeLo.toNat).length),
      IsFileByte (disk.device w) rd (fun _ => mapped) pos
        (inode.iBlock.take inode.iSizeLo.toNat)[pos] := by
    intro pos hlt
    rw [List.getElem_take]
    rw [List.length_take] at hlt
    exact hbytes pos (by omega) (by omega)
  refine ⟨max depth 60, fun fuel hfuel => serves_of_reads hlength fun buffer hbuffer => ?_⟩
  have hmap : ∀ pos < (inode.iBlock.take inode.iSizeLo.toNat).length,
      mapBlock (disk.device w) rd fuel inode (UInt32.ofNat (pos / rd.blockSize.toNat)) =
        pure mapped := by
    intro pos hlt
    rw [first_block (rd.geometry hmounted).1 (by omega)]
    exact mapBlock_mono (by omega) hdepth
  have hfuel' : (inode.iBlock.take inode.iSizeLo.toNat).length < fuel := by omega
  rw [readFileData_whole disk w hmounted hinode (fileSize_symlink hlink) hlength.symm hpos hfuel' hmap
    hdata buffer, overlay_whole (by omega)]

theorem agree_long (hlong : 60 ≤ inode.iSizeLo.toNat) :
    Agree (disk.device w) rd inodeNum inode := by
  intro fuel target htarget
  have hdev := disk_whole disk w (rd.geometry hmounted).1
  have hlow := fileSize_symlink hlink
  have hlen := UInt32.toNat_toUInt64 inode.iSizeLo
  have hne : inode.iSizeLo.toUInt64 ≠ 0 := fun h => hsize (UInt32.toUInt64_inj.mp h)
  rw [readSymlinkTarget_long hinode hlong] at htarget
  obtain ⟨r, hr, htarget⟩ := bind_eq_pure.mp htarget
  cases hok : r.ok with
  | false =>
      rw [hok] at htarget
      cases pure_injective htarget
  | true =>
      obtain ⟨out, hloop, hout, rfl⟩ :=
        (readFileData_whole_iff hmounted hdev hinode hlow hne).mp ⟨hr, hok⟩
      obtain rfl : out = target := by
        have htext := congrArg Prod.snd (pure_injective htarget)
        dsimp only at htext
        rw [if_pos rfl] at htext
        dsimp only at htext
        rwa [← hout, overlay, List.take_left] at htext
      refine ⟨fuel, fun fuel' hfuel =>
        serves_of_reads (hout.trans hlen) fun buffer hbuffer => ?_⟩
      have hloop' := copyLoop_mono hfuel hfuel hloop
      obtain ⟨hwhole, _⟩ := (readFileData_whole_iff hmounted hdev hinode hlow hne).mpr
        ⟨out, hloop', hout, Eq.refl (ReadResult.mk true (overlay out buffer) _)⟩
      rw [hwhole, overlay_whole (by omega)]

end Links

/-- The ways to the text of a link agree exactly when it is long enough for the blocks of
its data, or a block that its own letters lead to holds it. -/
theorem agree_iff (disk : Disk) (w : BlockDevice) (rd : Ext4Reader) (hmounted : rd.mounted = true)
    (inodeNum : UInt32) (inode : Ext4Inode)
    (hinode : readInode (disk.device w) rd inodeNum = pure (some inode))
    (hlink : inode.iMode &&& sIfmt = sIflnk) (hsize : inode.iSizeLo ≠ 0) :
    Agree (disk.device w) rd inodeNum inode ↔
      60 ≤ inode.iSizeLo.toNat ∨ HoldsText (disk.device w) rd inode := by
  rcases Nat.lt_or_ge inode.iSizeLo.toNat 60 with hshort | hlong
  · rw [or_iff_right (Nat.not_le.mpr hshort)]
    constructor
    · exact holdsText_of_agree hmounted hinode hlink hsize hshort
    · exact agree_of_holdsText hmounted hinode hlink hsize hshort
  · exact iff_of_true (agree_long hmounted hinode hlink hsize hlong) (Or.inl hlong)

def letterDisk : Disk :=
  .ofPieces 65536
    [(2056, le32Bytes 5), (6400, le16Bytes 0xA1FF ++ [0, 0] ++ le32Bytes 1), (6440, [0x31]),
      (50176, [0x73])]

def letterDevice : Device Id := letterDisk.device wholeDevice

def letterInode : Ext4Inode :=
  (result (readInode letterDevice (plainReader 16) 11)).join.getD (Packed.zero 160)

theorem letterInode_read : readInode letterDevice (plainReader 16) 11 = pure (some letterInode) :=
  eq_pure_getD (by decide +kernel) _

theorem agree_iff_letter : Agree letterDevice (plainReader 16) 11 letterInode ↔
    60 ≤ letterInode.iSizeLo.toNat ∨ HoldsText letterDevice (plainReader 16) letterInode :=
  agree_iff letterDisk wholeDevice (plainReader 16) rfl 11 letterInode letterInode_read
    (by decide +kernel) (by decide +kernel)

/-- The block that the letter of the link counts to is served in place of the link. -/
theorem letter_served_as_block :
    readSymlinkTarget letterDevice (plainReader 16) 0 11 = pure (true, [0x31]) ∧
      (∀ fuel ≥ 2, readFileData letterDevice (plainReader 16) fuel 11 0 (some [0]) 1 =
        pure ⟨true, [0x73], 1⟩) ∧
      ¬Agree letterDevice (plainReader 16) 11 letterInode := by
  have htarget : readSymlinkTarget letterDevice (plainReader 16) 0 11 = pure (true, [0x31]) :=
    result_eq_some.mp (by decide +kernel)
  have hloop : copyLoop letterDevice (plainReader 16) letterInode 2 2 0 1 [] = pure (true, [0x73]) :=
    result_eq_some.mp (by decide +kernel)
  have hsize : fileSize letterInode = 1 := by decide +kernel
  have hread : ∀ fuel ≥ 2, readFileData letterDevice (plainReader 16) fuel 11 0 (some [0]) 1 =
      pure ⟨true, [0x73], 1⟩ := by
    intro fuel hfuel
    rw [readFileData_eq rfl letterInode_read fuel 0 [0] (by decide), if_neg (by rw [hsize]; decide),
      clippedSize_whole hsize, copyLoop_mono hfuel hfuel hloop]
    rfl
  refine ⟨htarget, hread, fun hagree => ?_⟩
  obtain ⟨bound, hbound⟩ := hagree 0 _ htarget
  have hlen : letterInode.iSizeLo = 1 := by decide +kernel
  have hsame := (hbound (max bound 2) (le_max_left bound 2)).reads [0] (by rw [hlen]; rfl)
  rw [hlen] at hsame
  cases pure_injective ((hread _ (le_max_right bound 2)).symm.trans hsame)

end Linux2Win.FileServing
