import Linux2Win.Descents
import Linux2Win.DirBounds

namespace Linux2Win.ImageBounds

open Bytes Devices Ext4Types Reader BlockMap FileData Directory Programs FileContent ReadFile
open ExtentNodes Walks Descents DirBounds ReadCalls

def CopiesInside (disk : Disk) (w : BlockDevice) (e : ReadCall) : Prop :=
  ∀ b, disk.device w e.1 e.2 = pure (some b) → ∃ ps, disk.copied w e.1 e.2 = some ps ∧
    b = ps.map disk.byte ∧ ∀ p ∈ ps, w.partitionOffset.toNat ≤ p ∧
      p < w.partitionOffset.toNat + w.partitionSize.toNat

/-- The sum of offset and size passes the window check only because it wraps around, and so
does the absolute offset, which leads to bytes before the window that the device delivers. -/
structure Escapes (disk : Disk) (w : BlockDevice) (e : ReadCall) : Prop where
  isOpen : w.isOpen = true
  wraps : 2 ^ 64 ≤ e.1.toNat + e.2.toNat
  starts : 2 ^ 64 ≤ w.partitionOffset.toNat + e.1.toNat
  ends : e.1.toNat + e.2.toNat ≤ 2 ^ 64 + w.partitionSize.toNat
  answered : ∀ r, request w e.1 e.2 = some r →
    disk.fails r.alignedStart r.alignedSize.toUInt32 = false

section Escape

variable {disk : Disk} {w : BlockDevice} {e : ReadCall}

theorem Escapes.copied (h : Escapes disk w e) (hpos : 0 < e.2.toNat) (hsmall : e.2.toNat < 2 ^ 31)
    (hwin : w.partitionOffset.toNat + w.partitionSize.toNat ≤ disk.size) :
    (disk.copied w e.1 e.2).isSome = true := by
  have hpo := w.partitionOffset.toNat_lt
  have hoff := e.1.toNat_lt
  have hwraps := h.wraps
  have hstarts := h.starts
  have hends := h.ends
  have hps := w.partitionSize.toNat_lt
  have hle := disk.size_le
  have hchecked : 0 < w.partitionSize → e.1 + e.2 ≤ w.partitionSize := by
    intro _
    rw [UInt64.le_iff_toNat_le, UInt64.toNat_add]
    omega
  rw [disk.copied_checked h.isOpen hpos hsmall hchecked (by rw [UInt64.toNat_add]; omega) h.answered]
  rfl

theorem escapes_of_copied {ps : List Nat} (h : disk.copied w e.1 e.2 = some ps)
    (hwindow : 0 < w.partitionSize) (hwraps : 2 ^ 64 ≤ e.1.toNat + e.2.toNat) : Escapes disk w e := by
  obtain ⟨_, hpos, hdisk, hchecked⟩ := copied_eq_some h
  have hle := disk.size_le
  have hcheck := UInt64.le_iff_toNat_le.mp (hchecked hwindow)
  have hpo := w.partitionOffset.toNat_lt
  have hoff := e.1.toNat_lt
  have hsize := e.2.toNat_lt
  rw [UInt64.toNat_add] at hdisk hcheck
  obtain ⟨hopen, hanswered⟩ := copied_answered h
  exact ⟨hopen, hwraps, by omega, by omega, hanswered⟩

theorem copiesInside_iff (hwindow : 0 < w.partitionSize)
    (hwin : w.partitionOffset.toNat + w.partitionSize.toNat ≤ disk.size) (hpos : 0 < e.2.toNat)
    (hsmall : e.2.toNat < 2 ^ 31) : CopiesInside disk w e ↔ ¬Escapes disk w e := by
  constructor
  · intro h hescapes
    obtain ⟨ps, hps⟩ := Option.isSome_iff_exists.mp (hescapes.copied hpos hsmall hwin)
    obtain ⟨ps', hps', _, hin⟩ := h _ (device_eq_some_iff.mpr ⟨ps, hps, rfl⟩)
    have hno := (copied_in_window_iff hwindow hwin hps').mp hin
    have := hescapes.wraps
    omega
  · intro h b hb
    obtain ⟨ps, hps, rfl⟩ := device_eq_some_iff.mp hb
    refine ⟨ps, hps, rfl, (copied_in_window_iff hwindow hwin hps).mpr ?_⟩
    exact Nat.not_le.mp fun hwraps => h (escapes_of_copied hps hwindow hwraps)

end Escape

section Images

variable (disk : Disk) (w : BlockDevice) (rd : Ext4Reader)

/-- No record that a descriptor places for an inode number escapes. -/
def RecordsStay : Prop :=
  ∀ inodeNum gd, inodeNum ≠ 0 → inodeNum ≤ rd.sb.sInodesCount → rd.sb.sInodesPerGroup ≠ 0 →
    readGroupDescriptor (disk.device w) rd ((inodeNum - 1) / rd.sb.sInodesPerGroup) =
      pure (some gd) →
    ¬Escapes disk w (inodeRead rd (inodeTableBlock rd gd) ((inodeNum - 1) % rd.sb.sInodesPerGroup))

variable (inode : Ext4Inode)

def OnPath (logicalBlock : UInt32) (block : UInt64) : Prop :=
  ∃ n, walk (nextNode disk w rd logicalBlock) n (leadsTo logicalBlock inode.iBlock) = some block

inductive MapsTo (logicalBlock : UInt32) : Option UInt64 → Prop
  | root {r : Option UInt64} (uses : usesExtents inode = true)
      (found : searchNode inode.iBlock logicalBlock = .ok (.done r)) : MapsTo logicalBlock r
  | below {block : UInt64} {node : List Byte} {r : Option UInt64} (uses : usesExtents inode = true)
      (path : OnPath disk w rd inode logicalBlock block)
      (read : readBlock (disk.device w) block rd.blockSize = pure (some node))
      (found : searchNode node logicalBlock = .ok (.done r)) : MapsTo logicalBlock r
  | unreadable {block : UInt64} (uses : usesExtents inode = true)
      (path : OnPath disk w rd inode logicalBlock block)
      (read : readBlock (disk.device w) block rd.blockSize = pure none) : MapsTo logicalBlock none
  | pointer {r : Option UInt64} (uses : usesExtents inode = false)
      (found : readIndirectBlock (disk.device w) rd inode logicalBlock = pure r) :
      MapsTo logicalBlock r

/-- The nodes on the way to a logical block count no more entries than they have room for,
and neither they nor the block of data escape. -/
structure LookupStays (logicalBlock : UInt32) : Prop where
  contained : usesExtents inode = true → PathContained disk w rd logicalBlock inode
  nodes : usesExtents inode = true → ∀ block, OnPath disk w rd inode logicalBlock block →
    ¬Escapes disk w (blockRead rd block)
  data : ∀ physBlock, MapsTo disk w rd inode logicalBlock (some physBlock) → physBlock ≠ 0 →
    ¬Escapes disk w (blockRead rd physBlock)

def blockAt (offset : UInt64) : UInt32 := (offset / rd.blockSize.toUInt64).toUInt32

/-- The offsets and counts that a read of the file comes to: where it starts, and behind
each block that is a hole or can be read. -/
inductive Comes : UInt64 → UInt64 → Prop
  | first {offset size : UInt64} (inside : offset < fileSize inode) (asks : size ≠ 0) :
      Comes offset (clippedSize inode offset size)
  | next {offset remaining : UInt64} {r : Option UInt64} (h : Comes offset remaining)
      (more : remaining ≠ 0) (maps : MapsTo disk w rd inode (blockAt rd offset) r)
      (reads : ∀ physBlock, r = some physBlock → physBlock ≠ 0 →
        readBlock (disk.device w) physBlock rd.blockSize ≠ pure none) :
      Comes (offset + chunkSize rd offset remaining) (remaining - chunkSize rd offset remaining)

def IsContent (content : List Byte) : Prop :=
  content.length = inode.iSizeLo.toNat ∧ ∃ map : UInt32 → Option UInt64,
    ∀ pos (h : pos < content.length),
      MapsTo disk w rd inode (UInt32.ofNat (pos / rd.blockSize.toNat))
        (map (UInt32.ofNat (pos / rd.blockSize.toNat))) ∧
      IsFileByte (disk.device w) rd map pos content[pos]

/-- The records that the lengths lead to have the names inside the data, where they are in use. -/
def NamesInside (content : List Byte) : Prop :=
  Along (nextRecord content) (fun offset => (nextRecord content offset).isSome = true →
    InUse content offset → offset + 8 + nameLen content offset ≤ content.length) (some 0)

/-- What an image has to keep to. -/
structure StaysInside : Prop where
  records : RecordsStay disk w rd
  blocks : ∀ inodeNum inode, readInode (disk.device w) rd inodeNum = pure (some inode) →
    ∀ offset remaining, Comes disk w rd inode offset remaining → remaining ≠ 0 →
      LookupStays disk w rd inode (blockAt rd offset)
  names : ∀ inodeNum inode content, readInode (disk.device w) rd inodeNum = pure (some inode) →
    inode.iMode &&& sIfmt = sIfdir → inode.iSizeLo ≠ 0 → IsContent disk w rd inode content →
      NamesInside content

end Images

section Lookup

variable {disk : Disk} {w : BlockDevice} {rd : Ext4Reader} {inode : Ext4Inode} {logicalBlock : UInt32}

theorem parseExtentNode_pure {block : UInt64} {r : Option UInt64} :
    (∃ depth, parseExtentNode (disk.device w) rd depth block logicalBlock = pure r) ↔
      ∃ n last, walk (nextNode disk w rd logicalBlock) n (some block) = some last ∧
        ((readBlock (disk.device w) last rd.blockSize = pure none ∧ r = none) ∨
          ∃ node, readBlock (disk.device w) last rd.blockSize = pure (some node) ∧
            searchNode node logicalBlock = .ok (.done r)) := by
  constructor
  · rintro ⟨depth, h⟩
    induction depth generalizing block with
    | zero => cases h
    | succ depth ih =>
        rw [parseExtentNode] at h
        obtain ⟨read, hread, h⟩ := bind_eq_pure.mp h
        cases read with
        | none =>
            cases pure_injective h
            exact ⟨0, block, rfl, Or.inl ⟨hread, rfl⟩⟩
        | some node =>
            dsimp only at h
            cases hs : searchNode node logicalBlock with
            | error f =>
                rw [hs] at h
                exact absurd h throw_ne_pure
            | ok found =>
                rw [hs] at h
                cases found with
                | done r' =>
                    cases pure_injective h
                    exact ⟨0, block, rfl, Or.inr ⟨node, hread, hs⟩⟩
                | child next =>
                    obtain ⟨n, last, hwalk, hlast⟩ := ih h
                    refine ⟨n + 1, last, ?_, hlast⟩
                    have hnext : nextNode disk w rd logicalBlock block = some next := by
                      rw [nextNode, hread]
                      exact leadsTo_eq_some.mpr hs
                    rw [walk_succ, Option.bind_some, hnext]
                    exact hwalk
  · rintro ⟨n, last, hwalk, hlast⟩
    induction n generalizing block with
    | zero =>
        cases hwalk
        refine ⟨1, ?_⟩
        rw [parseExtentNode]
        rcases hlast with ⟨hread, rfl⟩ | ⟨node, hread, hs⟩
        · rw [hread, pure_bind]
        · rw [hread, pure_bind]
          dsimp only
          rw [hs]
    | succ n ih =>
        rw [walk_succ, Option.bind_some] at hwalk
        cases hnext : nextNode disk w rd logicalBlock block with
        | none =>
            rw [hnext, walk_none] at hwalk
            cases hwalk
        | some next =>
            rw [hnext] at hwalk
            obtain ⟨depth, hdepth⟩ := ih hwalk
            rw [nextNode] at hnext
            obtain ⟨node, hnode, hlead⟩ := Option.bind_eq_some_iff.mp hnext
            have hread : readBlock (disk.device w) block rd.blockSize = pure (some node) :=
              result_eq_some.mp (Option.join_eq_some_iff.mp hnode)
            refine ⟨depth + 1, ?_⟩
            rw [parseExtentNode, hread, pure_bind]
            dsimp only
            rw [leadsTo_eq_some.mp hlead]
            exact hdepth

theorem mapsTo_iff {r : Option UInt64} : MapsTo disk w rd inode logicalBlock r ↔
    ∃ depth, mapBlock (disk.device w) rd depth inode logicalBlock = pure r := by
  cases huses : usesExtents inode with
  | false =>
      simp only [mapBlock, huses, Bool.false_eq_true, if_false, exists_const]
      refine ⟨fun h => ?_, .pointer huses⟩
      rcases h with ⟨uses, _⟩ | ⟨uses, _⟩ | ⟨uses, _⟩ | ⟨_, found⟩
      · cases huses.symm.trans uses
      · cases huses.symm.trans uses
      · cases huses.symm.trans uses
      · exact found
  | true =>
      have hroot : ∀ depth, mapBlock (disk.device w) rd depth inode logicalBlock =
          follow (disk.device w) rd depth logicalBlock (searchNode inode.iBlock logicalBlock) := by
        intro depth
        rw [mapBlock, huses, if_pos rfl]
        rfl
      simp only [hroot]
      constructor
      · rintro (⟨_, found⟩ | ⟨_, ⟨n, hwalk⟩, read, found⟩ | ⟨_, ⟨n, hwalk⟩, read⟩ | ⟨uses, _⟩)
        · exact ⟨0, by rw [found]; rfl⟩
        · obtain ⟨first, hfirst, hbelow⟩ := walk_start hwalk
          rw [leadsTo_eq_some.mp hfirst]
          exact parseExtentNode_pure.mpr ⟨n, _, hbelow, Or.inr ⟨_, read, found⟩⟩
        · obtain ⟨first, hfirst, hbelow⟩ := walk_start hwalk
          rw [leadsTo_eq_some.mp hfirst]
          exact parseExtentNode_pure.mpr ⟨n, _, hbelow, Or.inl ⟨read, rfl⟩⟩
        · cases huses.symm.trans uses
      · rintro ⟨depth, h⟩
        cases hs : searchNode inode.iBlock logicalBlock with
        | error f =>
            rw [hs] at h
            exact absurd h throw_ne_pure
        | ok found =>
            rw [hs] at h
            cases found with
            | done r' =>
                cases pure_injective h
                exact .root huses hs
            | child next =>
                have hlead := leadsTo_eq_some.mpr hs
                obtain ⟨n, last, hwalk, ⟨hread, rfl⟩ | ⟨node, hread, found⟩⟩ :=
                  parseExtentNode_pure.mp ⟨depth, h⟩
                · exact .unreadable huses ⟨n, by rw [hlead]; exact hwalk⟩ hread
                · exact .below huses ⟨n, by rw [hlead]; exact hwalk⟩ hread found

end Lookup

end Linux2Win.ImageBounds
