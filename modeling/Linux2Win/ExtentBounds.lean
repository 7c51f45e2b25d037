import Linux2Win.Descents

namespace Linux2Win.ExtentBounds

open Bytes Devices Ext4Types Reader BlockMap Programs FileContent ExtentNodes Walks Descents

section Lookup

/-- However deep the recursion, it looks at no entry outside of the node it is in. -/
def Inside (dev : Device Id) (rd : Ext4Reader) (logicalBlock : UInt32) (inode : Ext4Inode) : Prop :=
  ∀ fuel, resolveExtentBlock dev rd fuel inode logicalBlock ≠ throw .outOfBounds

variable {disk : Disk} {w : BlockDevice} {rd : Ext4Reader} {logicalBlock : UInt32}

theorem throw_ne_throw {α : Type} : (throw .outOfFuel : ExceptT Fault Id α) ≠ throw .outOfBounds := by
  intro h
  cases h

theorem pure_ne_throw {α : Type} {a : α} {f : Fault} : (pure a : ExceptT Fault Id α) ≠ throw f :=
  fun h => throw_ne_pure h.symm

theorem parseExtentNode_follow {fuel : Nat} {block : UInt64} {node : List Byte}
    (hread : readBlock (disk.device w) block rd.blockSize = pure (some node)) :
    parseExtentNode (disk.device w) rd (fuel + 1) block logicalBlock =
      follow (disk.device w) rd fuel logicalBlock (searchNode node logicalBlock) := by
  rw [parseExtentNode, hread, pure_bind]
  rfl

theorem follow_of_parse {block : UInt64} {node : List Byte}
    (hread : readBlock (disk.device w) block rd.blockSize = pure (some node))
    (h : ∀ fuel, parseExtentNode (disk.device w) rd fuel block logicalBlock ≠ throw .outOfBounds)
    (fuel : Nat) :
    follow (disk.device w) rd fuel logicalBlock (searchNode node logicalBlock) ≠
      throw .outOfBounds := by
  rw [← parseExtentNode_follow hread]
  exact h (fuel + 1)

theorem follow_inside {node : List Byte} :
    (∀ fuel, follow (disk.device w) rd fuel logicalBlock (searchNode node logicalBlock) ≠
        throw .outOfBounds) ↔
      Contained logicalBlock node ∧ ∀ b, leadsTo logicalBlock node = some b →
        ∀ fuel, parseExtentNode (disk.device w) rd fuel b logicalBlock ≠ throw .outOfBounds := by
  rw [← searchNode_contained, leadsTo]
  cases hs : searchNode node logicalBlock with
  | error f =>
      rw [searchNode_error hs]
      exact iff_of_false (fun h => h 0 rfl) fun h => h.1 rfl
  | ok found =>
      cases found with
      | done r => exact iff_of_true (fun _ => pure_ne_throw) ⟨by simp, by simp⟩
      | child next =>
          refine ⟨fun h => ⟨by simp, ?_⟩, fun h => h.2 next rfl⟩
          rintro _ ⟨⟩
          exact h

theorem along_of_inside (hacc : Accepted rd.blockSize) {block : UInt64}
    (h : ∀ fuel, parseExtentNode (disk.device w) rd fuel block logicalBlock ≠ throw .outOfBounds) :
    Along (nextNode disk w rd logicalBlock)
      (BlockContained disk w rd logicalBlock) (some block) := by
  have hbelow : ∀ b c,
      (∀ fuel, parseExtentNode (disk.device w) rd fuel b logicalBlock ≠ throw .outOfBounds) →
      nextNode disk w rd logicalBlock b = some c →
        ∀ fuel, parseExtentNode (disk.device w) rd fuel c logicalBlock ≠ throw .outOfBounds := by
    intro b c hb hnext
    obtain ⟨r, hr, _⟩ := disk_whole disk w hacc b
    rw [nextNode, hr] at hnext
    obtain ⟨top, rfl, hlead⟩ := Option.bind_eq_some_iff.mp hnext
    exact (follow_inside.mp (follow_of_parse hr hb)).2 c hlead
  intro n b hwalk node hread
  have hb := along_of_invariant hbelow h n b hwalk
  exact (follow_inside.mp (follow_of_parse hread hb)).1

theorem inside_of_along (hacc : Accepted rd.blockSize) (fuel : Nat) {block : UInt64}
    (h : Along (nextNode disk w rd logicalBlock)
      (BlockContained disk w rd logicalBlock) (some block)) :
    parseExtentNode (disk.device w) rd fuel block logicalBlock ≠ throw .outOfBounds := by
  induction fuel generalizing block with
  | zero => exact throw_ne_throw
  | succ fuel ih =>
      obtain ⟨htop, hbelow⟩ := along_some.mp h
      obtain ⟨r, hr, _⟩ := disk_whole disk w hacc block
      cases r with
      | none =>
          rw [parseExtentNode, hr, pure_bind]
          exact pure_ne_throw
      | some node =>
          have hsearch := searchNode_contained.mpr (htop node hr)
          rw [nextNode, hr] at hbelow
          change Along _ _ (leadsTo logicalBlock node) at hbelow
          rw [parseExtentNode_follow hr]
          rw [leadsTo] at hbelow
          cases hs : searchNode node logicalBlock with
          | error f =>
              rw [searchNode_error hs] at hs
              exact absurd hs hsearch
          | ok found =>
              cases found with
              | done r => exact pure_ne_throw
              | child next =>
                  rw [hs] at hbelow
                  exact ih hbelow

end Lookup

/-- The lookup of a block examines only entries inside their nodes exactly when every
node on its path has an entry count within its room, or an entry that stops the loop. -/
theorem inside_iff_pathContained (disk : Disk) (w : BlockDevice) (rd : Ext4Reader)
    (hmounted : rd.mounted = true) (inode : Ext4Inode) (logicalBlock : UInt32) :
    Inside (disk.device w) rd logicalBlock inode ↔ PathContained disk w rd logicalBlock inode := by
  have hacc := (rd.geometry hmounted).1
  refine follow_inside.trans ⟨fun ⟨hcont, hbelow⟩ => ⟨hcont, ?_⟩, fun h => ⟨h.root, fun b hb => ?_⟩⟩
  · cases hlead : leadsTo logicalBlock inode.iBlock with
    | none => exact along_none
    | some b => exact along_of_inside hacc (hbelow b hlead)
  · exact fun fuel => inside_of_along hacc fuel (hb ▸ h.below)

/-- The leaf in the inode of file 11 counts five empty extents; it has room for four. -/
def overfullDisk : Disk :=
  .ofPieces 16384
    [(2056, le32Bytes 5), (6400, le16Bytes 0x8180 ++ [0, 0] ++ le32Bytes 1024),
      (6432, le32Bytes 0x00080000), (6440, le16Bytes 0xF30A ++ le16Bytes 5 ++ le16Bytes 4)]

def overfullInode : Ext4Inode :=
  (result (readInode (overfullDisk.device wholeDevice) (plainReader 16) 11)).join.getD (Packed.zero 160)

theorem inside_iff_overfull :
    Inside (overfullDisk.device wholeDevice) (plainReader 16) 0 overfullInode ↔
      PathContained overfullDisk wholeDevice (plainReader 16) 0 overfullInode :=
  inside_iff_pathContained overfullDisk wholeDevice (plainReader 16) rfl overfullInode 0

theorem overfull_leaf_overrun :
    readInode (overfullDisk.device wholeDevice) (plainReader 16) 11 = pure (some overfullInode) ∧
      usesExtents overfullInode = true ∧
      (∀ fuel, resolveExtentBlock (overfullDisk.device wholeDevice) (plainReader 16) fuel
        overfullInode 0 = throw .outOfBounds) ∧
      ¬Inside (overfullDisk.device wholeDevice) (plainReader 16) 0 overfullInode := by
  have hsearch : searchNode overfullInode.iBlock 0 = .error .outOfBounds := by decide +kernel
  have hover : ∀ fuel, resolveExtentBlock (overfullDisk.device wholeDevice) (plainReader 16) fuel
      overfullInode 0 = throw .outOfBounds := by
    intro fuel
    rw [resolveExtentBlock_follow, hsearch]
    rfl
  exact ⟨eq_pure_getD (by decide +kernel) _, by decide +kernel, hover, fun h => h 0 (hover 0)⟩

end Linux2Win.ExtentBounds
