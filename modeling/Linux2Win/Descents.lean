import Linux2Win.ExtentNodes
import Linux2Win.FileContent
import Linux2Win.ReadCalls
import Linux2Win.Walks

namespace Linux2Win.Descents

open Bytes Devices Ext4Types Reader BlockMap Programs Traces FileContent ExtentNodes ReadCalls Walks

def leadsTo (logicalBlock : UInt32) (node : List Byte) : Option UInt64 :=
  match searchNode node logicalBlock with
  | .ok (.child next) => some next
  | _ => none

theorem leadsTo_eq_some {logicalBlock : UInt32} {node : List Byte} {block : UInt64} :
    leadsTo logicalBlock node = some block ↔ searchNode node logicalBlock = .ok (.child block) := by
  rw [leadsTo]
  split
  · rename_i hs
    simp [hs]
  · rename_i hs
    exact iff_of_false nofun (hs block)

theorem contained_of_leadsTo {logicalBlock : UInt32} {node : List Byte} {block : UInt64}
    (h : leadsTo logicalBlock node = some block) : Contained logicalBlock node := by
  rw [← searchNode_contained, leadsTo_eq_some.mp h]
  exact nofun

section Images

variable (disk : Disk) (w : BlockDevice) (rd : Ext4Reader) (logicalBlock : UInt32)

/-- The step from a node on the path of a logical block to the next one: none from a
node that cannot be read, that has no magic, that is a leaf, or that has no entry at
or before the block. -/
def nextNode (block : UInt64) : Option UInt64 :=
  (result (readBlock (disk.device w) block rd.blockSize)).join.bind (leadsTo logicalBlock)

def PathEnds (inode : Ext4Inode) : Prop :=
  walk (nextNode disk w rd logicalBlock) (extentHeader inode.iBlock).ehDepth.toNat
    (leadsTo logicalBlock inode.iBlock) = none

instance (inode : Ext4Inode) : Decidable (PathEnds disk w rd logicalBlock inode) :=
  inferInstanceAs (Decidable (_ = none))

def BlockContained (block : UInt64) : Prop :=
  ∀ node, readBlock (disk.device w) block rd.blockSize = pure (some node) →
    Contained logicalBlock node

structure PathContained (inode : Ext4Inode) : Prop where
  root : Contained logicalBlock inode.iBlock
  below : Along (nextNode disk w rd logicalBlock) (BlockContained disk w rd logicalBlock)
    (leadsTo logicalBlock inode.iBlock)

/-- The lookup returns, and has read at most as many nodes as the root is high. -/
def DescentBounded (inode : Ext4Inode) : Prop :=
  ∃ fuel r, (exec (resolveExtentBlock (traced disk w) rd fuel inode logicalBlock) []).1 = .ok r ∧
    (exec (resolveExtentBlock (traced disk w) rd fuel inode logicalBlock) []).2.length ≤
      (extentHeader inode.iBlock).ehDepth.toNat

end Images

section Follow

variable {m : Type → Type} [Monad m] (dev : Device m) (rd : Ext4Reader)

/-- What `resolve_extent_block` and `parse_extent_node` do after the search in a node. -/
def follow (fuel : Nat) (logicalBlock : UInt32) : Except Fault NodeStep →
    ExceptT Fault m (Option UInt64)
  | .error f => throw f
  | .ok (.done r) => pure r
  | .ok (.child next) => parseExtentNode dev rd fuel next logicalBlock

theorem resolveExtentBlock_follow (fuel : Nat) (inode : Ext4Inode) (logicalBlock : UInt32) :
    resolveExtentBlock dev rd fuel inode logicalBlock =
      follow dev rd fuel logicalBlock (searchNode inode.iBlock logicalBlock) := rfl

end Follow

section Runs

variable {disk : Disk} {w : BlockDevice} {rd : Ext4Reader} {logicalBlock : UInt32}

theorem blockContained_of_nextNode {block next : UInt64}
    (h : nextNode disk w rd logicalBlock block = some next) :
    BlockContained disk w rd logicalBlock block := by
  intro node hnode
  rw [nextNode, hnode] at h
  exact contained_of_leadsTo h

variable (disk w rd) in
theorem readBlock_traced (block : UInt64) : ∃ r,
    readBlock (disk.device w) block rd.blockSize = pure r ∧
      ∀ log, exec (readBlock (traced disk w) block rd.blockSize) log =
        (.ok r, log ++ [blockRead rd block]) := by
  have hsize : rd.blockSize.toUInt64.toNat < 2 ^ 63 := by
    have := rd.blockSize.toNat_lt
    rw [UInt32.toNat_toUInt64]
    omega
  obtain ⟨r, hr, _⟩ := disk.read_whole w (block * rd.blockSize.toUInt64) hsize
  refine ⟨r, hr, fun log => ?_⟩
  change (disk.device w (block * rd.blockSize.toUInt64) rd.blockSize.toUInt64, _) = _
  rw [hr]
  rfl

variable (disk w rd logicalBlock) in
theorem follow_cases (fuel : Nat) (node : List Byte) (log : List ReadCall) :
    (¬Contained logicalBlock node ∧
        exec (follow (traced disk w) rd fuel logicalBlock (searchNode node logicalBlock)) log =
          (.error .outOfBounds, log)) ∨
      Contained logicalBlock node ∧
        ((leadsTo logicalBlock node = none ∧ ∃ r,
            exec (follow (traced disk w) rd fuel logicalBlock (searchNode node logicalBlock)) log =
              (.ok r, log)) ∨
          ∃ b, leadsTo logicalBlock node = some b ∧
            exec (follow (traced disk w) rd fuel logicalBlock (searchNode node logicalBlock)) log =
              exec (parseExtentNode (traced disk w) rd fuel b logicalBlock) log) := by
  rw [leadsTo, ← searchNode_contained]
  cases hs : searchNode node logicalBlock with
  | error f =>
      rw [searchNode_error hs]
      exact Or.inl ⟨fun h => h rfl, rfl⟩
  | ok found =>
      refine Or.inr ⟨nofun, ?_⟩
      cases found with
      | done r => exact Or.inl ⟨rfl, r, rfl⟩
      | child next => exact Or.inr ⟨next, rfl, rfl⟩

variable (disk w rd logicalBlock) in
theorem parseExtentNode_cases (fuel : Nat) (block : UInt64) (log : List ReadCall) :
    (¬BlockContained disk w rd logicalBlock block ∧
        exec (parseExtentNode (traced disk w) rd (fuel + 1) block logicalBlock) log =
          (.error .outOfBounds, log ++ [blockRead rd block])) ∨
      BlockContained disk w rd logicalBlock block ∧
        ((nextNode disk w rd logicalBlock block = none ∧ ∃ r,
            exec (parseExtentNode (traced disk w) rd (fuel + 1) block logicalBlock) log =
              (.ok r, log ++ [blockRead rd block])) ∨
          ∃ b, nextNode disk w rd logicalBlock block = some b ∧
            exec (parseExtentNode (traced disk w) rd (fuel + 1) block logicalBlock) log =
              exec (parseExtentNode (traced disk w) rd fuel b logicalBlock)
                (log ++ [blockRead rd block])) := by
  obtain ⟨r, hread, htraced⟩ := readBlock_traced disk w rd block
  rw [parseExtentNode, exec_bind, htraced, nextNode, hread, BlockContained, hread]
  cases r with
  | none =>
      refine Or.inr ⟨fun _ h => ?_, Or.inl ⟨rfl, none, rfl⟩⟩
      cases pure_injective h
  | some node =>
      rcases follow_cases disk w rd logicalBlock fuel node (log ++ [blockRead rd block]) with
        ⟨hover, hrun⟩ | ⟨hcont, hrun⟩
      · exact Or.inl ⟨fun h => hover (h node rfl), hrun⟩
      · refine Or.inr ⟨?_, hrun⟩
        rintro _ ⟨⟩
        exact hcont

theorem parseExtentNode_returns {n : Nat} {block : UInt64}
    (hwalk : walk (nextNode disk w rd logicalBlock) n (some block) = none)
    (hcont : Along (nextNode disk w rd logicalBlock) (BlockContained disk w rd logicalBlock)
      (some block)) (log : List ReadCall) :
    ∃ r log', exec (parseExtentNode (traced disk w) rd n block logicalBlock) log = (.ok r, log') ∧
      log'.length ≤ log.length + n := by
  induction n generalizing block log with
  | zero => cases hwalk
  | succ n ih =>
      rw [walk_succ, Option.bind_some] at hwalk
      obtain ⟨hhere, hbelow⟩ := along_some.mp hcont
      rcases parseExtentNode_cases disk w rd logicalBlock n block log with
        ⟨hover, _⟩ | ⟨_, ⟨_, r, hrun⟩ | ⟨b, hb, hrun⟩⟩
      · exact absurd hhere hover
      · refine ⟨r, _, hrun, ?_⟩
        rw [List.length_append, List.length_singleton]
        omega
      · rw [hb] at hwalk hbelow
        obtain ⟨r, log', hreturns, hle⟩ := ih hwalk hbelow (log ++ [blockRead rd block])
        rw [List.length_append, List.length_singleton] at hle
        exact ⟨r, log', hrun.trans hreturns, by omega⟩

theorem parseExtentNode_reads {fuel : Nat} {block : UInt64} {log log' : List ReadCall}
    {r : Option UInt64}
    (h : exec (parseExtentNode (traced disk w) rd fuel block logicalBlock) log = (.ok r, log')) :
    ∃ n, log'.length = log.length + n ∧
      walk (nextNode disk w rd logicalBlock) n (some block) = none ∧
      Along (nextNode disk w rd logicalBlock) (BlockContained disk w rd logicalBlock) (some block) := by
  induction fuel generalizing block log with
  | zero => cases h
  | succ fuel ih =>
      rcases parseExtentNode_cases disk w rd logicalBlock fuel block log with
        ⟨_, hrun⟩ | ⟨hcont, ⟨hnone, _, hrun⟩ | ⟨b, hb, hrun⟩⟩
      · cases hrun.symm.trans h
      · cases hrun.symm.trans h
        refine ⟨1, by rw [List.length_append, List.length_singleton], ?_, along_some.mpr ⟨hcont, ?_⟩⟩
        · rw [walk_succ, Option.bind_some, hnone]
          rfl
        · rw [hnone]
          exact along_none
      · obtain ⟨n, hlen, hwalk, hbelow⟩ := ih (hrun.symm.trans h)
        rw [List.length_append, List.length_singleton] at hlen
        refine ⟨n + 1, by omega, ?_, along_some.mpr ⟨hcont, ?_⟩⟩
        · rw [walk_succ, Option.bind_some, hb]
          exact hwalk
        · rw [hb]
          exact hbelow

/-- A lookup that comes into index nodes which lead only to each other never returns. -/
theorem resolveExtentBlock_cycle {inode : Ext4Inode} {cycle : Set UInt64} {block : UInt64}
    (hcycle : ∀ b ∈ cycle, ∃ c ∈ cycle, nextNode disk w rd logicalBlock b = some c)
    (hroot : leadsTo logicalBlock inode.iBlock = some block) (hblock : block ∈ cycle) (fuel : Nat) :
    (exec (resolveExtentBlock (traced disk w) rd fuel inode logicalBlock) []).1 =
      .error .outOfFuel := by
  have hparse : ∀ (fuel : Nat) (b : UInt64) (log : List ReadCall), b ∈ cycle →
      (exec (parseExtentNode (traced disk w) rd fuel b logicalBlock) log).1 = .error .outOfFuel := by
    intro fuel
    induction fuel with
    | zero => exact fun _ _ _ => rfl
    | succ fuel ih =>
        intro b log hb
        obtain ⟨c, hc, hnext⟩ := hcycle b hb
        rcases parseExtentNode_cases disk w rd logicalBlock fuel b log with
          ⟨hover, _⟩ | ⟨_, ⟨hnone, _⟩ | ⟨c', hc', hrun⟩⟩
        · exact absurd (blockContained_of_nextNode hnext) hover
        · cases hnext.symm.trans hnone
        · cases hnext.symm.trans hc'
          rw [hrun]
          exact ih c _ hc
  rw [resolveExtentBlock_follow, leadsTo_eq_some.mp hroot]
  exact hparse fuel block [] hblock

end Runs

/-- The root of inode 11 has height 1, and points to an index node in block 9 that has
itself for its only child. -/
def cyclicDisk : Disk :=
  .ofPieces 16384
    [(2056, le32Bytes 5), (6400, le16Bytes 0x8180 ++ [0, 0] ++ le32Bytes 1024),
      (6432, le32Bytes 0x00080000),
      (6440, le16Bytes 0xF30A ++ le16Bytes 1 ++ le16Bytes 4 ++ le16Bytes 1),
      (6452, le32Bytes 0 ++ le32Bytes 9),
      (9216, le16Bytes 0xF30A ++ le16Bytes 1 ++ le16Bytes 84 ++ le16Bytes 1),
      (9228, le32Bytes 0 ++ le32Bytes 9)]

def cyclicInode : Ext4Inode :=
  (result (readInode (cyclicDisk.device wholeDevice) (plainReader 16) 11)).join.getD (Packed.zero 160)

end Linux2Win.Descents
