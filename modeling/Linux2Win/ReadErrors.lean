import Linux2Win.Directory
import Linux2Win.ReadFile
import Linux2Win.Traces

namespace Linux2Win.ReadErrors

open Bytes Devices Ext4Types Reader BlockMap FileData FileContent PointerTree ReadFile Directory
open Programs Traces

section Lookup

variable {m : Type → Type} [Monad m] (dev : Device m) (rd : Ext4Reader)

def nodeLookup (below : UInt64 → ExceptT Fault m Lookup) (node : List Byte) (logicalBlock : UInt32) :
    ExceptT Fault m Lookup :=
  if (extentHeader node).ehMagic != extentMagic then pure .broken
  else match searchNode node logicalBlock with
    | .error f => throw f
    | .ok (.done (some physBlock)) => pure (.entry physBlock)
    | .ok (.done none) => pure .absent
    | .ok (.child next) => below next

def childLookup (logicalBlock : UInt32) : Nat → UInt64 → ExceptT Fault m Lookup
  | 0, _ => throw .outOfFuel
  | fuel + 1, blockNum => do
      match ← readBlock dev blockNum rd.blockSize with
      | none => return .broken
      | some node => nodeLookup (childLookup logicalBlock fuel) node logicalBlock

/-- The lookup of a logical block in the mapping of an inode, which keeps apart
a block that is not there and a mapping that is damaged. -/
def blockLookup (fuel : Nat) (inode : Ext4Inode) (logicalBlock : UInt32) : ExceptT Fault m Lookup :=
  if usesExtents inode then nodeLookup (childLookup dev rd logicalBlock fuel) inode.iBlock logicalBlock
  else pointerTree dev rd inode logicalBlock

/-- The block lies in the part of an indirect mapping that the source does not reach. -/
def Hidden (inode : Ext4Inode) (logicalBlock : UInt32) : Prop :=
  usesExtents inode = false ∧
    12 + pointersPerBlock rd + pointersPerBlock rd * pointersPerBlock rd ≤ logicalBlock.toNat

variable {dev rd} [LawfulMonad m] {inode : Ext4Inode} {logicalBlock : UInt32}

theorem nodeLookup_answer (below : UInt64 → ExceptT Fault m Lookup) (node : List Byte) :
    Lookup.answer <$> nodeLookup below node logicalBlock =
      match searchNode node logicalBlock with
      | .error f => throw f
      | .ok (.done r) => pure r
      | .ok (.child next) => Lookup.answer <$> below next := by
  rw [nodeLookup]
  split
  · rename_i hmagic
    have hsearch : searchNode node logicalBlock = .ok (.done none) := by
      rw [searchNode]
      exact if_pos hmagic
    rw [hsearch, map_pure]
    rfl
  · rcases searchNode node logicalBlock with f | (_ | _) | next
    · exact map_throw _ f
    · exact map_pure _ _
    · exact map_pure _ _
    · rfl

theorem childLookup_answer (fuel : Nat) (blockNum : UInt64) :
    Lookup.answer <$> childLookup dev rd logicalBlock fuel blockNum =
      parseExtentNode dev rd fuel blockNum logicalBlock := by
  induction fuel generalizing blockNum with
  | zero => exact map_throw _ _
  | succ fuel ih =>
      rw [childLookup, parseExtentNode, map_bind]
      congr 1
      funext node
      cases node with
      | none => exact map_pure _ _
      | some node =>
          dsimp only
          rw [nodeLookup_answer]
          rcases searchNode node logicalBlock with f | r | next
          · rfl
          · rfl
          · exact ih next

theorem mapBlock_eq (hacc : Accepted rd.blockSize) (h : ¬Hidden rd inode logicalBlock) (fuel : Nat) :
    mapBlock dev rd fuel inode logicalBlock =
      Lookup.answer <$> blockLookup dev rd fuel inode logicalBlock := by
  rw [mapBlock, blockLookup]
  cases hx : usesExtents inode with
  | true =>
      rw [if_pos rfl, if_pos rfl, resolveExtentBlock, nodeLookup_answer]
      rcases searchNode inode.iBlock logicalBlock with f | r | next
      · rfl
      · rfl
      · exact (childLookup_answer fuel next).symm
  | false =>
      rw [if_neg Bool.false_ne_true, if_neg Bool.false_ne_true]
      refine readIndirectBlock_eq dev hacc inode (Nat.lt_of_not_le fun hle => h ⟨hx, hle⟩)

omit [LawfulMonad m] in
theorem mapBlock_hidden (hacc : Accepted rd.blockSize) (h : Hidden rd inode logicalBlock) (fuel : Nat) :
    mapBlock dev rd fuel inode logicalBlock = pure none := by
  rw [mapBlock, h.1, if_neg Bool.false_ne_true]
  exact readIndirectBlock_beyond dev inode hacc h.2

end Lookup

section Loop

variable {σ : Type} (dev : Device (StateM σ)) (rd : Ext4Reader) (inode : Ext4Inode) (depth : Nat)

def iteration (offset remaining : UInt64) : UInt32 × UInt32 × UInt32 :=
  let blockOffset := (offset % rd.blockSize.toUInt64).toUInt32
  ((offset / rd.blockSize.toUInt64).toUInt32, blockOffset,
    min remaining.toUInt32 (rd.blockSize - blockOffset))

inductive Comes : UInt64 → UInt64 → σ → UInt32 → σ → Prop
  | here {offset remaining : UInt64} (s : σ) (more : remaining ≠ 0) :
      Comes offset remaining s (iteration rd offset remaining).1 s
  | next {offset remaining : UInt64} {s t u v : σ} {mapped : Option UInt64} {bytes : List Byte}
      {logicalBlock : UInt32} (more : remaining ≠ 0)
      (maps : exec (mapBlock dev rd depth inode (iteration rd offset remaining).1) s = (.ok mapped, t))
      (copies : exec (blockBytes dev rd mapped (iteration rd offset remaining).2.1
        (iteration rd offset remaining).2.2) t = (.ok (some bytes), u))
      (rest : Comes (offset + chunkSize rd offset remaining) (remaining - chunkSize rd offset remaining)
        u logicalBlock v) :
      Comes offset remaining s logicalBlock v

def DataFails (logicalBlock : UInt32) (t : σ) : Prop :=
  ∃ physBlock u, exec (mapBlock dev rd depth inode logicalBlock) t = (.ok (some physBlock), u) ∧
    physBlock ≠ 0 ∧ (exec (readBlock dev physBlock rd.blockSize) u).1 = .ok none

def ZeroFilled (logicalBlock : UInt32) (t : σ) : Prop :=
  (exec (mapBlock dev rd depth inode logicalBlock) t).1 = .ok none ∨
    (exec (mapBlock dev rd depth inode logicalBlock) t).1 = .ok (some 0)

def Finds (logicalBlock : UInt32) (t : σ) (l : Lookup) : Prop :=
  (exec (blockLookup dev rd depth inode logicalBlock) t).1 = .ok l

/-- Every block the loop fills with zeros is a hole, and none that it comes to has
a damaged mapping. -/
structure NoErrorHidden (offset remaining : UInt64) (s : σ) : Prop where
  holes : ∀ logicalBlock t, Comes dev rd inode depth offset remaining s logicalBlock t →
    ZeroFilled dev rd inode depth logicalBlock t → Finds dev rd inode depth logicalBlock t .absent
  valid : ∀ logicalBlock t, Comes dev rd inode depth offset remaining s logicalBlock t →
    ¬Finds dev rd inode depth logicalBlock t .broken

/-- The mapping is undamaged here, and has nothing for the block or a block other
than block zero, within the reach of the source. -/
def Sound (logicalBlock : UInt32) (t : σ) : Prop :=
  Finds dev rd inode depth logicalBlock t .absent ∨
    ¬Hidden rd inode logicalBlock ∧ ∃ physBlock, physBlock ≠ 0 ∧
      Finds dev rd inode depth logicalBlock t (.entry physBlock)

variable {dev rd inode depth} {offset remaining : UInt64} {s s' t : σ} {logicalBlock : UInt32}

theorem blockBytes_none_iff {mapped : Option UInt64} {blockOffset toCopy : UInt32}
    {r : Option (List Byte)} {u : σ}
    (h : exec (blockBytes dev rd mapped blockOffset toCopy) t = (.ok r, u)) :
    r = none ↔ ∃ physBlock, mapped = some physBlock ∧ physBlock ≠ 0 ∧
      (exec (readBlock dev physBlock rd.blockSize) t).1 = .ok none := by
  cases mapped with
  | none =>
      cases h
      exact iff_of_false nofun nofun
  | some physBlock =>
      rw [blockBytes] at h
      by_cases hp : physBlock = 0
      · rw [hp] at h
        cases h
        apply iff_of_false nofun
        rintro ⟨_, ⟨⟩, hne, _⟩
        exact hne hp
      · rw [if_pos (bne_iff_ne.mpr hp)] at h
        obtain ⟨found, v, hread, hpure⟩ := exec_bind_ok.mp h
        cases hpure
        rw [Option.map_eq_none_iff]
        constructor
        · rintro rfl
          exact ⟨physBlock, rfl, hp, by rw [hread]⟩
        · rintro ⟨_, ⟨⟩, _, hnone⟩
          rw [hread] at hnone
          cases hnone
          rfl

theorem copyLoop_step {fuel : Nat} {written out : List Byte} {ok : Bool} (more : remaining ≠ 0)
    (hrun : exec (copyLoop dev rd inode depth (fuel + 1) offset remaining written) s =
      (.ok (ok, out), s')) :
    ∃ mapped t r u,
      exec (mapBlock dev rd depth inode (iteration rd offset remaining).1) s = (.ok mapped, t) ∧
      exec (blockBytes dev rd mapped (iteration rd offset remaining).2.1
        (iteration rd offset remaining).2.2) t = (.ok r, u) ∧
      match r with
      | none => ok = false
      | some bytes => exec (copyLoop dev rd inode depth fuel (offset + chunkSize rd offset remaining)
          (remaining - chunkSize rd offset remaining) (written ++ bytes)) u = (.ok (ok, out), s') := by
  have hz : ¬(remaining == 0) = true := by simpa using more
  rw [copyLoop, if_neg hz] at hrun
  obtain ⟨mapped, t, hmap, hrun⟩ := exec_bind_ok.mp hrun
  obtain ⟨r, u, hbytes, hrun⟩ := exec_bind_ok.mp hrun
  refine ⟨mapped, t, r, u, hmap, hbytes, ?_⟩
  cases r with
  | none =>
      cases hrun
      rfl
  | some bytes => exact hrun

theorem not_comes_zero : ¬Comes dev rd inode depth offset 0 s logicalBlock t := by
  rintro (⟨_, h⟩ | h)
  · exact h rfl
  · contradiction

section Iteration

variable {mapped : Option UInt64} {r : Option (List Byte)} {u v : σ}
  (hmap : exec (mapBlock dev rd depth inode (iteration rd offset remaining).1) s = (.ok mapped, t))
  (hbytes : exec (blockBytes dev rd mapped (iteration rd offset remaining).2.1
    (iteration rd offset remaining).2.2) t = (.ok r, u))

include hmap hbytes

theorem dataFails_iff :
    r = none ↔ DataFails dev rd inode depth (iteration rd offset remaining).1 s := by
  rw [blockBytes_none_iff hbytes]
  constructor
  · rintro ⟨physBlock, rfl, hp, hread⟩
    exact ⟨physBlock, t, hmap, hp, hread⟩
  · rintro ⟨physBlock, t', hmap', hp, hread⟩
    cases hmap.symm.trans hmap'
    exact ⟨physBlock, rfl, hp, hread⟩

theorem comes_cases (h : Comes dev rd inode depth offset remaining s logicalBlock v) :
    logicalBlock = (iteration rd offset remaining).1 ∧ v = s ∨
      r.isSome = true ∧ Comes dev rd inode depth (offset + chunkSize rd offset remaining)
        (remaining - chunkSize rd offset remaining) u logicalBlock v := by
  rcases h with ⟨_, _⟩ | ⟨_, maps, copies, rest⟩
  · exact Or.inl ⟨rfl, rfl⟩
  · cases hmap.symm.trans maps
    cases hbytes.symm.trans copies
    exact Or.inr ⟨rfl, rest⟩

end Iteration

theorem copyLoop_returned {fuel : Nat} {written out : List Byte} {ok : Bool}
    (hrun : exec (copyLoop dev rd inode depth fuel offset remaining written) s = (.ok (ok, out), s')) :
    (∀ logicalBlock t, Comes dev rd inode depth offset remaining s logicalBlock t →
        ∃ r, (exec (mapBlock dev rd depth inode logicalBlock) t).1 = .ok r) ∧
      (ok = false ↔ ∃ logicalBlock t, Comes dev rd inode depth offset remaining s logicalBlock t ∧
        DataFails dev rd inode depth logicalBlock t) := by
  induction fuel generalizing offset remaining written s with
  | zero => cases hrun
  | succ fuel ih =>
      by_cases more : remaining = 0
      · subst more
        cases hrun
        exact ⟨fun _ _ h => absurd h not_comes_zero,
          iff_of_false nofun fun ⟨_, _, h, _⟩ => not_comes_zero h⟩
      · obtain ⟨mapped, t, r, u, hmap, hbytes, hrest⟩ := copyLoop_step more hrun
        have hfails := dataFails_iff hmap hbytes
        cases r with
        | none =>
            refine ⟨fun l v h => ?_, iff_of_true hrest ⟨_, s, .here s more, hfails.mp rfl⟩⟩
            rcases comes_cases hmap hbytes h with ⟨rfl, rfl⟩ | ⟨hsome, _⟩
            · exact ⟨mapped, by rw [hmap]⟩
            · cases hsome
        | some bytes =>
            obtain ⟨hmaps, hfalse⟩ := ih hrest
            refine ⟨fun l v h => ?_, hfalse.trans ⟨?_, ?_⟩⟩
            · rcases comes_cases hmap hbytes h with ⟨rfl, rfl⟩ | ⟨_, hlater⟩
              · exact ⟨mapped, by rw [hmap]⟩
              · exact hmaps l v hlater
            · rintro ⟨l, v, h, hbad⟩
              exact ⟨l, v, .next more hmap hbytes h, hbad⟩
            · rintro ⟨l, v, h, hbad⟩
              rcases comes_cases hmap hbytes h with ⟨rfl, rfl⟩ | ⟨_, hlater⟩
              · cases hfails.mpr hbad
              · exact ⟨l, v, hlater, hbad⟩

theorem finds_answer (hacc : Accepted rd.blockSize) (h : ¬Hidden rd inode logicalBlock)
    {r : Option UInt64} (hmap : (exec (mapBlock dev rd depth inode logicalBlock) t).1 = .ok r) :
    ∃ l : Lookup, l.answer = r ∧ Finds dev rd inode depth logicalBlock t l := by
  rw [mapBlock_eq hacc h, exec_map] at hmap
  cases hl : (exec (blockLookup dev rd depth inode logicalBlock) t).1 with
  | error f =>
      rw [hl] at hmap
      cases hmap
  | ok l =>
      rw [hl] at hmap
      cases hmap
      exact ⟨l, rfl, hl⟩

theorem Finds.unique {l l' : Lookup} (h : Finds dev rd inode depth logicalBlock t l)
    (h' : Finds dev rd inode depth logicalBlock t l') : l = l' := by
  cases h.symm.trans h'
  rfl

theorem sound_iff (hacc : Accepted rd.blockSize) {r : Option UInt64}
    (hmap : (exec (mapBlock dev rd depth inode logicalBlock) t).1 = .ok r) :
    (ZeroFilled dev rd inode depth logicalBlock t → Finds dev rd inode depth logicalBlock t .absent) ∧
      ¬Finds dev rd inode depth logicalBlock t .broken ↔
        Sound dev rd inode depth logicalBlock t := by
  by_cases h : Hidden rd inode logicalBlock
  · have hzero : ZeroFilled dev rd inode depth logicalBlock t := by
      left
      rw [mapBlock_hidden hacc h]
      rfl
    constructor
    · exact fun hs => Or.inl (hs.1 hzero)
    · rintro (ha | ⟨hno, _⟩)
      · exact ⟨fun _ => ha, fun hb => nomatch ha.unique hb⟩
      · exact absurd h hno
  · obtain ⟨l, rfl, hl⟩ := finds_answer hacc h hmap
    constructor
    · rintro ⟨hhole, hvalid⟩
      cases l with
      | absent => exact Or.inl hl
      | broken => exact absurd hl hvalid
      | entry physBlock =>
          refine Or.inr ⟨h, physBlock, ?_, hl⟩
          rintro rfl
          exact nomatch hl.unique (hhole (Or.inr hmap))
    · rintro (ha | ⟨_, physBlock, hp, he⟩)
      · exact ⟨fun _ => ha, fun hb => nomatch ha.unique hb⟩
      · refine ⟨?_, fun hb => nomatch he.unique hb⟩
        cases hl.unique he
        rintro (hz | hz)
        · cases hmap.symm.trans hz
        · cases hmap.symm.trans hz
          exact absurd rfl hp

variable (dev rd inode depth) in
def Clear (offset remaining : UInt64) (s : σ) : Prop :=
  (∃ logicalBlock t, Comes dev rd inode depth offset remaining s logicalBlock t ∧
      DataFails dev rd inode depth logicalBlock t) ∨
    ∀ logicalBlock t, Comes dev rd inode depth offset remaining s logicalBlock t →
      Sound dev rd inode depth logicalBlock t

theorem copyLoop_clear_iff (hacc : Accepted rd.blockSize) {fuel : Nat} {written out : List Byte}
    {ok : Bool}
    (hrun : exec (copyLoop dev rd inode depth fuel offset remaining written) s = (.ok (ok, out), s')) :
    (ok = true → NoErrorHidden dev rd inode depth offset remaining s) ↔
      Clear dev rd inode depth offset remaining s := by
  obtain ⟨hmaps, hfalse⟩ := copyLoop_returned hrun
  have hsound : NoErrorHidden dev rd inode depth offset remaining s ↔
      ∀ logicalBlock t, Comes dev rd inode depth offset remaining s logicalBlock t →
        Sound dev rd inode depth logicalBlock t := by
    constructor
    · intro h l t hl
      obtain ⟨r, hr⟩ := hmaps l t hl
      exact (sound_iff hacc hr).mp ⟨h.holes l t hl, h.valid l t hl⟩
    · refine fun h => ⟨fun l t hl => ?_, fun l t hl => ?_⟩
      · obtain ⟨r, hr⟩ := hmaps l t hl
        exact ((sound_iff hacc hr).mpr (h l t hl)).1
      · obtain ⟨r, hr⟩ := hmaps l t hl
        exact ((sound_iff hacc hr).mpr (h l t hl)).2
  rw [Clear, ← hfalse, ← hsound]
  cases ok <;> simp

end Loop

section Calls

variable {σ : Type} (dev : Device (StateM σ)) (rd : Ext4Reader)

structure Fills (inodeNum : UInt32) (offset size : UInt64) (s : σ) (inode : Ext4Inode) (t : σ) :
    Prop where
  mounted : rd.mounted = true
  size_ne : size ≠ 0
  reads : exec (readInode dev rd inodeNum) s = (.ok (some inode), t)
  inside : offset < fileSize inode

structure Lists (dirInodeNum : UInt32) (s : σ) (dir : Ext4Inode) (t : σ) : Prop where
  reads : exec (readInode dev rd dirInodeNum) s = (.ok (some dir), t)
  isDir : dir.iMode &&& sIfmt = sIfdir

variable {dev rd} {fuel : Nat} {s s' t : σ} {inode : Ext4Inode}

theorem readFileData_loop {inodeNum : UInt32} {offset size : UInt64} {buffer : List Byte}
    {res : ReadResult} (h : Fills dev rd inodeNum offset size s inode t)
    (hrun : exec (readFileData dev rd fuel inodeNum offset (some buffer) size) s = (.ok res, s')) :
    ∃ out, exec (copyLoop dev rd inode fuel fuel offset (clippedSize inode offset size) []) t =
      (.ok (res.ok, out), s') := by
  have hz : ¬(!rd.mounted || size == 0) = true := by simp [h.mounted, h.size_ne]
  rw [readFileData, if_neg hz] at hrun
  obtain ⟨_, _, hinode, hrun⟩ := exec_bind_ok.mp hrun
  cases h.reads.symm.trans hinode
  dsimp only at hrun
  rw [if_neg (UInt64.not_le.mpr h.inside)] at hrun
  obtain ⟨⟨ok, out⟩, _, hloop, hrun⟩ := exec_bind_ok.mp hrun
  cases ok
  · cases hrun
    exact ⟨out, hloop⟩
  · cases hrun
    exact ⟨out, hloop⟩

theorem readFileData_clear_iff {inodeNum : UInt32} {offset size : UInt64} {buffer : List Byte}
    {res : ReadResult}
    (hrun : exec (readFileData dev rd fuel inodeNum offset (some buffer) size) s = (.ok res, s')) :
    (res.ok = true → ∀ inode t, Fills dev rd inodeNum offset size s inode t →
        NoErrorHidden dev rd inode fuel offset (clippedSize inode offset size) t) ↔
      ∀ inode t, Fills dev rd inodeNum offset size s inode t →
        Clear dev rd inode fuel offset (clippedSize inode offset size) t := by
  have hone : ∀ inode t, Fills dev rd inodeNum offset size s inode t →
      ((res.ok = true → NoErrorHidden dev rd inode fuel offset (clippedSize inode offset size) t) ↔
        Clear dev rd inode fuel offset (clippedSize inode offset size) t) := by
    intro inode t h
    obtain ⟨out, hloop⟩ := readFileData_loop h hrun
    exact copyLoop_clear_iff (rd.geometry h.mounted).1 hloop
  constructor
  · intro h inode t hf
    exact (hone inode t hf).mp fun hok => h hok inode t hf
  · intro h hok inode t hf
    exact (hone inode t hf).mpr (h inode t hf) hok

theorem listDirectory_read {dirInodeNum : UInt32} {r : Option (List DirEntryInfo)} {dir : Ext4Inode}
    (h : Lists dev rd dirInodeNum s dir t) (hmounted : rd.mounted = true)
    (hsize : dir.iSizeLo.toUInt64 ≠ 0)
    (hrun : exec (listDirectory dev rd fuel dirInodeNum) s = (.ok r, s')) :
    ∃ buffer res u, exec (readFileData dev rd fuel dirInodeNum 0 (some buffer)
      dir.iSizeLo.toUInt64) t = (.ok res, u) ∧ r.isSome = res.ok := by
  rw [listDirectory, if_neg (by simp [hmounted])] at hrun
  obtain ⟨_, _, hinode, hrun⟩ := exec_bind_ok.mp hrun
  cases h.reads.symm.trans hinode
  dsimp only at hrun
  rw [if_neg (by simp [h.isDir]), if_neg (by simpa using hsize)] at hrun
  obtain ⟨res, u, hread, hrun⟩ := exec_bind_ok.mp hrun
  refine ⟨_, res, u, hread, ?_⟩
  cases hok : res.ok with
  | false =>
      rw [hok] at hrun
      cases hrun
      rfl
  | true =>
      rw [hok, if_neg (by decide)] at hrun
      obtain ⟨entries, _, _, hrun⟩ := exec_bind_ok.mp hrun
      cases hrun
      rfl

theorem listDirectory_clear_iff {dirInodeNum : UInt32} {r : Option (List DirEntryInfo)}
    (hrun : exec (listDirectory dev rd fuel dirInodeNum) s = (.ok r, s')) {dir : Ext4Inode}
    (h : Lists dev rd dirInodeNum s dir t) :
    (r.isSome = true → ∀ inode u, Fills dev rd dirInodeNum 0 dir.iSizeLo.toUInt64 t inode u →
        NoErrorHidden dev rd inode fuel 0 (clippedSize inode 0 dir.iSizeLo.toUInt64) u) ↔
      ∀ inode u, Fills dev rd dirInodeNum 0 dir.iSizeLo.toUInt64 t inode u →
        Clear dev rd inode fuel 0 (clippedSize inode 0 dir.iSizeLo.toUInt64) u := by
  by_cases hread : rd.mounted = true ∧ dir.iSizeLo.toUInt64 ≠ 0
  · obtain ⟨buffer, res, u, hres, hok⟩ := listDirectory_read h hread.1 hread.2 hrun
    rw [hok]
    exact readFileData_clear_iff hres
  · -- nothing is read when the reader is not mounted or the directory is empty
    have hno : ∀ inode u, ¬Fills dev rd dirInodeNum 0 dir.iSizeLo.toUInt64 t inode u :=
      fun inode u hf => hread ⟨hf.mounted, hf.size_ne⟩
    exact iff_of_true (fun _ inode u hf => absurd hf (hno inode u))
      fun inode u hf => absurd hf (hno inode u)

end Calls

/-- A call never hides a read error exactly when its loop is clear, and a listing of
a directory inherits that from the call that reads the directory. -/
theorem errors_shown_iff {σ : Type} (dev : Device (StateM σ)) (rd : Ext4Reader) (fuel : Nat)
    (s s' : σ) :
    (∀ inodeNum offset buffer size res,
      exec (readFileData dev rd fuel inodeNum offset (some buffer) size) s = (.ok res, s') →
        ((res.ok = true → ∀ inode t, Fills dev rd inodeNum offset size s inode t →
            NoErrorHidden dev rd inode fuel offset (clippedSize inode offset size) t) ↔
          ∀ inode t, Fills dev rd inodeNum offset size s inode t →
            Clear dev rd inode fuel offset (clippedSize inode offset size) t)) ∧
      ∀ dirInodeNum r, exec (listDirectory dev rd fuel dirInodeNum) s = (.ok r, s') →
        ∀ dir t, Lists dev rd dirInodeNum s dir t →
          ((r.isSome = true → ∀ inode u,
              Fills dev rd dirInodeNum 0 dir.iSizeLo.toUInt64 t inode u →
                NoErrorHidden dev rd inode fuel 0 (clippedSize inode 0 dir.iSizeLo.toUInt64) u) ↔
            ∀ inode u, Fills dev rd dirInodeNum 0 dir.iSizeLo.toUInt64 t inode u →
              Clear dev rd inode fuel 0 (clippedSize inode 0 dir.iSizeLo.toUInt64) u) := by
  constructor
  · intro inodeNum offset buffer size res hrun
    exact readFileData_clear_iff hrun
  · intro dirInodeNum r hrun dir t h
    exact listDirectory_clear_iff hrun h

/-- Inode 11 is a file of 1024 bytes with an extent tree of depth 1, whose child in
block 9 cannot be read. -/
def unreadableDisk : Disk :=
  { Disk.ofPieces 16384
      [(2056, le32Bytes 5), (6400, le16Bytes 0x8180 ++ [0, 0] ++ le32Bytes 1024),
        (6432, le32Bytes 0x00080000),
        (6440, le16Bytes 0xF30A ++ le16Bytes 1 ++ le16Bytes 4 ++ le16Bytes 1),
        (6456, le32Bytes 9)] with
    fails := fun position _ => position == 9216 }

def unreadableDevice : Device (StateM Unit) := fun offset size =>
  ExceptT.mk (pure (unreadableDisk.device wholeDevice offset size))

def unreadableInode : Ext4Inode :=
  match (exec (readInode unreadableDevice (plainReader 16) 11) ()).1 with
  | .ok (some inode) => inode
  | _ => Packed.zero 160

theorem unreadableInode_fills :
    Fills unreadableDevice (plainReader 16) 11 0 1 () unreadableInode () where
  mounted := rfl
  size_ne := by decide
  reads := by decide +kernel
  inside := by decide +kernel

theorem unreadable_run : exec (readFileData unreadableDevice (plainReader 16) 2 11 0 (some [1]) 1) () =
    (.ok ⟨true, [0], 1⟩, ()) := by
  decide +kernel

theorem errors_shown_iff_unreadable :
    (true = true → ∀ inode t, Fills unreadableDevice (plainReader 16) 11 0 1 () inode t →
        NoErrorHidden unreadableDevice (plainReader 16) inode 2 0 (clippedSize inode 0 1) t) ↔
      ∀ inode t, Fills unreadableDevice (plainReader 16) 11 0 1 () inode t →
        Clear unreadableDevice (plainReader 16) inode 2 0 (clippedSize inode 0 1) t :=
  (errors_shown_iff unreadableDevice (plainReader 16) 2 () ()).1 11 0 [1] 1 ⟨true, [0], 1⟩
    unreadable_run

/-- The byte 1 of the caller's buffer is overwritten with zero, and the call returns true. -/
theorem unreadable_node_read_as_zeros :
    exec (readFileData unreadableDevice (plainReader 16) 2 11 0 (some [1]) 1) () =
        (.ok ⟨true, [0], 1⟩, ()) ∧
      Fills unreadableDevice (plainReader 16) 11 0 1 () unreadableInode () ∧
      ¬NoErrorHidden unreadableDevice (plainReader 16) unreadableInode 2 0
        (clippedSize unreadableInode 0 1) () := by
  refine ⟨unreadable_run, unreadableInode_fills, fun h => ?_⟩
  have hcomes : Comes unreadableDevice (plainReader 16) unreadableInode 2 0
      (clippedSize unreadableInode 0 1) () 0 () := by
    have hfirst : (iteration (plainReader 16) 0 (clippedSize unreadableInode 0 1)).1 = 0 := by
      decide +kernel
    rw [← hfirst]
    exact .here () (by decide +kernel)
  have hbroken : Finds unreadableDevice (plainReader 16) unreadableInode 2 0 () .broken := by
    change (exec (blockLookup unreadableDevice (plainReader 16) 2 unreadableInode 0) ()).1 = _
    decide +kernel
  exact h.valid 0 () hcomes hbroken

end Linux2Win.ReadErrors
